import Mathlib.Data.Finset.Insert
import ZeeboLle.Control.ParseLine
import ZeeboLle.Control.ProbeRegistry
import ZeeboLle.Unicorn.Cells
import ZeeboLle.Unicorn.RegFile

/-! The debugged machine: two cores under the code hooks that serve script hooks and breakpoints,
the requests that inspect and change them, and the main loop that runs one slice of each core.
What an instruction does, which addresses the hooks serve on their own before they look at the
tables of the debugger, and what the devices do between slices is up to the surroundings. Both
cores run on Unicorn. The branch of the main loop that runs Core 0 on the recompiler, where a break
pauses the machine but does not keep its instruction from running, is left out, and so is the
mirroring of registers before an inspection. -/
namespace ZeeboLle.Control

open Unicorn Streams Json Paging

/-- An object as the format strings write it. -/
def written (fields : List (String × List Byte)) : List Byte :=
  opening :: ([comma].intercalate
    (fields.map fun field => quote :: (ascii field.1 ++ quote :: colon :: field.2)) ++ [closing])

def boolText (value : Bool) : List Byte := if value then ascii "true" else ascii "false"

/-- A request that succeeds. -/
def success (fields : List (String × List Byte)) : List Byte := written (("ok", ascii "true") :: fields)

def failure (error : List Byte) : List Byte :=
  written [("ok", ascii "false"), ("error", quoted error)]

/-- `%ld` of a value that is held as `unsigned long`. -/
def signedText (n : BitVec 64) : List Byte :=
  if n.toInt < 0 then minus :: decimal n.toInt.natAbs else decimal n.toNat

def hexChar (digit : Nat) : Byte := BitVec.ofNat 8 (if digit < 10 then 48 + digit else 87 + digit)

/-- `%llx`. -/
def hexadecimal (n : Nat) : List Byte :=
  if n = 0 then [48] else (Nat.digits 16 n).reverse.map hexChar

/-- `%02x` of every byte. -/
def hexText (bytes : List Byte) : List Byte :=
  bytes.flatMap fun byte => [hexChar (byte.toNat / 16), hexChar (byte.toNat % 16)]

/-- `uc_strerror`. -/
def ucStrerror : UcErr → List Byte
  | .ok => ascii "OK (UC_ERR_OK)"
  | .arg => ascii "Invalid argument (UC_ERR_ARG)"
  | .map => ascii "Invalid memory mapping (UC_ERR_MAP)"
  | .nomem => ascii "No memory available or memory not present (UC_ERR_NOMEM)"
  | .readUnmapped => ascii "Invalid memory read (UC_ERR_READ_UNMAPPED)"
  | .writeUnmapped => ascii "Invalid memory write (UC_ERR_WRITE_UNMAPPED)"

inductive UnmappedKind where
  | read
  | write
  | fetch
deriving DecidableEq, Repr

def UnmappedKind.text : UnmappedKind → List Byte
  | .read => ascii "read"
  | .write => ascii "write"
  | .fetch => ascii "fetch"

structure StrictUnmappedRecord where
  core : BitVec 64
  pc : BitVec 64
  addr : BitVec 64
  width : Word
  kind : UnmappedKind
  hasValue : Bool
  value : BitVec 64

def StrictUnmappedRecord.json (access : StrictUnmappedRecord) : List Byte :=
  written ([("core", decimal access.core.toNat), ("pc", decimal access.pc.toNat),
    ("addr", decimal access.addr.toNat), ("width", decimal access.width.toNat),
    ("dir", quoted access.kind.text), ("type", quoted access.kind.text)] ++
    if access.hasValue then [("value", decimal access.value.toNat)] else [])

structure StrictUnmappedTrap where
  armed : Bool := false
  record : Option StrictUnmappedRecord := none

namespace StrictUnmappedTrap

def arm (trap : StrictUnmappedTrap) (on : Bool) : StrictUnmappedTrap := { trap with armed := on }

def json (trap : StrictUnmappedTrap) : List Byte :=
  written [("armed", boolText trap.armed), ("tripped", boolText trap.record.isSome),
    ("event", (trap.record.map StrictUnmappedRecord.json).getD (ascii "null"))]

end StrictUnmappedTrap

/-- The numbers of the two cores. -/
local instance neZero_cores : NeZero 2 := ⟨by decide⟩

structure Cpu where
  mem : Memory
  regs : RegFile
  entry : Word
  insns : BitVec 64
  halted : Bool

/-- What instructions and devices work on. -/
structure Hardware where
  cpus : Fin 2 → Cpu
  paused : Bool
  strictUnmapped : StrictUnmappedTrap
  currentTid : Word
  framebuffer : Option (List (BitVec 16))

/-- The hardware under the tables of the debugger. -/
structure DebugMachine extends Hardware where
  breakpoints : Fin 2 → Finset Word
  scriptHooks : Fin 2 → Word → Option (List Byte)
  stepping : Bool
  quitRequested : Bool

/-- An error of the engine, with a text that is written as it is. -/
structure EmuError where
  code : Word
  message : List Byte
  plain : message.all isPlain = true
  short : message.length ≤ 100

structure Debuggee where
  /-- One instruction, whatever else it sets off. -/
  execute : Fin 2 → Hardware → Option EmuError × Hardware
  /-- The addresses that the code hook serves itself, where it stops the engine. -/
  served : Fin 2 → Hardware → Option Hardware
  /-- Devices, interrupts, deferred switches and host input between two slices. -/
  between : Hardware → Hardware
  probes : ProbeRegistry DebugMachine

namespace Cpu

/-- `uc_reg_write` of PC together with the saved entry. -/
def jump (cpu : Cpu) (target : Word) : Cpu :=
  { cpu with regs := cpu.regs.writePc target, entry := target }

def setReg (cpu : Cpu) (index : Fin 13) (value : Word) : Cpu :=
  { cpu with regs := cpu.regs.write index value }

end Cpu

namespace DebugMachine

def withCpu (machine : DebugMachine) (c : Fin 2) (cpu : Cpu) : DebugMachine :=
  { machine with cpus := Function.update machine.cpus c cpu }

/-- A write to the memory of one core; host memory is common to both. -/
def withMem (machine : DebugMachine) (c : Fin 2) (mem : Memory) : DebugMachine :=
  { machine with
    cpus := fun other =>
      { machine.cpus other with
        mem := if other = c then mem else { (machine.cpus other).mem with host := mem.host } } }

end DebugMachine

/-- `strtoul` with base 0. -/
def strtoulAny (text : List Byte) : BitVec 64 :=
  let body := text.dropWhile isspace
  let body := if body.head? = some minus ∨ body.head? = some plus then body.tail else body
  (strtoull text (if hasHexPrefix body then 16 else if body.head? = some zero then 8 else 10)).getD 0

/-- What the action of a script hook does to its core, and whether it pauses the machine. -/
def scriptAction (action : List Byte) (ad : Word) (cpu : Cpu) : Option (Cpu × Bool) :=
  let target := cpu.regs.readLr &&& ~~~1
  if action = ascii "stub_r0_0" ∨ action = ascii "stub" then some ((cpu.setReg 0 0).jump target, false)
  else if action = ascii "stub_r0_1" then some ((cpu.setReg 0 1).jump target, false)
  else if action = ascii "step_pc_4" then some (cpu.jump (ad + 4), false)
  else if ascii "jump:" <+: action then
    some (cpu.jump ((strtoulAny (action.drop 5)).setWidth 32), false)
  else if action = ascii "break" then some (cpu, true)
  else none

namespace DebugMachine

/-- What the hook does before an instruction when it stops the engine there. -/
def codeHook (env : Debuggee) (machine : DebugMachine) (c : Fin 2) : Option DebugMachine :=
  let cpu := machine.cpus c
  let ad := cpu.regs.readPc
  match env.served c machine.toHardware with
  | some hardware => some { machine with toHardware := hardware }
  | none =>
    match (machine.scriptHooks c ad).bind fun action => scriptAction action ad cpu with
    | some (cpu, pauses) => some { machine.withCpu c cpu with paused := machine.paused || pauses }
    | none =>
      if !machine.stepping && ad ∈ machine.breakpoints c then
        some { machine.withCpu c { cpu with entry := ad } with paused := true }
      else none

/-- An instruction that was executed: the core, and the machine in front of it. -/
abbrev Executed := Fin 2 × DebugMachine

/-- At most so many instructions; address zero ends the run. -/
def emuLoop (env : Debuggee) (c : Fin 2) : Nat → DebugMachine →
    Option EmuError × DebugMachine × List Executed
  | 0, machine => (none, machine, [])
  | count + 1, machine =>
    if (machine.cpus c).regs.readPc = 0 then (none, machine, [])
    else
      let cpu := machine.cpus c
      let machine := machine.withCpu c { cpu with insns := cpu.insns + 1 }
      match machine.codeHook env c with
      | some stopped => (none, stopped, [])
      | none =>
        match env.execute c machine.toHardware with
        | (some err, hardware) => (some err, { machine with toHardware := hardware }, [(c, machine)])
        | (none, hardware) =>
          let (err, later, executed) := emuLoop env c count { machine with toHardware := hardware }
          (err, later, (c, machine) :: executed)

/-- `uc_emu_start` without an end. -/
def ucEmuStart (env : Debuggee) (machine : DebugMachine) (c : Fin 2) (begin : Word) (count : Nat) :
    Option EmuError × DebugMachine × List Executed :=
  let cpu := machine.cpus c
  emuLoop env c count (machine.withCpu c { cpu with regs := cpu.regs.startAt begin })

/-- The program counter is saved as the entry. -/
def saveEntry (machine : DebugMachine) (c : Fin 2) : DebugMachine :=
  let cpu := machine.cpus c
  machine.withCpu c { cpu with entry := cpu.regs.readPc }

/-- The slice of one core on Unicorn; only core 0 takes up the state it was in, and only core 1
halts. -/
def slice (env : Debuggee) (sliceInsns : Nat) (c : Fin 2) (machine : DebugMachine) :
    DebugMachine × List Executed :=
  let cpu := machine.cpus c
  if cpu.halted then (machine, [])
  else
    let begin := if c = 0 then cpu.entry ||| tBit cpu.regs.cpsr else cpu.entry
    let (err, machine, executed) := machine.ucEmuStart env c begin sliceInsns
    let machine := machine.saveEntry c
    if c = 1 ∧ err.isSome then (machine.withCpu c { machine.cpus c with halted := true }, executed)
    else (machine, executed)

/-- One round, without the requests. A pause by core 0 does not keep core 1 from its slice. -/
def cycle (env : Debuggee) (sliceInsns : Nat) (machine : DebugMachine) :
    DebugMachine × List Executed :=
  if machine.quitRequested || machine.paused then (machine, [])
  else
    let (machine, first) := slice env sliceInsns 0 machine
    let (machine, second) := slice env sliceInsns 1 machine
    ({ machine with toHardware := env.between machine.toHardware }, first ++ second)

/-- What a request leads to: the reply, the machine, and what was executed for it. -/
structure Answer where
  reply : List Byte
  machine : DebugMachine
  executed : List Executed := []

/-- Any core but 1 is taken for core 0. -/
def coreOf (req : ControlRequest) : Fin 2 := if req.core = 1 then 1 else 0

def validCore (req : ControlRequest) : Bool := req.core = 0 || req.core = 1

def address (req : ControlRequest) : Word := req.i0.setWidth 32

/-- The size of a `peek` or `poke`. -/
def accessSize (req : ControlRequest) : Nat := if req.hasI1 then req.i1.toNat else 4

def validSize (size : Nat) : Bool := size = 1 || size = 2 || size = 4 || size = 8

def word (value : Word) : List Byte := decimal value.toNat

/-- Where return addresses of known code lie. -/
def isCode (val : Nat) : Bool :=
  (0xb0000000 ≤ val && val < 0xb0500000) || (0x10000000 ≤ val && val < 0x12000000) ||
    (0xf0000000 ≤ val && val < 0xf0030000)

/-- The words of the stack that look like return addresses. -/
def frames (mem : Memory) : Nat → Nat → Nat → List (List Byte)
  | 0, _, _ => []
  | left + 1, curSp, frameIdx =>
    if 8 ≤ frameIdx then []
    else
      match mem.ucMemRead curSp 4 with
      | some bytes =>
        if isCode (leValue bytes) then
          written [("frame", decimal frameIdx), ("pc", decimal (leValue bytes)), ("sp", decimal curSp)] ::
            frames mem left (curSp + 4) (frameIdx + 1)
        else frames mem left (curSp + 4) frameIdx
      | none => frames mem left (curSp + 4) frameIdx

def backtrace (machine : DebugMachine) (req : ControlRequest) : List Byte :=
  if !validCore req then failure (ascii "invalid_core")
  else
    let cpu := machine.cpus (coreOf req)
    let first := written [("frame", decimal 0), ("pc", word cpu.regs.readPc), ("lr", word cpu.regs.readLr),
      ("sp", word cpu.regs.readSp), ("fp", word (cpu.regs.r 11))]
    let items := first :: frames cpu.mem 64 cpu.regs.readSp.toNat 1
    success [("core", decimal req.core.toNat), ("frames", 91 :: ([comma].intercalate items ++ [93]))]

def dstat (machine : DebugMachine) (req : ControlRequest) : List Byte :=
  if !validCore req then failure (ascii "invalid_core")
  else
    let cpu := machine.cpus (coreOf req)
    success [("core", decimal req.core.toNat), ("pc_saved", word cpu.entry), ("pc", word cpu.regs.readPc),
      ("sp", word cpu.regs.readSp), ("lr", word cpu.regs.readLr), ("cpsr", word cpu.regs.cpsr),
      ("tid", word machine.currentTid), ("r0", word (cpu.regs.r 0)), ("r1", word (cpu.regs.r 1)),
      ("r2", word (cpu.regs.r 2)), ("r3", word (cpu.regs.r 3)), ("r4", word (cpu.regs.r 4)),
      ("r5", word (cpu.regs.r 5)), ("r6", word (cpu.regs.r 6)), ("r7", word (cpu.regs.r 7))]

def peek (machine : DebugMachine) (req : ControlRequest) : List Byte :=
  if !validCore req then failure (ascii "invalid_core")
  else if !validSize (accessSize req) then failure (ascii "invalid_length")
  else
    match (machine.cpus (coreOf req)).mem.ucMemRead (address req).toNat (accessSize req) with
    | none => failure (ascii "peek failed: " ++ ucStrerror .readUnmapped)
    | some bytes =>
      success [("core", signedText req.core), ("addr", word (address req)),
        ("size", decimal (accessSize req)), ("val", decimal (leValue bytes)),
        ("hex", quoted (ascii "0x" ++ hexadecimal (leValue bytes)))]

def poke (machine : DebugMachine) (req : ControlRequest) : List Byte × DebugMachine :=
  if !validCore req then (failure (ascii "invalid_core"), machine)
  else if !validSize (accessSize req) then (failure (ascii "invalid_length"), machine)
  else
    let (err, mem) := (machine.cpus (coreOf req)).mem.ucMemWrite (address req).toNat
      (leBytes (accessSize req) req.val.toNat)
    if err ≠ .ok then (failure (ascii "poke failed: " ++ ucStrerror err), machine)
    else
      (success [("core", signedText req.core), ("addr", word (address req)),
        ("size", decimal (accessSize req)), ("written", ascii "true")],
        machine.withMem (coreOf req) mem)

def vramStat (machine : DebugMachine) : List Byte :=
  let fb := machine.framebuffer.getD []
  let psum := (fb.map BitVec.toNat).sum
  let center := (fb.getD (480 / 2 * 640 + 640 / 2) 0).toNat
  success [("width", decimal 640), ("height", decimal 480), ("format", quoted (ascii "RGB565")),
    ("pixel_sum", decimal psum), ("center", decimal center), ("blank", boolText (psum = 0))]

def state (machine : DebugMachine) (cycle : Nat) : List Byte :=
  success [("cycle", decimal cycle), ("c0_pc", word (machine.cpus 0).regs.readPc),
    ("c0_insns", decimal (machine.cpus 0).insns.toNat), ("c1_pc", word (machine.cpus 1).regs.readPc),
    ("c1_insns", decimal (machine.cpus 1).insns.toNat), ("running", boolText !machine.paused)]

/-- One instruction of a core that stands at one of its breakpoints. -/
def passBreakpoint (env : Debuggee) (machine : DebugMachine) (c : Fin 2) :
    Bool × DebugMachine × List Executed :=
  if (machine.cpus c).entry ∈ machine.breakpoints c then
    let (err, later, executed) := machine.ucEmuStart env c (machine.cpus c).entry 1
    if err.isSome then (false, later, executed) else (true, later.saveEntry c, executed)
  else (true, machine, [])

def cont (env : Debuggee) (machine : DebugMachine) : Answer :=
  let (passed, machine, first) := passBreakpoint env { machine with paused := false, stepping := true } 0
  if !passed then ⟨failure (ascii "core0_cont_step"), { machine with stepping := false }, first⟩
  else
    let (passed, machine, second) := passBreakpoint env machine 1
    if !passed then
      ⟨failure (ascii "core1_cont_step"), { machine with stepping := false }, first ++ second⟩
    else
      ⟨success [("running", ascii "true")], { machine with stepping := false }, first ++ second⟩

/-- Single instructions up to an error. -/
def stepLoop (env : Debuggee) (c : Fin 2) : Nat → DebugMachine →
    Option EmuError × DebugMachine × List Executed
  | 0, machine => (none, machine, [])
  | ticks + 1, machine =>
    match machine.ucEmuStart env c (machine.cpus c).entry 1 with
    | (some err, later, executed) => (some err, later, executed)
    | (none, later, executed) =>
      let (err, last, more) := stepLoop env c ticks (later.saveEntry c)
      (err, last, executed ++ more)

def stepTicks (req : ControlRequest) : Nat :=
  (max 1 (min 1000 (if req.hasI0 then (req.i0.setWidth 32).toInt else 1))).toNat

def step (env : Debuggee) (machine : DebugMachine) (cycle : Nat) (req : ControlRequest) : Answer :=
  if !validCore req then ⟨failure (ascii "invalid_core"), machine, []⟩
  else
    let (err, machine, executed) :=
      stepLoop env (coreOf req) (stepTicks req) { machine with stepping := true }
    let machine := { machine with stepping := false }
    match err with
    | some err =>
      ⟨written [("ok", ascii "false"), ("error", quoted (ascii "emu_step")), ("uc_err", word err.code),
        ("message", quoted err.message)], machine, executed⟩
    | none =>
      ⟨success [("cycle", decimal cycle), ("c0_pc", word (machine.cpus 0).entry),
        ("c1_pc", word (machine.cpus 1).entry)], machine, executed⟩

def withBreakpoints (machine : DebugMachine) (c : Fin 2) (addresses : Finset Word) : DebugMachine :=
  { machine with breakpoints := Function.update machine.breakpoints c addresses }

def bp (machine : DebugMachine) (req : ControlRequest) : List Byte × DebugMachine :=
  (success [("bp", word (address req)), ("core", signedText req.core)],
    machine.withBreakpoints (coreOf req) (insert (address req) (machine.breakpoints (coreOf req))))

def bpclear (machine : DebugMachine) (req : ControlRequest) : List Byte × DebugMachine :=
  (success [("cleared", word (address req)), ("core", signedText req.core)],
    machine.withBreakpoints (coreOf req) ((machine.breakpoints (coreOf req)).erase (address req)))

def hook (machine : DebugMachine) (req : ControlRequest) : List Byte × DebugMachine :=
  let clears := req.strAction = [] ∨ req.strAction = ascii "clear"
  let hooks := Function.update (machine.scriptHooks (coreOf req)) (address req)
    (if clears then none else some req.strAction)
  (success [("hook", quoted (if clears then ascii "cleared" else ascii "set")),
    ("core", decimal (coreOf req))],
    { machine with scriptHooks := Function.update machine.scriptHooks (coreOf req) hooks })

def regRead (regs : RegFile) (n : Nat) : Word :=
  if n = 13 then regs.readSp
  else if n = 14 then regs.readLr
  else if n = 15 then regs.readPc
  else if n = 16 then regs.cpsr
  else if general : n < 13 then regs.r ⟨n, general⟩ else 0

def regWrite (regs : RegFile) (n : Nat) (value : Word) : RegFile :=
  if n = 13 then regs.writeSp value
  else if n = 14 then regs.writeLr value
  else if n = 15 then regs.writePc value
  else if n = 16 then regs.writeCpsr value
  else if general : n < 13 then regs.write ⟨n, general⟩ value else regs

def invalidRegister (req : ControlRequest) : Bool := !validCore req || 16 < req.i0.toNat

def reg (machine : DebugMachine) (req : ControlRequest) : List Byte :=
  if invalidRegister req then failure (ascii "invalid_register")
  else
    success [("core", signedText req.core), ("n", decimal req.i0.toNat),
      ("value", word (regRead (machine.cpus (coreOf req)).regs req.i0.toNat))]

def setreg (machine : DebugMachine) (req : ControlRequest) : List Byte × DebugMachine :=
  if invalidRegister req then (failure (ascii "invalid_register"), machine)
  else
    let cpu := machine.cpus (coreOf req)
    let n := req.i0.toNat
    let val : Word := req.val.setWidth 32
    -- bit 0 of a new PC goes to CPSR, and is dropped before PC is written
    let regs := if n = 15 then
        cpu.regs.writeCpsr (if val &&& 1 = 0 then cpu.regs.cpsr &&& ~~~0x20 else cpu.regs.cpsr ||| 0x20)
      else cpu.regs
    let val := if n = 15 then val &&& ~~~1 else val
    let cpu := { cpu with regs := regWrite regs n val, entry := if n = 15 then val else cpu.entry }
    (success [("core", signedText req.core), ("n", decimal n), ("value", word val)],
      machine.withCpu (coreOf req) cpu)

def read (machine : DebugMachine) (req : ControlRequest) : List Byte :=
  if !validCore req then failure (ascii "invalid_core")
  else
    let requestedLen := if req.hasI1 then req.i1.toInt else 4
    if requestedLen < 1 ∨ requestedLen > 4096 then failure (ascii "invalid_length")
    else
      match (machine.cpus (coreOf req)).mem.ucMemRead (address req).toNat requestedLen.toNat with
      | none => failure (ascii "read failed: " ++ ucStrerror .readUnmapped)
      | some bytes =>
        success [("core", decimal req.core.toNat), ("addr", word (address req)),
          ("len", decimal requestedLen.toNat), ("hex", quoted (hexText bytes))]

/-- The bytes that pairs of hexadecimal digits write. -/
def hexBytes : List Byte → List Byte
  | first :: second :: rest =>
    BitVec.ofNat 8 ((hexDigit first).getD 0 * 16 + (hexDigit second).getD 0) :: hexBytes rest
  | _ => []

def validHex (text : List Byte) : Bool :=
  text ≠ [] && text.length ≤ 8192 && text.length % 2 = 0 && text.all fun c => (hexDigit c).isSome

def write (machine : DebugMachine) (req : ControlRequest) : List Byte × DebugMachine :=
  if !validCore req then (failure (ascii "invalid_core"), machine)
  else if !validHex req.strHex then (failure (ascii "invalid_hex"), machine)
  else
    let bytes := hexBytes req.strHex
    let (err, mem) := (machine.cpus (coreOf req)).mem.ucMemWrite (address req).toNat bytes
    if err ≠ .ok then (failure (ascii "write failed: " ++ ucStrerror err), machine)
    else
      (success [("core", signedText req.core), ("addr", word (address req)),
        ("len", decimal bytes.length)], machine.withMem (coreOf req) mem)

def strictUnmappedRequest (machine : DebugMachine) (req : ControlRequest) : List Byte × DebugMachine :=
  let trap := if req.strMode = ascii "arm" then machine.strictUnmapped.arm true
    else if req.strMode = ascii "disarm" then machine.strictUnmapped.arm false
    else machine.strictUnmapped
  (success [("strict_unmapped", trap.json)], { machine with strictUnmapped := trap })

/-- An answer for which nothing is executed. -/
def Answer.of (answer : List Byte × DebugMachine) : Answer := ⟨answer.1, answer.2, []⟩

end DebugMachine

/-- The commands, by the names that are compared with one after the other. -/
inductive Command where
  | ping | probeList | probeGet | backtrace | dstat | peek | poke | vramStat | state | pause | cont
  | step | bp | bpclear | hook | reg | setreg | read | write | strictUnmapped | quit
deriving DecidableEq

namespace Command

def name : Command → String
  | ping => "ping"
  | probeList => "probe.list"
  | probeGet => "probe.get"
  | backtrace => "backtrace"
  | dstat => "dstat"
  | peek => "peek"
  | poke => "poke"
  | vramStat => "vram_stat"
  | state => "state"
  | pause => "pause"
  | cont => "cont"
  | step => "step"
  | bp => "bp"
  | bpclear => "bpclear"
  | hook => "hook"
  | reg => "reg"
  | setreg => "setreg"
  | read => "read"
  | write => "write"
  | strictUnmapped => "strict_unmapped"
  | quit => "quit"

def all : List Command :=
  [ping, probeList, probeGet, backtrace, dstat, peek, poke, vramStat, state, pause, cont, step, bp,
    bpclear, hook, reg, setreg, read, write, strictUnmapped, quit]

end Command

def commandOf (req : ControlRequest) : Option Command :=
  Command.all.find? fun command => req.cmd = ascii command.name

namespace DebugMachine

def processControlRequest (env : Debuggee) (machine : DebugMachine) (cycle : Nat)
    (req : ControlRequest) : Answer :=
  match commandOf req with
  | some .ping => ⟨success [("pong", ascii "true")], machine, []⟩
  | some .probeList => ⟨env.probes.listJson, machine, []⟩
  | some .probeGet =>
    ⟨if req.strProbe = [] then failure (ascii "missing_probe")
      else env.probes.getJson machine req.strProbe, machine, []⟩
  | some .backtrace => ⟨backtrace machine req, machine, []⟩
  | some .dstat => ⟨dstat machine req, machine, []⟩
  | some .peek => ⟨peek machine req, machine, []⟩
  | some .poke => .of (poke machine req)
  | some .vramStat => ⟨vramStat machine, machine, []⟩
  | some .state => ⟨state machine cycle, machine, []⟩
  | some .pause => ⟨success [("paused", ascii "true")], { machine with paused := true }, []⟩
  | some .cont => cont env machine
  | some .step => step env machine cycle req
  | some .bp => .of (bp machine req)
  | some .bpclear => .of (bpclear machine req)
  | some .hook => .of (hook machine req)
  | some .reg => ⟨reg machine req, machine, []⟩
  | some .setreg => .of (setreg machine req)
  | some .read => ⟨read machine req, machine, []⟩
  | some .write => .of (write machine req)
  | some .strictUnmapped => .of (strictUnmappedRequest machine req)
  | some .quit => ⟨success [], { machine with paused := true, quitRequested := true }, []⟩
  | none => ⟨failure (ascii "unknown command"), machine, []⟩

/-- Instructions and devices that change nothing. -/
def stillDebuggee : Debuggee := ⟨fun _ hardware => (none, hardware), fun _ _ => none, id, []⟩

def stillCpu : Cpu := ⟨.blank, RegFile.blank.writePc 0x100, 0x100, 0, false⟩

def stillMachine : DebugMachine where
  cpus := fun _ => stillCpu
  paused := false
  strictUnmapped := {}
  currentTid := 0
  framebuffer := none
  breakpoints := fun _ => ∅
  scriptHooks := fun _ _ => none
  stepping := false
  quitRequested := false

/-- `{"cmd":"bp","core":0,"addr":256}` -/
def bpRequest : ControlRequest where
  cmd := ascii "bp"
  button := []
  strPath := []
  strHex := []
  strMode := []
  strAction := []
  strProbe := []
  core := 0
  i0 := 0x100
  i1 := 0
  i2 := 0
  val := 0
  hasCore := true
  hasI0 := true
  hasI1 := false
  hasI2 := false
  hasVal := false

end DebugMachine

end ZeeboLle.Control

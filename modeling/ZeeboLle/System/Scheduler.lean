import ZeeboLle.Device.Vic
import ZeeboLle.System.Handoff

/-! `run_interleaved`: a slice of Core 0 on one of its two backends, a slice of Core 1, one
quantum of virtual time and the delivery of interrupts. What guest code does inside a
slice is arbitrary. Debugger requests, pausing, video and the modem's command block are
left out; none of them touches the registers or the spaces of a run without a debugger. -/
namespace ZeeboLle.System

open Paging Unicorn L4 Device

inductive CoreBackend where
  | unicorn | dynarmic
deriving DecidableEq, Repr

instance neZero_jit : NeZero 16 := ⟨by decide⟩

/-- The recompiler's own registers: r0-r15 and CPSR, without banks. -/
structure JitRegs where
  r : Fin 16 → Word
  cpsr : Word

namespace JitRegs

def pc (jit : JitRegs) : Word := jit.r 15

def setPc (jit : JitRegs) (value : Word) : JitRegs :=
  { jit with r := Function.update jit.r 15 value }

/-- `sync_to_unicorn`: CPSR goes last, after SP, LR and PC. -/
def syncToUnicorn (jit : JitRegs) (regs : RegFile) : RegFile :=
  let regs := { regs with r := fun index => jit.r (index.castLE (by decide)) }
  let regs := regs.writeSp (jit.r 13)
  let regs := regs.writeLr (jit.r 14)
  let regs := regs.writePc (jit.r 15)
  regs.writeCpsr jit.cpsr

/-- `sync_from_unicorn`. -/
def syncFromUnicorn (regs : RegFile) : JitRegs where
  r index :=
    if general : index.val < 13 then regs.r ⟨index.val, general⟩
    else if index = 13 then regs.readSp
    else if index = 14 then regs.readLr
    else regs.readPc
  cpsr := regs.cpsr

end JitRegs

/-- What guest code has made of the registers and of memory contents when it traps or
its slice ends. -/
structure Burst where
  regs : RegFile
  jit : JitRegs
  ram : Nat → Byte
  host : HostPtr → Byte
  insns : Nat

/-- One Core 0 slice: guest code up to each trap, and the guest code after the last one
unless that trap ended the slice. A fault of the recompiler halts the core. -/
structure Slice where
  traps : List Burst
  rest : Option Burst
  fault : Bool

/-- Where an engine stands: its PC and its Thumb bit. -/
structure Position where
  pc : Word
  t : Word
deriving DecidableEq

def positionOf (regs : RegFile) : Position := ⟨regs.readPc, tBit regs.cpsr⟩

/-- Core 0: its kernel state with the Unicorn registers, and the recompiler's. -/
structure Core0 where
  backend : CoreBackend
  sys : LleSystem
  jit : JitRegs
  halted : Bool

namespace Core0

/-- The position of the engine that runs the guest. -/
def position (core : Core0) : Position :=
  match core.backend with
  | .unicorn => positionOf core.sys.regs
  | .dynarmic => ⟨core.jit.pc, tBit core.jit.cpsr⟩

/-- Unicorn restarts at the entry point with T from CPSR; the recompiler takes over the
registers in cycle 0 and goes on from its own afterwards. -/
def startSlice (core : Core0) (c : Nat) : Core0 :=
  match core.backend with
  | .unicorn =>
    { core with
      sys := { core.sys with
        regs := core.sys.regs.startAt (core.sys.entry ||| tBit core.sys.regs.cpsr) } }
  | .dynarmic =>
    if c = 0 then
      { core with jit := (JitRegs.syncFromUnicorn core.sys.regs).setPc core.sys.entry }
    else core

def guest (core : Core0) (burst : Burst) : Core0 :=
  let sys := { core.sys with
    mem := { core.sys.mem with ram := burst.ram, host := burst.host }, insns := burst.insns }
  match core.backend with
  | .unicorn => { core with sys := { sys with regs := burst.regs } }
  | .dynarmic => { core with sys, jit := burst.jit }

/-- The system as the hook finds it: the recompiler's registers are copied over first. -/
def trapped (core : Core0) : LleSystem :=
  match core.backend with
  | .unicorn => core.sys
  | .dynarmic => { core.sys with regs := core.jit.syncToUnicorn core.sys.regs }

def trap (core : Core0) : Core0 :=
  let sys := core.trapped.c0IntrHook
  match core.backend with
  | .unicorn => { core with sys }
  | .dynarmic => { core with sys, jit := JitRegs.syncFromUnicorn sys.regs }

/-- The core after guest code and a trap for each of the bursts. -/
def afterTraps (core : Core0) (bursts : List Burst) : Core0 :=
  bursts.foldl (fun core burst => (core.guest burst).trap) core

/-- The core when its slice ends, before the loop looks at it. -/
def execute (core : Core0) (c : Nat) (slice : Slice) : Core0 :=
  let core := (core.startSlice c).afterTraps slice.traps
  match slice.rest with
  | none => core
  | some burst => core.guest burst

/-- The loop after the slice. Only the Unicorn branch applies a queued space switch. -/
def finish (core : Core0) (slice : Slice) : Core0 :=
  match core.backend with
  | .unicorn =>
    let (_, spaceManager, mem) := core.sys.spaceManager.drainActivate core.sys.mem
    { core with sys := { core.sys with entry := core.sys.regs.readPc, spaceManager, mem } }
  | .dynarmic =>
    { core with
      sys := { core.sys with
        entry := core.jit.pc
        regs := core.jit.syncToUnicorn core.sys.regs }
      halted := slice.fault }

def runSlice (core : Core0) (c : Nat) (slice : Slice) : Core0 :=
  if core.halted then core else (core.execute c slice).finish slice

/-- Delivery only on the interpreter. PC is written before the line is examined. -/
def deliver (core : Core0) (vic : VicState) : Bool × Core0 × VicState :=
  if core.halted = false ∧ core.backend = .unicorn ∧ vic.irqAsserted = true then
    let regs := core.sys.regs.writePc core.sys.entry
    let (taken, regs, vic) := vicDeliverNext regs vic 0
    let entry := if taken then regs.readPc else core.sys.entry
    (taken, { core with sys := { core.sys with regs, entry } }, vic)
  else (false, core, vic)

end Core0

structure Core1 where
  regs : RegFile
  entry : Word
  halted : Bool

namespace Core1

/-- The entry point as it is, without T. -/
def startSlice (core : Core1) : Core1 := { core with regs := core.regs.startAt core.entry }

/-- The guest leaves `regs`; an engine error or the slide detector halts the core. -/
def runSlice (core : Core1) (regs : RegFile) (halt : Bool) : Core1 :=
  if core.halted then core else ⟨regs, regs.readPc, halt⟩

def deliver (core : Core1) (vic : VicState) : Bool × Core1 :=
  if core.halted = false ∧ vic.irqAsserted = true then
    let regs := core.regs.writePc core.entry
    let (taken, regs) := vicDeliverIrq regs vic 0xffff0000
    (taken, { core with regs, entry := if taken then regs.readPc else core.entry })
  else (false, core)

end Core1

/-- What the guests do in one turn of the loop: the two slices, and the devices as their
accesses leave them. -/
structure Cycle where
  slice : Slice
  regs1 : RegFile
  halt1 : Bool
  pbus : PeripheralBus
  vicC1 : VicState

structure Machine where
  core0 : Core0
  core1 : Core1
  pbus : PeripheralBus
  vicC1 : VicState
  c : Nat

namespace Machine

/-- A machine about to run its first slice. -/
def boot (backend : CoreBackend) (sys : LleSystem) : Machine where
  core0 := ⟨backend, sys, ⟨fun _ => 0, 0⟩, false⟩
  core1 := ⟨RegFile.blank, 0, false⟩
  pbus := PeripheralBus.idle
  vicC1 := VicState.idle
  c := 0

/-- Both slices. -/
def runSlices (machine : Machine) (cycle : Cycle) : Machine where
  core0 := machine.core0.runSlice machine.c cycle.slice
  core1 := machine.core1.runSlice cycle.regs1 cycle.halt1
  pbus := cycle.pbus
  vicC1 := cycle.vicC1
  c := machine.c + 1

/-- A timer match is mirrored to Core 1. -/
def tick (machine : Machine) : Machine :=
  let (fired, pbus) := machine.pbus.tickSlice
  { machine with pbus, vicC1 := if fired then machine.vicC1.raiseLine gptVicLine else machine.vicC1 }

def deliver (machine : Machine) : Machine :=
  let (_, core0, vic) := machine.core0.deliver machine.pbus.vic
  let (_, core1) := machine.core1.deliver machine.vicC1
  { machine with core0, core1, pbus := { machine.pbus with vic } }

/-- One turn of the loop. -/
def step (machine : Machine) (cycle : Cycle) : Machine := (machine.runSlices cycle).tick.deliver

def run (machine : Machine) (cycles : List Cycle) : Machine := cycles.foldl step machine

end Machine

namespace Core0

/-- What guest code and its traps never change about a core. -/
structure SameCore (after before : Core0) : Prop where
  backend : after.backend = before.backend
  halted : after.halted = before.halted
  binding : after.sys.spaceManager.SameBinding before.sys.spaceManager

theorem SameCore.refl (core : Core0) : SameCore core core := ⟨rfl, rfl, .refl _⟩

theorem SameCore.trans {first second third : Core0} (later : SameCore third second)
    (earlier : SameCore second first) : SameCore third first :=
  ⟨later.backend.trans earlier.backend, later.halted.trans earlier.halted,
    later.binding.trans earlier.binding⟩

theorem startSlice_eq (core : Core0) (c : Nat) :
    ∃ regs jit, core.startSlice c = { core with sys := { core.sys with regs }, jit } := by
  unfold startSlice
  split
  · exact ⟨_, _, rfl⟩
  · split
    · exact ⟨_, _, rfl⟩
    · exact ⟨_, _, rfl⟩

theorem guest_eq (core : Core0) (burst : Burst) : ∃ regs mem insns jit,
    core.guest burst = { core with sys := { core.sys with regs, mem, insns }, jit } := by
  unfold guest
  dsimp only
  split
  · exact ⟨_, _, _, _, rfl⟩
  · exact ⟨_, _, _, _, rfl⟩

theorem trapped_eq (core : Core0) : ∃ regs, core.trapped = { core.sys with regs } := by
  unfold trapped
  split
  · exact ⟨_, rfl⟩
  · exact ⟨_, rfl⟩

theorem trap_eq (core : Core0) :
    ∃ jit, core.trap = { core with sys := core.trapped.c0IntrHook, jit } := by
  unfold trap
  dsimp only
  split
  · exact ⟨_, rfl⟩
  · exact ⟨_, rfl⟩

theorem startSlice_sameCore (core : Core0) (c : Nat) : SameCore (core.startSlice c) core := by
  obtain ⟨regs, jit, same⟩ := core.startSlice_eq c
  rw [same]
  exact ⟨rfl, rfl, .refl _⟩

theorem guest_spaceManager (core : Core0) (burst : Burst) :
    (core.guest burst).sys.spaceManager = core.sys.spaceManager := by
  obtain ⟨regs, mem, insns, jit, same⟩ := core.guest_eq burst
  rw [same]

theorem guest_sameCore (core : Core0) (burst : Burst) : SameCore (core.guest burst) core := by
  obtain ⟨regs, mem, insns, jit, same⟩ := core.guest_eq burst
  rw [same]
  exact ⟨rfl, rfl, .refl _⟩

/-- A trap leaves the manager as the answered call does. -/
theorem trap_spaceManager (core : Core0) :
    core.trap.sys.spaceManager =
      (core.trapped.dispatch (core.trapped.regs.readSp &&& 0xff#32)).sys.spaceManager := by
  obtain ⟨jit, same⟩ := core.trap_eq
  rw [same]
  rfl

theorem trap_sameCore (core : Core0) : SameCore core.trap core := by
  obtain ⟨jit, same⟩ := core.trap_eq
  obtain ⟨regs, found⟩ := core.trapped_eq
  have binding := core.trapped.dispatch_sameBinding (core.trapped.regs.readSp &&& 0xff#32)
  rw [← trap_spaceManager, found] at binding
  rw [same] at binding ⊢
  exact ⟨rfl, rfl, binding⟩

theorem afterTraps_sameCore (core : Core0) (bursts : List Burst) :
    SameCore (core.afterTraps bursts) core := by
  induction bursts generalizing core with
  | nil => exact .refl core
  | cons burst rest ih =>
    exact (ih _).trans ((trap_sameCore _).trans (guest_sameCore core burst))

/-- The manager at the end of a slice is the one its last trap left. -/
theorem execute_spaceManager (core : Core0) (c : Nat) (slice : Slice) :
    (core.execute c slice).sys.spaceManager =
      ((core.startSlice c).afterTraps slice.traps).sys.spaceManager := by
  unfold execute
  dsimp only
  split
  · rfl
  · exact guest_spaceManager ..

/-- A slice queues space switches and makes none. -/
theorem execute_sameCore (core : Core0) (c : Nat) (slice : Slice) :
    SameCore (core.execute c slice) core := by
  have traps := (afterTraps_sameCore (core.startSlice c) slice.traps).trans
    (startSlice_sameCore core c)
  unfold execute
  dsimp only
  split
  · exact traps
  · exact (guest_sameCore _ _).trans traps

/-- The loop after an interpreted slice: the entry point is the PC the engine stopped at,
and the queue is drained. -/
structure FinishedUnicorn (after before : Core0) : Prop where
  backend : after.backend = .unicorn
  halted : after.halted = before.halted
  regs : after.sys.regs = before.sys.regs
  entry : after.sys.entry = before.sys.regs.readPc
  spaces : after.sys.spaceManager = (before.sys.spaceManager.drainActivate before.sys.mem).2.1

theorem finish_unicorn {core : Core0} (slice : Slice) (backend : core.backend = .unicorn) :
    FinishedUnicorn (core.finish slice) core := by
  unfold finish
  rw [backend]
  exact ⟨rfl, rfl, rfl, rfl, rfl⟩

/-- The loop after a recompiled slice: the recompiler keeps its registers, the queue is
left alone. -/
structure FinishedDynarmic (after before : Core0) : Prop where
  backend : after.backend = .dynarmic
  jit : after.jit = before.jit
  spaces : after.sys.spaceManager = before.sys.spaceManager

theorem finish_dynarmic {core : Core0} (slice : Slice) (backend : core.backend = .dynarmic) :
    FinishedDynarmic (core.finish slice) core := by
  unfold finish
  rw [backend]
  exact ⟨rfl, rfl, rfl⟩

theorem runSlice_running {core : Core0} (running : core.halted = false) {c : Nat} {slice : Slice} :
    core.runSlice c slice = (core.execute c slice).finish slice := if_neg (by simp [running])

theorem deliver_frame (core : Core0) (vic : VicState) :
    (core.deliver vic).2.1.halted = core.halted ∧
      (core.deliver vic).2.1.sys.spaceManager = core.sys.spaceManager := by
  unfold deliver
  split
  · exact ⟨rfl, rfl⟩
  · exact ⟨rfl, rfl⟩

end Core0

/-- A property of every turn of a run, given the state before it. -/
def AtEveryTurn (property : Machine → Cycle → Prop) (start : Machine) (cycles : List Cycle) : Prop :=
  ∀ before cycle after, cycles = before ++ cycle :: after → property (start.run before) cycle

/-- Properties equivalent at each turn are equivalent over a run. -/
theorem atEveryTurn_congr {left right : Machine → Cycle → Prop}
    (same : ∀ machine cycle, left machine cycle ↔ right machine cycle) (start : Machine)
    (cycles : List Cycle) : AtEveryTurn left start cycles ↔ AtEveryTurn right start cycles := by
  constructor
  · intro every before cycle after split
    exact (same _ _).mp (every before cycle after split)
  · intro every before cycle after split
    exact (same _ _).mpr (every before cycle after split)

end ZeeboLle.System

import ZeeboLle.Linux.Vic
import ZeeboLle.Paging.Flat

/-! The USB host controller of the Linux machine with its keyboard. Guest memory holds the
schedules: queue heads, each with an overlay and two chains of transfer descriptors (qTDs). The
keyboard's reports wait in one queue, which both schedules drain. -/
namespace ZeeboLle.Linux

open Unicorn Paging

namespace Hidkbd

def kDevice : List Byte :=
  [18, 0x01, 0x00, 0x02, 0x00, 0x00, 0x00, 64, 0x27, 0x18, 0x01, 0x2b, 0x00, 0x01, 0x01, 0x02, 0x00, 0x01]

def kReport : List Byte :=
  [0x05, 0x01, 0x09, 0x06, 0xa1, 0x01, 0x05, 0x07, 0x19, 0xe0, 0x29, 0xe7, 0x15, 0x00, 0x25, 0x01,
    0x75, 0x01, 0x95, 0x08, 0x81, 0x02, 0x95, 0x01, 0x75, 0x08, 0x81, 0x03, 0x95, 0x05, 0x75, 0x01,
    0x05, 0x08, 0x19, 0x01, 0x29, 0x05, 0x91, 0x02, 0x95, 0x01, 0x75, 0x03, 0x91, 0x03, 0x95, 0x06,
    0x75, 0x08, 0x15, 0x00, 0x25, 0x65, 0x05, 0x07, 0x19, 0x00, 0x29, 0x65, 0x81, 0x00, 0xc0]

def kConfig : List Byte :=
  [9, 0x02, 34, 0x00, 0x01, 0x01, 0x00, 0xa0, 50, 9, 0x04, 0x00, 0x00, 0x01, 0x03, 0x01, 0x01, 0x00,
    9, 0x21, 0x11, 0x01, 0x00, 0x01, 0x22, 63, 0x00, 7, 0x05, 0x81, 0x03, 0x08, 0x00, 10]

def kLang : List Byte := [4, 0x03, 0x09, 0x04]

def kManu : List Byte := [16, 0x03, 90, 0, 101, 0, 101, 0, 98, 0, 111, 0, 45, 0, 76, 0]

def kProd : List Byte :=
  [22, 0x03, 76, 0, 76, 0, 69, 0, 32, 0, 75, 0, 101, 0, 121, 0, 98, 0, 111, 0, 97, 0]

/-- The descriptor of a type, in the high byte, and for strings an index. -/
def descriptor (wValue : BitVec 16) : Option (List Byte) :=
  let type := wValue.extractLsb' 8 8
  let idx := wValue.extractLsb' 0 8
  if type = 0x01#8 then some kDevice
  else if type = 0x02#8 then some kConfig
  else if type = 0x22#8 then some kReport
  else if type = 0x21#8 then some ((kConfig.drop 18).take 9)
  else if type = 0x03#8 then
    if idx = 0#8 then some kLang
    else if idx = 1#8 then some kManu
    else if idx = 2#8 then some kProd
    else none
  else none

end Hidkbd

/-- `uc_mem_read` of some words. -/
def readWords (mapped : Mapping) (ram : FlatMemory) (addr : Word) (count : Nat) : Option (Nat → Word) :=
  if mapped.backed addr (4 * count) then some fun index => ram.read32 (addr + BitVec.ofNat 32 (4 * index))
  else none

theorem readWords_eq_some {mapped : Mapping} {ram : FlatMemory} {addr : Word} {count : Nat} {words : Nat → Word}
    (read : readWords mapped ram addr count = some words) :
    mapped.backed addr (4 * count) = true ∧
      words = fun index => ram.read32 (addr + BitVec.ofNat 32 (4 * index)) := by
  unfold readWords at read
  split at read
  · rename_i backed
    exact ⟨backed, (Option.some.inj read).symm⟩
  · cases read

/-- `uc_mem_write` of a word, whose failure nobody looks at. -/
def writeWord (mapped : Mapping) (ram : FlatMemory) (addr value : Word) : FlatMemory :=
  if mapped.backed addr 4 then ram.write32 addr value else ram

/-- A SETUP packet. -/
structure UsbSetup where
  bmReq : Byte
  bReq : Byte
  wValue : BitVec 16
  wIndex : BitVec 16
  wLength : BitVec 16
deriving DecidableEq, Repr

def UsbSetup.ofRam (ram : FlatMemory) (addr : Word) : UsbSetup where
  bmReq := ram addr
  bReq := ram (addr + 1)
  wValue := ram (addr + 3) ++ ram (addr + 2)
  wIndex := ram (addr + 5) ++ ram (addr + 4)
  wLength := ram (addr + 7) ++ ram (addr + 6)

/-- Guest memory, the last SETUP packet and what requests have set. -/
structure UsbState where
  ram : FlatMemory
  setup : UsbSetup
  setupValid : Bool
  address : Byte
  configured : Bool

/-- `bufs[page]`. -/
def qtdBuf (bufs : List Word) (page : Nat) : Word := bufs.getD page 0

/-- Where a page of a qTD starts: the first has an offset. -/
def qtdBase (bufs : List Word) (page : Nat) : Word :=
  if page = 0 then qtdBuf bufs 0 else qtdBuf bufs page &&& ~~~0xfff#32

def qtdRoom (bufs : List Word) (page : Nat) : Nat :=
  if page = 0 then 0x1000 - (qtdBuf bufs 0 &&& 0xfff#32).toNat else 0x1000

/-- The loop of `usb_qtd_write` over the pages left. -/
def qtdWritePages (mapped : Mapping) (bufs : List Word) (src : List Byte) (len : Nat) :
    List Nat → Nat → FlatMemory → Nat × FlatMemory
  | [], done, ram => (done, ram)
  | page :: rest, done, ram =>
    if len ≤ done ∨ qtdBuf bufs page = 0 then (done, ram)
    else
      let n := min (qtdRoom bufs page) (len - done)
      if mapped.backed (qtdBase bufs page) n then
        qtdWritePages mapped bufs src len rest (done + n)
          (ram.store (qtdBase bufs page) ((src.drop done).take n))
      else (done, ram)

def usbQtdWrite (mapped : Mapping) (ram : FlatMemory) (bufs : List Word) (src : List Byte)
    (len : Nat) : Nat × FlatMemory :=
  qtdWritePages mapped bufs src len [0, 1, 2, 3, 4] 0 ram

namespace UsbState

variable (mapped : Mapping) (state : UsbState)

/-- Bytes for the host, as many as fit. -/
def reply (bufs : List Word) (src : List Byte) (want : Nat) : Nat × UsbState :=
  let (moved, ram) := usbQtdWrite mapped state.ram bufs src (min want src.length)
  (moved, { state with ram })

/-- A stage of a control transfer, and the bytes it moved. -/
def usbControl (pid : Word) (bufs : List Word) (want : Nat) : Nat × UsbState :=
  if pid = 2 then
    if qtdBuf bufs 0 ≠ 0 ∧ mapped.backed (qtdBuf bufs 0) 8 = true then
      (want, { state with setup := .ofRam state.ram (qtdBuf bufs 0), setupValid := true })
    else (want, state)
  else if state.setupValid = false then (0, state)
  else if pid = 1 then
    if state.setup.bReq = 0x06#8 then
      match Hidkbd.descriptor state.setup.wValue with
      | some bytes => state.reply mapped bufs bytes want
      | none => (0, state)
    else if state.setup.bReq = 0x08#8 then
      state.reply mapped bufs [if state.configured then 1 else 0] want
    else if state.setup.bReq = 0x00#8 then state.reply mapped bufs [0, 0] want
    else (0, state)
  else if state.setup.bReq = 0x05#8 then
    (want, { state with address := state.setup.wValue.extractLsb' 0 8 &&& 0x7f#8 })
  else if state.setup.bReq = 0x09#8 then (want, { state with configured := state.setup.wValue ≠ 0 })
  else (want, state)

end UsbState

/-- A boot keyboard report. -/
abbrev HidReport := Vector Byte 8

/-- A key down and a key up. -/
def keyReports (usage mods : Byte) : List HidReport :=
  [#v[mods, 0, usage, 0, 0, 0, 0, 0], #v[0, 0, 0, 0, 0, 0, 0, 0]]

/-- USBCMD, USBSTS, USBINTR, PERIODICLISTBASE and ASYNCLISTADDR. -/
structure UsbRegs where
  usbcmd : Word
  usbsts : Word
  usbintr : Word
  periodicListBase : Word
  asyncListAddr : Word

/-- A call that takes a report from the queue: for a queue head with this endpoint, on the
qTD or overlay at this address, with this memory. -/
structure HidCall where
  endpoint : Word
  qtd : Word
  report : HidReport
  ram : FlatMemory

/-- A qTD or overlay that was executed: for a queue head with this endpoint, with the report
it delivered, and the state before and after. -/
structure Xfer where
  endpoint : Word
  qtd : Word
  report : Option HidReport
  before : UsbState
  after : UsbState

/-- The controller with guest memory and the keyboard. `usbXfers` is `g_usb_xfers` with what
it counts, `hidTaken` a record for the proofs. -/
structure Ehci where
  state : UsbState
  regs : UsbRegs
  lines : VicLines
  usbFrame : Word
  frame : Word
  hidReports : List HidReport
  irqRaised : Nat
  hidTaken : List HidCall
  usbXfers : List Xfer

/-! A token has Active, the kind of transfer and the bytes asked for. -/

def tokenActive (tok : Word) : Bool := tok.getLsbD 7

def tokenPid (tok : Word) : Word := (tok >>> 8) &&& 3

def tokenTotal (tok : Word) : Nat := ((tok >>> 16) &&& 0x7fff#32).toNat

/-- Neither Active nor Halted, with the bytes left. -/
def tokenDone (tok : Word) (moved : Nat) : Word :=
  (tok &&& ~~~0x80#32 &&& ~~~0x40#32 &&& ~~~0x7fff0000#32) |||
    (BitVec.ofNat 32 (tokenTotal tok - moved) &&& 0x7fff#32) <<< 16

theorem tokenActive_done (tok : Word) (moved : Nat) : tokenActive (tokenDone tok moved) = false := by
  unfold tokenActive tokenDone
  simp

theorem tokenTotal_eq (tok : Word) : tokenTotal tok = (tok >>> 16).toNat % 2 ^ 15 := by
  rw [tokenTotal, BitVec.toNat_and]
  exact Nat.and_two_pow_sub_one_eq_mod _ 15

theorem tokenTotal_done (tok : Word) (moved : Nat) :
    tokenTotal (tokenDone tok moved) = tokenTotal tok - moved := by
  have masks : ∀ bit : Fin 32, (0x7fff0000#32).getLsbD (16 + bit) = (0x7fff#32).getLsbD bit := by
    decide
  have field : (tokenDone tok moved >>> 16) &&& 0x7fff#32 =
      BitVec.ofNat 32 (tokenTotal tok - moved) &&& 0x7fff#32 := by
    generalize left : BitVec.ofNat 32 (tokenTotal tok - moved) = bytes
    rw [tokenDone, left]
    refine BitVec.eq_of_getLsbD_eq fun bit bound => ?_
    have mask := masks ⟨bit, bound⟩
    simp only [BitVec.getLsbD_ushiftRight, BitVec.getLsbD_or, BitVec.getLsbD_and,
      BitVec.getLsbD_not, BitVec.getLsbD_shiftLeft] at mask ⊢
    rw [mask]
    grind
  have bound := Nat.mod_lt (tok >>> 16).toNat (by decide : 2 ^ 15 > 0)
  rw [← tokenTotal_eq] at bound
  conv_lhs => rw [tokenTotal, field, BitVec.toNat_and]
  refine (Nat.and_two_pow_sub_one_eq_mod _ 15).trans ?_
  rw [BitVec.toNat_ofNat]
  omega
namespace Ehci

variable (mapped : Mapping) (ehci : Ehci)

/-- A change of guest memory. -/
def setRam (ram : FlatMemory) : Ehci := { ehci with state := { ehci.state with ram } }

def hidQueueKey (usage mods : Byte) : Ehci :=
  if usage = 0 then ehci else { ehci with hidReports := ehci.hidReports ++ keyReports usage mods }

/-- USBSTS.USBINT and, where enabled, interrupt 47. -/
def usbRaiseIrq : Ehci :=
  let ehci := { ehci with regs := { ehci.regs with usbsts := ehci.regs.usbsts ||| 1 } }
  if ehci.regs.usbintr &&& 1 ≠ 0 then
    { ehci with
      lines := { ehci.lines with pending1 := ehci.lines.pending1 ||| (1 <<< 15) }
      irqRaised := ehci.irqRaised + 1 }
  else ehci

/-- The status goes into the token, and the transfer is counted. -/
def complete (endpoint qtd tok : Word) (report : Option HidReport) (moved : Nat) (state : UsbState) :
    Ehci :=
  let after := { state with ram := writeWord mapped state.ram (qtd + 8) (tokenDone tok moved) }
  { ehci with
    state := after
    usbXfers := ehci.usbXfers ++ [⟨endpoint, qtd, report, ehci.state, after⟩] }

/-- One qTD or overlay, and whether it is done with. The endpoint is for the record. -/
def usbRunQtd (endpoint qtd : Word) (isControl isIntr : Bool) : Bool × Ehci :=
  match readWords mapped ehci.state.ram qtd 8 with
  | none => (false, ehci)
  | some q =>
    let tok := q 2
    let total := tokenTotal tok
    let bufs := [q 3, q 4, q 5, q 6, q 7]
    if tokenActive tok = false then (false, ehci)
    else if isControl then
      let (moved, state) := ehci.state.usbControl mapped (tokenPid tok) bufs total
      (true, ehci.complete mapped endpoint qtd tok none moved state)
    else if isIntr = true ∧ tokenPid tok = 1 then
      match ehci.hidReports with
      | [] => (false, ehci)
      | report :: rest =>
        if total < 8 ∨ qtdBuf bufs 0 = 0 then (false, ehci)
        else
          let taken := { ehci with
            hidReports := rest
            hidTaken := ehci.hidTaken ++ [⟨endpoint, qtd, report, ehci.state.ram⟩] }
          if mapped.backed (qtdBuf bufs 0) 8 then
            let state := { ehci.state with ram := ehci.state.ram.store (qtdBuf bufs 0) report.toList }
            (true, taken.complete mapped endpoint qtd tok (some report) 8 state)
          else (false, taken)
    else (true, ehci.complete mapped endpoint qtd tok none 0 ehci.state)

/-- A chain of qTDs, from a pointer on and for a number of turns; a visit says whether it ran
one. -/
def chain (visit : Ehci → Word → Bool × Ehci) : Nat → Word → Bool × Ehci → Bool × Ehci
  | 0, _, found => found
  | turns + 1, cur, (any, ehci) =>
    if cur = 0 ∨ cur &&& 1 ≠ 0 then (any, ehci)
    else
      let (ran, ehci) := visit ehci cur
      match readWords mapped ehci.state.ram cur 1 with
      | none => (any || ran, ehci)
      | some next =>
        if next 0 &&& 1 ≠ 0 then (any || ran, ehci)
        else chain visit turns (next 0 &&& ~~~0x1f#32) (any || ran, ehci)

/-- The overlay, 16 bytes into a queue head, and its status in the qTD it is a copy of. -/
def usbRunOverlay (endpoint head curQtd : Word) (isControl isIntr : Bool) : Bool × Ehci :=
  let (ran, ehci) := ehci.usbRunQtd mapped endpoint (head + 0x10) isControl isIntr
  if ran = true ∧ curQtd ≠ 0 then
    match readWords mapped ehci.state.ram (head + 0x18) 1 with
    | some token => (ran, ehci.setRam (writeWord mapped ehci.state.ram (curQtd + 8) (token 0)))
    | none => (ran, ehci)
  else (ran, ehci)

/-- One queue head of the asynchronous schedule, read as `w`. -/
def engineHead (head : Word) (w : Nat → Word) (found : Bool × Ehci) : Bool × Ehci :=
  let (any, ehci) := found
  let ep := (w 1 >>> 8) &&& 0xf
  let isControl := ep == 0
  let isIntr := ep == 1
  let (ran, ehci) := ehci.usbRunOverlay mapped ep head (w 3 &&& ~~~0x1f#32) isControl isIntr
  let visit := fun (ehci : Ehci) cur => ehci.usbRunQtd mapped ep cur isControl isIntr
  chain mapped visit 32 (w 4 &&& ~~~0x1f#32)
    (chain mapped visit 32 (w 3 &&& ~~~0x1f#32) (any || ran, ehci))

def engineHeads (list : Word) : Nat → Word → Bool × Ehci → Bool × Ehci
  | 0, _, found => found
  | turns + 1, head, found =>
    if head = 0 then found
    else
      match readWords mapped found.2.state.ram head 12 with
      | none => found
      | some w =>
        let found := engineHead mapped head w found
        if w 0 &&& 1 ≠ 0 ∨ w 0 &&& ~~~0x1f#32 = list then found
        else engineHeads list turns (w 0 &&& ~~~0x1f#32) found

def usbEngineRun : Ehci :=
  let list := ehci.regs.asyncListAddr &&& ~~~0x1f#32
  if ehci.regs.usbcmd &&& 0x20 = 0 ∨ list = 0 then ehci
  else
    let (any, ehci) := engineHeads mapped list 32 list (false, ehci)
    if any then ehci.usbRaiseIrq else ehci

/-- A qTD of a periodic queue head: once run it becomes the overlay. -/
def periodicVisit (endpoint head : Word) (ehci : Ehci) (cur : Word) : Bool × Ehci :=
  let (ran, ehci) := ehci.usbRunQtd mapped endpoint cur false true
  if ran then
    let ehci :=
      match readWords mapped ehci.state.ram cur 8 with
      | some q =>
        let ram := if mapped.backed (head + 0x10) 32 then
          ehci.state.ram.writeWords (head + 0x10) ((List.range 8).map q) else ehci.state.ram
        ehci.setRam (writeWord mapped ram (head + 0x0c) cur)
      | none => ehci
    (ran, ehci.usbRaiseIrq)
  else (ran, ehci)

/-- One queue head of the periodic schedule. It is an interrupt endpoint, whichever it has. -/
def periodicHead (head : Word) (w : Nat → Word) : Ehci :=
  let ep := (w 1 >>> 8) &&& 0xf
  let curQtd := w 3 &&& ~~~0x1f#32
  let (ran, ehci) := ehci.usbRunOverlay mapped ep head curQtd false true
  let ehci := if ran then ehci.usbRaiseIrq else ehci
  let visit := periodicVisit mapped ep head
  (chain mapped visit 8 (w 4 &&& ~~~0x1f#32) (chain mapped visit 8 curQtd (false, ehci))).2

/-- The queue heads of a frame; anything else ends it. -/
def periodicHeads : Nat → Word → Ehci → Ehci
  | 0, _, ehci => ehci
  | turns + 1, entry, ehci =>
    if entry = 0 ∨ entry &&& 1 ≠ 0 ∨ (entry >>> 1) &&& 3 ≠ 1 then ehci
    else
      let head := entry &&& ~~~0x1f#32
      match readWords mapped ehci.state.ram head 12 with
      | none => ehci
      | some w => periodicHeads turns (w 0) (ehci.periodicHead mapped head w)

/-- The next frame list entry that is neither empty nor terminated, with the frame come to; no
entry when the list cannot be read or the search ends. -/
def nextEntry (flbase : Word) : Nat → Word → Word × Option Word
  | 0, frame => (frame, none)
  | turns + 1, frame =>
    let frame := (frame + 1) &&& 1023
    match readWords mapped ehci.state.ram (flbase + frame * 4) 1 with
    | none => (frame, none)
    | some entry =>
      if entry 0 ≠ 0 ∧ entry 0 &&& 1 = 0 then (frame, some (entry 0)) else nextEntry flbase turns frame

def usbPeriodicRun : Ehci :=
  let ehci := { ehci with usbFrame := (ehci.usbFrame + 1) &&& 0x7ff }
  let flbase := ehci.regs.periodicListBase &&& ~~~0xfff#32
  if ehci.regs.usbcmd &&& 0x10 = 0 ∨ flbase = 0 then ehci
  else
    let (frame, entry) := ehci.nextEntry mapped flbase (if ehci.hidReports = [] then 1 else 1024) ehci.frame
    let ehci := { ehci with frame }
    match entry with
    | some entry => periodicHeads mapped 16 entry ehci
    | none => ehci

end Ehci

end ZeeboLle.Linux

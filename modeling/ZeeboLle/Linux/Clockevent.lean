import ZeeboLle.Linux.SerialInput

/-! The clock event and the display of the Linux machine, beside its serial ports. Time is the
number of instructions. The timer's line is sampled when one of its registers is written and every
64 instructions; between two samples only the guest's acknowledgement changes it. The display
finishes every transfer at once. -/
namespace ZeeboLle.Linux

open Unicorn Scheduling

def csrBase : Word := 0xe0001000
def csrSize : Word := 0x1000
def csrPa : Word := 0xc0100000

def timerMatchVal : Word := 0x0
def timerCountVal : Word := 0x4
def timerEnable : Word := 0x8
def timerClear : Word := 0xc

def gptHz : BitVec 64 := 32768
def dgtHz : BitVec 64 := 19200000
def insnPerSec : BitVec 64 := 1000000

def mdpIntrEnable : Word := 0x20
def mdpIntrStatus : Word := 0x24
def mdpIntrClear : Word := 0x28

/-- The registers that start a transfer to the panel. -/
def isMdpDma (off : Word) : Bool := 0x10000 ≤ off && off < 0x10200

/-- The lines of the timer and the display, `INT_GP_TIMER` and `INT_MDP`. -/
def intGpTimer : Nat := 7
def intMdp : Nat := 19

/-- The offset of a register in the block, through either of its windows. -/
def csrOffset (a : Word) : Option Word :=
  if csrBase ≤ a ∧ a < csrBase + csrSize then some (a - csrBase)
  else if csrPa ≤ a ∧ a < csrPa + csrSize then some (a - csrPa)
  else none

/-- The timer, the display's status and the serial ports, which hold the interrupt controller. -/
structure Board where
  icount : BitVec 64
  gptMatch : Word
  gptEnable : Word
  gptBase : BitVec 64
  timerOn : Bool
  mdpStatus : Word
  serial : Serial

namespace Board

def start (timerOn : Bool) : Board where
  icount := 0
  gptMatch := 0xffffffff
  gptEnable := 0
  gptBase := 0
  timerOn := timerOn
  mdpStatus := 0
  serial := .start

def pending0 (board : Board) : Word := board.serial.vic.lines.pending0

def withVic (board : Board) (vic : LinuxVic) : Board :=
  { board with serial := { board.serial with vic } }

def withPending0 (board : Board) (pending0 : Word) : Board :=
  board.withVic { board.serial.vic with lines := { board.serial.vic.lines with pending0 } }

/-- `g_vic_pending[0] |= 1u << line`. -/
def raiseLine (board : Board) (line : Nat) : Board :=
  board.withPending0 (board.pending0 ||| (1#32 <<< line))

/-- `g_vic_pending[0] &= ~(1u << line)`. -/
def lowerLine (board : Board) (line : Nat) : Board :=
  board.withPending0 (board.pending0 &&& ~~~(1#32 <<< line))

def gptCountNow (board : Board) : Word :=
  ((board.icount - board.gptBase) * gptHz / insnPerSec).setWidth 32

def dgtCountNow (board : Board) : Word := (board.icount * dgtHz / insnPerSec).setWidth 32

def timerRefreshIrq (board : Board) : Board :=
  if !board.timerOn then board
  else if board.gptEnable &&& 1 ≠ 0 ∧ board.gptMatch ≤ board.gptCountNow then
    board.raiseLine intGpTimer
  else board.lowerLine intGpTimer

def onCsrWrite (board : Board) (a v : Word) : Board :=
  match csrOffset a with
  | none => board
  | some off =>
    if off = timerMatchVal then { board with gptMatch := v : Board }.timerRefreshIrq
    else if off = timerEnable then { board with gptEnable := v : Board }.timerRefreshIrq
    else if off = timerClear then
      { board with gptEnable := 0, gptBase := board.icount : Board }.timerRefreshIrq
    else board

/-- The word the guest finds at the register. -/
def onCsrRead (board : Board) (a : Word) : Option Word :=
  (csrOffset a).map fun off =>
    if off = timerMatchVal then board.gptMatch
    else if off = timerCountVal then board.gptCountNow
    else if off = timerEnable then board.gptEnable
    else if off = timerCountVal + 0x10 then board.dgtCountNow
    else 0

def onMdpWrite (board : Board) (off v : Word) : Board :=
  if off = mdpIntrEnable then
    { board with mdpStatus := board.mdpStatus ||| v : Board }.raiseLine intMdp
  else if off = mdpIntrClear then
    let board := { board with mdpStatus := board.mdpStatus &&& ~~~v }
    if board.mdpStatus = 0 then board.lowerLine intMdp else board
  else if isMdpDma off then
    { board with mdpStatus := board.mdpStatus ||| 0x4 : Board }.raiseLine intMdp
  else board

def onMdpRead (board : Board) (off : Word) : Option Word :=
  if off = mdpIntrStatus then some board.mdpStatus else none

/-- The start of `on_code_probe`: the instruction is counted, and the timer sampled. -/
def tick (board : Board) : Board :=
  let board := { board with icount := board.icount + 1 }
  if board.icount &&& 0x3f = 0 then board.timerRefreshIrq else board

/-- An instruction: after the timer an interrupt is delivered, or the host's byte goes to the
serial port. -/
def onCodeProbe (board : Board) (cpsr : Word) (waiting : Option Byte) : Board :=
  let board := board.tick
  if board.serial.vic.lines.delivers board.serial.vic.irqInService cpsr then
    board.withVic (board.serial.vic.onCodeProbe cpsr)
  else
    let serial :=
      if board.icount &&& 0x3fff = 0 then board.serial.rxFillFromHost waiting else board.serial
    { board with serial := serial.rxTryStage }

end Board

/-- What happens on the machine, in any order: instructions, the guest's accesses to the devices,
the host's typing, and the controller of the second word's line 47. -/
inductive BoardEvent where
  | insn (cpsr : Word) (waiting : Option Byte)
  | csrWrite (a v : Word)
  | csrRead (a : Word)
  | mdpWrite (off v : Word)
  | mdpRead (off : Word)
  | vicWrite (off v : Word)
  | vicRead (off : Word)
  | uartWrite (a v : Word)
  | uartRead (a : Word)
  | typed (bytes : List Byte)
  | usbRaise

namespace Board

def step (board : Board) : BoardEvent → Board
  | .insn cpsr waiting => board.onCodeProbe cpsr waiting
  | .csrWrite a v => board.onCsrWrite a v
  | .csrRead _ => board
  | .mdpWrite off v => board.onMdpWrite off v
  | .mdpRead _ => board
  | .vicWrite off v => board.withVic (board.serial.vic.onVicWrite off v)
  | .vicRead off => board.withVic (board.serial.vic.onVicRead off).2
  | .uartWrite a v => { board with serial := board.serial.onUartWrite a v }
  | .uartRead a => { board with serial := (board.serial.onUartRead a).2 }
  | .typed bytes => { board with serial := { board.serial with rxBuf := board.serial.rxBuf ++ bytes } }
  | .usbRaise =>
    let lines := board.serial.vic.lines
    board.withVic { board.serial.vic with
      lines := { lines with pending1 := lines.pending1 ||| (1#32 <<< 15) } }

def after (timerOn : Bool) (events : List BoardEvent) : Board := events.foldl step (start timerOn)

/-- A line of the first word is pending. -/
def linePending (board : Board) (line : Nat) : Bool := board.pending0.getLsbD line

end Board

namespace BoardEvent

def isInsn : BoardEvent → Bool
  | .insn _ _ => true
  | _ => false

/-- The register of the timer that an event writes, with the value. -/
def timerWrite : BoardEvent → Option (Word × Word)
  | .csrWrite a v => (csrOffset a).bind fun off =>
    if off = timerMatchVal ∨ off = timerEnable ∨ off = timerClear then some (off, v) else none
  | _ => none

def written (reg : Word) (event : BoardEvent) : Option Word :=
  event.timerWrite.bind fun (off, v) => if off = reg then some v else none

def clears (event : BoardEvent) : Bool := (event.written timerClear).isSome

/-- The guest acknowledges a line of the first word. -/
def acknowledges (line : Nat) : BoardEvent → Bool
  | .vicWrite off v => off = vicOffClear0 && v.getLsbD line
  | _ => false

/-- The display finishes something: the guest waits for it, or starts a transfer. -/
def completes : BoardEvent → Bool
  | .mdpWrite off _ => off = mdpIntrEnable || isMdpDma off
  | _ => false

/-- The display's status gets a bit. -/
def mdpSets (bit : Nat) : BoardEvent → Bool
  | .mdpWrite off v =>
    off = mdpIntrEnable && v.getLsbD bit || isMdpDma off && bit = 2
  | _ => false

/-- The guest clears a bit of the display's status. -/
def mdpClears (bit : Nat) : BoardEvent → Bool
  | .mdpWrite off v => off = mdpIntrClear && v.getLsbD bit
  | _ => false

/-- The guest writes the display's CLEAR. -/
def mdpAcknowledges : BoardEvent → Bool
  | .mdpWrite off _ => off = mdpIntrClear
  | _ => false

end BoardEvent

/-- How many instructions have run. -/
def insns (past : List BoardEvent) : Nat := past.countP BoardEvent.isInsn

/-- The events since the last CLEAR, the latest first. -/
def sinceClear (past : List BoardEvent) : List BoardEvent :=
  past.reverse.takeWhile fun event => !event.clears

def elapsed (past : List BoardEvent) : Nat := insns (sinceClear past)

/-- The last MATCH. -/
def matchWritten (past : List BoardEvent) : Word :=
  (past.reverse.findSome? (BoardEvent.written timerMatchVal)).getD 0xffffffff

/-- The last ENABLE, if no CLEAR came after it. -/
def enableWritten (past : List BoardEvent) : Word :=
  ((sinceClear past).findSome? (BoardEvent.written timerEnable)).getD 0

/-- The ticks of a clock of some rate in some instructions, as the code's words hold them. -/
def ticks (rate count : Nat) : Word := BitVec.ofNat 32 (count * rate % 2 ^ 64 / 1000000)

/-- The event asked for has come. -/
def Due (past : List BoardEvent) : Prop :=
  enableWritten past &&& 1 ≠ 0 ∧ matchWritten past ≤ ticks 32768 (elapsed past)

/-- The timer's line is sampled at an event. -/
def Samples (past : List BoardEvent) (event : BoardEvent) : Prop :=
  event.timerWrite ≠ none ∨ event.isInsn = true ∧ (insns past + 1) % 64 = 0

/-- A bit of the display's status after some events. -/
def Finished (past : List BoardEvent) (bit : Nat) : Prop :=
  Since (BoardEvent.mdpSets bit) (BoardEvent.mdpClears bit) past

/-- What the guest finds in a register of the block. -/
def registerValue (past : List BoardEvent) (off : Word) : Word :=
  if off = timerMatchVal then matchWritten past
  else if off = timerCountVal then ticks 32768 (elapsed past)
  else if off = timerEnable then enableWritten past
  else if off = timerCountVal + 0x10 then ticks 19200000 (insns past)
  else 0

/-- The timer has been programmed, and nothing but time has come in its way since. -/
structure Programmed (past : List BoardEvent) (write : BoardEvent) (rest : List BoardEvent) : Prop where
  written : write.timerWrite ≠ none
  undisturbed : ∀ event ∈ rest, event.timerWrite = none ∧ event.acknowledges intGpTimer = false
  /-- The count has not gone round: so many instructions have not run since the last CLEAR. -/
  bounded : elapsed (past ++ write :: rest) * 32768 / 1000000 < 2 ^ 32

/-- The registers read as they were written and as time passed. The timer's line is the last sample,
unless it was acknowledged since: of an event that was programmed it tells never early, and at the
latest 64 instructions after it was due. The display's line is pending from each completion to the
acknowledgement, or to the clearing of its whole status. -/
structure BoardLaw (timerOn : Bool) (events : List BoardEvent) : Prop where
  registers : ∀ past a later, events = past ++ .csrRead a :: later →
    (Board.after timerOn past).onCsrRead a = (csrOffset a).map (registerValue past)
  timer : ∀ past later, events = past ++ later →
    ((Board.after timerOn past).linePending intGpTimer = true ↔ timerOn = true ∧
      HeldSince (fun before event => Samples before event ∧ Due (before ++ [event]))
        (fun before event => Samples before event ∨ event.acknowledges intGpTimer = true) past)
  onTime : ∀ past write rest later, events = past ++ write :: rest ++ later →
    Programmed past write rest → timerOn = true →
      ((Board.after timerOn (past ++ write :: rest)).linePending intGpTimer = true →
        Due (past ++ write :: rest)) ∧
      ∀ wait more, rest = wait ++ more → Due (past ++ write :: wait) → 64 ≤ insns more →
        (Board.after timerOn (past ++ write :: rest)).linePending intGpTimer = true
  status : ∀ past later, events = past ++ .mdpRead mdpIntrStatus :: later →
    ∃ word, (Board.after timerOn past).onMdpRead mdpIntrStatus = some word ∧
      ∀ bit, word.getLsbD bit = true ↔ Finished past bit
  display : ∀ past later, events = past ++ later →
    ((Board.after timerOn past).linePending intMdp = true ↔
      HeldSince (fun _ event => event.completes = true)
        (fun before event => event.acknowledges intMdp = true ∨
          event.mdpAcknowledges = true ∧ ∀ bit, ¬Finished (before ++ [event]) bit) past)

theorem getLsbD_line {line : Nat} (low : line < 32) (bit : Nat) :
    (1#32 <<< line).getLsbD bit = decide (bit = line) := by
  rw [← BitVec.twoPow_eq, BitVec.getLsbD_twoPow]
  simp [low, eq_comm]

namespace Serial

/-- The serial ports change no line but their own. -/
theorem otherLine_uartUpdateIrq (serial : Serial) {bit : Nat} (other : bit ≠ 11) :
    serial.uartUpdateIrq.vic.lines.pending0.getLsbD bit = serial.vic.lines.pending0.getLsbD bit := by
  have clear : (1#32 <<< 11).getLsbD bit = false := by
    rw [getLsbD_line (by decide)]
    exact decide_eq_false other
  unfold uartUpdateIrq
  dsimp only
  split
  · rw [BitVec.getLsbD_or, clear, Bool.or_false]
  · rw [BitVec.getLsbD_and, BitVec.getLsbD_not, clear]
    cases held : serial.vic.lines.pending0.getLsbD bit with
    | false => rfl
    | true => simp [BitVec.lt_of_getLsbD held]

theorem otherLine_onUartWrite (serial : Serial) (a v : Word) {bit : Nat} (other : bit ≠ 11) :
    (serial.onUartWrite a v).vic.lines.pending0.getLsbD bit = serial.vic.lines.pending0.getLsbD bit := by
  unfold onUartWrite
  split
  · rfl
  · dsimp only
    split_ifs
    · rfl
    · rfl
    · exact otherLine_uartUpdateIrq _ other
    · rfl
    · rfl

theorem otherLine_onUartRead (serial : Serial) (a : Word) {bit : Nat} (other : bit ≠ 11) :
    (serial.onUartRead a).2.vic.lines.pending0.getLsbD bit =
      serial.vic.lines.pending0.getLsbD bit := by
  rcases serial.onUartRead_effect a with same | ⟨base, _, _, _, consumed⟩
  · rw [same]
  · rw [consumed]
    exact otherLine_uartUpdateIrq _ other

theorem otherLine_rxTryStage (serial : Serial) {bit : Nat} (other : bit ≠ 11) :
    serial.rxTryStage.vic.lines.pending0.getLsbD bit = serial.vic.lines.pending0.getLsbD bit := by
  rcases serial.rxTryStage_effect with same | ⟨c, rest, _, _, staged⟩
  · rw [same]
  · rw [staged]
    exact otherLine_uartUpdateIrq _ other

end Serial

namespace Board

variable {board next : Board} {bit : Nat}

theorem linePending_raiseLine (board : Board) {line : Nat} (low : line < 32) (bit : Nat) :
    (board.raiseLine line).linePending bit = (board.linePending bit || decide (bit = line)) := by
  change (board.pending0 ||| (1#32 <<< line)).getLsbD bit = _
  rw [BitVec.getLsbD_or, getLsbD_line low]
  rfl

theorem linePending_lowerLine (board : Board) {line : Nat} (low : line < 32) (bit : Nat) :
    (board.lowerLine line).linePending bit = (board.linePending bit && !decide (bit = line)) := by
  change (board.pending0 &&& ~~~(1#32 <<< line)).getLsbD bit = (board.pending0.getLsbD bit && _)
  rw [BitVec.getLsbD_and, BitVec.getLsbD_not, getLsbD_line low]
  cases held : board.pending0.getLsbD bit with
  | false => rfl
  | true => simp [BitVec.lt_of_getLsbD held]

/-- What the timer's line is set to when it is sampled. -/
def dueNow (board : Board) : Bool := board.gptEnable &&& 1 ≠ 0 && board.gptMatch ≤ board.gptCountNow

theorem linePending_refresh (board : Board) (bit : Nat) : board.timerRefreshIrq.linePending bit =
    if board.timerOn = true ∧ bit = intGpTimer then board.dueNow else board.linePending bit := by
  unfold timerRefreshIrq
  cases board.timerOn with
  | false => rfl
  | true =>
    simp only [Bool.not_true, Bool.false_eq_true, if_false, true_and]
    split
    · next due =>
      rw [linePending_raiseLine _ (by decide)]
      split
      · next here =>
        have come : board.dueNow = true :=
          Bool.and_eq_true_iff.mpr ⟨decide_eq_true due.1, decide_eq_true due.2⟩
        simp [here, come]
      · next other => simp [other]
    · next early =>
      rw [linePending_lowerLine _ (by decide)]
      split
      · next here => simpa [here, dueNow] using early
      · next other => simp [other]

theorem lines_onCodeProbe (vic : LinuxVic) (cpsr : Word) : (vic.onCodeProbe cpsr).lines = vic.lines := by
  unfold LinuxVic.onCodeProbe
  split
  · rw [LinuxVic.vicPickIrq_eq]
    split
    · rfl
    · rfl
  · rfl

theorem linePending_onCodeProbe (board : Board) (cpsr : Word) (waiting : Option Byte)
    (other : bit ≠ 11) :
    (board.onCodeProbe cpsr waiting).linePending bit = board.tick.linePending bit := by
  unfold onCodeProbe linePending pending0
  dsimp only
  split
  · change (board.tick.serial.vic.onCodeProbe cpsr).lines.pending0.getLsbD bit = _
    rw [lines_onCodeProbe]
  · rw [Serial.otherLine_rxTryStage _ other]
    split
    · rw [Serial.rxFillFromHost_eq]
    · rfl

/-- The timer's registers and the instruction counter are the same. -/
structure SameClock (left right : Board) : Prop where
  icount : left.icount = right.icount
  gptMatch : left.gptMatch = right.gptMatch
  gptEnable : left.gptEnable = right.gptEnable
  gptBase : left.gptBase = right.gptBase
  timerOn : left.timerOn = right.timerOn

theorem SameClock.refl (board : Board) : SameClock board board := ⟨rfl, rfl, rfl, rfl, rfl⟩

theorem refresh_clock (board : Board) : SameClock board.timerRefreshIrq board := by
  unfold timerRefreshIrq
  split_ifs
  · exact .refl board
  · exact ⟨rfl, rfl, rfl, rfl, rfl⟩
  · exact ⟨rfl, rfl, rfl, rfl, rfl⟩

theorem tick_clock (board : Board) :
    SameClock board.tick { board with icount := board.icount + 1 } := by
  unfold tick
  dsimp only
  split
  · exact refresh_clock _
  · exact .refl _

theorem onCodeProbe_clock (board : Board) (cpsr : Word) (waiting : Option Byte) :
    SameClock (board.onCodeProbe cpsr waiting) { board with icount := board.icount + 1 } := by
  have ticked := board.tick_clock
  unfold onCodeProbe
  dsimp only
  split
  · exact ⟨ticked.icount, ticked.gptMatch, ticked.gptEnable, ticked.gptBase, ticked.timerOn⟩
  · exact ⟨ticked.icount, ticked.gptMatch, ticked.gptEnable, ticked.gptBase, ticked.timerOn⟩

theorem onMdpWrite_clock (board : Board) (off v : Word) : SameClock (board.onMdpWrite off v) board := by
  unfold onMdpWrite
  dsimp only
  split_ifs
  all_goals exact ⟨rfl, rfl, rfl, rfl, rfl⟩

end Board

section History

variable {past rest : List BoardEvent} {event : BoardEvent}

theorem insns_snoc (past : List BoardEvent) (event : BoardEvent) :
    insns (past ++ [event]) = insns past + if event.isInsn then 1 else 0 := by
  rw [insns, List.countP_append, List.countP_singleton]
  rfl

theorem sinceClear_snoc (past : List BoardEvent) (event : BoardEvent) :
    sinceClear (past ++ [event]) = if event.clears then [] else event :: sinceClear past := by
  rw [sinceClear, List.reverse_append, List.reverse_singleton, List.singleton_append,
    List.takeWhile_cons]
  cases event.clears with
  | true => rfl
  | false => rfl

theorem elapsed_snoc (past : List BoardEvent) (event : BoardEvent) :
    elapsed (past ++ [event]) =
      if event.clears then 0 else elapsed past + if event.isInsn then 1 else 0 := by
  rw [elapsed, sinceClear_snoc]
  split
  · rfl
  · exact List.countP_cons

theorem matchWritten_snoc (past : List BoardEvent) (event : BoardEvent) :
    matchWritten (past ++ [event]) = (event.written timerMatchVal).getD (matchWritten past) := by
  rw [matchWritten, List.reverse_append, List.reverse_singleton, List.singleton_append,
    List.findSome?_cons]
  cases event.written timerMatchVal with
  | none => rfl
  | some v => rfl

theorem enableWritten_snoc (past : List BoardEvent) (event : BoardEvent) :
    enableWritten (past ++ [event]) =
      if event.clears then 0 else (event.written timerEnable).getD (enableWritten past) := by
  rw [enableWritten, sinceClear_snoc]
  split
  · rfl
  · rw [List.findSome?_cons]
    cases event.written timerEnable with
    | none => rfl
    | some v => rfl

theorem written_none (reg : Word) (other : event.timerWrite = none) : event.written reg = none := by
  rw [BoardEvent.written, other]
  rfl

theorem clears_none (other : event.timerWrite = none) : event.clears = false := by
  rw [BoardEvent.clears, written_none _ other]
  rfl

theorem written_some {off v : Word} (reg : Word) (write : event.timerWrite = some (off, v)) :
    event.written reg = if off = reg then some v else none := by
  rw [BoardEvent.written, write]
  rfl

theorem clears_some {off v : Word} (write : event.timerWrite = some (off, v)) :
    event.clears = decide (off = timerClear) := by
  rw [BoardEvent.clears, written_some _ write]
  split
  · next clear => exact (decide_eq_true clear).symm
  · next other => exact (decide_eq_false other).symm

end History

theorem ticks_eq (rate : BitVec 64) (count : Nat) :
    (BitVec.ofNat 64 count * rate / insnPerSec).setWidth 32 = ticks rate.toNat count := by
  apply BitVec.eq_of_toNat_eq
  rw [ticks, BitVec.toNat_setWidth, BitVec.toNat_udiv, BitVec.toNat_mul, BitVec.toNat_ofNat,
    BitVec.toNat_ofNat, Nat.mod_mul_mod]
  rfl

/-- The board holds what was written to it, and the time. -/
structure Aligned (past : List BoardEvent) (timerOn : Bool) (board : Board) : Prop where
  icount : board.icount = BitVec.ofNat 64 (insns past)
  gptMatch : board.gptMatch = matchWritten past
  gptEnable : board.gptEnable = enableWritten past
  elapsed : board.icount - board.gptBase = BitVec.ofNat 64 (elapsed past)
  timerOn : board.timerOn = timerOn

namespace Aligned

variable {past : List BoardEvent} {event : BoardEvent} {timerOn : Bool} {board next : Board}

theorem start (timerOn : Bool) : Aligned [] timerOn (.start timerOn) :=
  ⟨rfl, rfl, rfl, by simp [Board.start, Linux.elapsed, sinceClear, insns], rfl⟩

theorem gptCountNow (aligned : Aligned past timerOn board) :
    board.gptCountNow = ticks 32768 (Linux.elapsed past) := by
  rw [Board.gptCountNow, aligned.elapsed, ticks_eq]
  rfl

theorem dgtCountNow (aligned : Aligned past timerOn board) :
    board.dgtCountNow = ticks 19200000 (insns past) := by
  rw [Board.dgtCountNow, aligned.icount, ticks_eq]
  rfl

theorem dueNow_iff (aligned : Aligned past timerOn board) : board.dueNow = true ↔ Due past := by
  rw [Board.dueNow, aligned.gptCountNow, aligned.gptMatch, aligned.gptEnable, Bool.and_eq_true,
    decide_eq_true_eq, decide_eq_true_eq]
  rfl

theorem congr (aligned : Aligned past timerOn board) (same : Board.SameClock next board) :
    Aligned past timerOn next where
  icount := by rw [same.icount, aligned.icount]
  gptMatch := by rw [same.gptMatch, aligned.gptMatch]
  gptEnable := by rw [same.gptEnable, aligned.gptEnable]
  elapsed := by rw [same.icount, same.gptBase, aligned.elapsed]
  timerOn := by rw [same.timerOn, aligned.timerOn]

/-- An event that is no instruction and writes nothing to the timer. -/
theorem idle (aligned : Aligned past timerOn board) (quiet : event.isInsn = false)
    (other : event.timerWrite = none) : Aligned (past ++ [event]) timerOn board where
  icount := by rw [insns_snoc, quiet, aligned.icount]; rfl
  gptMatch := by rw [matchWritten_snoc, written_none _ other, aligned.gptMatch]; rfl
  gptEnable := by
    rw [enableWritten_snoc, written_none _ other, clears_none other, aligned.gptEnable]
    rfl
  elapsed := by rw [elapsed_snoc, clears_none other, quiet, aligned.elapsed]; rfl
  timerOn := aligned.timerOn

theorem insn (aligned : Aligned past timerOn board) (cpsr : Word) (waiting : Option Byte) :
    Aligned (past ++ [.insn cpsr waiting]) timerOn { board with icount := board.icount + 1 } where
  icount := by
    rw [insns_snoc, aligned.icount, BitVec.ofNat_add]
    rfl
  gptMatch := by rw [matchWritten_snoc, aligned.gptMatch]; rfl
  gptEnable := by rw [enableWritten_snoc, aligned.gptEnable]; rfl
  elapsed := by
    have later : board.icount + 1 - board.gptBase = board.icount - board.gptBase + 1 := by
      rw [BitVec.sub_eq_add_neg, BitVec.sub_eq_add_neg, BitVec.add_assoc, BitVec.add_comm 1,
        ← BitVec.add_assoc]
    change board.icount + 1 - board.gptBase = _
    rw [elapsed_snoc, later, aligned.elapsed]
    exact (BitVec.ofNat_add _ _).symm
  timerOn := aligned.timerOn

theorem csrWrite (aligned : Aligned past timerOn board) (a v : Word) :
    Aligned (past ++ [.csrWrite a v]) timerOn (board.onCsrWrite a v) := by
  have quiet : (BoardEvent.csrWrite a v).isInsn = false := rfl
  cases window : csrOffset a with
  | none =>
    have other : (BoardEvent.csrWrite a v).timerWrite = none := by
      rw [BoardEvent.timerWrite, window]
      rfl
    rw [Board.onCsrWrite, window]
    exact aligned.idle quiet other
  | some off =>
    have write (listed : off = timerMatchVal ∨ off = timerEnable ∨ off = timerClear) :
        (BoardEvent.csrWrite a v).timerWrite = some (off, v) := by
      rw [BoardEvent.timerWrite, window, Option.bind_some, if_pos listed]
    rw [Board.onCsrWrite, window]
    dsimp only
    split
    · next here =>
      subst here
      have found := write (.inl rfl)
      have now : Aligned (past ++ [.csrWrite a v]) timerOn
          { board with gptMatch := v } := by
        refine ⟨?_, ?_, ?_, ?_, aligned.timerOn⟩
        · rw [insns_snoc, quiet]
          exact aligned.icount
        · rw [matchWritten_snoc, written_some _ found, if_pos rfl]
          rfl
        · rw [enableWritten_snoc, written_some _ found, clears_some found]
          exact aligned.gptEnable
        · rw [elapsed_snoc, clears_some found, quiet]
          exact aligned.elapsed
      exact now.congr (Board.refresh_clock _)
    split
    · next here =>
      subst here
      have found := write (.inr (.inl rfl))
      have now : Aligned (past ++ [.csrWrite a v]) timerOn
          { board with gptEnable := v } := by
        refine ⟨?_, ?_, ?_, ?_, aligned.timerOn⟩
        · rw [insns_snoc, quiet]
          exact aligned.icount
        · rw [matchWritten_snoc, written_some _ found]
          exact aligned.gptMatch
        · rw [enableWritten_snoc, written_some _ found, clears_some found, if_pos rfl]
          rfl
        · rw [elapsed_snoc, clears_some found, quiet]
          exact aligned.elapsed
      exact now.congr (Board.refresh_clock _)
    split
    · next here =>
      subst here
      have found := write (.inr (.inr rfl))
      have now : Aligned (past ++ [.csrWrite a v]) timerOn
          { board with gptEnable := 0, gptBase := board.icount } := by
        refine ⟨?_, ?_, ?_, ?_, aligned.timerOn⟩
        · rw [insns_snoc, quiet]
          exact aligned.icount
        · rw [matchWritten_snoc, written_some _ found]
          exact aligned.gptMatch
        · rw [enableWritten_snoc, clears_some found]
          rfl
        · rw [elapsed_snoc, clears_some found]
          exact BitVec.sub_self _
      exact now.congr (Board.refresh_clock _)
    · next first second third =>
      have other : (BoardEvent.csrWrite a v).timerWrite = none := by
        rw [BoardEvent.timerWrite, window, Option.bind_some, if_neg (by tauto)]
      exact aligned.idle quiet other

theorem step (aligned : Aligned past timerOn board) (event : BoardEvent) :
    Aligned (past ++ [event]) timerOn (board.step event) := by
  have same (next : Board) (quiet : event.isInsn = false) (other : event.timerWrite = none)
      (clock : Board.SameClock next board) : Aligned (past ++ [event]) timerOn next :=
    (aligned.congr clock).idle quiet other
  cases event with
  | insn cpsr waiting => exact (aligned.insn cpsr waiting).congr (board.onCodeProbe_clock cpsr waiting)
  | csrWrite a v => exact aligned.csrWrite a v
  | mdpWrite off v => exact same _ rfl rfl (board.onMdpWrite_clock off v)
  | csrRead => exact same _ rfl rfl ⟨rfl, rfl, rfl, rfl, rfl⟩
  | mdpRead => exact same _ rfl rfl ⟨rfl, rfl, rfl, rfl, rfl⟩
  | vicWrite => exact same _ rfl rfl ⟨rfl, rfl, rfl, rfl, rfl⟩
  | vicRead => exact same _ rfl rfl ⟨rfl, rfl, rfl, rfl, rfl⟩
  | uartWrite => exact same _ rfl rfl ⟨rfl, rfl, rfl, rfl, rfl⟩
  | uartRead => exact same _ rfl rfl ⟨rfl, rfl, rfl, rfl, rfl⟩
  | typed => exact same _ rfl rfl ⟨rfl, rfl, rfl, rfl, rfl⟩
  | usbRaise => exact same _ rfl rfl ⟨rfl, rfl, rfl, rfl, rfl⟩

end Aligned

theorem Board.after_snoc (timerOn : Bool) (past : List BoardEvent) (event : BoardEvent) :
    Board.after timerOn (past ++ [event]) = (Board.after timerOn past).step event := by
  rw [Board.after, List.foldl_append]
  rfl

theorem aligned_after (timerOn : Bool) (past : List BoardEvent) :
    Aligned past timerOn (Board.after timerOn past) := by
  induction past using List.reverseRecOn with
  | nil => exact .start timerOn
  | append_singleton past event ih =>
    rw [Board.after_snoc]
    exact ih.step event

section Step

variable {past : List BoardEvent} {event : BoardEvent} {timerOn : Bool} {board : Board}

theorem counted_sample (count : Nat) :
    (BitVec.ofNat 64 count + 1) &&& 0x3f = 0 ↔ (count + 1) % 64 = 0 := by
  have mask (word : BitVec 64) : word.toNat &&& (0x3f : BitVec 64).toNat = word.toNat % 64 :=
    Nat.and_two_pow_sub_one_eq_mod _ 6
  rw [← BitVec.toNat_inj, BitVec.toNat_and, mask, BitVec.toNat_add, BitVec.toNat_ofNat]
  change (count % 2 ^ 64 + 1) % 2 ^ 64 % 64 = 0 ↔ _
  omega

theorem samples_insn (past : List BoardEvent) (cpsr : Word) (waiting : Option Byte) :
    Samples past (.insn cpsr waiting) ↔ (insns past + 1) % 64 = 0 := by
  simp [Samples, BoardEvent.timerWrite, BoardEvent.isInsn]

theorem not_samples (quiet : event.isInsn = false) (other : event.timerWrite = none) :
    ¬Samples past event := by
  simp [Samples, quiet, other]

namespace Board

theorem SameClock.symm {left right : Board} (same : SameClock left right) : SameClock right left :=
  ⟨same.icount.symm, same.gptMatch.symm, same.gptEnable.symm, same.gptBase.symm, same.timerOn.symm⟩

/-- A write sets a register of the timer, which is then sampled, or changes nothing. -/
theorem onCsrWrite_cases (board : Board) (a v : Word) :
    (BoardEvent.csrWrite a v).timerWrite = none ∧ board.onCsrWrite a v = board ∨
      (BoardEvent.csrWrite a v).timerWrite ≠ none ∧ ∃ programmed : Board,
        board.onCsrWrite a v = programmed.timerRefreshIrq ∧
          programmed.linePending = board.linePending ∧ programmed.mdpStatus = board.mdpStatus := by
  unfold onCsrWrite
  cases window : csrOffset a with
  | none => exact .inl ⟨by rw [BoardEvent.timerWrite, window]; rfl, rfl⟩
  | some off =>
    have write : (BoardEvent.csrWrite a v).timerWrite =
        if off = timerMatchVal ∨ off = timerEnable ∨ off = timerClear then some (off, v) else none := by
      rw [BoardEvent.timerWrite, window]
      rfl
    dsimp only
    by_cases first : off = timerMatchVal
    · exact .inr ⟨by simp [write, first], { board with gptMatch := v }, if_pos first, rfl, rfl⟩
    by_cases second : off = timerEnable
    · refine .inr ⟨by simp [write, second], { board with gptEnable := v }, ?_, rfl, rfl⟩
      rw [if_neg first, if_pos second]
    by_cases third : off = timerClear
    · refine .inr ⟨by simp [write, third], { board with gptEnable := 0, gptBase := board.icount }, ?_,
        rfl, rfl⟩
      rw [if_neg first, if_neg second, if_pos third]
    · refine .inl ⟨by rw [write, if_neg (by tauto)], ?_⟩
      rw [if_neg first, if_neg second, if_neg third]

theorem linePending_tick (board : Board) {bit : Nat} (other : bit ≠ intGpTimer) :
    board.tick.linePending bit = board.linePending bit := by
  unfold tick
  dsimp only
  split
  · rw [linePending_refresh, if_neg (by simp [other])]
    rfl
  · rfl

theorem refresh_status (board : Board) : board.timerRefreshIrq.mdpStatus = board.mdpStatus := by
  unfold timerRefreshIrq
  split_ifs
  all_goals rfl

theorem linePending_onVicWrite (board : Board) (off v : Word) (bit : Nat) :
    (board.withVic (board.serial.vic.onVicWrite off v)).linePending bit =
      (board.linePending bit && !(BoardEvent.vicWrite off v).acknowledges bit) := by
  change (board.serial.vic.onVicWrite off v).lines.pending0.getLsbD bit =
    (board.serial.vic.lines.pending0.getLsbD bit && _)
  rw [Serial.onVicWrite_pending0]
  by_cases clear : off = vicOffClear0
  · rw [if_pos clear, BitVec.getLsbD_and, BitVec.getLsbD_not]
    cases held : board.serial.vic.lines.pending0.getLsbD bit with
    | false => rfl
    | true => simp [BoardEvent.acknowledges, clear, BitVec.lt_of_getLsbD held]
  · simp [BoardEvent.acknowledges, clear]

theorem linePending_onVicRead (board : Board) (off : Word) (bit : Nat) :
    (board.withVic (board.serial.vic.onVicRead off).2).linePending bit = board.linePending bit := by
  have lines : (board.serial.vic.onVicRead off).2.lines = board.serial.vic.lines := by
    unfold LinuxVic.onVicRead
    split
    · rw [LinuxVic.vicPickIrq_eq]
      split
      · rfl
      · rfl
    · split_ifs
      all_goals rfl
  change (board.serial.vic.onVicRead off).2.lines.pending0.getLsbD bit = _
  rw [lines]
  rfl

theorem linePending_onMdpWrite (board : Board) (off v : Word) {bit : Nat} (other : bit ≠ intMdp) :
    (board.onMdpWrite off v).linePending bit = board.linePending bit := by
  unfold onMdpWrite
  dsimp only
  split_ifs
  · rw [linePending_raiseLine _ (by decide)]
    simp [other, linePending, pending0]
  · rw [linePending_lowerLine _ (by decide)]
    simp [other, linePending, pending0]
  · rfl
  · rw [linePending_raiseLine _ (by decide)]
    simp [other, linePending, pending0]
  · rfl

end Board

/-- The timer's line is sampled or acknowledged, or stays as it was. -/
theorem timer_step (aligned : Aligned past timerOn board) (event : BoardEvent) :
    (board.step event).linePending intGpTimer = true ↔
      timerOn = true ∧ Samples past event ∧ Due (past ++ [event]) ∨
        ¬(timerOn = true ∧ Samples past event) ∧ event.acknowledges intGpTimer = false ∧
          board.linePending intGpTimer = true := by
  have sampled (programmed : Board) (now : Aligned (past ++ [event]) timerOn programmed)
      (line : programmed.linePending = board.linePending) (samples : Samples past event)
      (unheard : event.acknowledges intGpTimer = false) :
      programmed.timerRefreshIrq.linePending intGpTimer = true ↔
        timerOn = true ∧ Samples past event ∧ Due (past ++ [event]) ∨
          ¬(timerOn = true ∧ Samples past event) ∧ event.acknowledges intGpTimer = false ∧
            board.linePending intGpTimer = true := by
    rw [Board.linePending_refresh, now.timerOn, line]
    cases timerOn with
    | true => simpa [samples] using now.dueNow_iff
    | false => simp [unheard]
  have untouched (next : Board) (other : ¬Samples past event)
      (unheard : event.acknowledges intGpTimer = false)
      (same : next.linePending intGpTimer = board.linePending intGpTimer) :
      next.linePending intGpTimer = true ↔
        timerOn = true ∧ Samples past event ∧ Due (past ++ [event]) ∨
          ¬(timerOn = true ∧ Samples past event) ∧ event.acknowledges intGpTimer = false ∧
            board.linePending intGpTimer = true := by
    simp [other, unheard, same]
  have silent := @not_samples past event
  cases event with
  | insn cpsr waiting =>
    have counted := aligned.insn cpsr waiting
    change (board.onCodeProbe cpsr waiting).linePending intGpTimer = true ↔ _
    rw [Board.linePending_onCodeProbe _ _ _ (by decide), Board.tick]
    dsimp only
    split
    · next here =>
      rw [aligned.icount, counted_sample] at here
      exact sampled _ counted rfl ((samples_insn past cpsr waiting).mpr here) rfl
    · next between =>
      rw [aligned.icount, counted_sample] at between
      exact untouched _ (mt (samples_insn past cpsr waiting).mp between) rfl rfl
  | csrWrite a v =>
    have now := aligned.csrWrite a v
    rcases board.onCsrWrite_cases a v with ⟨other, same⟩ | ⟨write, programmed, refreshed, line, _⟩
    · change (board.onCsrWrite a v).linePending intGpTimer = true ↔ _
      rw [same]
      exact untouched board (silent rfl other) rfl rfl
    · change (board.onCsrWrite a v).linePending intGpTimer = true ↔ _
      rw [refreshed] at now ⊢
      exact sampled programmed (now.congr programmed.refresh_clock.symm) line (.inl write) rfl
  | vicWrite off v =>
    change (board.withVic (board.serial.vic.onVicWrite off v)).linePending intGpTimer = true ↔ _
    rw [Board.linePending_onVicWrite]
    simp [silent rfl rfl, and_comm]
  | mdpWrite off v => exact untouched _ (silent rfl rfl) rfl (board.linePending_onMdpWrite off v (by decide))
  | vicRead off => exact untouched _ (silent rfl rfl) rfl (board.linePending_onVicRead off _)
  | uartWrite a v =>
    exact untouched _ (silent rfl rfl) rfl (board.serial.otherLine_onUartWrite a v (by decide))
  | uartRead a =>
    exact untouched _ (silent rfl rfl) rfl (board.serial.otherLine_onUartRead a (by decide))
  | csrRead => exact untouched _ (silent rfl rfl) rfl rfl
  | mdpRead => exact untouched _ (silent rfl rfl) rfl rfl
  | typed => exact untouched _ (silent rfl rfl) rfl rfl
  | usbRaise => exact untouched _ (silent rfl rfl) rfl rfl

end Step

section Display

variable {event : BoardEvent} {board : Board} {bit : Nat}

/-- Only the display's registers change its status. -/
theorem status_step (board : Board) (event : BoardEvent) (bit : Nat) :
    (board.step event).mdpStatus.getLsbD bit = true ↔
      event.mdpSets bit = true ∨
        event.mdpClears bit = false ∧ board.mdpStatus.getLsbD bit = true := by
  have untouched (next : Board) (unset : event.mdpSets bit = false) (kept : event.mdpClears bit = false)
      (same : next.mdpStatus = board.mdpStatus) : next.mdpStatus.getLsbD bit = true ↔
        event.mdpSets bit = true ∨
          event.mdpClears bit = false ∧ board.mdpStatus.getLsbD bit = true := by
    simp [unset, kept, same]
  cases event with
  | mdpWrite off v =>
    change (board.onMdpWrite off v).mdpStatus.getLsbD bit = true ↔ _
    unfold Board.onMdpWrite
    dsimp only
    split
    · next enable =>
      subst enable
      change (board.mdpStatus ||| v).getLsbD bit = true ↔ _
      have apart : mdpIntrEnable ≠ mdpIntrClear ∧ isMdpDma mdpIntrEnable = false := by decide
      rw [BitVec.getLsbD_or, Bool.or_eq_true, or_comm]
      simp [BoardEvent.mdpSets, BoardEvent.mdpClears, apart.1, apart.2]
    split
    · next enable clear =>
      subst clear
      have status (next : Board) (cleared : next.mdpStatus = board.mdpStatus &&& ~~~v) :
          next.mdpStatus.getLsbD bit = true ↔
            v.getLsbD bit = false ∧ board.mdpStatus.getLsbD bit = true := by
        rw [cleared, BitVec.getLsbD_and, BitVec.getLsbD_not, Bool.and_eq_true, Bool.and_eq_true,
          and_comm, Bool.not_eq_true', decide_eq_true_eq]
        constructor
        · rintro ⟨⟨_, kept⟩, held⟩
          exact ⟨kept, held⟩
        · rintro ⟨kept, held⟩
          exact ⟨⟨BitVec.lt_of_getLsbD held, kept⟩, held⟩
      have apart : mdpIntrClear ≠ mdpIntrEnable ∧ isMdpDma mdpIntrClear = false := by decide
      have spec : ((BoardEvent.mdpWrite mdpIntrClear v).mdpSets bit = true ∨
          (BoardEvent.mdpWrite mdpIntrClear v).mdpClears bit = false ∧
            board.mdpStatus.getLsbD bit = true) ↔
          v.getLsbD bit = false ∧ board.mdpStatus.getLsbD bit = true := by
        simp [BoardEvent.mdpSets, BoardEvent.mdpClears, apart.1, apart.2]
      rw [spec]
      split
      · exact status _ rfl
      · exact status _ rfl
    split
    · next enable clear transfer =>
      change (board.mdpStatus ||| 0x4).getLsbD bit = true ↔ _
      have done : (0x4 : Word).getLsbD bit = decide (bit = 2) := getLsbD_line (show 2 < 32 by decide) bit
      rw [BitVec.getLsbD_or, Bool.or_eq_true, or_comm, done]
      simp [BoardEvent.mdpSets, BoardEvent.mdpClears, enable, clear, transfer]
    · next enable clear elsewhere =>
      refine untouched _ ?_ (by simp [BoardEvent.mdpClears, clear]) rfl
      simp [BoardEvent.mdpSets, enable, elsewhere]
  | insn cpsr waiting =>
    refine untouched _ rfl rfl ?_
    have ticked : board.tick.mdpStatus = board.mdpStatus := by
      unfold Board.tick
      dsimp only
      split
      · exact Board.refresh_status _
      · rfl
    rw [← ticked, Board.step, Board.onCodeProbe]
    dsimp only
    split
    · rfl
    · rfl
  | csrWrite a v =>
    refine untouched _ rfl rfl ?_
    rcases board.onCsrWrite_cases a v with ⟨_, same⟩ | ⟨_, programmed, refreshed, _, status⟩
    · exact congrArg Board.mdpStatus same
    · rw [Board.step, refreshed, Board.refresh_status, status]
  | _ => exact untouched _ rfl rfl rfl

/-- The display's line goes up with a completion, and down with its acknowledgement or with the
last bit of the status. -/
theorem display_step (board : Board) (event : BoardEvent) :
    (board.step event).linePending intMdp = true ↔
      event.completes = true ∨
        ¬(event.acknowledges intMdp = true ∨
          event.mdpAcknowledges = true ∧ (board.step event).mdpStatus = 0) ∧
          board.linePending intMdp = true := by
  have untouched (next : Board) (idle : event.completes = false)
      (unheard : event.acknowledges intMdp = false) (kept : event.mdpAcknowledges = false)
      (same : next.linePending intMdp = board.linePending intMdp) :
      next.linePending intMdp = true ↔
        event.completes = true ∨
          ¬(event.acknowledges intMdp = true ∨
            event.mdpAcknowledges = true ∧ (board.step event).mdpStatus = 0) ∧
            board.linePending intMdp = true := by
    simp [idle, unheard, kept, same]
  cases event with
  | mdpWrite off v =>
    change (board.onMdpWrite off v).linePending intMdp = true ↔
      _ ∨ ¬(_ ∨ _ ∧ (board.onMdpWrite off v).mdpStatus = 0) ∧ _
    unfold Board.onMdpWrite
    dsimp only
    split
    · next enable =>
      rw [Board.linePending_raiseLine _ (by decide)]
      simp [BoardEvent.completes, enable]
    split
    · next enable clear =>
      subst clear
      have apart : mdpIntrClear ≠ mdpIntrEnable ∧ isMdpDma mdpIntrClear = false := by decide
      split
      · next empty =>
        rw [Board.linePending_lowerLine _ (by decide)]
        simp only [BoardEvent.completes, BoardEvent.mdpAcknowledges, apart.1, apart.2]
        simp [show ({ board with mdpStatus := board.mdpStatus &&& ~~~v : Board}.lowerLine intMdp).mdpStatus
          = 0 from empty]
      · next left =>
        have unfinished : ¬board.mdpStatus &&& ~~~v = 0#32 := left
        simp [BoardEvent.completes, BoardEvent.mdpAcknowledges, BoardEvent.acknowledges, apart.1,
          apart.2, unfinished, Board.linePending, Board.pending0]
    split
    · next enable clear transfer =>
      rw [Board.linePending_raiseLine _ (by decide)]
      simp [BoardEvent.completes, transfer]
    · next enable clear elsewhere =>
      have idle : (BoardEvent.mdpWrite off v).completes = false := by
        simp [BoardEvent.completes, enable, elsewhere]
      simp [idle, BoardEvent.acknowledges, BoardEvent.mdpAcknowledges, clear]
  | vicWrite off v =>
    change (board.withVic (board.serial.vic.onVicWrite off v)).linePending intMdp = true ↔ _
    rw [Board.linePending_onVicWrite]
    simp [BoardEvent.completes, BoardEvent.mdpAcknowledges, and_comm]
  | insn cpsr waiting =>
    refine untouched _ rfl rfl rfl ?_
    rw [Board.step, Board.linePending_onCodeProbe _ _ _ (by decide), Board.linePending_tick _ (by decide)]
  | csrWrite a v =>
    refine untouched _ rfl rfl rfl ?_
    rcases board.onCsrWrite_cases a v with ⟨_, same⟩ | ⟨_, programmed, refreshed, line, _⟩
    · exact congrArg (Board.linePending · intMdp) same
    · rw [Board.step, refreshed, Board.linePending_refresh, if_neg (by simp [intMdp, intGpTimer]), line]
  | vicRead off => exact untouched _ rfl rfl rfl (board.linePending_onVicRead off _)
  | uartWrite a v =>
    exact untouched _ rfl rfl rfl (board.serial.otherLine_onUartWrite a v (by decide))
  | uartRead a => exact untouched _ rfl rfl rfl (board.serial.otherLine_onUartRead a (by decide))
  | _ => exact untouched _ rfl rfl rfl rfl

end Display

section Runs

variable {past more : List BoardEvent} {timerOn : Bool}

theorem timer_held (timerOn : Bool) (past : List BoardEvent) :
    (Board.after timerOn past).linePending intGpTimer = true ↔ timerOn = true ∧
      HeldSince (fun before event => Samples before event ∧ Due (before ++ [event]))
        (fun before event => Samples before event ∨ event.acknowledges intGpTimer = true) past := by
  induction past using List.reverseRecOn with
  | nil =>
    have low : (Board.after timerOn []).linePending intGpTimer = false := BitVec.getLsbD_zero
    simp [low, not_heldSince_nil]
  | append_singleton past event ih =>
    rw [Board.after_snoc, timer_step (aligned_after timerOn past), ih, heldSince_snoc, not_or,
      Bool.not_eq_true]
    tauto

theorem status_held (timerOn : Bool) (past : List BoardEvent) (bit : Nat) :
    (Board.after timerOn past).mdpStatus.getLsbD bit = true ↔ Finished past bit := by
  induction past using List.reverseRecOn with
  | nil =>
    have clear : (Board.after timerOn []).mdpStatus.getLsbD bit = false := BitVec.getLsbD_zero
    simp [clear, Finished, not_since_nil]
  | append_singleton past event ih =>
    rw [Board.after_snoc, status_step, ih]
    exact since_snoc.symm

theorem status_eq_zero_iff (timerOn : Bool) (past : List BoardEvent) :
    (Board.after timerOn past).mdpStatus = 0 ↔ ∀ bit, ¬Finished past bit := by
  constructor
  · intro zero bit finished
    have held := (status_held timerOn past bit).mpr finished
    rw [zero] at held
    simp at held
  · intro none
    refine BitVec.eq_of_getLsbD_eq fun bit _ => ?_
    have clear := mt (status_held timerOn past bit).mp (none bit)
    rw [Bool.not_eq_true] at clear
    rw [clear]
    exact BitVec.getLsbD_zero.symm

theorem display_held (timerOn : Bool) (past : List BoardEvent) :
    (Board.after timerOn past).linePending intMdp = true ↔
      HeldSince (fun _ event => event.completes = true)
        (fun before event => event.acknowledges intMdp = true ∨
          event.mdpAcknowledges = true ∧ ∀ bit, ¬Finished (before ++ [event]) bit) past := by
  induction past using List.reverseRecOn with
  | nil =>
    have low : (Board.after timerOn []).linePending intMdp = false := BitVec.getLsbD_zero
    simp [low, not_heldSince_nil]
  | append_singleton past event ih =>
    rw [heldSince_snoc, ← status_eq_zero_iff timerOn, Board.after_snoc, display_step, ih]

theorem registers_read (timerOn : Bool) (past : List BoardEvent) (a : Word) :
    (Board.after timerOn past).onCsrRead a = (csrOffset a).map (registerValue past) := by
  have aligned := aligned_after timerOn past
  rw [Board.onCsrRead, aligned.gptMatch, aligned.gptEnable, aligned.gptCountNow, aligned.dgtCountNow]
  rfl

theorem untouched_append (past : List BoardEvent) (quiet : ∀ event ∈ more, event.timerWrite = none) :
    matchWritten (past ++ more) = matchWritten past ∧
      enableWritten (past ++ more) = enableWritten past ∧
        elapsed (past ++ more) = elapsed past + insns more := by
  induction more using List.reverseRecOn with
  | nil => simp [insns]
  | append_singleton more event ih =>
    obtain ⟨compare, enable, time⟩ := ih fun earlier member => quiet earlier (by simp [member])
    have other := quiet event (by simp)
    rw [← List.append_assoc, matchWritten_snoc, enableWritten_snoc, elapsed_snoc, insns_snoc,
      written_none _ other, written_none _ other, clears_none other, compare, enable, time]
    refine ⟨rfl, rfl, ?_⟩
    simp only [Bool.false_eq_true, if_false]
    omega

theorem ticks_le {early late : Nat} (later : early ≤ late) (bounded : late * 32768 / 1000000 < 2 ^ 32) :
    ticks 32768 early ≤ ticks 32768 late := by
  have value (count : Nat) (before : count ≤ late) :
      (ticks 32768 count).toNat = count * 32768 / 1000000 := by
    rw [ticks, BitVec.toNat_ofNat, Nat.mod_eq_of_lt (show count * 32768 < 2 ^ 64 by omega),
      Nat.mod_eq_of_lt (lt_of_le_of_lt (Nat.div_le_div_right (Nat.mul_le_mul_right _ before)) bounded)]
  rw [BitVec.le_def, value early later, value late le_rfl]
  exact Nat.div_le_div_right (Nat.mul_le_mul_right _ later)

/-- What is due stays so until the timer is written to. -/
theorem Due.append (due : Due past) (quiet : ∀ event ∈ more, event.timerWrite = none)
    (bounded : elapsed (past ++ more) * 32768 / 1000000 < 2 ^ 32) : Due (past ++ more) := by
  obtain ⟨compare, enable, time⟩ := untouched_append past quiet
  rw [Due, compare, enable]
  refine ⟨due.1, BitVec.le_trans due.2 (ticks_le ?_ bounded)⟩
  omega

end Runs

namespace Programmed

variable {past wait more rest : List BoardEvent} {write : BoardEvent}

theorem front (programmed : Programmed past write (wait ++ more)) : Programmed past write wait where
  written := programmed.written
  undisturbed event member := programmed.undisturbed event (List.mem_append_left _ member)
  bounded := by
    have quiet : ∀ event ∈ more, event.timerWrite = none := fun event member =>
      (programmed.undisturbed event (List.mem_append_right _ member)).1
    have time := (untouched_append (past ++ write :: wait) quiet).2.2
    have bounded := programmed.bounded
    rw [← List.cons_append, ← List.append_assoc, time] at bounded
    exact lt_of_le_of_lt (Nat.div_le_div_right (Nat.mul_le_mul_right _ (Nat.le_add_right _ _))) bounded

theorem due_append (programmed : Programmed past write (wait ++ more))
    (due : Due (past ++ write :: wait)) : Due (past ++ write :: (wait ++ more)) := by
  have quiet : ∀ event ∈ more, event.timerWrite = none := fun event member =>
    (programmed.undisturbed event (List.mem_append_right _ member)).1
  have bounded := programmed.bounded
  rw [← List.cons_append, ← List.append_assoc] at bounded ⊢
  exact due.append quiet bounded

/-- Never early: the line tells of an event that has come. -/
theorem due_of_pending (programmed : Programmed past write rest)
    (pending : (Board.after true (past ++ write :: rest)).linePending intGpTimer = true) :
    Due (past ++ write :: rest) := by
  induction rest using List.reverseRecOn with
  | nil =>
    rw [Board.after_snoc, timer_step (aligned_after true past)] at pending
    rcases pending with ⟨_, _, due⟩ | ⟨unsampled, _⟩
    · exact due
    · exact absurd ⟨rfl, .inl programmed.written⟩ unsampled
  | append_singleton rest event ih =>
    rw [← List.cons_append, ← List.append_assoc, Board.after_snoc,
      timer_step (aligned_after true _)] at pending
    rcases pending with ⟨_, _, due⟩ | ⟨_, _, earlier⟩
    · rwa [← List.cons_append, ← List.append_assoc]
    · exact programmed.due_append (ih programmed.front earlier)

/-- Some sample comes within 64 instructions. -/
theorem exists_sample (past : List BoardEvent) (enough : 64 ≤ insns more) :
    ∃ before event after, more = before ++ event :: after ∧ Samples (past ++ before) event := by
  obtain ⟨before, event, after, split, insn, counted⟩ :=
    exists_nth (show 63 - insns past % 64 < more.countP BoardEvent.isInsn from
      lt_of_lt_of_le (by omega) enough)
  refine ⟨before, event, after, split, .inr ⟨insn, ?_⟩⟩
  have total : insns (past ++ before) = insns past + insns before := List.countP_append
  rw [total, show insns before = 63 - insns past % 64 from counted]
  omega

/-- Never late: 64 instructions after the event has come, the line tells of it. -/
theorem pending_of_due (programmed : Programmed past write (wait ++ more))
    (due : Due (past ++ write :: wait)) (enough : 64 ≤ insns more) :
    (Board.after true (past ++ write :: (wait ++ more))).linePending intGpTimer = true := by
  obtain ⟨before, event, after, rfl, samples⟩ := exists_sample (past ++ write :: wait) enough
  rw [timer_held]
  refine ⟨rfl, ?_⟩
  have dueLater (between : List BoardEvent) (rest : List BoardEvent)
      (split : before ++ event :: after = between ++ rest) :
      Due (past ++ write :: wait ++ between) := by
    rw [split, ← List.append_assoc] at programmed
    have later := programmed.front.due_append due
    rwa [← List.cons_append, ← List.append_assoc] at later
  have sampled : HeldSince (fun before event => Samples before event ∧ Due (before ++ [event]))
      (fun before event => Samples before event ∨ event.acknowledges intGpTimer = true)
      (past ++ write :: wait ++ before ++ [event]) := by
    refine heldSince_snoc.mpr (.inl ⟨samples, ?_⟩)
    rw [List.append_assoc]
    exact dueLater (before ++ [event]) after (by simp)
  have whole : past ++ write :: (wait ++ (before ++ event :: after)) =
      past ++ write :: wait ++ before ++ [event] ++ after := by simp
  rw [whole]
  refine sampled.append fun between later rest split stops => ?_
  have heard : later.acknowledges intGpTimer = false :=
    (programmed.undisturbed later (by simp [split])).2
  refine ⟨stops.resolve_right (by simp [heard]), ?_⟩
  have due := dueLater (before ++ event :: between ++ [later]) rest (by simp [split])
  simpa using due

end Programmed

/-- The timer and the display over any run of the machine, whatever the order of its events. -/
theorem clockevent_law (timerOn : Bool) (events : List BoardEvent) : BoardLaw timerOn events where
  registers past a _ _ := registers_read timerOn past a
  timer past _ _ := timer_held timerOn past
  onTime past write rest _ _ programmed on := by
    subst on
    refine ⟨programmed.due_of_pending, fun wait more split due enough => ?_⟩
    subst split
    exact programmed.pending_of_due due enough
  status past _ _ := ⟨_, if_pos rfl, status_held timerOn past⟩
  display past _ _ := display_held timerOn past

end ZeeboLle.Linux

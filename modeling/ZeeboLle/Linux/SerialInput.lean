import ZeeboLle.Linux.Vic
import ZeeboLle.Scheduling.Runs

/-! Serial input of the Linux machine: the host's bytes wait in a buffer, one of them is staged for
the guest, and the level of the UART's interrupt is mirrored into a pending bit of the interrupt
controller. The three UART windows are served by one handler. -/
namespace ZeeboLle.Linux

open Unicorn Scheduling

def uart1Base : Word := 0xa9a00000
/-- The port of the console, `UART3_PHYS`. -/
def uart2Base : Word := 0xa9c00000
def uart3Base : Word := 0xa9e00000
def uartSize : Word := 0x10000

def uartOffSr : Word := 0x8
def uartOffTf : Word := 0xc
def uartOffCr : Word := 0x10
def uartOffImr : Word := 0x14

/-- TX_EMPTY and TX_READY, and RX_READY while a byte is staged. -/
def uartStatus (rxStaged : Bool) : Word :=
  (1#32 <<< 3) ||| (1#32 <<< 2) ||| if rxStaged then 1#32 else 0#32

/-- `uart_base_for`. -/
def uartBaseFor (a : Word) : Option Word :=
  [uart1Base, uart2Base, uart3Base].find? fun b => b ≤ a && a < b + uartSize

def uartIdx (base : Word) : Fin 3 :=
  if base = uart1Base then 0 else if base = uart2Base then 1 else 2

/-- The serial ports with what the host has for them; `console` is what the guest wrote. -/
structure Serial where
  imr : Fin 3 → Word
  rxBuf : List Byte
  rxStaged : Bool
  rxChar : Byte
  txIrq : Bool
  rxIrq : Bool
  console : List Byte
  vic : LinuxVic

namespace Serial

def start : Serial where
  imr _ := 0
  rxBuf := []
  rxStaged := false
  rxChar := 0
  txIrq := false
  rxIrq := false
  console := []
  vic := ⟨⟨0, 0, 0, 0⟩, 0, false, 0⟩

/-- The level of line 11 goes into its pending bit. -/
def uartUpdateIrq (serial : Serial) : Serial :=
  let lines := serial.vic.lines
  let pending0 :=
    if serial.txIrq || serial.rxIrq then lines.pending0 ||| (1#32 <<< 11)
    else lines.pending0 &&& ~~~(1#32 <<< 11)
  { serial with vic := { serial.vic with lines := { lines with pending0 } } }

/-- A byte that waits at the terminal, if there is one, is taken when nothing else is left. -/
def rxFillFromHost (serial : Serial) (waiting : Option Byte) : Serial :=
  if !serial.rxBuf.isEmpty || serial.rxStaged then serial
  else
    match waiting with
    | some c => { serial with rxBuf := serial.rxBuf ++ [c] }
    | none => serial

def rxTryStage (serial : Serial) : Serial :=
  if serial.rxStaged then serial
  else
    match serial.rxBuf with
    | [] => serial
    | c :: rest =>
      if serial.imr 1 &&& ((1 <<< 4) ||| (1 <<< 3)) = 0 then serial
      else
        { serial with
          rxChar := c
          rxBuf := rest
          rxStaged := true
          rxIrq := true : Serial }.uartUpdateIrq

/-- A character the console keeps. -/
def printable (c : Byte) : Bool := c = 10 || c = 13 || 0x20 ≤ c && c < 0x7f

def onUartWrite (serial : Serial) (a value : Word) : Serial :=
  match uartBaseFor a with
  | none => serial
  | some base =>
    let off := a - base
    if off = uartOffTf then
      let c := value.setWidth 8
      if printable c then { serial with console := serial.console ++ [c] } else serial
    else if off = uartOffImr then
      let serial := { serial with imr := Function.update serial.imr (uartIdx base) value }
      if uartIdx base = 1 then { serial with txIrq := value &&& 1 ≠ 0 : Serial }.uartUpdateIrq
      else serial
    else serial

/-- What the guest reads, where a UART is. -/
def onUartRead (serial : Serial) (a : Word) : Option Word × Serial :=
  match uartBaseFor a with
  | none => (none, serial)
  | some base =>
    let off := a - base
    if off = uartOffSr then (some (uartStatus serial.rxStaged), serial)
    else if off = uartOffTf then
      if serial.rxStaged then
        (some (serial.rxChar.setWidth 32),
          { serial with rxStaged := false, rxIrq := false : Serial }.uartUpdateIrq)
      else (some 0, serial)
    else if off = uartOffImr then (some (1 <<< 7), serial)
    else if off = uartOffCr then
      (some (serial.imr (uartIdx base) &&& (1 ||| (1 <<< 3) ||| (1 <<< 4))), serial)
    else (some 0, serial)

end Serial

/-- The host's input and calls, and the guest's accesses to the ports and the interrupt
controller. -/
inductive SerialEvent where
  | typed (bytes : List Byte)
  | fill (waiting : Option Byte)
  | stage
  | uartWrite (a value : Word)
  | uartRead (a : Word)
  | vicWrite (off v : Word)
deriving DecidableEq

/-- A run so far: the ports, all the host has put in, and what the guest has read from the console
port's FIFO while its status showed a byte. -/
structure SerialRun where
  serial : Serial
  input : List Byte
  delivered : List Byte

namespace Serial

/-- The console port's status shows RX_READY. -/
def showsReady (serial : Serial) : Bool :=
  ((serial.onUartRead (uart2Base + uartOffSr)).1.getD 0).getLsbD 0

/-- The effect of an event on the ports. -/
def after (serial : Serial) : SerialEvent → Serial
  | .typed bytes => { serial with rxBuf := serial.rxBuf ++ bytes }
  | .fill waiting => serial.rxFillFromHost waiting
  | .stage => serial.rxTryStage
  | .uartWrite a value => serial.onUartWrite a value
  | .uartRead a => (serial.onUartRead a).2
  | .vicWrite off v => { serial with vic := serial.vic.onVicWrite off v }

/-- The bytes an event takes from the host. -/
def taken (serial : Serial) : SerialEvent → List Byte
  | .typed bytes => bytes
  | .fill waiting => (serial.rxFillFromHost waiting).rxBuf.drop serial.rxBuf.length
  | .stage => []
  | .uartWrite _ _ => []
  | .uartRead _ => []
  | .vicWrite _ _ => []

/-- The bytes an event gives to the guest. -/
def given (serial : Serial) : SerialEvent → List Byte
  | .typed _ => []
  | .fill _ => []
  | .stage => []
  | .uartWrite _ _ => []
  | .uartRead a =>
    if a = uart2Base + uartOffTf ∧ serial.showsReady = true then
      [((serial.onUartRead a).1.getD 0).setWidth 8]
    else []
  | .vicWrite _ _ => []

end Serial

namespace SerialRun

def step (run : SerialRun) (event : SerialEvent) : SerialRun where
  serial := run.serial.after event
  input := run.input ++ run.serial.taken event
  delivered := run.delivered ++ run.serial.given event

def of (events : List SerialEvent) : SerialRun := events.foldl step ⟨.start, [], []⟩

end SerialRun

namespace Serial

/-- A byte is staged and the console port's receive interrupts are enabled, or its transmit
interrupt is. -/
def Wanted (serial : Serial) : Prop :=
  serial.rxStaged = true ∧ serial.imr 1 &&& ((1 <<< 4) ||| (1 <<< 3)) ≠ 0 ∨ serial.imr 1 &&& 1 ≠ 0

/-- Line 11. -/
def linePending (serial : Serial) : Bool := serial.vic.lines.pending0.getLsbD 11

end Serial

/-- Bytes come in order and once, only from the console port, and its line is pending whenever it
is wanted. -/
structure SerialLaw (events : List SerialEvent) : Prop where
  ordered : ∀ past later, events = past ++ later →
    (SerialRun.of past).delivered <+: (SerialRun.of past).input
  others : ∀ past a base later, events = past ++ .uartRead a :: later →
    uartBaseFor a = some base → base ≠ uart2Base →
      (∀ value, ((SerialRun.of past).serial.onUartRead a).1 = some value → a - base = uartOffSr →
        value.getLsbD 0 = false) ∧
      ((SerialRun.of past).serial.onUartRead a).2.rxStaged = (SerialRun.of past).serial.rxStaged ∧
      ((SerialRun.of past).serial.onUartRead a).2.rxBuf = (SerialRun.of past).serial.rxBuf
  wakes : ∀ past later, events = past ++ later →
    (SerialRun.of past).serial.Wanted → (SerialRun.of past).serial.linePending = true

/-- The status or the FIFO of another port is read only while nothing is staged, and the line is
acknowledged only while it is not wanted. -/
structure Fair (serial : Serial) (event : SerialEvent) : Prop where
  reads : ∀ a base, event = .uartRead a → uartBaseFor a = some base → base ≠ uart2Base →
    a - base = uartOffSr ∨ a - base = uartOffTf → serial.rxStaged = false
  acknowledges : ∀ v, event = .vicWrite vicOffClear0 v → v.getLsbD 11 = true → ¬serial.Wanted

namespace Serial

variable {serial : Serial} {event : SerialEvent} {a base v : Word}

theorem onUartRead_sr (window : uartBaseFor a = some base) (sr : a - base = uartOffSr) :
    serial.onUartRead a = (some (uartStatus serial.rxStaged), serial) := by
  simp only [onUartRead, window, sr, if_true]

theorem onUartRead_rf (window : uartBaseFor a = some base) (rf : a - base = uartOffTf) :
    serial.onUartRead a =
      if serial.rxStaged then
        (some (serial.rxChar.setWidth 32),
          { serial with rxStaged := false, rxIrq := false : Serial }.uartUpdateIrq)
      else (some 0, serial) := by
  have other : uartOffTf ≠ uartOffSr := by decide
  simp only [onUartRead, window, rf, if_neg other, if_true]

/-- Only the FIFO changes anything when read, and only while a byte is staged. -/
theorem onUartRead_quiet
    (quiet : ∀ base, uartBaseFor a = some base → a - base = uartOffTf → serial.rxStaged = false) :
    (serial.onUartRead a).2 = serial := by
  unfold onUartRead
  split
  · rfl
  · next base window =>
    dsimp only
    split
    · rfl
    · split
      · next rf => rw [quiet base window rf, if_neg Bool.false_ne_true]
      · split_ifs
        all_goals rfl

theorem uartStatus_ready (rxStaged : Bool) : (uartStatus rxStaged).getLsbD 0 = rxStaged := by
  cases rxStaged with
  | true => decide
  | false => decide

theorem uart2_window (off : Word) (listed : off = uartOffSr ∨ off = uartOffTf) :
    uartBaseFor (uart2Base + off) = some uart2Base ∧ uart2Base + off - uart2Base = off := by
  rcases listed with rfl | rfl
  · decide
  · decide

theorem showsReady_eq (serial : Serial) : serial.showsReady = serial.rxStaged := by
  obtain ⟨window, sr⟩ := uart2_window uartOffSr (.inl rfl)
  rw [showsReady, onUartRead_sr window sr]
  exact uartStatus_ready serial.rxStaged

theorem linePending_update (serial : Serial) :
    serial.uartUpdateIrq.linePending = (serial.txIrq || serial.rxIrq) := by
  have bits : (1#32 <<< 11).getLsbD 11 = true ∧ (~~~(1#32 <<< 11)).getLsbD 11 = false := by decide
  unfold linePending uartUpdateIrq
  dsimp only
  cases serial.txIrq || serial.rxIrq with
  | true => rw [if_pos rfl, BitVec.getLsbD_or, bits.1, Bool.or_true]
  | false => rw [if_neg (by decide), BitVec.getLsbD_and, bits.2, Bool.and_false]

theorem onVicWrite_pending0 (vic : LinuxVic) (off v : Word) :
    (vic.onVicWrite off v).lines.pending0 =
      if off = vicOffClear0 then vic.lines.pending0 &&& ~~~v else vic.lines.pending0 := by
  by_cases clear : off = vicOffClear0
  · subst clear
    rfl
  · simp only [LinuxVic.onVicWrite, if_neg clear]
    split_ifs
    all_goals rfl

/-- The two levels are what the ports say. -/
structure Levels (serial : Serial) : Prop where
  rx : serial.rxIrq = serial.rxStaged
  tx : serial.txIrq = decide (serial.imr 1 &&& 1 ≠ 0)

theorem Levels.wanted (levels : serial.Levels) (wanted : serial.Wanted) :
    (serial.txIrq || serial.rxIrq) = true := by
  rw [levels.rx, levels.tx, Bool.or_eq_true, decide_eq_true_eq]
  rcases wanted with ⟨staged, -⟩ | enabled
  · exact .inr staged
  · exact .inl enabled

/-- The console port and its input are the same. -/
structure SameInput (left right : Serial) : Prop where
  mask : left.imr 1 = right.imr 1
  rxBuf : left.rxBuf = right.rxBuf
  rxStaged : left.rxStaged = right.rxStaged
  rxChar : left.rxChar = right.rxChar
  txIrq : left.txIrq = right.txIrq
  rxIrq : left.rxIrq = right.rxIrq
  pending : left.linePending = right.linePending

theorem SameInput.refl (serial : Serial) : SameInput serial serial := ⟨rfl, rfl, rfl, rfl, rfl, rfl, rfl⟩

theorem SameInput.levels {other : Serial} (same : SameInput other serial) (levels : serial.Levels) :
    other.Levels := by
  refine ⟨?_, ?_⟩
  · rw [same.rxIrq, same.rxStaged, levels.rx]
  · rw [same.txIrq, same.mask, levels.tx]

theorem SameInput.wanted {other : Serial} (same : SameInput other serial) :
    other.Wanted ↔ serial.Wanted := by
  rw [Wanted, Wanted, same.rxStaged, same.mask]

/-- The console port with a new mask. -/
def masked (serial : Serial) (value : Word) : Serial :=
  { serial with
    imr := Function.update serial.imr 1 value
    txIrq := value &&& 1 ≠ 0 : Serial }.uartUpdateIrq

/-- A write sets the console port's mask, or leaves its input alone. -/
theorem onUartWrite_effect (serial : Serial) (a value : Word) :
    serial.onUartWrite a value = serial.masked value ∨
      SameInput (serial.onUartWrite a value) serial := by
  unfold onUartWrite
  split
  · exact .inr (.refl serial)
  · next base _ =>
    dsimp only
    split
    · split
      · exact .inr ⟨rfl, rfl, rfl, rfl, rfl, rfl, rfl⟩
      · exact .inr (.refl serial)
    · split
      · split
        · next console =>
          rw [console]
          exact .inl rfl
        · next other =>
          exact .inr ⟨Function.update_of_ne (Ne.symm other) _ _, rfl, rfl, rfl, rfl, rfl, rfl⟩
      · exact .inr (.refl serial)

/-- A byte is staged, or nothing changes. -/
theorem rxTryStage_effect (serial : Serial) :
    serial.rxTryStage = serial ∨
      ∃ c rest, serial.rxStaged = false ∧ serial.rxBuf = c :: rest ∧
        serial.rxTryStage =
          { serial with rxChar := c, rxBuf := rest, rxStaged := true, rxIrq := true : Serial }.uartUpdateIrq := by
  unfold rxTryStage
  split
  · exact .inl rfl
  · next idle =>
    split
    · exact .inl rfl
    · next c rest waiting =>
      split
      · exact .inl rfl
      · exact .inr ⟨c, rest, eq_false_of_ne_true idle, waiting, rfl⟩

/-- The staged byte is consumed, or nothing changes. -/
theorem onUartRead_effect (serial : Serial) (a : Word) :
    (serial.onUartRead a).2 = serial ∨
      ∃ base, uartBaseFor a = some base ∧ a - base = uartOffTf ∧ serial.rxStaged = true ∧
        serial.onUartRead a = (some (serial.rxChar.setWidth 32),
          { serial with rxStaged := false, rxIrq := false : Serial }.uartUpdateIrq) := by
  by_cases consumed : ∃ base, uartBaseFor a = some base ∧ a - base = uartOffTf ∧ serial.rxStaged = true
  · obtain ⟨base, window, rf, staged⟩ := consumed
    exact .inr ⟨base, window, rf, staged, by rw [onUartRead_rf window rf, if_pos staged]⟩
  · refine .inl (onUartRead_quiet fun base window rf => ?_)
    exact eq_false_of_ne_true fun staged => consumed ⟨base, window, rf, staged⟩

theorem rxFillFromHost_eq (serial : Serial) (waiting : Option Byte) :
    serial.rxFillFromHost waiting =
      { serial with rxBuf := serial.rxBuf ++ serial.taken (.fill waiting) } := by
  have more : (serial.rxFillFromHost waiting).rxBuf = serial.rxBuf ++ serial.taken (.fill waiting) ∧
      serial.rxFillFromHost waiting =
        { serial with rxBuf := (serial.rxFillFromHost waiting).rxBuf } := by
    rw [taken]
    unfold rxFillFromHost
    split
    · simp
    · split
      · simp
      · simp
  rw [more.2, more.1]

theorem Levels.after (levels : serial.Levels) (event : SerialEvent) : (serial.after event).Levels := by
  cases event with
  | typed bytes => exact ⟨levels.rx, levels.tx⟩
  | fill waiting =>
    rw [Serial.after, rxFillFromHost_eq]
    exact ⟨levels.rx, levels.tx⟩
  | stage =>
    rcases serial.rxTryStage_effect with same | ⟨c, rest, -, -, staged⟩
    · rwa [Serial.after, same]
    · rw [Serial.after, staged]
      exact ⟨rfl, levels.tx⟩
  | uartWrite a value =>
    rcases serial.onUartWrite_effect a value with mask | same
    · rw [Serial.after, mask]
      exact ⟨levels.rx, by rw [masked]; rfl⟩
    · exact same.levels levels
  | uartRead a =>
    rcases serial.onUartRead_effect a with same | ⟨base, -, -, -, read⟩
    · rwa [Serial.after, same]
    · rw [Serial.after, read]
      exact ⟨rfl, levels.tx⟩
  | vicWrite off v => exact ⟨levels.rx, levels.tx⟩

/-- What waits: the staged byte and the buffer. -/
def waiting (serial : Serial) : List Byte :=
  (if serial.rxStaged then [serial.rxChar] else []) ++ serial.rxBuf

/-- A line that was just updated is pending if it is wanted. -/
theorem Levels.update_pending {other : Serial} (levels : other.uartUpdateIrq.Levels)
    (wanted : other.uartUpdateIrq.Wanted) : other.uartUpdateIrq.linePending = true := by
  rw [linePending_update]
  exact levels.wanted wanted

/-- An acknowledgement clears what it names. -/
theorem linePending_vicWrite (serial : Serial) (off v : Word) :
    (serial.after (.vicWrite off v)).linePending =
      (serial.linePending && !(off = vicOffClear0 && v.getLsbD 11)) := by
  rw [linePending, Serial.after, onVicWrite_pending0, linePending]
  by_cases clear : off = vicOffClear0
  · rw [if_pos clear, BitVec.getLsbD_and, BitVec.getLsbD_not]
    simp [clear]
  · rw [if_neg clear]
    simp [clear]

/-- A fair read of the guest consumes a byte only to deliver it. -/
theorem uartRead_conserved (fair : Fair serial (.uartRead a)) :
    serial.waiting = serial.given (.uartRead a) ++ (serial.onUartRead a).2.waiting := by
  by_cases delivers : a = uart2Base + uartOffTf ∧ serial.showsReady = true
  · obtain ⟨rfl, ready⟩ := delivers
    have staged : serial.rxStaged = true := serial.showsReady_eq ▸ ready
    obtain ⟨window, rf⟩ := uart2_window uartOffTf (.inr rfl)
    have read := (onUartRead_rf window rf).trans (if_pos staged)
    have byte : (serial.rxChar.setWidth 32).setWidth 8 = serial.rxChar := by simp
    rw [given, if_pos ⟨rfl, ready⟩, read, Option.getD_some, byte, waiting, if_pos staged]
    rfl
  · have kept : (serial.onUartRead a).2 = serial := by
      refine onUartRead_quiet fun base window rf => ?_
      by_cases console : base = uart2Base
      · subst console
        have place : a = uart2Base + uartOffTf := by
          rw [← rf, BitVec.add_comm, BitVec.sub_add_cancel]
        exact eq_false_of_ne_true fun staged => delivers ⟨place, serial.showsReady_eq.trans staged⟩
      · exact fair.reads a base rfl window console (.inr rf)
    rw [given, if_neg delivers, kept, List.nil_append]

/-- What the host puts in waits behind what waited, until it is given to the guest. -/
theorem conserved (fair : Fair serial event) :
    serial.waiting ++ serial.taken event = serial.given event ++ (serial.after event).waiting := by
  cases event with
  | typed bytes => exact List.append_assoc _ _ _
  | fill more =>
    rw [Serial.after, rxFillFromHost_eq]
    exact List.append_assoc _ _ _
  | stage =>
    rw [taken, given, List.append_nil, List.nil_append]
    rcases serial.rxTryStage_effect with same | ⟨c, rest, idle, buffered, staged⟩
    · rw [Serial.after, same]
    · rw [Serial.after, staged, waiting, idle, buffered]
      rfl
  | uartWrite a value =>
    rw [taken, given, List.append_nil, List.nil_append]
    rcases serial.onUartWrite_effect a value with mask | same
    · rw [Serial.after, mask]
      rfl
    · rw [Serial.after, waiting, waiting, same.rxStaged, same.rxChar, same.rxBuf]
  | uartRead a =>
    rw [taken, List.append_nil]
    exact uartRead_conserved fair
  | vicWrite off v =>
    rw [taken, given, List.append_nil, List.nil_append]
    rfl

/-- A fair event leaves the line pending if it is wanted. -/
theorem wakes_after (levels : serial.Levels) (wakes : serial.Wanted → serial.linePending = true)
    (fair : Fair serial event) (wanted : (serial.after event).Wanted) :
    (serial.after event).linePending = true := by
  have updated := levels.after event
  cases event with
  | typed bytes => exact wakes wanted
  | fill more =>
    rw [Serial.after, rxFillFromHost_eq] at wanted ⊢
    exact wakes wanted
  | stage =>
    rw [Serial.after] at updated wanted ⊢
    rcases serial.rxTryStage_effect with same | ⟨c, rest, -, -, staged⟩
    · rw [same] at wanted ⊢
      exact wakes wanted
    · rw [staged] at updated wanted ⊢
      exact updated.update_pending wanted
  | uartWrite a value =>
    rw [Serial.after] at updated wanted ⊢
    rcases serial.onUartWrite_effect a value with mask | same
    · rw [mask, masked] at updated wanted ⊢
      exact updated.update_pending wanted
    · rw [same.pending]
      exact wakes (same.wanted.mp wanted)
  | uartRead a =>
    rw [Serial.after] at updated wanted ⊢
    rcases serial.onUartRead_effect a with same | ⟨base, -, -, -, read⟩
    · rw [same] at wanted ⊢
      exact wakes wanted
    · rw [read] at updated wanted ⊢
      exact updated.update_pending wanted
  | vicWrite off v =>
    rw [linePending_vicWrite, wakes wanted, Bool.true_and, Bool.not_eq_true', Bool.and_eq_false_iff]
    by_cases clear : off = vicOffClear0
    · subst clear
      exact .inr (eq_false_of_ne_true fun set => fair.acknowledges v rfl set wanted)
    · exact .inl (decide_eq_false clear)

end Serial

namespace SerialRun

variable {run : SerialRun} {event : SerialEvent}

structure Sound (run : SerialRun) : Prop where
  levels : run.serial.Levels
  order : run.input = run.delivered ++ run.serial.waiting
  wakes : run.serial.Wanted → run.serial.linePending = true

theorem Sound.step (sound : run.Sound) (fair : Fair run.serial event) : (run.step event).Sound where
  levels := sound.levels.after event
  order := by
    rw [SerialRun.step, sound.order, List.append_assoc, Serial.conserved fair, List.append_assoc]
  wakes := Serial.wakes_after sound.levels sound.wakes fair

theorem of_snoc (events : List SerialEvent) (event : SerialEvent) :
    of (events ++ [event]) = (of events).step event := by
  simp [of]

theorem sound_of {events : List SerialEvent}
    (fair : Throughout (fun past event => Fair (of past).serial event) events) : (of events).Sound := by
  induction events using List.reverseRecOn with
  | nil => exact ⟨⟨rfl, rfl⟩, rfl, fun wanted => absurd wanted (by unfold Serial.Wanted; decide)⟩
  | append_singleton events event ih =>
    obtain ⟨earlier, last⟩ := throughout_snoc.mp fair
    rw [of_snoc]
    exact (ih earlier).step last

end SerialRun

/-- The law holds of a run exactly if every event in it is fair. -/
theorem serialLaw_iff (events : List SerialEvent) : SerialLaw events ↔
    ∀ past event later, events = past ++ event :: later → Fair (SerialRun.of past).serial event := by
  constructor
  · intro law past event later split
    generalize held : SerialRun.of past = run
    refine ⟨?_, ?_⟩
    · rintro a base rfl window other read
      obtain ⟨status, staged, -⟩ := law.others past a base later split window other
      rw [held] at status staged
      by_contra waiting
      have ready : run.serial.rxStaged = true := by simpa using waiting
      rcases read with sr | rf
      · rw [Serial.onUartRead_sr window sr] at status
        have shown := status _ rfl sr
        rw [Serial.uartStatus_ready, ready] at shown
        cases shown
      · rw [Serial.onUartRead_rf window rf, if_pos ready, ready] at staged
        cases staged
    · rintro v rfl set wanted
      have lost := law.wakes (past ++ [.vicWrite vicOffClear0 v]) later (by simp [split])
      rw [SerialRun.of_snoc, held] at lost
      have pending := lost wanted
      rw [SerialRun.step, Serial.linePending_vicWrite, set] at pending
      simp at pending
  · intro fair
    have sound : ∀ past later, events = past ++ later → (SerialRun.of past).Sound := by
      rintro past later rfl
      refine SerialRun.sound_of fun before event after split => ?_
      exact fair before event (after ++ later) (by simp [split])
    refine ⟨fun past later split => ?_, fun past a base later split window other => ?_,
      fun past later split => (sound past later split).wakes⟩
    · rw [(sound past later split).order]
      exact List.prefix_append _ _
    · have idle := (fair past _ later split).reads a base rfl window other
      have kept : ((SerialRun.of past).serial.onUartRead a).2 = (SerialRun.of past).serial := by
        refine Serial.onUartRead_quiet fun found also rf => ?_
        rw [window, Option.some.injEq] at also
        subst also
        exact idle (.inr rf)
      refine ⟨fun value read sr => ?_, by rw [kept], by rw [kept]⟩
      rw [Serial.onUartRead_sr window sr, Option.some.injEq] at read
      rw [← read, Serial.uartStatus_ready]
      exact idle (.inl sr)

/-- With a byte staged for the console, another port shows and takes it. -/
theorem not_serialLaw_other :
    ¬SerialLaw [.uartWrite 0xa9c00014 0x18, .typed [65], .stage, .uartRead 0xa9a0000c] := by
  intro law
  have taken := (law.others [.uartWrite 0xa9c00014 0x18, .typed [65], .stage] 0xa9a0000c uart1Base []
    rfl (by decide) (by decide)).2.1
  revert taken
  decide +kernel

end ZeeboLle.Linux

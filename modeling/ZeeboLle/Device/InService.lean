import ZeeboLle.Device.PeripheralBus
import Mathlib.Data.List.Induction
import Mathlib.Logic.Function.Iterate

/-! The life of an interrupt line over whole runs of the bus: pending, taken into service,
acknowledged or retired. Which lines are in service is kept twice, as a mask and as the one
line taken last; the two disagree once a line is acknowledged through INT_CLEAR0 or a second
line is taken. -/
namespace ZeeboLle.Device

open Unicorn

theorem getLsbD_line {line : Nat} (bound : line < 32) (index : Nat) :
    (1#32 <<< line).getLsbD index = decide (index = line) := by
  rw [BitVec.getLsbD_shiftLeft, BitVec.getLsbD_one]
  by_cases same : index = line
  · subst same
    simp [bound]
  · by_cases below : index < line
    · simp [below, same]
    · have positive : index - line ≠ 0 := by omega
      simp [same, positive]

namespace VicState

variable {vic : VicState} {line other : Nat} {mask : Word}

theorem deliverableLine_spec (found : vic.deliverableLine = some line) :
    line < 32 ∧ vic.inService.getLsbD line = false := by
  have member := List.mem_of_find?_eq_some found
  have passes := List.find?_some found
  have bound := List.mem_range.mp member
  simp only [BitVec.getLsbD_and, BitVec.getLsbD_not, Bool.and_eq_true, Bool.not_eq_true'] at passes
  exact ⟨bound, by simpa [bound] using passes.2⟩

@[simp] theorem raiseLine_inService : (vic.raiseLine line).inService = vic.inService := by
  unfold raiseLine
  split
  · rfl
  · rfl

@[simp] theorem raiseLine_inServiceLine :
    (vic.raiseLine line).inServiceLine = vic.inServiceLine := by
  unfold raiseLine
  split
  · rfl
  · rfl

/-- Raising a line drops none. -/
theorem raiseLine_pending (held : vic.pending.getLsbD other = true) :
    (vic.raiseLine line).pending.getLsbD other = true := by
  unfold raiseLine
  split
  · simp [held]
  · exact held

theorem ackMask_pending : (vic.ackMask mask).pending.getLsbD other =
    (vic.pending.getLsbD other && !mask.getLsbD other) := by
  by_cases bound : other < 32
  · simp [ackMask, bound]
  · simp [ackMask, BitVec.getLsbD_of_ge _ _ (Nat.le_of_not_lt bound)]

theorem ackMask_inService : (vic.ackMask mask).inService.getLsbD other =
    (vic.inService.getLsbD other && !mask.getLsbD other) := by
  by_cases bound : other < 32
  · simp [ackMask, bound]
  · simp [ackMask, BitVec.getLsbD_of_ge _ _ (Nat.le_of_not_lt bound)]

theorem take_inService (bound : line < 32) :
    (vic.take line).inService.getLsbD other = (vic.inService.getLsbD other || decide (other = line)) := by
  simp [take, getLsbD_line bound]

/-- The end of interrupt with a line to retire. -/
theorem eoiCurrent_some (last : vic.inServiceLine = some line) (bound : line < 32) :
    (vic.eoiCurrent.pending.getLsbD other = (vic.pending.getLsbD other && decide (other ≠ line))) ∧
      (vic.eoiCurrent.inService.getLsbD other =
        (vic.inService.getLsbD other && decide (other ≠ line))) := by
  simp only [eoiCurrent, last, BitVec.getLsbD_and, BitVec.getLsbD_not, getLsbD_line bound, decide_not]
  by_cases small : other < 32
  · simp [small]
  · simp [small, BitVec.getLsbD_of_ge _ _ (Nat.le_of_not_lt small)]

theorem eoiCurrent_none (last : vic.inServiceLine = none) : vic.eoiCurrent = vic := by
  rw [eoiCurrent, last]

@[simp] theorem eoiCurrent_inServiceLine : vic.eoiCurrent.inServiceLine = none := by
  cases last : vic.inServiceLine with
  | none => rw [eoiCurrent_none last, last]
  | some line => simp only [eoiCurrent, last]

/-- A register whose bits only an acknowledgement and an end of interrupt drop. -/
structure Latched (register : VicState → Word) : Prop where
  enables : ∀ (vic : VicState) (enable : Word), register { vic with enable } = register vic
  raises : ∀ {vic : VicState} {line other : Nat}, (register vic).getLsbD other = true →
    (register (vic.raiseLine line)).getLsbD other = true
  acks : ∀ {vic : VicState} {mask : Word} {other : Nat}, (register (vic.ackMask mask)).getLsbD other =
    ((register vic).getLsbD other && !mask.getLsbD other)
  retires : ∀ {vic : VicState} {line other : Nat}, vic.inServiceLine = some line → line < 32 →
    (register vic.eoiCurrent).getLsbD other = ((register vic).getLsbD other && decide (other ≠ line))
  takes : ∀ {vic : VicState} {line other : Nat}, (register vic).getLsbD other = true →
    (register (vic.take line)).getLsbD other = true

theorem latched_pending : Latched pending where
  enables _ _ := rfl
  raises := raiseLine_pending
  acks := ackMask_pending
  retires last bound := (eoiCurrent_some last bound).1
  takes held := held

theorem latched_inService : Latched inService where
  enables _ _ := rfl
  raises held := by rwa [raiseLine_inService]
  acks := ackMask_inService
  retires last bound := (eoiCurrent_some last bound).2
  takes held := by simp [take, held]

end VicState

/-- All an event can do to the controller: the lines it acknowledges, whether it ends an
interrupt, the line it takes, and the controller afterwards. -/
inductive VicStep (vic : VicState) : Word → Bool → Option Nat → VicState → Prop where
  | enables (enable : Word) : VicStep vic 0 false none { vic with enable }
  | raises (line : Nat) : VicStep vic 0 false none (vic.raiseLine line)
  | acks (mask : Word) : VicStep vic mask false none (vic.ackMask mask)
  | retires : VicStep vic 0 true none vic.eoiCurrent
  | takes (line : Nat) (deliverable : vic.deliverableLine = some line) :
      VicStep vic 0 false (some line) (vic.take line)

namespace PeripheralBus

variable {layout : BusLayout} {pbus : PeripheralBus} {event : BusEvent} {line : Nat}

private theorem step_vic_write (layout : BusLayout) (pbus : PeripheralBus) (addr value : Word) :
    VicStep pbus.vic (clears layout (.write addr value)) (isEoi layout (.write addr value)) none
      (pbus.mmioWrite layout addr value).2.vic := by
  cases decoded : layout.vicOffset addr with
  | none =>
    have timer : (pbus.mmioWrite layout addr value).2.vic = pbus.vic := by
      rw [mmioWrite, decoded]
      dsimp only
      split
      · rfl
      · rfl
    rw [timer]
    simp only [clears, isEoi, decoded, reduceCtorEq, if_false, decide_false]
    exact .enables pbus.vic.enable
  | some offset =>
    rw [mmioWrite, decoded]
    simp only [clears, isEoi, decoded, Option.some.injEq, VicState.writeReg]
    by_cases clear : offset = BusLayout.intClear0
    · subst clear
      exact .acks value
    · rw [if_neg clear, if_neg clear]
      by_cases enable : offset = 0x28
      · subst enable
        exact .enables _
      · rw [if_neg enable]
        by_cases disable : offset = 0x40
        · subst disable
          exact .enables _
        · rw [if_neg disable]
          by_cases eoi : offset = BusLayout.irqVecRd
          · subst eoi
            exact .retires
          · rw [if_neg eoi, decide_eq_false eoi]
            exact .enables pbus.vic.enable

private theorem step_vic_read (layout : BusLayout) (pbus : PeripheralBus) (addr : Word) :
    VicStep pbus.vic 0 false (taken layout pbus (.read addr)) (pbus.mmioRead layout addr).2.vic := by
  have quiet : VicStep pbus.vic 0 false none pbus.vic := .enables pbus.vic.enable
  cases decoded : layout.vicOffset addr with
  | none =>
    have timer : (pbus.mmioRead layout addr).2.vic = pbus.vic := by
      rw [mmioRead, decoded]
      dsimp only
      split
      · rfl
      · rfl
    rw [timer, taken, decoded]
    exact quiet
  | some offset =>
    simp only [mmioRead, decoded, taken, Option.some.injEq]
    by_cases vector : offset = BusLayout.irqVecRd
    · subst vector
      have read : pbus.vic.readReg BusLayout.irqVecRd = pbus.vic.vectorAndAck := rfl
      rw [if_pos rfl, read, VicState.vectorAndAck]
      cases found : pbus.vic.deliverableLine with
      | none => exact quiet
      | some line => exact .takes line found
    · rw [if_neg vector, VicState.readReg, if_neg vector]
      split
      · exact quiet
      · split
        · exact quiet
        · exact quiet

theorem step_vic (layout : BusLayout) (pbus : PeripheralBus) (event : BusEvent) :
    VicStep pbus.vic (clears layout event) (isEoi layout event) (taken layout pbus event)
      (pbus.step layout event).vic := by
  have quiet : VicStep pbus.vic 0 false none pbus.vic := .enables pbus.vic.enable
  cases event with
  | raiseLine line => exact .raises line
  | tick vticks =>
    change VicStep pbus.vic 0 false none (pbus.tick layout vticks).2.vic
    unfold tick
    split
    · exact .raises layout.gptLine
    · exact quiet
  | write addr value => exact step_vic_write layout pbus addr value
  | read addr => exact step_vic_read layout pbus addr
  | deliverIrq regs vectorBase =>
    change VicStep pbus.vic 0 false _ (vicDeliverNext regs pbus.vic vectorBase).2.2
    simp only [taken, vicDeliverNext]
    cases found : pbus.vic.deliverableLine with
    | none => simpa using quiet
    | some line =>
      by_cases masked : regs.cpsr &&& cpsrIBit = 0
      · simp only [masked, ne_eq, not_true_eq_false, if_false, if_true]
        exact .takes line found
      · simp only [masked, ne_eq, not_false_eq_true, if_true, if_false]
        exact quiet

theorem run_snoc (layout : BusLayout) (events : List BusEvent) (event : BusEvent) :
    run layout (events ++ [event]) = (run layout events).step layout event := by
  simp [run]

/-- The bus, and whether the line taken last has been acknowledged through INT_CLEAR0 since
it was taken, with no end of interrupt yet. -/
def watch (layout : BusLayout) (state : PeripheralBus × Bool) (event : BusEvent) :
    PeripheralBus × Bool :=
  (state.1.step layout event,
    if isEoi layout event || (taken layout state.1 event).isSome then false
    else state.2 || state.1.vic.inServiceLine.any fun line => (clears layout event).getLsbD line)

def acknowledgedEarly (layout : BusLayout) (events : List BusEvent) : Bool :=
  (events.foldl (watch layout) (idle, false)).2

/-- A pending bit is dropped only by a write to INT_CLEAR0 that names the line, or by an end
of interrupt while the line is in service. -/
def NoLostInterrupt (layout : BusLayout) (events : List BusEvent) : Prop :=
  ∀ before event after, events = before ++ event :: after → ∀ line,
    (run layout before).vic.pending.getLsbD line = true →
    ((run layout before).step layout event).vic.pending.getLsbD line = false →
      (clears layout event).getLsbD line = true ∨
        (isEoi layout event = true ∧ (run layout before).vic.inService.getLsbD line = true)

/-- No end of interrupt comes after an early acknowledgement of the line taken last if that
line is pending again. -/
def NoStaleEoi (layout : BusLayout) (events : List BusEvent) : Prop :=
  ∀ before event after, events = before ++ event :: after → isEoi layout event = true →
    acknowledgedEarly layout before = true → ∀ line,
      (run layout before).vic.inServiceLine = some line →
        (run layout before).vic.pending.getLsbD line = false

theorem watch_run (layout : BusLayout) (events : List BusEvent) :
    events.foldl (watch layout) (idle, false) =
      (run layout events, acknowledgedEarly layout events) := by
  have same : (events.foldl (watch layout) (idle, false)).1 = run layout events := by
    induction events using List.reverseRecOn with
    | nil => rfl
    | append_singleton events event ih => simp [run_snoc, watch, ih]
  exact Prod.ext same rfl

theorem acknowledgedEarly_snoc (layout : BusLayout) (events : List BusEvent) (event : BusEvent) :
    acknowledgedEarly layout (events ++ [event]) =
      (watch layout (run layout events, acknowledgedEarly layout events) event).2 := by
  rw [acknowledgedEarly, List.foldl_append, watch_run]
  rfl

/-- The mask knows the line taken last unless it was acknowledged early. -/
def Remembered (vic : VicState) (early : Bool) : Prop :=
  ∀ line, vic.inServiceLine = some line → line < 32 ∧ vic.inService.getLsbD line = !early

theorem Remembered.step {early : Bool} (held : Remembered pbus.vic early) (event : BusEvent) :
    Remembered (pbus.step layout event).vic (watch layout (pbus, early) event).2 := by
  have effect := step_vic layout pbus event
  simp only [watch]
  generalize clears layout event = mask at effect ⊢
  generalize isEoi layout event = eoi at effect ⊢
  generalize taken layout pbus event = took at effect ⊢
  generalize (pbus.step layout event).vic = after at effect ⊢
  have unnamed : (pbus.vic.inServiceLine.any fun line => (0#32).getLsbD line) = false := by
    cases pbus.vic.inServiceLine with
    | none => rfl
    | some line => simp
  cases effect with
  | enables enable => simpa [unnamed, Remembered] using held
  | raises line => simpa [unnamed, Remembered] using held
  | acks =>
    intro line last
    obtain ⟨bound, bit⟩ := held line last
    have last : pbus.vic.inServiceLine = some line := last
    refine ⟨bound, ?_⟩
    rw [VicState.ackMask_inService, bit, last]
    simp
  | retires =>
    intro line last
    rw [VicState.eoiCurrent_inServiceLine] at last
    cases last
  | takes line deliverable =>
    intro other last
    obtain rfl : line = other := Option.some.inj last
    obtain ⟨bound, _⟩ := VicState.deliverableLine_spec deliverable
    exact ⟨bound, by simp [VicState.take_inService bound]⟩

theorem remembered_run (layout : BusLayout) (events : List BusEvent) :
    Remembered (run layout events).vic (acknowledgedEarly layout events) := by
  induction events using List.reverseRecOn with
  | nil =>
    intro line last
    cases last
  | append_singleton events event ih =>
    rw [run_snoc, acknowledgedEarly_snoc]
    exact ih.step event

/-- Only an acknowledgement that names the line or an end of interrupt for it drops its bit. -/
theorem bit_dropped {register : VicState → Word} (latched : VicState.Latched register)
    (held : (register pbus.vic).getLsbD line = true)
    (dropped : (register (pbus.step layout event).vic).getLsbD line = false)
    (remembered : ∀ last, pbus.vic.inServiceLine = some last → last < 32) :
    (clears layout event).getLsbD line = true ∨
      (isEoi layout event = true ∧ pbus.vic.inServiceLine = some line) := by
  have effect := step_vic layout pbus event
  generalize clears layout event = mask at effect ⊢
  generalize isEoi layout event = eoi at effect ⊢
  generalize taken layout pbus event = took at effect
  generalize (pbus.step layout event).vic = after at effect dropped
  cases effect with
  | enables enable => simp [latched.enables, held] at dropped
  | raises raised => simp [latched.raises held] at dropped
  | acks =>
    rw [latched.acks, held] at dropped
    exact .inl (by simpa using dropped)
  | retires =>
    cases last : pbus.vic.inServiceLine with
    | none =>
      rw [VicState.eoiCurrent_none last, held] at dropped
      cases dropped
    | some taken =>
      rw [latched.retires last (remembered taken last), held] at dropped
      have same : line = taken := by simpa using dropped
      exact .inr ⟨rfl, by rw [same]⟩
  | takes taken deliverable => simp [latched.takes held] at dropped

/-- An end of interrupt drops the line taken last. -/
theorem eoi_drops (eoi : isEoi layout event = true) (last : pbus.vic.inServiceLine = some line)
    (bound : line < 32) : (pbus.step layout event).vic.pending.getLsbD line = false := by
  have effect := step_vic layout pbus event
  rw [eoi] at effect
  generalize clears layout event = mask at effect
  generalize taken layout pbus event = took at effect
  generalize (pbus.step layout event).vic = after at effect ⊢
  cases effect with
  | retires => simp [(VicState.eoiCurrent_some last bound).1]

theorem eoi_clears_nothing (eoi : isEoi layout event = true) : clears layout event = 0 := by
  have effect := step_vic layout idle event
  rw [eoi] at effect
  generalize clears layout event = mask at effect ⊢
  generalize taken layout idle event = took at effect
  generalize (idle.step layout event).vic = after at effect
  cases effect with
  | retires => rfl

/-- No interrupt is lost over a run exactly when no end of interrupt is stale. -/
theorem noLostInterrupt_iff (layout : BusLayout) (events : List BusEvent) :
    NoLostInterrupt layout events ↔ NoStaleEoi layout events := by
  constructor
  · intro kept before event after split eoi early line last
    obtain ⟨bound, bit⟩ := remembered_run layout before line last
    cases pending : (run layout before).vic.pending.getLsbD line with
    | false => rfl
    | true =>
      rcases kept before event after split line pending (eoi_drops eoi last bound) with named | served
      · simp [eoi_clears_nothing eoi] at named
      · simp [bit, early] at served
  · intro fresh before event after split line pending dropped
    have remembered := remembered_run layout before
    rcases bit_dropped VicState.latched_pending pending dropped fun last found =>
      (remembered last found).1 with named | ⟨eoi, last⟩
    · exact .inl named
    · refine .inr ⟨eoi, ?_⟩
      cases early : acknowledgedEarly layout before with
      | false => simpa [early] using (remembered line last).2
      | true =>
        rw [fresh before event after split eoi early line last] at pending
        cases pending

/-- Line 3 is taken, acknowledged through INT_CLEAR0 and raised again; then the handler
signals its end of interrupt. -/
def ackThenEoi : List BusEvent :=
  [.raiseLine 3, .write 0xc0000028 8, .read 0xc0000f00, .write 0xc0000018 8, .raiseLine 3,
    .write 0xc0000f00 0]

/-- The second interrupt of line 3 is gone. -/
theorem not_noLostInterrupt_ackThenEoi : ¬ NoLostInterrupt .firmware ackThenEoi := by
  intro kept
  have lost := kept (ackThenEoi.take 5) (.write 0xc0000f00 0) [] rfl 3 (by decide) (by decide)
  revert lost
  decide

def linesInService (vic : VicState) : List Nat :=
  (List.range 32).filter fun line => vic.inService.getLsbD line

/-- The guest signals one end of interrupt. -/
def retire (layout : BusLayout) (pbus : PeripheralBus) : PeripheralBus :=
  pbus.step layout (.write (layout.vicBase + BusLayout.irqVecRd) 0)

/-- At most the line taken last is in service. -/
def Single (vic : VicState) : Prop :=
  ∀ line, vic.inService.getLsbD line = true → vic.inServiceLine = some line

/-- As many ends of interrupt as there are lines in service leave none, and at most the line
taken last is in service. -/
def Retirable (layout : BusLayout) (pbus : PeripheralBus) : Prop :=
  ((retire layout)^[(linesInService pbus.vic).length] pbus).vic.inService = 0 ∧ Single pbus.vic

/-- Every state a run goes through is retirable. -/
def EveryLineRetires (layout : BusLayout) (events : List BusEvent) : Prop :=
  ∀ before after, events = before ++ after → Retirable layout (run layout before)

/-- A line is taken only while none is in service. -/
def OneAtATime (layout : BusLayout) (events : List BusEvent) : Prop :=
  ∀ before event after, events = before ++ event :: after →
    (taken layout (run layout before) event).isSome = true → (run layout before).vic.inService = 0

theorem vicOffset_irqVecRd (layout : BusLayout) :
    layout.vicOffset (layout.vicBase + BusLayout.irqVecRd) = some BusLayout.irqVecRd := by
  have fits := layout.vicFits
  have sum : (layout.vicBase + BusLayout.irqVecRd).toNat = layout.vicBase.toNat + 0xf00 := by
    rw [BitVec.toNat_add]
    exact Nat.mod_eq_of_lt (by simp only [BusLayout.irqVecRd]; simp; omega)
  have top : (layout.vicBase + 0x1000).toNat = layout.vicBase.toNat + 0x1000 := by
    rw [BitVec.toNat_add]
    exact Nat.mod_eq_of_lt (by simp; omega)
  have inside : layout.vicBase ≤ layout.vicBase + BusLayout.irqVecRd ∧
      layout.vicBase + BusLayout.irqVecRd < layout.vicBase + 0x1000 := by
    rw [BitVec.le_def, BitVec.lt_def, sum, top]
    omega
  rw [BusLayout.vicOffset, if_pos inside, BitVec.add_comm, BitVec.add_sub_cancel]

theorem retire_vic (layout : BusLayout) (pbus : PeripheralBus) :
    (retire layout pbus).vic = pbus.vic.eoiCurrent := by
  change (mmioWrite layout pbus _ 0).2.vic = _
  rw [mmioWrite, vicOffset_irqVecRd]
  rfl

theorem inService_eq_zero {vic : VicState} (none : ∀ line, vic.inService.getLsbD line = false) :
    vic.inService = 0 := by
  apply BitVec.eq_of_getLsbD_eq
  intro line _
  simp [none line]

/-- One end of interrupt retires the only line in service. -/
theorem Single.eoiCurrent {vic : VicState} (single : Single vic) : vic.eoiCurrent.inService = 0 := by
  apply inService_eq_zero
  intro line
  cases last : vic.inServiceLine with
  | none =>
    rw [VicState.eoiCurrent_none last]
    by_contra served
    rw [single line (by simpa using served)] at last
    cases last
  | some taken =>
    by_cases served : vic.inService.getLsbD line = true
    · have same : taken = line := Option.some.inj (last.symm.trans (single line served))
      have bound := BitVec.lt_of_getLsbD served
      rw [(VicState.eoiCurrent_some last (same ▸ bound)).2, same]
      simp
    · simp only [VicState.eoiCurrent, last, BitVec.getLsbD_and, served, Bool.false_and]

theorem Single.retire_iterate (single : Single pbus.vic) (count : Nat) :
    ((PeripheralBus.retire layout)^[count + 1] pbus).vic.inService = 0 := by
  induction count generalizing pbus with
  | zero => simpa [retire_vic] using single.eoiCurrent
  | succ count ih =>
    rw [Function.iterate_succ_apply]
    refine ih fun line served => ?_
    rw [retire_vic, single.eoiCurrent] at served
    simp at served

theorem Single.retirable (single : Single pbus.vic) : Retirable layout pbus := by
  refine ⟨?_, single⟩
  cases size : (linesInService pbus.vic).length with
  | zero =>
    apply inService_eq_zero
    intro line
    by_contra served
    have served : pbus.vic.inService.getLsbD line = true := by simpa using served
    have member : line ∈ linesInService pbus.vic :=
      List.mem_filter.mpr ⟨List.mem_range.mpr (BitVec.lt_of_getLsbD served), served⟩
    rw [List.length_eq_zero_iff.mp size] at member
    cases member
  | succ count => exact single.retire_iterate count

/-- Only a second take puts a second line into service. -/
theorem Single.step (single : Single pbus.vic)
    (free : (taken layout pbus event).isSome = true → pbus.vic.inService = 0) :
    Single (pbus.step layout event).vic := by
  have effect := step_vic layout pbus event
  generalize clears layout event = mask at effect
  generalize isEoi layout event = eoi at effect
  generalize taken layout pbus event = took at effect free
  generalize (pbus.step layout event).vic = after at effect ⊢
  cases effect with
  | enables enable => exact single
  | raises line => simpa [Single] using single
  | acks =>
    intro line served
    rw [VicState.ackMask_inService, Bool.and_eq_true] at served
    exact single line served.1
  | retires =>
    intro line served
    simp [single.eoiCurrent] at served
  | takes line deliverable =>
    intro other served
    obtain ⟨bound, _⟩ := VicState.deliverableLine_spec deliverable
    rw [VicState.take_inService bound, free rfl] at served
    have same : other = line := by simpa using served
    rw [same]
    rfl

/-- Over a run every line taken into service can be retired exactly when no line is taken
while another is in service. -/
theorem everyLineRetires_iff (layout : BusLayout) (events : List BusEvent) :
    EveryLineRetires layout events ↔ OneAtATime layout events := by
  constructor
  · intro retires before event after split took
    apply inService_eq_zero
    intro other
    by_contra served
    have served : (run layout before).vic.inService.getLsbD other = true := by simpa using served
    have single := (retires (before ++ [event]) after (by simpa using split)).2
    rw [run_snoc] at single
    have effect := step_vic layout (run layout before) event
    generalize clears layout event = mask at effect
    generalize isEoi layout event = eoi at effect
    generalize taken layout (run layout before) event = line at effect took
    generalize ((run layout before).step layout event).vic = after at effect single
    cases effect with
    | takes line deliverable =>
      obtain ⟨bound, idle⟩ := VicState.deliverableLine_spec deliverable
      have last := single other (by rw [VicState.take_inService bound, served]; rfl)
      have same : line = other := Option.some.inj last
      rw [← same, idle] at served
      cases served
    | _ => cases took
  · intro nested before
    induction before using List.reverseRecOn with
    | nil =>
      intro after _
      exact Single.retirable fun line served => by simp [run, idle, VicState.idle] at served
    | append_singleton before event ih =>
      intro after split
      have single := (ih (event :: after) (by simpa using split)).2
      rw [run_snoc]
      exact (single.step (nested before event after (by simpa using split))).retirable

/-- Lines 3 and 5 are pending and the vector is read twice. -/
def nestedTake : List BusEvent :=
  [.raiseLine 3, .raiseLine 5, .write 0xc0000028 0x28, .read 0xc0000f00, .read 0xc0000f00]

/-- Two ends of interrupt retire line 5 only; line 3 stays in service. -/
theorem not_everyLineRetires_nestedTake : ¬ EveryLineRetires .firmware nestedTake := by
  intro retires
  have left := (retires nestedTake [] rfl).1
  revert left
  decide

end PeripheralBus

end ZeeboLle.Device

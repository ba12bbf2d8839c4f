import ZeeboLle.Device.InService
import ZeeboLle.Scheduling.Runs

/-! Delivery of an interrupt into an engine and the handler's own view of it. Delivery takes
the line into service, and so does the read of the vector register; the two are compared over
whole runs of the bus. -/
namespace ZeeboLle.Device

open Unicorn Scheduling

namespace VicState

variable {vic : VicState} {line other : Nat}

/-- A line that may be delivered: pending, enabled and not in service. -/
def deliverable (vic : VicState) (line : Nat) : Bool :=
  vic.pending.getLsbD line && vic.enable.getLsbD line && !vic.inService.getLsbD line

theorem getLsbD_deliverable (vic : VicState) (line : Nat) :
    ((vic.pending &&& vic.enable) &&& ~~~vic.inService).getLsbD line = vic.deliverable line := by
  by_cases bound : line < 32
  · simp [deliverable, bound]
  · simp [deliverable, BitVec.getLsbD_of_ge _ _ (Nat.le_of_not_lt bound)]

/-- The line chosen is deliverable, and no lower one is. -/
theorem deliverableLine_some_iff : vic.deliverableLine = some line ↔
    vic.deliverable line = true ∧ ∀ lower, lower < line → vic.deliverable lower = false := by
  simp only [deliverableLine, getLsbD_deliverable, List.find?_range_eq_some]
  constructor
  · rintro ⟨chosen, _, lowest⟩
    exact ⟨chosen, fun lower below => by simpa using lowest lower below⟩
  · rintro ⟨chosen, lowest⟩
    have pending : vic.pending.getLsbD line = true := by
      simp only [deliverable, Bool.and_eq_true] at chosen
      exact chosen.1.1
    exact ⟨chosen, List.mem_range.mpr (BitVec.lt_of_getLsbD pending),
      fun lower below => by simpa using lowest lower below⟩

theorem isSome_deliverableLine :
    vic.deliverableLine.isSome = true ↔ ∃ line, vic.deliverable line = true := by
  simp only [deliverableLine, getLsbD_deliverable, List.find?_isSome, List.mem_range]
  constructor
  · rintro ⟨line, _, chosen⟩
    exact ⟨line, chosen⟩
  · rintro ⟨line, chosen⟩
    have pending : vic.pending.getLsbD line = true := by
      simp only [deliverable, Bool.and_eq_true] at chosen
      exact chosen.1.1
    exact ⟨line, BitVec.lt_of_getLsbD pending, chosen⟩

end VicState

namespace PeripheralBus

variable {layout : BusLayout} {pbus : PeripheralBus} {event : BusEvent} {line : Nat}

/-- `deliver_irq`: whether an exception was taken, the engine's registers and the bus. -/
def deliverIrq (pbus : PeripheralBus) (regs : RegFile) (vectorBase : Word) :
    Bool × RegFile × PeripheralBus :=
  let (took, regs, vic) := vicDeliverNext regs pbus.vic vectorBase
  (took, regs, { pbus with vic })

theorem step_deliverIrq (layout : BusLayout) (pbus : PeripheralBus) (regs : RegFile)
    (vectorBase : Word) :
    pbus.step layout (.deliverIrq regs vectorBase) = (pbus.deliverIrq regs vectorBase).2.2 := rfl

/-- Nothing to deliver, or the core masks interrupts. -/
theorem deliverIrq_refused {regs : RegFile} {vectorBase : Word}
    (refused : pbus.vic.deliverableLine = none ∨ regs.cpsr &&& cpsrIBit ≠ 0) :
    pbus.deliverIrq regs vectorBase = (false, regs, pbus) := by
  cases found : pbus.vic.deliverableLine with
  | none => simp [deliverIrq, vicDeliverNext, found]
  | some line =>
    have masked : regs.cpsr &&& cpsrIBit ≠ 0 := by simpa [found] using refused
    simp only [deliverIrq, vicDeliverNext, found, if_pos masked]

theorem deliverIrq_takes {regs : RegFile} {vectorBase : Word}
    (found : pbus.vic.deliverableLine = some line) (unmasked : regs.cpsr &&& cpsrIBit = 0) :
    pbus.deliverIrq regs vectorBase =
      (true, takeIrq regs vectorBase, { pbus with vic := pbus.vic.take line }) := by
  have free : ¬ regs.cpsr &&& cpsrIBit ≠ 0 := fun masked => masked unmasked
  simp only [deliverIrq, vicDeliverNext, found, if_neg free, VicState.take]

/-- The line a delivery takes. -/
def deliversLine (layout : BusLayout) (events : List BusEvent) (regs : RegFile) (vectorBase : Word)
    (line : Nat) : Prop :=
  ((run layout events).deliverIrq regs vectorBase).1 = true ∧
    ((run layout events).deliverIrq regs vectorBase).2.2.vic.inServiceLine = some line

theorem deliversLine_iff {events : List BusEvent} {regs : RegFile} {vectorBase : Word} :
    deliversLine layout events regs vectorBase line ↔
      (run layout events).vic.deliverableLine = some line ∧ regs.cpsr &&& cpsrIBit = 0 := by
  unfold deliversLine
  by_cases masked : regs.cpsr &&& cpsrIBit = 0
  · cases found : (run layout events).vic.deliverableLine with
    | none => simp [deliverIrq_refused (.inl found)]
    | some chosen => simp [deliverIrq_takes found masked, VicState.take, masked]
  · rw [deliverIrq_refused (.inr masked)]
    exact ⟨fun took => absurd took.1 Bool.false_ne_true, fun took => absurd took.2 masked⟩

/-- A run that goes on after a delivery. -/
theorem run_deliverIrq {before : List BusEvent} {regs : RegFile} (vectorBase : Word)
    (found : (run layout before).vic.deliverableLine = some line)
    (unmasked : regs.cpsr &&& cpsrIBit = 0) (later : List BusEvent) :
    run layout (before ++ .deliverIrq regs vectorBase :: later) =
      later.foldl (step layout) { run layout before with vic := (run layout before).vic.take line } := by
  rw [run, List.foldl_append, List.foldl_cons, step_deliverIrq]
  change later.foldl _ ((run layout before).deliverIrq regs vectorBase).2.2 = _
  rw [deliverIrq_takes found unmasked]

/-- Between two deliveries of one line a step ends its service. -/
def NonReentrant (layout : BusLayout) : Prop :=
  ∀ before regs vectorBase middle regs' vectorBase' line,
    deliversLine layout before regs vectorBase line →
    deliversLine layout (before ++ .deliverIrq regs vectorBase :: middle) regs' vectorBase' line →
      ∃ early event late, middle = early ++ event :: late ∧
        (run layout (before ++ .deliverIrq regs vectorBase :: early)).vic.inService.getLsbD line = true ∧
        (run layout (before ++ .deliverIrq regs vectorBase :: early ++ [event])).vic.inService.getLsbD
          line = false ∧
        ((clears layout event).getLsbD line = true ∨
          isEoi layout event = true ∧
            (run layout (before ++ .deliverIrq regs vectorBase :: early)).vic.inServiceLine = some line)

/-- An exception is taken exactly when a line is deliverable and the core does not mask
interrupts. It is the lowest such line; the banked registers hold the return state. Otherwise
neither the registers nor the bus change. -/
def DeliversLowest (pbus : PeripheralBus) (regs : RegFile) (vectorBase : Word) : Prop :=
  let (took, after, bus) := pbus.deliverIrq regs vectorBase
  (took = true ↔ (∃ line, pbus.vic.deliverable line = true) ∧ regs.cpsr &&& cpsrIBit = 0) ∧
    (took = true → ∃ line, pbus.vic.deliverable line = true ∧
      (∀ lower, lower < line → pbus.vic.deliverable lower = false) ∧
      bus = { pbus with vic := pbus.vic.take line } ∧
      after.lr .irq = regs.readPc + 4 ∧ after.spsr .irq = regs.cpsr) ∧
    (took = false → after = regs ∧ bus = pbus)

theorem nonReentrant (layout : BusLayout) : NonReentrant layout := by
  intro before regs vectorBase middle regs' vectorBase' line first second
  obtain ⟨found, unmasked⟩ := deliversLine_iff.mp first
  obtain ⟨again, _⟩ := deliversLine_iff.mp second
  have bound := (VicState.deliverableLine_spec found).1
  have reached := run_deliverIrq vectorBase found unmasked
  obtain ⟨start, taken⟩ : ∃ start, start = { run layout before with vic := (run layout before).vic.take line } :=
    ⟨_, rfl⟩
  have up : start.vic.inService.getLsbD line = true := by
    rw [taken]
    simp [VicState.take_inService bound]
  have down := (VicState.deliverableLine_spec again).2
  simp only [← taken] at reached
  rw [reached] at down
  obtain ⟨early, event, late, split, held, fell⟩ :=
    exists_fall (fun pbus : PeripheralBus => pbus.vic.inService.getLsbD line) up down
  rw [← reached] at held fell
  refine ⟨early, event, late, split, held, by rwa [run_snoc], ?_⟩
  exact bit_dropped VicState.latched_inService held fell fun last taken =>
    (remembered_run layout _ last taken).1

theorem deliversLowest (pbus : PeripheralBus) (regs : RegFile) (vectorBase : Word) :
    DeliversLowest pbus regs vectorBase := by
  unfold DeliversLowest
  by_cases unmasked : regs.cpsr &&& cpsrIBit = 0
  · cases found : pbus.vic.deliverableLine with
    | none =>
      have nothing : ¬ ∃ line, pbus.vic.deliverable line = true := by
        rw [← VicState.isSome_deliverableLine, found]
        exact Bool.false_ne_true
      rw [deliverIrq_refused (.inl found)]
      simp [nothing]
    | some line =>
      obtain ⟨chosen, lowest⟩ := VicState.deliverableLine_some_iff.mp found
      obtain ⟨spsr, lr⟩ := takeIrq_banked regs vectorBase
      rw [deliverIrq_takes found unmasked]
      refine ⟨⟨fun _ => ⟨⟨line, chosen⟩, unmasked⟩, fun _ => rfl⟩, fun _ => ?_, fun refused => ?_⟩
      · exact ⟨line, chosen, lowest, rfl, lr, spsr⟩
      · cases refused
  · rw [deliverIrq_refused (.inr unmasked)]
    refine ⟨⟨fun took => ?_, fun free => absurd free.2 unmasked⟩, fun took => ?_, fun _ => ⟨rfl, rfl⟩⟩
    · cases took
    · cases took

/-- In every run of the bus a line is delivered again only after its service ended, and each
delivery takes the lowest deliverable line or changes nothing. -/
theorem delivery_nonReentrant (layout : BusLayout) : NonReentrant layout ∧
    ∀ events regs vectorBase, DeliversLowest (run layout events) regs vectorBase :=
  ⟨nonReentrant layout, fun events => deliversLowest (run layout events)⟩

/-- Events between delivery and the handler's first read of the vector: lines are raised, time
passes, registers other than INT_CLEAR0 and the vector are accessed. -/
def quiet (layout : BusLayout) : BusEvent → Bool
  | .raiseLine _ => true
  | .tick _ => true
  | .write addr _ =>
    layout.vicOffset addr ≠ some BusLayout.intClear0 && layout.vicOffset addr ≠ some BusLayout.irqVecRd
  | .read addr =>
    layout.vicOffset addr ≠ some BusLayout.intClear0 && layout.vicOffset addr ≠ some BusLayout.irqVecRd
  | .deliverIrq _ _ => false

/-- The guest reads the vector register. -/
def readVector (layout : BusLayout) (pbus : PeripheralBus) : Option Word × PeripheralBus :=
  pbus.mmioRead layout (layout.vicBase + BusLayout.irqVecRd)

/-- The read of the vector returns the line and takes nothing into service, so that the end
of interrupt retires the line. -/
def IdentifiesOwn (layout : BusLayout) (pbus : PeripheralBus) (line : Nat) : Prop :=
  (readVector layout pbus).1 = some (BitVec.ofNat 32 line) ∧
    (readVector layout pbus).2.vic.inService = pbus.vic.inService ∧
    (readVector layout pbus).2.vic.inServiceLine = pbus.vic.inServiceLine ∧
    (retire layout (readVector layout pbus).2).vic.inService.getLsbD line = false

theorem readVector_vic (layout : BusLayout) (pbus : PeripheralBus) :
    (readVector layout pbus).1 = some pbus.vic.vectorAndAck.1 := by
  rw [readVector, mmioRead, vicOffset_irqVecRd]
  rfl

theorem quiet_keeps_inService (still : quiet layout event = true) :
    (pbus.step layout event).vic.inService = pbus.vic.inService := by
  have effect := step_vic layout pbus event
  have acknowledges : clears layout event = 0 := by
    cases event with
    | write addr value =>
      have other : ¬ layout.vicOffset addr = some BusLayout.intClear0 := by
        simp only [quiet, Bool.and_eq_true, decide_eq_true_eq] at still
        exact still.1
      rw [clears, if_neg other]
    | _ => rfl
  have ends : isEoi layout event = false := by
    cases event with
    | write addr value =>
      simp only [quiet, Bool.and_eq_true, decide_eq_true_eq] at still
      exact decide_eq_false still.2
    | _ => rfl
  have takes : taken layout pbus event = none := by
    cases event with
    | read addr =>
      have other : ¬ layout.vicOffset addr = some BusLayout.irqVecRd := by
        simp only [quiet, Bool.and_eq_true, decide_eq_true_eq] at still
        exact still.2
      rw [taken, if_neg other]
    | deliverIrq regs vectorBase => cases still
    | _ => rfl
  rw [acknowledges, ends, takes] at effect
  generalize (pbus.step layout event).vic = after at effect ⊢
  cases effect with
  | enables enable => rfl
  | raises line => exact VicState.raiseLine_inService
  | acks =>
    apply BitVec.eq_of_getLsbD_eq
    intro other _
    simp [VicState.ackMask_inService]

theorem quiet_run_inService {events : List BusEvent}
    (still : ∀ event ∈ events, quiet layout event = true) :
    (events.foldl (step layout) pbus).vic.inService = pbus.vic.inService := by
  induction events generalizing pbus with
  | nil => rfl
  | cons event events ih =>
    rw [List.foldl_cons, ih fun later member => still later (List.mem_cons_of_mem event member)]
    exact quiet_keeps_inService (still event (by simp))

/-- The vector never names a line in service. -/
theorem vectorAndAck_ne {vic : VicState} (served : vic.inService.getLsbD line = true) :
    vic.vectorAndAck.1 ≠ BitVec.ofNat 32 line := by
  have bound := BitVec.lt_of_getLsbD served
  intro same
  have same := congrArg BitVec.toNat same
  rw [BitVec.toNat_ofNat, Nat.mod_eq_of_lt (by omega)] at same
  cases found : vic.deliverableLine with
  | none =>
    simp only [VicState.vectorAndAck, found] at same
    have ones : (~~~0#32).toNat = 0xffffffff := by decide
    omega
  | some other =>
    obtain ⟨small, free⟩ := VicState.deliverableLine_spec found
    simp only [VicState.vectorAndAck, found, BitVec.toNat_ofNat] at same
    rw [Nat.mod_eq_of_lt (by omega)] at same
    rw [same, served] at free
    cases free

/-- A handler that was delivered its interrupt never reads its own line from the vector:
delivery has taken it into service already. -/
theorem not_identifiesOwn {before later : List BusEvent} {regs : RegFile} {vectorBase : Word}
    (delivered : deliversLine layout before regs vectorBase line)
    (still : ∀ event ∈ later, quiet layout event = true) :
    ¬ IdentifiesOwn layout (run layout (before ++ .deliverIrq regs vectorBase :: later)) line := by
  obtain ⟨found, unmasked⟩ := deliversLine_iff.mp delivered
  have bound := (VicState.deliverableLine_spec found).1
  have served : (run layout (before ++ .deliverIrq regs vectorBase :: later)).vic.inService.getLsbD
      line = true := by
    rw [run_deliverIrq vectorBase found unmasked, quiet_run_inService still]
    simp [VicState.take_inService bound]
  intro identifies
  have read := identifies.1
  rw [readVector_vic, Option.some.injEq] at read
  exact vectorAndAck_ne served read

/-- Line 3 is raised and enabled. -/
def oneLine : List BusEvent := [.raiseLine 3, .write 0xc0000028 8]

theorem not_identifiesOwn_oneLine :
    deliversLine .firmware oneLine RegFile.blank 0 3 ∧
      ¬ IdentifiesOwn .firmware (run .firmware (oneLine ++ [.deliverIrq RegFile.blank 0])) 3 := by
  have delivered : deliversLine .firmware oneLine RegFile.blank 0 3 :=
    deliversLine_iff.mpr ⟨by decide, by decide⟩
  exact ⟨delivered, not_identifiesOwn delivered (by simp)⟩

/-- After every delivery the handler's first read of the vector identifies its interrupt. -/
def HandlerIdentifies (layout : BusLayout) : Prop :=
  ∀ before regs vectorBase later line, deliversLine layout before regs vectorBase line →
    (∀ event ∈ later, quiet layout event = true) →
      IdentifiesOwn layout (run layout (before ++ .deliverIrq regs vectorBase :: later)) line

/-- Lines 3 and 5 are pending and 3 is delivered: the vector reads 5. -/
theorem not_handlerIdentifies_twoLines : ¬ HandlerIdentifies .firmware := by
  intro identifies
  have delivered : deliversLine .firmware [.raiseLine 3, .raiseLine 5, .write 0xc0000028 0x28]
      RegFile.blank 0 3 := deliversLine_iff.mpr ⟨by decide, by decide⟩
  have read := (identifies _ RegFile.blank 0 [] 3 delivered (by simp)).1
  revert read
  decide

end PeripheralBus

end ZeeboLle.Device

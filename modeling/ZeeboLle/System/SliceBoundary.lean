import ZeeboLle.System.Scheduler

/-! The instruction set across slice boundaries. A core that is not interrupted should go
on where it stopped, and an interrupted one should find where it stopped in the banked
return state. Both cores lose the Thumb bit on some of the ways between two slices. -/
namespace ZeeboLle.System

open Unicorn Device

/-- An engine that stopped with `ended` goes on in ARM or Thumb state as it was: the next
slice starts where it stopped, or the banked return state of the IRQ says where. -/
def GoesOn (ended : RegFile) (stopped : Position) (taken : Bool) (next : RegFile)
    (restarted : Position) : Prop :=
  if taken then next.spsr .irq = ended.cpsr ∧ next.lr .irq - 4 = ended.readPc
  else restarted = stopped

namespace Machine

/-- The delivery to Core 0 within one turn: whether the exception was taken, and the core
after it. -/
def delivery0 (machine : Machine) (cycle : Cycle) : Bool × Core0 :=
  let ticked := (machine.runSlices cycle).tick
  let (taken, core0, _) := ticked.core0.deliver ticked.pbus.vic
  (taken, core0)

def delivery1 (machine : Machine) (cycle : Cycle) : Bool × Core1 :=
  let ticked := (machine.runSlices cycle).tick
  ticked.core1.deliver ticked.vicC1

end Machine

/-- Core 0 across one turn, if it runs in it and in the next one. -/
def Core0Survives (machine : Machine) (cycle : Cycle) : Prop :=
  let ended := machine.core0.execute machine.c cycle.slice
  let (taken, next) := machine.delivery0 cycle
  machine.core0.halted = false → next.halted = false →
    GoesOn ended.sys.regs ended.position taken next.sys.regs
      (next.startSlice (machine.c + 1)).position

/-- Core 1 across one turn, if it runs in it and in the next one. -/
def Core1Survives (machine : Machine) (cycle : Cycle) : Prop :=
  let (taken, next) := machine.delivery1 cycle
  machine.core1.halted = false → next.halted = false →
    GoesOn cycle.regs1 (positionOf cycle.regs1) taken next.regs (positionOf next.startSlice.regs)

/-- The instruction-set state of both cores survives the turn. -/
def Survives (machine : Machine) (cycle : Cycle) : Prop :=
  Core0Survives machine cycle ∧ Core1Survives machine cycle

/-- No Thumb state is at stake: an interpreted Core 0 ends its slice in ARM state or finds
no line asserted, and Core 1 ends its slice in ARM state. -/
def KeepsToArm (machine : Machine) (cycle : Cycle) : Prop :=
  (machine.core0.halted = false → machine.core0.backend = .unicorn →
    tBit (machine.core0.execute machine.c cycle.slice).sys.regs.cpsr = 0#32 ∨
      cycle.pbus.tickSlice.2.vic.irqAsserted = false) ∧
    (machine.core1.halted = false → cycle.halt1 = false → tBit cycle.regs1.cpsr = 0#32)

theorem positionOf_startAt (regs : RegFile) (begin : Word) :
    positionOf (regs.startAt begin) = ⟨begin &&& ~~~1#32, begin &&& 1#32⟩ := by
  rw [positionOf, RegFile.startAt, RegFile.writePc_readPc, RegFile.tBit_writePc]

/-- Writing PC back as it was read drops T. -/
theorem tBit_rewritten (regs : RegFile) : tBit (regs.writePc regs.readPc).cpsr = 0#32 := by
  rw [RegFile.tBit_writePc, RegFile.readPc_low]

theorem readPc_rewritten (regs : RegFile) : (regs.writePc regs.readPc).readPc = regs.readPc := by
  rw [RegFile.writePc_readPc, RegFile.readPc_high]

theorem cpsr_rewritten_iff (regs : RegFile) :
    (regs.writePc regs.readPc).cpsr = regs.cpsr ↔ tBit regs.cpsr = 0#32 := by
  constructor
  · intro same
    rw [← same, tBit_rewritten]
  · intro arm
    exact RegFile.writePc_cpsr ((RegFile.readPc_low regs).trans arm.symm)

/-- With T from CPSR an engine restarts exactly where it stopped. -/
theorem positionOf_restart (regs : RegFile) :
    positionOf (regs.startAt (regs.readPc ||| tBit regs.cpsr)) = positionOf regs := by
  rw [positionOf_startAt, positionOf]
  rcases tBit_eq_zero_or_one regs.cpsr with zero | one
  · rw [zero, BitVec.or_zero, RegFile.readPc_high, RegFile.readPc_low]
  · rw [one]
    have low := withT_low (.inr rfl) regs.readPc
    have high := withT_high regs.readPc 1#32
    rw [withT, if_pos rfl] at low high
    rw [low, high, RegFile.readPc_high]

/-- Without T it restarts there exactly when it stopped in ARM state. -/
theorem positionOf_restartArm_iff (regs other : RegFile) :
    positionOf (other.startAt regs.readPc) = positionOf regs ↔ tBit regs.cpsr = 0#32 := by
  rw [positionOf_startAt, RegFile.readPc_high, RegFile.readPc_low, positionOf, Position.mk.injEq]
  exact ⟨fun same => same.2.symm, fun arm => ⟨rfl, arm.symm⟩⟩

/-- The banked return state names PC, and CPSR exactly when T was clear. -/
theorem banked_iff (regs : RegFile) (vectorBase : Word) :
    ((takeIrq (regs.writePc regs.readPc) vectorBase).spsr .irq = regs.cpsr ∧
      (takeIrq (regs.writePc regs.readPc) vectorBase).lr .irq - 4 = regs.readPc) ↔
      tBit regs.cpsr = 0#32 := by
  obtain ⟨spsr, lr⟩ := takeIrq_banked (regs.writePc regs.readPc) vectorBase
  rw [spsr, lr, readPc_rewritten, BitVec.add_sub_cancel]
  exact ⟨fun banked => (cpsr_rewritten_iff regs).mp banked.1,
    fun arm => ⟨(cpsr_rewritten_iff regs).mpr arm, rfl⟩⟩

namespace Core0

variable {core : Core0} {vic : VicState}

theorem deliver_quiet
    (quiet : ¬ (core.halted = false ∧ core.backend = .unicorn ∧ vic.irqAsserted = true)) :
    core.deliver vic = (false, core, vic) := by
  rw [deliver, if_neg quiet]

/-- An asserted line rewrites PC first; the exception is taken from there or not at all. -/
theorem deliver_asserted (running : core.halted = false) (backend : core.backend = .unicorn)
    (asserted : vic.irqAsserted = true) :
    let delivery := core.deliver vic
    let regs := core.sys.regs.writePc core.sys.entry
    delivery.2.1.backend = .unicorn ∧
      delivery.2.1.sys.regs = (if delivery.1 then takeIrq regs 0 else regs) ∧
      (delivery.1 = false → delivery.2.1.sys.entry = core.sys.entry) := by
  intro delivery regs
  have reduced : delivery = core.deliver vic := rfl
  rw [deliver, if_pos ⟨running, backend, asserted⟩] at reduced
  rw [reduced]
  refine ⟨backend, vicDeliverNext_regs regs vic 0, ?_⟩
  intro refused
  exact if_neg (Bool.eq_false_iff.mp refused)

theorem startSlice_unicorn (c : Nat) (backend : core.backend = .unicorn) :
    (core.startSlice c).position =
      positionOf (core.sys.regs.startAt (core.sys.entry ||| tBit core.sys.regs.cpsr)) := by
  unfold startSlice position
  rw [backend]

end Core0

/-- Once a line is asserted, Core 0 goes on as it was exactly when it stopped in ARM
state, whether the interrupt is taken, masked or already in service. -/
theorem goesOn_asserted_iff {ended : Core0} {vic : VicState} (slice : Slice) (c : Nat)
    (running : ended.halted = false) (backend : ended.backend = .unicorn)
    (asserted : vic.irqAsserted = true) :
    let delivery := (ended.finish slice).deliver vic
    GoesOn ended.sys.regs ended.position delivery.1 delivery.2.1.sys.regs
      (delivery.2.1.startSlice c).position ↔ tBit ended.sys.regs.cpsr = 0#32 := by
  intro delivery
  obtain ⟨still, halted, regs, entry, _⟩ := Core0.finish_unicorn slice backend
  obtain ⟨after, rewritten, kept⟩ :=
    Core0.deliver_asserted (halted.trans running) still asserted
  rw [regs, entry] at rewritten
  cases taken : delivery.1 with
  | true =>
    rw [GoesOn, if_pos rfl]
    rw [taken, if_pos rfl] at rewritten
    rw [rewritten]
    exact banked_iff ended.sys.regs 0
  | false =>
    rw [GoesOn, if_neg Bool.false_ne_true]
    rw [taken, if_neg Bool.false_ne_true] at rewritten
    rw [Core0.startSlice_unicorn c after, rewritten, kept taken, entry, tBit_rewritten, BitVec.or_zero,
      Core0.position, backend]
    exact positionOf_restartArm_iff ended.sys.regs _

/-- Without an asserted line Core 0 goes on as it was on either backend. -/
theorem goesOn_quiet {ended : Core0} {vic : VicState} (slice : Slice) (c : Nat)
    (quiet : ended.backend = .unicorn → vic.irqAsserted = false) :
    let delivery := (ended.finish slice).deliver vic
    GoesOn ended.sys.regs ended.position delivery.1 delivery.2.1.sys.regs
      (delivery.2.1.startSlice (c + 1)).position := by
  intro delivery
  cases backend : ended.backend with
  | unicorn =>
    obtain ⟨still, _, regs, entry, _⟩ := Core0.finish_unicorn slice backend
    have silent : delivery = (false, ended.finish slice, vic) := by
      apply Core0.deliver_quiet
      simp [quiet backend]
    rw [silent, GoesOn, if_neg Bool.false_ne_true, Core0.startSlice_unicorn _ still, regs, entry,
      positionOf_restart, Core0.position, backend]
  | dynarmic =>
    obtain ⟨still, jit, _⟩ := Core0.finish_dynarmic slice backend
    have silent : delivery = (false, ended.finish slice, vic) := by
      apply Core0.deliver_quiet
      simp [still]
    rw [silent, GoesOn, if_neg Bool.false_ne_true, Core0.startSlice, still]
    dsimp only
    rw [if_neg (Nat.succ_ne_zero c), Core0.position, still, jit, Core0.position, backend]

theorem core0Survives_iff (machine : Machine) (cycle : Cycle) :
    Core0Survives machine cycle ↔
      (machine.core0.halted = false → machine.core0.backend = .unicorn →
        tBit (machine.core0.execute machine.c cycle.slice).sys.regs.cpsr = 0#32 ∨
          cycle.pbus.tickSlice.2.vic.irqAsserted = false) := by
  obtain ⟨backend, halted, _⟩ := machine.core0.execute_sameCore machine.c cycle.slice
  by_cases running : machine.core0.halted = false
  · have delivery : machine.delivery0 cycle =
        ((((machine.core0.execute machine.c cycle.slice).finish cycle.slice).deliver
          cycle.pbus.tickSlice.2.vic).1,
        (((machine.core0.execute machine.c cycle.slice).finish cycle.slice).deliver
          cycle.pbus.tickSlice.2.vic).2.1) := by
      rw [← Core0.runSlice_running running]
      rfl
    rw [Core0Survives, delivery]
    dsimp only
    constructor
    · intro survives _ unicorn
      cases asserted : cycle.pbus.tickSlice.2.vic.irqAsserted with
      | false => exact .inr rfl
      | true =>
        left
        apply (goesOn_asserted_iff cycle.slice (machine.c + 1) (halted.trans running)
          (backend.trans unicorn) asserted).mp
        apply survives running
        rw [(Core0.deliver_frame ..).1, (Core0.finish_unicorn _ (backend.trans unicorn)).halted, halted]
        exact running
    · intro condition _ _
      by_cases loud : machine.core0.backend = .unicorn ∧
          cycle.pbus.tickSlice.2.vic.irqAsserted = true
      · have arm := (condition running loud.1).resolve_right (by simp [loud.2])
        exact (goesOn_asserted_iff cycle.slice (machine.c + 1) (halted.trans running)
          (backend.trans loud.1) loud.2).mpr arm
      · apply goesOn_quiet
        intro unicorn
        by_contra asserted
        exact loud ⟨backend.symm.trans unicorn, by simpa using asserted⟩
  · exact ⟨fun _ runs => absurd runs running, fun _ runs => absurd runs running⟩

theorem Core1.deliver_halted (core : Core1) (vic : VicState) :
    (core.deliver vic).2.halted = core.halted := by
  unfold deliver
  split
  · rfl
  · rfl

/-- Core 1 restarts without T, so it goes on as it was exactly when it stopped in ARM
state. -/
theorem goesOn_core1_iff (regs : RegFile) (vic : VicState) :
    let delivery := Core1.deliver ⟨regs, regs.readPc, false⟩ vic
    GoesOn regs (positionOf regs) delivery.1 delivery.2.regs
      (positionOf delivery.2.startSlice.regs) ↔ tBit regs.cpsr = 0#32 := by
  unfold Core1.deliver
  dsimp only
  split
  · have outcome := vicDeliverIrq_regs (regs.writePc regs.readPc) vic 0xffff0000
    generalize vicDeliverIrq (regs.writePc regs.readPc) vic 0xffff0000 = delivery at outcome ⊢
    obtain ⟨taken, after⟩ := delivery
    cases taken with
    | true =>
      rw [GoesOn, if_pos rfl]
      rw [if_pos rfl] at outcome
      subst outcome
      exact banked_iff regs 0xffff0000
    | false =>
      rw [GoesOn, if_neg Bool.false_ne_true]
      exact positionOf_restartArm_iff regs after
  · rw [GoesOn, if_neg Bool.false_ne_true]
    exact positionOf_restartArm_iff regs regs

theorem core1Survives_iff (machine : Machine) (cycle : Cycle) :
    Core1Survives machine cycle ↔
      (machine.core1.halted = false → cycle.halt1 = false → tBit cycle.regs1.cpsr = 0#32) := by
  by_cases running : machine.core1.halted = false
  · have ran : machine.core1.runSlice cycle.regs1 cycle.halt1 =
        ⟨cycle.regs1, cycle.regs1.readPc, cycle.halt1⟩ := if_neg (by simp [running])
    have delivery : machine.delivery1 cycle =
        Core1.deliver ⟨cycle.regs1, cycle.regs1.readPc, cycle.halt1⟩
          (machine.runSlices cycle).tick.vicC1 := by
      rw [← ran]
      rfl
    rw [Core1Survives, delivery]
    dsimp only
    rw [Core1.deliver_halted]
    dsimp only
    cases cycle.halt1 with
    | true => simp
    | false =>
      have law := goesOn_core1_iff cycle.regs1 (machine.runSlices cycle).tick.vicC1
      exact ⟨fun survives runs go => law.mp (survives runs go),
        fun arm runs go => law.mpr (arm runs go)⟩
  · exact ⟨fun _ runs => absurd runs running, fun _ runs => absurd runs running⟩

/-- Over any run, instruction-set state survives every slice boundary exactly when no
Thumb state is at stake at any of them. -/
theorem survives_iff_keepsToArm (start : Machine) (cycles : List Cycle) :
    AtEveryTurn Survives start cycles ↔ AtEveryTurn KeepsToArm start cycles := by
  apply atEveryTurn_congr
  intro machine cycle
  exact and_congr (core0Survives_iff machine cycle) (core1Survives_iff machine cycle)

/-- A slice in which Core 0 stops in Thumb state at 0x10140000 with interrupts on, while
the timer's line is pending and enabled. -/
def thumbInterrupted : Cycle where
  slice := ⟨[], some ⟨{ RegFile.blank with pc := 0x10140000, cpsr := 0x30 }, ⟨fun _ => 0, 0⟩,
    fun _ => 0, fun _ => 0, 0⟩, false⟩
  regs1 := RegFile.blank
  halt1 := false
  pbus := ⟨⟨0x100, 0x100, 0, none⟩, GptTimer.idle⟩
  vicC1 := VicState.idle

/-- The interrupt is taken with T missing from the saved CPSR. -/
theorem not_survives_thumbInterrupted :
    ¬ AtEveryTurn Survives (Machine.boot .unicorn (yielding 0x1000)) [thumbInterrupted] := by
  intro every
  have survives := (every [] thumbInterrupted [] rfl).1 rfl rfl
  rw [GoesOn, if_pos (by decide)] at survives
  exact absurd survives.1 (by decide)

end ZeeboLle.System

import ZeeboLle.Device.PeripheralBus
import Mathlib.Logic.Function.Iterate

/-! When the timer fires. However a span of virtual time is cut into calls, the compare fires
in the call that reaches it and in no other; the one-shot flag is what keeps it from firing
again once the counter has gone round. -/
namespace ZeeboLle.Device

open Unicorn

namespace GptTimer

variable {timer : GptTimer} {total : Nat} {ticks : Word}

/-- Enabled, armed, and not set back by a match. -/
structure Counting (timer : GptTimer) : Prop where
  enabled : timer.enabled = true
  armed : timer.matchArmed = true
  free : timer.clrOnMatch = false

/-- Ticks to the next match; a full turn when the counter stands on the compare value. -/
def distance (timer : GptTimer) : Nat :=
  if timer.matchVal = timer.count then 2 ^ 32 else (timer.matchVal - timer.count).toNat

theorem distance_pos (timer : GptTimer) : 0 < timer.distance := by
  unfold distance
  split
  · decide
  · rename_i apart
    apply Nat.pos_of_ne_zero
    intro none
    apply apart
    apply BitVec.eq_of_toNat_eq
    have count := timer.count.isLt
    have compare := timer.matchVal.isLt
    rw [BitVec.toNat_sub] at none
    omega

theorem distance_le (timer : GptTimer) : timer.distance ≤ 2 ^ 32 := by
  unfold distance
  split
  · exact Nat.le_refl _
  · exact Nat.le_of_lt (BitVec.isLt _)

theorem distance_mod (timer : GptTimer) :
    (timer.count.toNat + timer.distance) % 2 ^ 32 = timer.matchVal.toNat := by
  have count := timer.count.isLt
  have compare := timer.matchVal.isLt
  unfold distance
  split
  · rename_i here
    rw [here]
    omega
  · rw [BitVec.toNat_sub]
    omega

/-- Within one turn the counter stands on the compare value after the distance only. -/
theorem reaches_iff {ahead : Nat} (positive : 1 ≤ ahead) (turn : ahead ≤ 2 ^ 32) :
    (timer.count.toNat + ahead) % 2 ^ 32 = timer.matchVal.toNat ↔ ahead = timer.distance := by
  have reached := timer.distance_mod
  have first := timer.distance_pos
  have last := timer.distance_le
  constructor
  · intro here
    omega
  · rintro rfl
    exact reached

/-- The compare lies in the half-open interval exactly when its distance is covered. -/
theorem crossed_iff (before ticks matchVal : Word) :
    crossed before (before + ticks) matchVal = true ↔
      0 < (matchVal - before).toNat ∧ (matchVal - before).toNat ≤ ticks.toNat := by
  have bounds := And.intro before.isLt (And.intro ticks.isLt matchVal.isLt)
  have sum : (before + ticks).toNat = (before.toNat + ticks.toNat) % 2 ^ 32 := BitVec.toNat_add ..
  have difference : (matchVal - before).toNat = (2 ^ 32 - before.toNat + matchVal.toNat) % 2 ^ 32 :=
    BitVec.toNat_sub ..
  unfold crossed
  by_cases straight : before + ticks ≥ before
  · rw [if_pos straight, Bool.and_eq_true, decide_eq_true_eq, decide_eq_true_eq]
    simp only [ge_iff_le, gt_iff_lt, BitVec.le_def, BitVec.lt_def] at straight ⊢
    omega
  · rw [if_neg straight, Bool.or_eq_true, decide_eq_true_eq, decide_eq_true_eq]
    simp only [ge_iff_le, gt_iff_lt, BitVec.le_def, BitVec.lt_def] at straight ⊢
    omega

/-- The timer after a total of ticks, however they were cut into calls. -/
def after (timer : GptTimer) (total : Nat) : GptTimer :=
  { timer with count := timer.count + BitVec.ofNat 32 total, matchArmed := total < timer.distance }

theorem after_zero (armed : timer.matchArmed = true) : timer.after 0 = timer := by
  have ahead : decide (0 < timer.distance) = timer.matchArmed := by
    rw [armed]
    exact decide_eq_true timer.distance_pos
  simp [after, ahead]

/-- What is left of the distance, as the counter sees it. -/
theorem left_toNat (within : total < timer.distance) :
    (timer.matchVal - (timer.count + BitVec.ofNat 32 total)).toNat =
      (timer.distance - total) % 2 ^ 32 := by
  have reached := timer.distance_mod
  have last := timer.distance_le
  have count := timer.count.isLt
  have compare := timer.matchVal.isLt
  rw [BitVec.toNat_sub, BitVec.toNat_add, BitVec.toNat_ofNat]
  omega

theorem count_add (count : Word) (total : Nat) (ticks : Word) :
    count + BitVec.ofNat 32 total + ticks = count + BitVec.ofNat 32 (total + ticks.toNat) := by
  rw [BitVec.add_assoc, BitVec.ofNat_add, BitVec.ofNat_toNat, BitVec.setWidth_eq]

/-- Before the match, a call crosses it exactly if it covers what is left. -/
theorem crossed_after (within : total < timer.distance) (ticks : Word) :
    crossed (timer.after total).count ((timer.after total).count + ticks)
      (timer.after total).matchVal = true ↔ timer.distance ≤ total + ticks.toNat := by
  have last := timer.distance_le
  have bound := ticks.isLt
  rw [crossed_iff]
  simp only [after, left_toNat within]
  omega

/-- Some ticks of a timer that runs. -/
theorem advance_running (enabled : timer.enabled = true) (some : ticks ≠ 0) :
    ¬(timer.enabled = false ∨ ticks = 0) := by
  rintro (off | none)
  · exact Bool.false_ne_true (off.symm.trans enabled)
  · exact some none

/-- One call: it fires exactly if the match lies in the span it covers. -/
theorem advance_after (counting : timer.Counting) (total : Nat) (ticks : Word) :
    (timer.after total).advance ticks =
      (decide (total < timer.distance ∧ timer.distance ≤ total + ticks.toNat),
        timer.after (total + ticks.toNat)) := by
  have sum := count_add timer.count total ticks
  by_cases nothing : ticks = 0
  · subst nothing
    rw [advance, if_pos (.inr rfl)]
    simp
  · have running : ¬((timer.after total).enabled = false ∨ ticks = 0) :=
      advance_running counting.enabled nothing
    rw [advance, if_neg running]
    by_cases within : total < timer.distance
    · have span := crossed_after within ticks
      by_cases reached : timer.distance ≤ total + ticks.toNat
      · have fired := span.mpr reached
        have armed : (timer.after total).matchArmed = true := by simp [after, within]
        have disarmed : ¬ total + ticks.toNat < timer.distance := by omega
        simp only [armed, fired, Bool.and_self, if_true]
        simp [after, counting.free, within, reached, disarmed, sum]
      · have quiet : crossed (timer.after total).count ((timer.after total).count + ticks)
            (timer.after total).matchVal = false := by
          rw [← Bool.not_eq_true, span]
          exact reached
        have armed : total + ticks.toNat < timer.distance := by omega
        simp only [quiet, Bool.and_false, Bool.false_eq_true, if_false]
        simp [after, within, reached, armed, sum]
    · have unarmed : (timer.after total).matchArmed = false := by simp [after, within]
      have past : ¬ total + ticks.toNat < timer.distance := by omega
      simp only [unarmed, Bool.false_and, Bool.false_eq_true, if_false]
      simp [after, within, past, sum]

/-- A list of calls: which of them fired, and the timer afterwards. -/
def advanceAll (timer : GptTimer) : List Word → List Bool × GptTimer
  | [] => ([], timer)
  | ticks :: rest =>
    let (fired, timer) := timer.advance ticks
    let (flags, timer) := timer.advanceAll rest
    (fired :: flags, timer)

def totalOf (calls : List Word) : Nat := (calls.map BitVec.toNat).sum

theorem advanceAll_cons (timer : GptTimer) (ticks : Word) (rest : List Word) :
    timer.advanceAll (ticks :: rest) =
      ((timer.advance ticks).1 :: ((timer.advance ticks).2.advanceAll rest).1,
        ((timer.advance ticks).2.advanceAll rest).2) := rfl

@[simp] theorem totalOf_nil : totalOf [] = 0 := rfl

@[simp] theorem totalOf_cons (ticks : Word) (rest : List Word) :
    totalOf (ticks :: rest) = ticks.toNat + totalOf rest := rfl

/-- The timer keeps only the total. -/
theorem advanceAll_timer (counting : timer.Counting) (calls : List Word) (total : Nat) :
    ((timer.after total).advanceAll calls).2 = timer.after (total + totalOf calls) := by
  induction calls generalizing total with
  | nil => rfl
  | cons ticks rest ih =>
    rw [advanceAll_cons, advance_after counting, ih, totalOf_cons, Nat.add_assoc]

/-- A call fires exactly when the match lies in the span of that call. -/
theorem advanceAll_fires (counting : timer.Counting) (calls : List Word) (total index : Nat)
    (inside : index < calls.length) :
    ((timer.after total).advanceAll calls).1[index]? =
      some (decide (total + totalOf (calls.take index) < timer.distance ∧
        timer.distance ≤ total + totalOf (calls.take (index + 1)))) := by
  induction calls generalizing total index with
  | nil => cases inside
  | cons ticks rest ih =>
    rw [advanceAll_cons, advance_after counting]
    cases index with
    | zero => simp
    | succ index =>
      rw [List.getElem?_cons_succ, ih _ index (by simpa using inside), List.take_succ_cons,
        List.take_succ_cons, totalOf_cons, totalOf_cons, Nat.add_assoc, Nat.add_assoc]

/-- All calls together fire once, or not at all. -/
theorem advanceAll_count (counting : timer.Counting) (calls : List Word) (total : Nat) :
    ((timer.after total).advanceAll calls).1.count true =
      if total < timer.distance ∧ timer.distance ≤ total + totalOf calls then 1 else 0 := by
  induction calls generalizing total with
  | nil =>
    have none : ¬ (total < timer.distance ∧ timer.distance ≤ total + totalOf []) := by
      rw [totalOf_nil]
      omega
    rw [if_neg none]
    rfl
  | cons ticks rest ih =>
    rw [advanceAll_cons, advance_after counting, List.count_cons, ih, totalOf_cons]
    -- the match lies in the first call, in a later one, or in none
    by_cases first : total < timer.distance ∧ timer.distance ≤ total + ticks.toNat
    · have later : ¬ (total + ticks.toNat < timer.distance ∧
          timer.distance ≤ total + ticks.toNat + totalOf rest) := by omega
      have whole : total < timer.distance ∧ timer.distance ≤ total + (ticks.toNat + totalOf rest) := by
        omega
      simp [first, later, whole]
    · by_cases later : total + ticks.toNat < timer.distance ∧
          timer.distance ≤ total + ticks.toNat + totalOf rest
      · have whole : total < timer.distance ∧
            timer.distance ≤ total + (ticks.toNat + totalOf rest) := by omega
        simp [later, whole]
      · have whole : ¬ (total < timer.distance ∧
            timer.distance ≤ total + (ticks.toNat + totalOf rest)) := by omega
        simp [first, later, whole]

/-- The counter stands on the compare value after some number of ticks in a span. -/
def matchesWithin (timer : GptTimer) (first last : Nat) : Prop :=
  ∃ ahead, first < ahead ∧ ahead ≤ last ∧
    (timer.count.toNat + ahead) % 2 ^ 32 = timer.matchVal.toNat

theorem matchesWithin_iff {first last : Nat} (turn : last < 2 ^ 32) :
    timer.matchesWithin first last ↔ first < timer.distance ∧ timer.distance ≤ last := by
  constructor
  · rintro ⟨ahead, after, before, here⟩
    obtain rfl := (reaches_iff (by omega) (by omega)).mp here
    exact ⟨after, before⟩
  · rintro ⟨after, before⟩
    exact ⟨timer.distance, after, before, timer.distance_mod⟩

theorem totalOf_take_le (calls : List Word) (index : Nat) :
    totalOf (calls.take index) ≤ totalOf calls := by
  induction calls generalizing index with
  | nil => simp
  | cons ticks rest ih =>
    cases index with
    | zero => simp
    | succ index => simpa using ih index

end GptTimer

namespace PeripheralBus

variable {layout : BusLayout} {pbus : PeripheralBus} {quantum : Word}

/-- The bus after some slices of one quantum. -/
def slices (layout : BusLayout) (quantum : Word) (count : Nat) (pbus : PeripheralBus) :
    PeripheralBus :=
  (fun pbus => (pbus.tick layout quantum).2)^[count] pbus

/-- The slice in which the match is reached. -/
def firingSlice (timer : GptTimer) (quantum : Word) : Nat :=
  (timer.distance + quantum.toNat - 1) / quantum.toNat

theorem firingSlice_spec (timer : GptTimer) (positive : quantum ≠ 0) :
    0 < firingSlice timer quantum ∧
      timer.distance ≤ firingSlice timer quantum * quantum.toNat ∧
      ∀ earlier, earlier < firingSlice timer quantum → earlier * quantum.toNat < timer.distance := by
  have span : 0 < quantum.toNat := Nat.pos_of_ne_zero fun none => positive (BitVec.eq_of_toNat_eq none)
  have distance := timer.distance_pos
  have split := Nat.div_add_mod (timer.distance + quantum.toNat - 1) quantum.toNat
  have rest := Nat.mod_lt (timer.distance + quantum.toNat - 1) span
  rw [Nat.mul_comm] at split
  change firingSlice timer quantum * quantum.toNat + _ = _ at split
  refine ⟨Nat.div_pos (by omega) span, by omega, fun earlier before => ?_⟩
  have fewer : (earlier + 1) * quantum.toNat ≤ firingSlice timer quantum * quantum.toNat :=
    Nat.mul_le_mul_right _ before
  rw [Nat.succ_mul] at fewer
  omega

theorem tick_after (counting : pbus.gpt.Counting) (vic : VicState) (total : Nat) :
    tick layout ⟨vic, pbus.gpt.after total⟩ quantum =
      (decide (total < pbus.gpt.distance ∧ pbus.gpt.distance ≤ total + quantum.toNat),
        ⟨if total < pbus.gpt.distance ∧ pbus.gpt.distance ≤ total + quantum.toNat then
            vic.raiseLine layout.gptLine else vic,
          pbus.gpt.after (total + quantum.toNat)⟩) := by
  rw [tick, GptTimer.advance_after counting]
  by_cases fires : total < pbus.gpt.distance ∧ pbus.gpt.distance ≤ total + quantum.toNat
  · simp [fires]
  · simp [fires]

/-- The line is latched once the slices cover the distance. -/
theorem slices_eq (counting : pbus.gpt.Counting) (count : Nat) :
    slices layout quantum count pbus =
      ⟨if count * quantum.toNat < pbus.gpt.distance then pbus.vic
        else pbus.vic.raiseLine layout.gptLine,
        pbus.gpt.after (count * quantum.toNat)⟩ := by
  induction count with
  | zero =>
    have start : 0 * quantum.toNat < pbus.gpt.distance := by simpa using pbus.gpt.distance_pos
    rw [if_pos start, Nat.zero_mul, GptTimer.after_zero counting.armed]
    rfl
  | succ count ih =>
    have next : slices layout quantum (count + 1) pbus =
        (tick layout (slices layout quantum count pbus) quantum).2 :=
      Function.iterate_succ_apply' ..
    rw [next, ih, tick_after counting, Nat.succ_mul]
    by_cases before : count * quantum.toNat < pbus.gpt.distance
    · by_cases still : count * quantum.toNat + quantum.toNat < pbus.gpt.distance
      · have quiet : ¬ pbus.gpt.distance ≤ count * quantum.toNat + quantum.toNat := by omega
        simp [before, still, quiet]
      · have fires : pbus.gpt.distance ≤ count * quantum.toNat + quantum.toNat := by omega
        simp [before, still, fires]
    · have past : ¬ count * quantum.toNat + quantum.toNat < pbus.gpt.distance := by omega
      simp [before, past]

/-- However a span shorter than a turn is cut into calls, the compare fires once if the span
reaches it and not otherwise, in the call that reaches it, and the counter depends on the span
alone. With one quantum for each slice the line is latched first in the slice that covers the
distance. -/
theorem timer_exact (layout : BusLayout) (pbus : PeripheralBus) (counting : pbus.gpt.Counting) :
    (∀ calls, GptTimer.totalOf calls < 2 ^ 32 →
      ((pbus.gpt.advanceAll calls).1.count true = 1 ↔
        pbus.gpt.matchesWithin 0 (GptTimer.totalOf calls)) ∧
      (∀ index, index < calls.length →
        ((pbus.gpt.advanceAll calls).1[index]? = some true ↔
          pbus.gpt.matchesWithin (GptTimer.totalOf (calls.take index))
            (GptTimer.totalOf (calls.take (index + 1))))) ∧
      (pbus.gpt.advanceAll calls).2.count =
        (pbus.gpt.advance (BitVec.ofNat 32 (GptTimer.totalOf calls))).2.count) ∧
    ∀ quantum, quantum ≠ 0 →
      ((slices layout quantum (firingSlice pbus.gpt quantum - 1) pbus).tick layout quantum).1 = true ∧
      (∀ earlier, earlier < firingSlice pbus.gpt quantum - 1 →
        ((slices layout quantum earlier pbus).tick layout quantum).1 = false) ∧
      (∀ earlier, earlier < firingSlice pbus.gpt quantum →
        (slices layout quantum earlier pbus).vic = pbus.vic) ∧
      (slices layout quantum (firingSlice pbus.gpt quantum) pbus).vic =
        pbus.vic.raiseLine layout.gptLine := by
  constructor
  · intro calls turn
    have fires := GptTimer.advanceAll_fires counting calls 0
    have times := GptTimer.advanceAll_count counting calls 0
    have rest := GptTimer.advanceAll_timer counting calls 0
    simp only [GptTimer.after_zero counting.armed, Nat.zero_add] at fires times rest
    refine ⟨?_, fun index inside => ?_, ?_⟩
    · rw [GptTimer.matchesWithin_iff turn, times]
      split
      · simp_all
      · simp_all
    · have short := GptTimer.totalOf_take_le calls (index + 1)
      rw [fires index inside, GptTimer.matchesWithin_iff (by omega)]
      simp
    · have single := GptTimer.advance_after counting 0 (BitVec.ofNat 32 (GptTimer.totalOf calls))
      rw [GptTimer.after_zero counting.armed, BitVec.toNat_ofNat, Nat.mod_eq_of_lt turn,
        Nat.zero_add] at single
      rw [rest, single]
  · intro quantum positive
    obtain ⟨some, covered, before⟩ := firingSlice_spec pbus.gpt positive
    obtain ⟨last, here⟩ : ∃ last, firingSlice pbus.gpt quantum = last + 1 :=
      ⟨_, (Nat.succ_pred_eq_of_pos some).symm⟩
    rw [here] at covered before ⊢
    rw [Nat.succ_mul] at covered
    refine ⟨?_, fun earlier sooner => ?_, fun earlier sooner => ?_, ?_⟩
    · rw [Nat.add_sub_cancel, slices_eq counting, tick_after counting]
      simp [before last (by omega), covered]
    · have short := before (earlier + 1) (by omega)
      rw [Nat.succ_mul] at short
      rw [slices_eq counting, tick_after counting]
      simp [short]
    · rw [slices_eq counting]
      exact if_pos (before earlier sooner)
    · rw [slices_eq counting, Nat.succ_mul]
      exact if_neg (by omega)

/-- The counter stands on its compare value: a quantum of 4096 takes a full turn. -/
theorem timer_exact_fullTurn :
    firingSlice ⟨0x1000, 0x1000, true, true, false⟩ 4096 = 0x100000 ∧
      ((slices .firmware 4096 (0x100000 - 1) ⟨VicState.idle, ⟨0x1000, 0x1000, true, true, false⟩⟩).tick
        .firmware 4096).1 = true := by
  have slice : firingSlice ⟨0x1000, 0x1000, true, true, false⟩ 4096 = 0x100000 := by decide
  have exact := (timer_exact .firmware ⟨VicState.idle, ⟨0x1000, 0x1000, true, true, false⟩⟩
    ⟨rfl, rfl, rfl⟩).2 4096 (by decide)
  rw [slice] at exact
  exact ⟨slice, exact.1⟩

end PeripheralBus

end ZeeboLle.Device

import ZeeboLle.Device.TimerExactness

/-! A timer that a match sets back. The counter is set to zero at the end of the call that reaches
the match, so the ticks of that call past the match are lost. -/
namespace ZeeboLle.Device

open Unicorn

namespace GptTimer

/-- Enabled, armed, and set back by a match. -/
structure Clearing (timer : GptTimer) : Prop where
  enabled : timer.enabled = true
  armed : timer.matchArmed = true
  clears : timer.clrOnMatch = true

/-- The two cuts leave the same count and fire equally often. -/
def Agree (timer : GptTimer) (first second : List Word) : Prop :=
  (timer.advanceAll first).2.count = (timer.advanceAll second).2.count ∧
    (timer.advanceAll first).1.count true = (timer.advanceAll second).1.count true

/-- Any two cuts of the total into calls agree. -/
def SliceFree (timer : GptTimer) (total : Nat) : Prop :=
  ∀ first second : List Word, totalOf first = total → totalOf second = total → timer.Agree first second

/-- Ticks that come after the call that covers the distance. -/
def ticksLeft (distance : Nat) : List Word → Nat
  | [] => 0
  | ticks :: rest =>
    if ticks.toNat < distance then ticksLeft (distance - ticks.toNat) rest else totalOf rest

/-- Set back to zero, and not armed. -/
def fired (timer : GptTimer) : GptTimer := { timer with count := 0, matchArmed := false }

variable {timer : GptTimer} {total : Nat} {ticks : Word}

theorem ticksLeft_zero {distance : Nat} (positive : 0 < distance) (calls : List Word)
    (short : totalOf calls ≤ distance) : ticksLeft distance calls = 0 := by
  induction calls generalizing distance with
  | nil => rfl
  | cons ticks rest ih =>
    rw [totalOf_cons] at short
    rw [ticksLeft]
    split
    · exact ih (by omega) (by omega)
    · omega

theorem ticksLeft_le (distance : Nat) (calls : List Word) : ticksLeft distance calls ≤ totalOf calls := by
  induction calls generalizing distance with
  | nil => exact Nat.le_refl _
  | cons ticks rest ih =>
    rw [totalOf_cons, ticksLeft]
    split
    · exact Nat.le_add_left_of_le (ih _)
    · exact Nat.le_add_left _ _

/-- One call before the match, or the one that reaches it. -/
theorem Clearing.advance_after (clearing : timer.Clearing) (ticks : Word) (within : total < timer.distance) :
    (timer.after total).advance ticks =
      if total + ticks.toNat < timer.distance then (false, timer.after (total + ticks.toNat))
      else (true, timer.fired) := by
  have sum := count_add timer.count total ticks
  by_cases nothing : ticks = 0
  · subst nothing
    rw [advance, if_pos (.inr rfl)]
    simp [within]
  have armed : (timer.after total).matchArmed = true := by simp [after, within]
  have running : ¬((timer.after total).enabled = false ∨ ticks = 0) :=
    advance_running clearing.enabled nothing
  rw [advance, if_neg running]
  simp only [armed, Bool.true_and, crossed_after within ticks]
  by_cases short : total + ticks.toNat < timer.distance
  · rw [if_neg (Nat.not_le_of_lt short), if_pos short]
    simp [after, within, short, sum]
  · rw [if_pos (Nat.le_of_not_lt short), if_neg short]
    simp [after, fired, clearing.clears]

/-- Once it has fired it only counts. -/
theorem advance_unarmed (enabled : timer.enabled = true) (unarmed : timer.matchArmed = false) (ticks : Word) :
    timer.advance ticks = (false, { timer with count := timer.count + ticks }) := by
  by_cases nothing : ticks = 0
  · rw [advance, if_pos (.inr nothing), nothing]
    simp
  · rw [advance, if_neg (advance_running enabled nothing)]
    simp [unarmed]

theorem advanceAll_unarmed (enabled : timer.enabled = true) (unarmed : timer.matchArmed = false)
    (calls : List Word) :
    (timer.advanceAll calls).2.count = timer.count + BitVec.ofNat 32 (totalOf calls) ∧
      (timer.advanceAll calls).1.count true = 0 := by
  induction calls generalizing timer with
  | nil => simp [advanceAll]
  | cons ticks rest ih =>
    rw [advanceAll_cons, advance_unarmed enabled unarmed, totalOf_cons]
    obtain ⟨count, none⟩ := @ih { timer with count := timer.count + ticks } enabled unarmed
    refine ⟨?_, by simpa using none⟩
    rw [count, BitVec.ofNat_add, BitVec.ofNat_toNat, BitVec.setWidth_eq, BitVec.add_assoc]

/-- A list of calls either stays short of the match, or fires once and keeps only the ticks after
the call that did. -/
theorem Clearing.advanceAll_after (clearing : timer.Clearing) (calls : List Word)
    (within : total < timer.distance) :
    ((timer.after total).advanceAll calls).2.count =
        (if total + totalOf calls < timer.distance then
          timer.count + BitVec.ofNat 32 (total + totalOf calls)
        else BitVec.ofNat 32 (ticksLeft (timer.distance - total) calls)) ∧
      ((timer.after total).advanceAll calls).1.count true =
        if total + totalOf calls < timer.distance then 0 else 1 := by
  induction calls generalizing total with
  | nil => simp [advanceAll, within, after]
  | cons ticks rest ih =>
    rw [advanceAll_cons, clearing.advance_after ticks within, totalOf_cons, ticksLeft]
    by_cases short : total + ticks.toNat < timer.distance
    · obtain ⟨count, times⟩ := ih short
      have ahead : ticks.toNat < timer.distance - total := by omega
      rw [if_pos short, if_pos ahead, ← Nat.add_assoc, Nat.sub_sub]
      exact ⟨count, by simpa using times⟩
    · obtain ⟨count, none⟩ := timer.fired.advanceAll_unarmed clearing.enabled rfl rest
      have reached : ¬ticks.toNat < timer.distance - total := by omega
      rw [if_neg short, if_neg reached, if_neg (by omega), if_neg (by omega)]
      exact ⟨by simpa [fired] using count, by simp [none]⟩

/-- Two cuts of one total agree exactly if the same ticks come after the call that reaches the
match. -/
theorem Clearing.agree_iff (clearing : timer.Clearing) (first second : List Word)
    (same : totalOf first = totalOf second) (turn : totalOf first < 2 ^ 32) :
    timer.Agree first second ↔ ticksLeft timer.distance first = ticksLeft timer.distance second := by
  have one := clearing.advanceAll_after first timer.distance_pos
  have other := clearing.advanceAll_after second timer.distance_pos
  rw [after_zero clearing.armed, Nat.zero_add, Nat.sub_zero] at one other
  rw [Agree, one.1, one.2, other.1, other.2, same]
  by_cases short : totalOf second < timer.distance
  · have none := ticksLeft_zero timer.distance_pos first (by omega)
    have nothing := ticksLeft_zero timer.distance_pos second (by omega)
    simp [short, none, nothing]
  · have bound := ticksLeft_le timer.distance first
    have limit := ticksLeft_le timer.distance second
    simp only [if_neg short, and_true]
    rw [← BitVec.toNat_inj, BitVec.toNat_ofNat, BitVec.toNat_ofNat, Nat.mod_eq_of_lt (by omega),
      Nat.mod_eq_of_lt (by omega)]

/-- No cut matters exactly if the match is not passed. -/
theorem Clearing.sliceFree_iff (clearing : timer.Clearing) (turn : total < 2 ^ 32) :
    timer.SliceFree total ↔ total ≤ timer.distance := by
  have positive := timer.distance_pos
  constructor
  · intro free
    by_contra past
    have whole : totalOf [BitVec.ofNat 32 total] = total := by
      simp
      omega
    have parts :
        totalOf [BitVec.ofNat 32 timer.distance, BitVec.ofNat 32 (total - timer.distance)] = total := by
      simp
      omega
    have same := (clearing.agree_iff _ _ (whole.trans parts.symm) (by omega)).1 (free _ _ whole parts)
    simp [ticksLeft] at same
    omega
  · intro short first second one other
    rw [clearing.agree_iff first second (by omega) (by omega),
      ticksLeft_zero positive first (by omega), ticksLeft_zero positive second (by omega)]

/-- The result depends on the slices through one thing only, the ticks after the call that reaches
the match; it does not depend on them at all exactly if the match is not passed. -/
theorem slices_agree_iff (clearing : timer.Clearing) :
    (∀ first second : List Word, totalOf first = totalOf second → totalOf first < 2 ^ 32 →
      (timer.Agree first second ↔
        ticksLeft timer.distance first = ticksLeft timer.distance second)) ∧
    ∀ total, total < 2 ^ 32 → (timer.SliceFree total ↔ total ≤ timer.distance) :=
  ⟨clearing.agree_iff, fun _ => clearing.sliceFree_iff⟩

/-- A period of ten ticks, up to the match. -/
theorem slices_agree_period : SliceFree ⟨0, 10, true, true, true⟩ 10 :=
  ((slices_agree_iff ⟨rfl, rfl, rfl⟩).2 10 (by decide)).2 (by decide)

/-- Ten ticks at once leave zero, in two halves they leave five. -/
theorem slices_disagree : ¬Agree ⟨0, 5, true, true, true⟩ [10] [5, 5] := fun same =>
  absurd same.1 (by decide)

end GptTimer

end ZeeboLle.Device

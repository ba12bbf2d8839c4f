import Mathlib.Data.List.Basic
import Mathlib.Data.List.GetD
import Mathlib.Data.List.Range

/-! References into what has been written already. A reference may reach before the first value,
where it finds a blank, and into the values it is writing itself, which it then repeats. -/
namespace ZeeboLle.Streams

variable {α : Type*}

/-- The value so many places before the end, or a blank where there is none. -/
def back (blank : α) (distance : Nat) (out : List α) : α :=
  if distance = 0 ∨ out.length < distance then blank else out.getD (out.length - distance) blank

/-- The last values, with blanks in front of the first one. -/
def lastValues (blank : α) (distance : Nat) (out : List α) : List α :=
  (List.replicate distance blank ++ out).drop out.length

/-- The last values over and over. -/
def repeated (blank : α) (distance count : Nat) (out : List α) : List α :=
  (List.range count).map fun k => (lastValues blank distance out).getD (k % distance) blank

variable {blank : α} {distance count : Nat} {out : List α}

theorem length_repeated : (repeated blank distance count out).length = count := by
  rw [repeated, List.length_map, List.length_range]

theorem repeated_succ : repeated blank distance (count + 1) out =
    repeated blank distance count out ++
      [(lastValues blank distance out).getD (count % distance) blank] := by
  rw [repeated, List.range_succ, List.map_append]
  rfl

theorem lastValues_getD (index : Nat) : (lastValues blank distance out).getD index blank =
    if out.length + index < distance then blank
    else out.getD (out.length + index - distance) blank := by
  rw [lastValues, List.getD_eq_getElem?_getD, List.getElem?_drop]
  split
  · next before =>
    rw [List.getElem?_append_left (by rwa [List.length_replicate]), List.getElem?_replicate]
    split <;> rfl
  · next reached =>
    rw [List.getElem?_append_right (by rw [List.length_replicate]; omega), List.length_replicate,
      List.getD_eq_getElem?_getD]

/-- After so many repeated values the next one is found `distance` places back. -/
theorem back_repeated : back blank distance (out ++ repeated blank distance count out) =
    (lastValues blank distance out).getD (count % distance) blank := by
  rw [back, List.length_append, length_repeated, lastValues_getD]
  by_cases none : distance = 0
  · subst none
    rw [if_pos (.inl rfl), if_neg (Nat.not_lt_zero _), Nat.mod_zero, Nat.sub_zero,
      List.getD_eq_default _ _ (Nat.le_add_right _ _)]
  · have positive : 0 < distance := Nat.pos_of_ne_zero none
    by_cases first : count < distance
    · -- the first round still reads what was there before
      rw [Nat.mod_eq_of_lt first]
      by_cases before : out.length + count < distance
      · rw [if_pos (.inr before), if_pos before]
      · rw [if_neg (by omega), if_neg before, List.getD_append _ _ _ _ (by omega)]
    · have reached : ¬ (distance = 0 ∨ out.length + count < distance) := by omega
      have place : out.length + count - distance = out.length + (count - distance) := by omega
      have round : (count - distance) % distance = count % distance := by
        rw [← Nat.mod_eq_sub_mod (Nat.le_of_not_lt first)]
      rw [if_neg reached, place, List.getD_append_right _ _ _ _ (Nat.le_add_right _ _),
        Nat.add_sub_cancel_left, repeated, List.getD_eq_getElem?_getD, List.getElem?_map,
        List.getElem?_range (by omega), Option.map_some, Option.getD_some, round, lastValues_getD]

end ZeeboLle.Streams

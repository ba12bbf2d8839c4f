import Mathlib.Data.List.Infix
import Mathlib.Data.List.TakeWhile

/-! Where a pattern occurs first in a text: in front of that place no occurrence starts.
The text is taken in pieces, each quiet in front of what follows it. -/
namespace ZeeboLle.Streams

variable {α : Type*} {mark first : α} {pattern key raw front middle tail : List α}

/-- No occurrence of the pattern starts in the front of a text. -/
def Quiet (pattern front tail : List α) : Prop :=
  ∀ before after, front = before ++ after → after ≠ [] → ¬ pattern <+: after ++ tail

theorem Quiet.nil : Quiet pattern [] tail := by
  intro before after split filled
  exact absurd (List.append_eq_nil_iff.mp split.symm).2 filled

theorem Quiet.append (first : Quiet pattern front (middle ++ tail))
    (second : Quiet pattern middle tail) : Quiet pattern (front ++ middle) tail := by
  intro before after split filled
  rcases List.append_eq_append_iff.mp split with ⟨more, -, rest⟩ | ⟨more, rest, rfl⟩
  · exact second more after rest filled
  · rw [List.append_assoc]
    by_cases empty : more = []
    · subst empty
      exact second [] middle rfl (by simpa using filled)
    · exact first before more rest empty

/-- A pattern does not start where its first element is missing. -/
theorem Quiet.of_not_mem (absent : mark ∉ front) : Quiet (mark :: key) front tail := by
  intro before after split filled starts
  obtain ⟨first, after, rfl⟩ := List.exists_cons_of_ne_nil filled
  obtain ⟨rfl, -⟩ := List.cons_prefix_cons.mp starts
  exact absent (split ▸ List.mem_append_right _ List.mem_cons_self)

theorem Quiet.cons (other : mark ≠ first) (rest : Quiet (mark :: key) front tail) :
    Quiet (mark :: key) (first :: front) tail :=
  (Quiet.of_not_mem (by simpa using other) : Quiet _ [first] _).append rest

/-- An occurrence of a marked key that starts in a text between marks lies inside, unless it
starts at the closing mark. -/
theorem prefix_of_wrapped {before after : List α} (plain : mark ∉ key) (apart : ¬ key ++ [mark] <+: tail)
    (split : mark :: (raw ++ [mark]) = before ++ after) (filled : after ≠ [])
    (starts : mark :: (key ++ [mark]) <+: after ++ tail) : mark :: (key ++ [mark]) <+: after := by
  rcases List.prefix_or_prefix_of_prefix starts (List.prefix_append after tail) with within | whole
  · exact within
  · -- what is left of the text is a front of the pattern, and ends with the closing mark
    obtain ⟨rest, same⟩ := whole
    obtain ⟨first, more, rfl⟩ := List.exists_cons_of_ne_nil filled
    rw [List.cons_append, List.cons.injEq] at same
    obtain ⟨rfl, same⟩ := same
    have closing : (first :: more).getLast? = some first := by
      have last := congrArg List.getLast? split
      rwa [List.getLast?_append_of_ne_nil _ filled, ← List.cons_append,
        List.getLast?_concat, eq_comm] at last
    cases more with
    | nil => exact absurd (List.cons_prefix_cons.mp starts).2 apart
    | cons second more =>
      have member : first ∈ second :: more := List.mem_of_getLast? (by simpa using closing)
      rcases List.eq_nil_or_concat rest with rfl | ⟨rest, final, rfl⟩
      · rw [← same, List.append_nil]
      · rw [List.concat_eq_append, ← List.append_assoc] at same
        have front := (List.append_inj' same rfl).1
        exact absurd (front ▸ List.mem_append_left rest member) plain

/-- Between marks: an occurrence of the marked key would lie inside, or start at the closing
mark. -/
theorem Quiet.wrapped (plain : mark ∉ key)
    (absent : ¬ mark :: (key ++ [mark]) <:+: mark :: (raw ++ [mark]))
    (apart : ¬ key ++ [mark] <+: tail) :
    Quiet (mark :: (key ++ [mark])) (mark :: (raw ++ [mark])) tail := by
  intro before after split filled starts
  have inside := prefix_of_wrapped plain apart split filled starts
  exact absent (split ▸ inside.isInfix.trans (List.suffix_append before after).isInfix)

/-- A text with a mark behind it, cut at its first mark. -/
theorem takeWhile_split [DecidableEq α] (mark : α) (raw tail : List α) :
    ∃ rest, raw ++ mark :: tail = raw.takeWhile (· != mark) ++ mark :: rest := by
  induction raw with
  | nil => exact ⟨tail, rfl⟩
  | cons first raw ih =>
    obtain ⟨rest, cut⟩ := ih
    rw [List.takeWhile_cons]
    by_cases same : first = mark
    · exact ⟨raw ++ mark :: tail, by simp [same]⟩
    · exact ⟨rest, by simp [same, cut]⟩

theorem not_mem_takeWhile [DecidableEq α] (mark : α) (raw : List α) :
    mark ∉ raw.takeWhile (· != mark) := fun member => by
  simpa using List.mem_takeWhile_imp member

theorem takeWhile_eq_self_of_not_mem [DecidableEq α] (absent : mark ∉ raw) :
    raw.takeWhile (· != mark) = raw :=
  List.takeWhile_eq_self_iff.mpr fun _ member =>
    bne_iff_ne.mpr fun same => absent (same ▸ member)

end ZeeboLle.Streams

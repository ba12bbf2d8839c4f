import Mathlib.Data.List.Perm.Basic
import Mathlib.Order.Defs.Unbundled

/-! The champion of a stream: the first value holds the title until one that beats it arrives.
Where beating is a weak order, strict or not, the last champion has beaten everything before it
and nothing after it beats it. -/
namespace ZeeboLle.Streams

variable {α : Type*} (beats : α → α → Prop)

/-- Beating composes, and whoever beats a value beats everything that does not. -/
structure Ranks : Prop where
  trans : ∀ {x y z}, beats x y → beats y z → beats x z
  cut : ∀ {x y} z, beats x y → beats x z ∨ beats z y

/-- A value that beats all before it and is not beaten by any after it. -/
def Champion (values : List α) (best : α) : Prop :=
  ∃ before after, values = before ++ best :: after ∧
    (∀ x ∈ before, beats best x) ∧ ∀ x ∈ after, ¬beats x best

variable {beats}

theorem Champion.single (first : α) : Champion beats [first] first :=
  ⟨[], [], rfl, by simp, by simp⟩

/-- Where one of any two values beats the other and not both, the order of arrival is irrelevant. -/
theorem Champion.eq_of_perm {values others : List α} {best other : α} (same : values.Perm others)
    (decided : values.Pairwise fun x y => beats x y ↔ ¬beats y x)
    (left : Champion beats values best) (right : Champion beats others other) : best = other := by
  obtain ⟨before, after, rfl, first, last⟩ := left
  obtain ⟨before', after', rfl, first', last'⟩ := right
  by_contra different
  have sides := List.pairwise_append.mp decided
  have wins : beats best other := by
    have member : other ∈ before ++ best :: after := same.mem_iff.mpr (by simp)
    rcases List.mem_append.mp member with early | late
    · exact first other early
    · rcases List.mem_cons.mp late with rfl | late
      · exact absurd rfl different
      · exact ((List.pairwise_cons.mp sides.2.1).1 other late).mpr (last other late)
  have decided' : (before' ++ other :: after').Pairwise fun x y => beats x y ↔ ¬beats y x :=
    (same.pairwise_iff fun {x y} one => by tauto).mp decided
  have sides' := List.pairwise_append.mp decided'
  have member : best ∈ before' ++ other :: after' := same.mem_iff.mp (by simp)
  rcases List.mem_append.mp member with early | late
  · exact (sides'.2.2 best early other (by simp)).mp wins (first' best early)
  · rcases List.mem_cons.mp late with rfl | late
    · exact different rfl
    · exact last' best late wins

variable [DecidableRel beats]

/-- One more challenger. -/
theorem Champion.step (ranks : Ranks beats) {values : List α} {best : α}
    (champion : Champion beats values best) (x : α) :
    Champion beats (values ++ [x]) (if beats x best then x else best) := by
  obtain ⟨before, after, rfl, first, last⟩ := champion
  split
  · rename_i wins
    refine ⟨before ++ best :: after, [], by simp, ?_, by simp⟩
    intro y member
    rcases List.mem_append.mp member with early | late
    · exact ranks.trans wins (first y early)
    · rcases List.mem_cons.mp late with rfl | late
      · exact wins
      · exact (ranks.cut y wins).resolve_right (last y late)
  · rename_i loses
    refine ⟨before, after ++ [x], by simp, first, ?_⟩
    intro y member
    rcases List.mem_append.mp member with late | same
    · exact last y late
    · rwa [List.mem_singleton.mp same]

theorem champion_foldl (ranks : Ranks beats) (rest : List α) {values : List α} {best : α}
    (champion : Champion beats values best) :
    Champion beats (values ++ rest) (rest.foldl (fun best x => if beats x best then x else best) best) := by
  induction rest generalizing values best with
  | nil => simpa using champion
  | cons x rest ih => simpa using ih (champion.step ranks x)

end ZeeboLle.Streams

import Mathlib.Data.Fintype.Card
import Mathlib.Logic.Relation

/-! Descents in a finite relation. From a point every descent ends exactly when no point that
can be reached from it leads back to itself. -/
namespace ZeeboLle.Relations

open Relation

variable {α : Type*} {leads : α → α → Prop} {start point : α}

/-- Some point that can be reached leads back to itself. -/
def Loops (leads : α → α → Prop) (start : α) : Prop :=
  ∃ point, ReflTransGen leads start point ∧ TransGen leads point point

/-- Every descent from the point ends. -/
abbrev Ends (leads : α → α → Prop) (start : α) : Prop := Acc (fun next point => leads point next) start

theorem Ends.reached (ends : Ends leads start) (reached : ReflTransGen leads start point) :
    Ends leads point := by
  induction reached with
  | refl => exact ends
  | tail _ step ih => exact ih.inv step

theorem Ends.no_return (ends : Ends leads point) : ¬ TransGen leads point point := by
  induction ends with
  | intro point _ ih =>
    intro back
    obtain ⟨next, step, rest⟩ := TransGen.head'_iff.mp back
    exact ih next step (TransGen.tail' rest step)

/-- Steps between points that can be reached from the start, backwards. -/
private def Back (leads : α → α → Prop) (start next point : α) : Prop :=
  leads point next ∧ ReflTransGen leads start point

private theorem Back.forward {next : α} (back : TransGen (Back leads start) next point) :
    TransGen leads point next ∧ ReflTransGen leads start point := by
  induction back with
  | single step => exact ⟨.single step.1, step.2⟩
  | tail _ step ih => exact ⟨.head step.1 ih.1, step.2⟩

theorem ends_of_not_loops [Finite α] (straight : ¬ Loops leads start) : Ends leads start := by
  have irreflexive : Std.Irrefl (TransGen (Back leads start)) := by
    refine ⟨fun point back => straight ?_⟩
    obtain ⟨cycle, reached⟩ := Back.forward back
    exact ⟨point, reached, cycle⟩
  have founded := Finite.wellFounded_of_trans_of_irrefl (TransGen (Back leads start))
  have descend (point : α) : ReflTransGen leads start point → Ends leads point := by
    induction point using founded.induction with
    | _ point ih =>
      intro reached
      exact ⟨point, fun next step => ih next (.single ⟨step, reached⟩) (reached.tail step)⟩
  exact descend start .refl

theorem ends_iff_not_loops [Finite α] : Ends leads start ↔ ¬ Loops leads start := by
  refine ⟨?_, ends_of_not_loops⟩
  rintro ends ⟨point, reached, cycle⟩
  exact (ends.reached reached).no_return cycle

end ZeeboLle.Relations

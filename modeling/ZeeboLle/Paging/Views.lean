import ZeeboLle.Paging.Bytes
import ZeeboLle.Paging.Segments

/-! What a block that was written to the cells of some places looks like at every place. -/
namespace ZeeboLle.Paging

variable {κ β : Type} {lookup : Nat → Option κ} {store : κ → β} {view : Nat → β}
  {start address : Nat} {values : List β} {cell : κ}

/-- What a place shows through its cell. -/
def shown (lookup : Nat → Option κ) (store : κ → β) (missing : β) (address : Nat) : β :=
  ((lookup address).map store).getD missing

theorem shown_of_found {missing : β} (found : lookup address = some cell) :
    shown lookup store missing address = store cell := by
  rw [shown, found]
  rfl

theorem reach_map_shown {missing : β} {count : Nat}
    (full : ∀ index, index < count → (lookup (start + index)).isSome = true) :
    (reach lookup start count).map store = segment (shown lookup store missing) start count := by
  have whole := reach_full_iff.mpr full
  apply List.ext_getElem?
  intro index
  by_cases below : index < count
  · obtain ⟨cell, found⟩ := Option.isSome_iff_exists.mp (full index below)
    have here : (reach lookup start count)[index]? = some cell := by
      rw [← found]
      exact getElem?_reach (whole.symm ▸ below)
    rw [List.getElem?_map, here, getElem?_segment below, shown_of_found found]
    rfl
  · rw [List.getElem?_eq_none (by rw [List.length_map]; omega),
      List.getElem?_eq_none (by rw [length_segment]; omega)]

variable [DecidableEq κ]

/-- A cell that no place of a block has keeps its value. -/
theorem writeAll_reach_outside (outside : ∀ index, index < values.length →
    lookup (start + index) ≠ some cell) :
    writeAll store ((reach lookup start values.length).zip values) cell = store cell := by
  apply writeAll_outside
  rintro ⟨hit, value⟩ member rfl
  obtain ⟨index, below, here⟩ := List.mem_iff_getElem.mp (List.of_mem_zip member).1
  have short : index < values.length := Nat.lt_of_lt_of_le below (length_reach_le _ _ _)
  have found := getElem?_reach below
  rw [List.getElem?_eq_getElem below, here] at found
  exact outside index short found.symm

/-- A place that shares its cell with no other one of a block shows what was written to it. -/
theorem writeAll_reach (full : ∀ index, index < values.length → (lookup (start + index)).isSome = true)
    (found : lookup address = some cell) (held : view address = store cell)
    (apart : ∀ index, index < values.length → lookup (start + index) = some cell →
      start + index = address) :
    writeAll store ((reach lookup start values.length).zip values) cell =
      patch view start values address := by
  have whole := reach_full_iff.mpr full
  by_cases missed : address < start ∨ start + values.length ≤ address
  · rw [patch_apart missed, held, writeAll_reach_outside]
    intro index below same
    have here := apart index below same
    omega
  · obtain ⟨index, rfl⟩ := Nat.exists_eq_add_of_le (show start ≤ address by omega)
    have below : index < values.length := by omega
    rw [patch_inside below]
    have listed : (reach lookup start values.length)[index]? = some cell := by
      rw [← found]
      exact getElem?_reach (whole.symm ▸ below)
    refine writeAll_agreed (exists_zip (Nat.le_of_eq whole) (List.mem_of_getElem? listed)) ?_
    rintro ⟨hit, value⟩ member rfl
    obtain ⟨other, short, here⟩ := List.mem_iff_getElem.mp member
    rw [List.getElem_zip] at here
    have within : other < (reach lookup start values.length).length ∧ other < values.length := by
      rw [List.length_zip] at short
      omega
    have target := getElem?_reach within.1
    rw [List.getElem?_eq_getElem within.1, (Prod.mk.inj here).1] at target
    have same := apart other within.2 target.symm
    obtain rfl : other = index := by omega
    exact (Prod.mk.inj here).2.symm

end ZeeboLle.Paging

import Mathlib.Data.List.Basic

/-! Stretches of a flat store: a block of values written over it, and a block read back. -/
namespace ZeeboLle.Paging

variable {β : Type} {store other : Nat → β} {start from' count : Nat} {values : List β}

/-- The store with a block of values written at an address. -/
def patch (store : Nat → β) (start : Nat) (values : List β) : Nat → β := fun address =>
  if start ≤ address then (values[address - start]?).getD (store address) else store address

/-- The block of values at an address. -/
def segment (store : Nat → β) (start count : Nat) : List β :=
  (List.range count).map fun index => store (start + index)

@[simp] theorem length_segment (store : Nat → β) (start count : Nat) :
    (segment store start count).length = count := by simp [segment]

theorem segment_congr (same : ∀ index, index < count → store (start + index) = other (start + index)) :
    segment store start count = segment other start count :=
  List.map_congr_left fun index member => same index (List.mem_range.mp member)

theorem getElem_segment {index : Nat} (below : index < (segment store start count).length) :
    (segment store start count)[index] = store (start + index) := by
  simp only [segment, List.getElem_map, List.getElem_range]

theorem getElem?_segment {index : Nat} (below : index < count) :
    (segment store start count)[index]? = some (store (start + index)) := by
  rw [segment, List.getElem?_map, List.getElem?_range below]
  rfl

theorem segment_add (store : Nat → β) (start first second : Nat) :
    segment store start (first + second) =
      segment store start first ++ segment store (start + first) second := by
  simp only [segment, List.range_add, List.map_append, List.map_map]
  congr 1
  apply List.map_congr_left
  intro index _
  rw [Function.comp_apply, Nat.add_assoc]

/-- A shorter block is the front of a longer one. -/
theorem take_segment {shorter : Nat} (fits : shorter ≤ count) :
    (segment store start count).take shorter = segment store start shorter := by
  obtain ⟨rest, rfl⟩ := Nat.exists_eq_add_of_le fits
  rw [segment_add, List.take_append_of_le_length (by simp), List.take_of_length_le (by simp)]

theorem drop_segment {skipped : Nat} (fits : skipped ≤ count) :
    (segment store start count).drop skipped = segment store (start + skipped) (count - skipped) := by
  obtain ⟨rest, rfl⟩ := Nat.exists_eq_add_of_le fits
  rw [segment_add, List.drop_append_of_le_length (by simp), List.drop_of_length_le (by simp),
    List.nil_append, Nat.add_sub_cancel_left]

theorem patch_apart {address : Nat} (apart : address < start ∨ start + values.length ≤ address) :
    patch store start values address = store address := by
  unfold patch
  split
  · rw [List.getElem?_eq_none (by omega)]
    rfl
  · rfl

theorem patch_inside {index : Nat} (below : index < values.length) :
    patch store start values (start + index) = values[index] := by
  rw [patch, if_pos (by omega), Nat.add_sub_cancel_left, List.getElem?_eq_getElem below]
  rfl

@[simp] theorem patch_nil (store : Nat → β) (start : Nat) : patch store start [] = store := by
  funext address
  exact patch_apart (by rw [List.length_nil]; omega)

/-- What stood under the block does not matter. -/
theorem patch_congr (same : ∀ address, address < start ∨ start + values.length ≤ address →
    store address = other address) : patch store start values = patch other start values := by
  funext address
  by_cases apart : address < start ∨ start + values.length ≤ address
  · rw [patch_apart apart, patch_apart apart, same address apart]
  · obtain ⟨index, rfl⟩ := Nat.exists_eq_add_of_le (show start ≤ address by omega)
    rw [patch_inside (show index < values.length by omega), patch_inside]

/-- Blocks written one behind the other are one block. -/
theorem patch_append (store : Nat → β) (start : Nat) (values more : List β) :
    patch (patch store start values) (start + values.length) more = patch store start (values ++ more) := by
  funext address
  by_cases inside : start + values.length ≤ address
  · rw [patch, if_pos inside, patch_apart (.inr inside), patch, if_pos (by omega),
      List.getElem?_append_right (by omega), Nat.sub_sub]
  · rw [patch_apart (.inl (by omega))]
    by_cases before : start ≤ address
    · rw [patch, patch, if_pos before, if_pos before, List.getElem?_append_left (by omega)]
    · rw [patch_apart (.inl (by omega)), patch_apart (.inl (by omega))]

theorem segment_patch (store : Nat → β) (start : Nat) (values : List β) :
    segment (patch store start values) start values.length = values := by
  apply List.ext_getElem
  · simp
  · intro index inside below
    rw [getElem_segment inside]
    exact patch_inside below

theorem segment_patch_apart
    (apart : from' + count ≤ start ∨ start + values.length ≤ from') :
    segment (patch store start values) from' count = segment store from' count := by
  apply segment_congr
  intro index below
  exact patch_apart (by omega)

end ZeeboLle.Paging

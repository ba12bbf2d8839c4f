import ZeeboLle.Scheduling.Cyclic
import Mathlib.Data.Finset.Card
import Mathlib.Data.Finset.Range
import Mathlib.Data.List.Rotate
import Mathlib.Data.Nat.ModEq

/-! Looking at every so many turns of a cyclic order only. Over as many looks as there are
members each of them is seen exactly if the stride has no factor in common with their number. -/
namespace ZeeboLle.Scheduling

variable {α : Type*} [LinearOrder α] {members : List α}

/-- Picking some of the members picks them out of every round. -/
theorem cyclicFrom_filter (kept : α → Bool) (start : α) :
    cyclicFrom (members.filter kept) start = (cyclicFrom members start).filter kept := by
  simp only [cyclicFrom, List.filter_append, List.filter_filter, Bool.and_comm]

private theorem filter_range_split {first last : Nat} (rest : Nat) (only : last + 1 = first) :
    cyclicFrom (List.range (first + rest)) last =
      (List.range rest).map (first + ·) ++ List.range first := by
  have low : ∀ member ∈ List.range first, ¬ last < member := by
    intro member listed
    have bound := List.mem_range.mp listed
    omega
  have high : ∀ member ∈ (List.range rest).map (first + ·), last < member := by
    intro member listed
    obtain ⟨index, _, rfl⟩ := List.mem_map.mp listed
    omega
  rw [cyclicFrom, List.range_add, List.filter_append, List.filter_append,
    List.filter_eq_nil_iff.mpr (by simpa using low), List.filter_eq_self.mpr (by simpa using high),
    List.filter_eq_self.mpr (by simpa using low), List.filter_eq_nil_iff.mpr (by simpa using high),
    List.nil_append, List.append_nil]

/-- The round of the numbers below a bound that begins at one of them. -/
theorem cyclicFrom_range {size first : Nat} (below : first < size) :
    cyclicFrom (List.range size) ((first + (size - 1)) % size) =
      (List.range size).map fun index => (first + index) % size := by
  obtain ⟨rest, rfl⟩ := Nat.exists_eq_add_of_lt below
  have turned : (List.range (first + rest + 1)).map (fun index => (first + index) % (first + rest + 1)) =
      (List.range (rest + 1)).map (first + ·) ++ List.range first := by
    rw [show first + rest + 1 = rest + 1 + first by omega, List.range_add, List.map_append, List.map_map]
    congr 1
    · refine List.map_congr_left fun index listed => ?_
      have bound := List.mem_range.mp listed
      exact Nat.mod_eq_of_lt (by omega)
    · refine (List.map_congr_left fun index listed => ?_).trans (List.map_id _)
      have bound := List.mem_range.mp listed
      rw [Function.comp_apply, show first + (rest + 1 + index) = index + (rest + 1 + first) by omega,
        Nat.add_mod_right, Nat.mod_eq_of_lt (by omega), id]
  rw [turned]
  cases first with
  | zero =>
    rw [show 0 + (0 + rest + 1 - 1) = rest by omega, Nat.mod_eq_of_lt (by omega)]
    have split := filter_range_split 0 (rfl : rest + 1 = rest + 1)
    simpa using split
  | succ last =>
    rw [show last + 1 + (last + 1 + rest + 1 - 1) = last + (last + 1 + rest + 1) by omega,
      Nat.add_mod_right, Nat.mod_eq_of_lt (by omega)]
    exact filter_range_split (rest + 1) rfl

/-- Going to the next member turns the round by one. -/
theorem cyclicFrom_step (ascending : members.Pairwise (· < ·)) {step : α → α} {point : α}
    (next : (cyclicFrom members point).head? = some (step point)) :
    cyclicFrom members (step point) = (cyclicFrom members point).rotate 1 := by
  obtain ⟨rest, round⟩ := List.head?_eq_some_iff.mp next
  rw [cyclicFrom_next ascending round, round, List.rotate_cons_succ, List.rotate_zero]

theorem cyclicFrom_iterate (ascending : members.Pairwise (· < ·)) {step : α → α}
    (next : ∀ point, (cyclicFrom members point).head? = some (step point)) (count : Nat)
    (start : α) : cyclicFrom members (step^[count] start) = (cyclicFrom members start).rotate count := by
  induction count with
  | zero => rw [Function.iterate_zero, id, List.rotate_zero]
  | succ count ih =>
    rw [Function.iterate_succ_apply', cyclicFrom_step ascending (next _), ih, List.rotate_rotate]

/-- The member met at a turn, counted from the first one at zero. -/
theorem iterate_getElem (ascending : members.Pairwise (· < ·)) {step : α → α}
    (next : ∀ point, (cyclicFrom members point).head? = some (step point)) (turn : Nat)
    (start : α) :
    (cyclicFrom members start)[turn % members.length]? = some (step^[turn + 1] start) := by
  have nonempty : 0 < members.length := by
    rw [← length_cyclicFrom members start]
    exact List.length_pos_of_mem (List.mem_of_head? (next start))
  have reduced := List.rotate_mod (cyclicFrom members start) turn
  rw [length_cyclicFrom] at reduced
  rw [Function.iterate_succ_apply', ← next, cyclicFrom_iterate ascending next, ← reduced,
    List.head?_rotate]
  rw [length_cyclicFrom]
  exact Nat.mod_lt _ nonempty

/-- Any member stands at any place of a round that starts somewhere among the members. -/
theorem exists_round (ascending : members.Pairwise (· < ·)) {step : α → α}
    (next : ∀ point, (cyclicFrom members point).head? = some (step point)) {member : α}
    (present : member ∈ members) {place : Nat} (below : place < members.length) :
    ∃ turns, (cyclicFrom members (step^[turns] member))[place]? = some member := by
  obtain ⟨others, last⟩ := cyclicFrom_self ascending present
  have size := length_cyclicFrom members member
  rw [last, List.length_append, List.length_singleton] at size
  refine ⟨others.length - place, ?_⟩
  rw [cyclicFrom_iterate ascending next, List.getElem?_rotate (by rw [length_cyclicFrom]; exact below),
    length_cyclicFrom, show place + (others.length - place) = others.length by omega,
    Nat.mod_eq_of_lt (by omega), last, List.getElem?_append_right le_rfl, Nat.sub_self]
  rfl

/-- Looks at a stride meet every residue exactly if there are as many looks as residues and the
stride is coprime to their number. -/
theorem strides_meet_iff {looks size stride : Nat} (offset : Nat) (some : 0 < looks) (few : looks ≤ size) :
    (∀ residue < size, ∃ look < looks, (stride * look + offset) % size = residue) ↔
      looks = size ∧ Nat.Coprime stride size := by
  have positive : 0 < size := some.trans_le few
  constructor
  · intro meets
    have covered : Finset.range size ⊆
        (Finset.range looks).image fun look => (stride * look + offset) % size := by
      intro residue below
      obtain ⟨look, early, met⟩ := meets residue (Finset.mem_range.mp below)
      exact Finset.mem_image.mpr ⟨look, Finset.mem_range.mpr early, met⟩
    have enough : size ≤ looks := by
      simpa using (Finset.card_le_card covered).trans Finset.card_image_le
    refine ⟨le_antisymm few enough, ?_⟩
    obtain ⟨look, _, met⟩ := meets ((offset + 1) % size) (Nat.mod_lt _ positive)
    have one : stride * look ≡ 1 [MOD size] := by
      refine Nat.ModEq.add_right_cancel' offset ?_
      rw [Nat.add_comm 1]
      exact met
    exact Nat.coprime_of_mul_modEq_one look one
  · rintro ⟨rfl, coprime⟩ residue below
    have distinct : Set.InjOn (fun look => (stride * look + offset) % looks) (Finset.range looks) := by
      intro look early other also same
      have scaled : stride * look ≡ stride * other [MOD looks] := Nat.ModEq.add_right_cancel' offset same
      have equal := scaled.cancel_left_of_coprime (Nat.coprime_comm.mp coprime)
      exact equal.eq_of_lt_of_lt (Finset.mem_range.mp early) (Finset.mem_range.mp also)
    have onto : (Finset.range looks).image (fun look => (stride * look + offset) % looks) =
        Finset.range looks := by
      refine Finset.eq_of_subset_of_card_le ?_ (Finset.card_image_of_injOn distinct).ge
      intro value member
      obtain ⟨_, _, rfl⟩ := Finset.mem_image.mp member
      exact Finset.mem_range.mpr (Nat.mod_lt _ positive)
    obtain ⟨look, early, met⟩ := Finset.mem_image.mp (onto ▸ Finset.mem_range.mpr below)
    exact ⟨look, Finset.mem_range.mp early, met⟩

end ZeeboLle.Scheduling

import Mathlib.Data.List.Induction
import Mathlib.Data.Nat.ModEq

/-! A ring that keeps the last items pushed: it grows up to its capacity, then each item takes
the place of the oldest one. The head moves with every push, also while the ring grows. -/
namespace ZeeboLle.Streams

structure RingBuffer (α : Type*) where
  capacity : Nat
  positive : 0 < capacity
  head : Nat
  slots : List α

namespace RingBuffer

variable {α : Type*} {ring : RingBuffer α} {items : List α} {item : α}

def empty (capacity : Nat) (positive : 0 < capacity) : RingBuffer α := ⟨capacity, positive, 0, []⟩

def push (ring : RingBuffer α) (item : α) : RingBuffer α where
  capacity := ring.capacity
  positive := ring.positive
  head := (ring.head + 1) % ring.capacity
  slots :=
    if ring.slots.length < ring.capacity then ring.slots ++ [item]
    else ring.slots.set ring.head item

def pushAll (ring : RingBuffer α) (items : List α) : RingBuffer α := items.foldl push ring

/-- The slot of the item so many places behind the oldest one. -/
def slotOf (ring : RingBuffer α) (place : Nat) : Nat :=
  if ring.slots.length < ring.capacity then place else (ring.head + place) % ring.capacity

/-- The items held, oldest first; nothing if a slot were outside the ring. -/
def held (ring : RingBuffer α) : Option (List α) :=
  (List.range ring.slots.length).mapM fun place => ring.slots[ring.slotOf place]?

/-- The ring after these items: item number `place` is in slot `place % capacity` until as many
more have come. -/
structure Shows (ring : RingBuffer α) (items : List α) : Prop where
  head : ring.head = items.length % ring.capacity
  length : ring.slots.length = min items.length ring.capacity
  recent : ∀ place < items.length, items.length ≤ place + ring.capacity →
    ring.slots[place % ring.capacity]? = items[place]?

theorem shows_empty (capacity : Nat) (positive : 0 < capacity) :
    (empty capacity positive : RingBuffer α).Shows [] where
  head := (Nat.zero_mod capacity).symm
  length := (Nat.zero_min capacity).symm
  recent place inside := absurd inside (Nat.not_lt_zero place)

/-- Places less than a whole turn apart have different slots. -/
theorem mod_ne {capacity place later : Nat} (before : place < later)
    (near : later < place + capacity) : place % capacity ≠ later % capacity := by
  intro same
  have turns : capacity ∣ later - place := (Nat.modEq_iff_dvd' before.le).mp same
  have far := Nat.le_of_dvd (by omega) turns
  omega

theorem Shows.push (shows : ring.Shows items) (item : α) : (ring.push item).Shows (items ++ [item]) := by
  have positive := ring.positive
  have head := shows.head
  have length := shows.length
  refine ⟨?_, ?_, ?_⟩
  · rw [RingBuffer.push, head, List.length_append, List.length_singleton, Nat.mod_add_mod]
  · rw [RingBuffer.push, List.length_append, List.length_singleton]
    dsimp only
    split
    · rw [List.length_append, List.length_singleton]
      omega
    · rw [List.length_set]
      omega
  · intro place inside near
    rw [List.length_append, List.length_singleton] at inside near
    change items.length + 1 ≤ place + ring.capacity at near
    change (if ring.slots.length < ring.capacity then ring.slots ++ [item]
      else ring.slots.set ring.head item)[place % ring.capacity]? = _
    rcases Nat.lt_succ_iff_lt_or_eq.mp inside with old | rfl
    · rw [List.getElem?_append_left old, ← shows.recent place old (by omega)]
      split
      · have slot : place % ring.capacity < ring.slots.length := by
          rw [Nat.mod_eq_of_lt (by omega)]
          omega
        exact List.getElem?_append_left slot
      · apply List.getElem?_set_ne
        rw [head]
        exact (mod_ne old (by omega)).symm
    · rw [List.getElem?_concat_length, ← head]
      split
      · have slot : ring.head = ring.slots.length := by
          rw [head, Nat.mod_eq_of_lt (by omega)]
          omega
        rw [slot, List.getElem?_concat_length]
      · have slot : ring.head < ring.slots.length := by
          have turn := Nat.mod_lt items.length positive
          omega
        exact List.getElem?_set_self slot

theorem shows_pushAll (capacity : Nat) (positive : 0 < capacity) (items : List α) :
    ((empty capacity positive).pushAll items).Shows items := by
  induction items using List.reverseRecOn with
  | nil => exact shows_empty capacity positive
  | append_singleton front item ih =>
    rw [pushAll, List.foldl_append]
    exact ih.push item

/-- Also in a full ring the item at a place behind the oldest one is found in its slot. -/
theorem Shows.getElem?_slotOf (shows : ring.Shows items) {place : Nat}
    (inside : place < ring.slots.length) :
    ring.slots[ring.slotOf place]? = (items.drop (items.length - ring.capacity))[place]? := by
  have length := shows.length
  rw [List.getElem?_drop, slotOf]
  split
  · have early : items.length - ring.capacity = 0 := by omega
    rw [early, Nat.zero_add, ← shows.recent place (by omega) (by omega),
      Nat.mod_eq_of_lt (by omega)]
  · rw [← shows.recent _ (by omega) (by omega), shows.head, Nat.mod_add_mod]
    have turn : items.length + place =
        items.length - ring.capacity + place + ring.capacity := by omega
    rw [turn, Nat.add_mod_right]

/-- Reading a list place by place gives the list. -/
private theorem mapM_getElem? {read : Nat → Option α} {items : List α} {places : List Nat}
    (agrees : places.map read = items.map some) : places.mapM read = some items := by
  have split : places.mapM read = (places.map read).mapM id := by rw [List.mapM_map]; rfl
  rw [split, agrees, List.mapM_map]
  exact List.mapM_pure.trans (congrArg some items.map_id)

/-- What is read are the last items pushed, in their order. -/
theorem Shows.held (shows : ring.Shows items) :
    ring.held = some (items.drop (items.length - ring.capacity)) := by
  have length := shows.length
  apply mapM_getElem?
  apply List.ext_getElem?
  intro place
  rw [List.getElem?_map, List.getElem?_map]
  by_cases inside : place < ring.slots.length
  · rw [List.getElem?_range inside, Option.map_some, shows.getElem?_slotOf inside]
    have within : place < (items.drop (items.length - ring.capacity)).length := by
      rw [List.length_drop]
      omega
    rw [List.getElem?_eq_getElem within, Option.map_some]
  · have beyond : (items.drop (items.length - ring.capacity)).length ≤ place := by
      rw [List.length_drop]
      omega
    rw [List.getElem?_eq_none (by rwa [List.length_range, ← not_lt]),
      List.getElem?_eq_none beyond]
    rfl

theorem capacity_pushAll (ring : RingBuffer α) (items : List α) :
    (ring.pushAll items).capacity = ring.capacity := by
  induction items generalizing ring with
  | nil => rfl
  | cons item rest ih => exact ih (ring.push item)

theorem held_pushAll (capacity : Nat) (positive : 0 < capacity) (items : List α) :
    ((empty capacity positive).pushAll items).held =
      some (items.drop (items.length - capacity)) := by
  have kept : ((empty capacity positive).pushAll items).capacity = capacity :=
    capacity_pushAll _ items
  rw [(shows_pushAll capacity positive items).held, kept]

end RingBuffer

end ZeeboLle.Streams

import Mathlib.Data.List.Basic
import Mathlib.Order.MinMax

/-! A content with a place in it. The place never leaves the content: reading stops at its end,
and seeking stops at both ends. -/
namespace ZeeboLle.Streams

structure Cursor (α : Type*) where
  content : List α
  place : Nat
  inside : place ≤ content.length

namespace Cursor

variable {α : Type*} {cursor other : Cursor α} {count more : Nat} {target : Int}

/-- What reading so many values gives. -/
def read (cursor : Cursor α) (count : Nat) : List α := (cursor.content.drop cursor.place).take count

/-- The cursor after reading so many values. -/
def pass (cursor : Cursor α) (count : Nat) : Cursor α where
  content := cursor.content
  place := min (cursor.place + count) cursor.content.length
  inside := Nat.min_le_right _ _

/-- The cursor at a target, or at the end that is nearest to it. -/
def seek (cursor : Cursor α) (target : Int) : Cursor α where
  content := cursor.content
  place := (max 0 (min target cursor.content.length)).toNat
  inside := by omega

theorem ext (content : cursor.content = other.content) (place : cursor.place = other.place) :
    cursor = other := by
  cases cursor
  cases other
  subst content
  subst place
  rfl

theorem length_read (cursor : Cursor α) (count : Nat) :
    (cursor.read count).length = min count (cursor.content.length - cursor.place) := by
  rw [read, List.length_take, List.length_drop]

/-- What is read is as many values as there were, from the place on. -/
theorem take_length_read (cursor : Cursor α) (count : Nat) :
    (cursor.content.drop cursor.place).take (cursor.read count).length = cursor.read count := by
  rw [read, List.length_take, ← List.take_eq_take_min]

/-- Reading ends where the cursor is afterwards. -/
theorem place_pass (cursor : Cursor α) (count : Nat) :
    (cursor.pass count).place = cursor.place + (cursor.read count).length := by
  have inside := cursor.inside
  rw [length_read, pass]
  dsimp only
  omega

@[simp] theorem read_zero (cursor : Cursor α) : cursor.read 0 = [] := List.take_zero

/-- Two reads give what one gives. -/
theorem read_add (cursor : Cursor α) (count more : Nat) :
    cursor.read (count + more) = cursor.read count ++ (cursor.pass count).read more := by
  unfold read pass
  dsimp only
  rw [List.take_add, List.drop_drop]
  congr 2
  by_cases short : cursor.place + count ≤ cursor.content.length
  · rw [Nat.min_eq_left short]
  · rw [Nat.min_eq_right (by omega), List.drop_of_length_le (by omega), List.drop_length]

end Cursor

end ZeeboLle.Streams

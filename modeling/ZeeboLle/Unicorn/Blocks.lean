import ZeeboLle.Unicorn.View

/-! Accesses to mapped memory taken apart: a block read or written at once is read or written part
by part. -/
namespace ZeeboLle.Paging

theorem writeAll_append {κ β : Type} [DecidableEq κ] (store : κ → β) (first second : List (κ × β)) :
    writeAll store (first ++ second) = writeAll (writeAll store first) second :=
  List.foldl_append

end ZeeboLle.Paging

namespace ZeeboLle.Unicorn

open Paging

namespace Memory

variable {mem : Memory} {address first second : Nat}

theorem backed_left (backed : mem.backed address (first + second) = true) :
    mem.backed address first = true :=
  backed_iff.mpr fun index below => backed_iff.mp backed index (by omega)

theorem backed_right (backed : mem.backed address (first + second) = true) :
    mem.backed (address + first) second = true := by
  apply backed_iff.mpr
  intro index below
  rw [Nat.add_assoc]
  exact backed_iff.mp backed (first + index) (by omega)

/-- Part of a mapped access is mapped. -/
theorem backed_within {start count index size : Nat} (backed : mem.backed start count = true)
    (inside : index + size ≤ count) : mem.backed (start + index) size = true := by
  apply backed_iff.mpr
  intro offset below
  rw [Nat.add_assoc]
  exact backed_iff.mp backed (index + offset) (by omega)

/-- A mapped access stays inside the address space. -/
theorem backed_inside {count : Nat} (backed : mem.backed address (count + 1) = true) :
    address + count < 0x100000000 :=
  (isSome_cell.mp (backed_iff.mp backed count (by omega))).1

theorem length_cells_backed (backed : mem.backed address first = true) :
    (mem.cells address first).length = first := by
  simpa [Memory.backed] using backed

theorem cells_add (backed : mem.backed address (first + second) = true) :
    mem.cells address (first + second) = mem.cells address first ++ mem.cells (address + first) second := by
  have whole := length_cells_backed backed
  have left := length_cells_backed (backed_left backed)
  have right := length_cells_backed (backed_right backed)
  apply List.ext_getElem?
  intro index
  by_cases inside : index < first + second
  · have here : (mem.cells address (first + second))[index]? = mem.cell (address + index) :=
      getElem?_reach (whole.symm ▸ inside)
    rw [here]
    by_cases low : index < first
    · rw [List.getElem?_append_left (left.symm ▸ low)]
      exact (getElem?_reach (left.symm ▸ low)).symm
    · have place : address + index = address + first + (index - first) := by omega
      have below : index - first < second := by omega
      rw [List.getElem?_append_right (by omega), left, place]
      exact (getElem?_reach (right.symm ▸ below)).symm
  · rw [List.getElem?_eq_none (by omega), List.getElem?_eq_none]
    rw [List.length_append]
    omega

theorem ucMemRead_add (backed : mem.backed address (first + second) = true) {left right : List Byte}
    (low : mem.ucMemRead address first = some left)
    (high : mem.ucMemRead (address + first) second = some right) :
    mem.ucMemRead address (first + second) = some (left ++ right) := by
  rw [ucMemRead, if_pos (backed_left backed), Option.some.injEq] at low
  rw [ucMemRead, if_pos (backed_right backed), Option.some.injEq] at high
  rw [ucMemRead, if_pos backed, cells_add backed, List.map_append, low, high]

end Memory

variable {mem : Memory} {address : Nat}

/-- Two writes in a row are one write of both. -/
theorem writeBytes_append {left right : List Byte}
    (backed : mem.backed address (left.length + right.length) = true) :
    writeBytes (writeBytes mem address left) (address + left.length) right =
      writeBytes mem address (left ++ right) := by
  have low := Memory.backed_left backed
  have high : (mem.withContents (writeAll mem.contents ((mem.cells address left.length).zip left))).backed
      (address + left.length) right.length = true := Memory.backed_right backed
  have whole : mem.backed address (left ++ right).length = true := by
    rw [List.length_append]
    exact backed
  have full := Memory.length_cells_backed low
  simp only [writeBytes, Memory.ucMemWrite, if_pos low, if_pos high, if_pos whole,
    Memory.contents_withContents, Memory.cells_withContents]
  rw [List.length_append, Memory.cells_add backed, List.zip_append full, writeAll_append]
  rfl

theorem ucMemRead_word (backed : mem.backed address 4 = true) :
    mem.ucMemRead address 4 = some (wordBytes (loadWord mem address)) := by
  have full := Memory.length_cells_backed backed
  have back := leBytes_leValue ((mem.cells address 4).map mem.contents)
  have bound := leValue_lt ((mem.cells address 4).map mem.contents)
  rw [List.length_map, full] at back bound
  rw [loadWord, Memory.ucMemRead, if_pos backed, wordBytes]
  dsimp only
  rw [BitVec.toNat_ofNat, show 2 ^ 32 = 0x100 ^ 4 from rfl, Nat.mod_eq_of_lt bound, back]

@[simp] theorem leValue_wordBytes_toNat (word : Word) : leValue (wordBytes word) = word.toNat := by
  rw [wordBytes, leValue_leBytes]
  exact Nat.mod_eq_of_lt word.isLt

end ZeeboLle.Unicorn

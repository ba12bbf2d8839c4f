import ZeeboLle.Paging.Views
import ZeeboLle.Unicorn.Cells

/-! A region of guest memory that nothing else shares, seen as a flat store of bytes. Accesses
through the engine's interface that stay inside the region are reads and writes of blocks of
that store. -/
namespace ZeeboLle.Unicorn

open Paging

namespace Memory

variable {mem : Memory} {region : Nat → Prop} {view : Nat → Byte} {start count : Nat}

/-- Every address of the region is mapped, and no two of them share a cell. -/
structure Owns (mem : Memory) (region : Nat → Prop) : Prop where
  mapped : ∀ address, region address → (mem.cell address).isSome = true
  apart : ∀ address other, region address → region other → mem.cell address = mem.cell other →
    address = other

/-- The region holds the bytes of the view. -/
structure Sees (mem : Memory) (region : Nat → Prop) (view : Nat → Byte) : Prop where
  owns : mem.Owns region
  holds : ∀ address, region address → mem.byteAt address = view address

theorem Owns.sees (owns : mem.Owns region) : mem.Sees region mem.byteAt := ⟨owns, fun _ _ => rfl⟩

/-- Engine RAM is never shared. -/
theorem owns_ram (ram : ∀ address, region address → mem.cell address = some (.ram address)) :
    mem.Owns region where
  mapped address member := by rw [ram address member]; rfl
  apart address other member also same := by
    rw [ram address member, ram other also] at same
    exact Cell.ram.inj (Option.some.inj same)

/-- Memory that was just mapped is engine RAM. -/
theorem cell_ucMemMap {address size byte : Nat} {perms : Prot}
    (free : mem.pages.free (pageSpan address size) = true) (low : byte < 0x100000000)
    (inside : byte / 0x1000 ∈ pageSpan address size) :
    (mem.ucMemMap address size perms).2.cell byte = some (.ram byte) := by
  have mapped : (mem.ucMemMap address size perms).2.pages (byte / 0x1000) = some ⟨perms, .ram⟩ := by
    rw [ucMemMap_free free]
    simp only [PageTable.install_of_mem inside]
  rw [cell, if_pos low, mapped]
  rfl

theorem cell_ucMemMap_outside {address size byte : Nat} {perms : Prot}
    (free : mem.pages.free (pageSpan address size) = true)
    (outside : byte / 0x1000 ∉ pageSpan address size) :
    (mem.ucMemMap address size perms).2.cell byte = mem.cell byte := by
  have kept : (mem.ucMemMap address size perms).2.pages (byte / 0x1000) = mem.pages (byte / 0x1000) := by
    rw [ucMemMap_free free]
    simp only [PageTable.install_of_not_mem outside]
  rw [cell, cell, kept]

theorem byteAt_of_cell {address : Nat} {cell : Cell} (found : mem.cell address = some cell) :
    mem.byteAt address = mem.contents cell := by
  rw [byteAt, found]

theorem Sees.backed (sees : mem.Sees region view)
    (inside : ∀ index, index < count → region (start + index)) : mem.backed start count = true :=
  backed_iff.mpr fun index below => sees.owns.mapped _ (inside index below)

theorem byteAt_eq_shown (mem : Memory) : mem.byteAt = shown mem.cell mem.contents 0 := by
  funext address
  rw [byteAt, shown]
  cases mem.cell address <;> rfl

theorem byteAt_withContents (mem : Memory) (contents : Cell → Byte) :
    (mem.withContents contents).byteAt = shown mem.cell contents 0 := by
  rw [byteAt_eq_shown, cell_withContents, contents_withContents]

theorem ucMemRead_mapped (mapped : ∀ index, index < count → (mem.cell (start + index)).isSome = true) :
    mem.ucMemRead start count = some (segment mem.byteAt start count) := by
  rw [Memory.ucMemRead, if_pos (backed_iff.mpr mapped), byteAt_eq_shown]
  exact congrArg some (reach_map_shown mapped)

theorem Sees.ucMemRead (sees : mem.Sees region view) (start count : Nat)
    (inside : ∀ index, index < count → region (start + index)) :
    mem.ucMemRead start count = some (segment view start count) := by
  rw [ucMemRead_mapped fun index below => sees.owns.mapped _ (inside index below)]
  exact congrArg some (segment_congr fun index below => sees.holds _ (inside index below))

theorem cell_ucMemWrite (mem : Memory) (start : Nat) (bytes : List Byte) :
    (mem.ucMemWrite start bytes).2.cell = mem.cell := by
  unfold Memory.ucMemWrite
  split
  · rfl
  · rfl

theorem Sees.ucMemWrite (sees : mem.Sees region view) (start : Nat) (bytes : List Byte)
    (inside : ∀ index, index < bytes.length → region (start + index)) :
    (mem.ucMemWrite start bytes).2.Sees region (patch view start bytes) := by
  have written : (mem.ucMemWrite start bytes).2 =
      mem.withContents (writeAll mem.contents ((mem.cells start bytes.length).zip bytes)) := by
    rw [Memory.ucMemWrite, if_pos (sees.backed inside)]
  refine ⟨⟨?_, ?_⟩, fun address member => ?_⟩
  · rw [cell_ucMemWrite]
    exact sees.owns.mapped
  · rw [cell_ucMemWrite]
    exact sees.owns.apart
  obtain ⟨cell, found⟩ := Option.isSome_iff_exists.mp (sees.owns.mapped address member)
  have held : view address = mem.contents cell := by
    rw [← sees.holds address member, byteAt_of_cell found]
  rw [byteAt_of_cell (by rw [cell_ucMemWrite, found]), written, contents_withContents]
  exact writeAll_reach (fun index below => sees.owns.mapped _ (inside index below)) found held
    fun index below same => sees.owns.apart _ _ (inside index below) member (same.trans found.symm)

end Memory

def wordBytes (word : Word) : List Byte := leBytes 4 word.toNat

/-- `uc_mem_read` of a word into a variable that starts as zero. -/
def loadWord (mem : Memory) (address : Nat) : Word :=
  match mem.ucMemRead address 4 with
  | some bytes => BitVec.ofNat 32 (leValue bytes)
  | none => 0

/-- A `uc_mem_write` whose result is not looked at. -/
def writeBytes (mem : Memory) (address : Nat) (bytes : List Byte) : Memory :=
  (mem.ucMemWrite address bytes).2

/-- The word at an address of a flat store. -/
def wordAt (view : Nat → Byte) (address : Nat) : Word :=
  BitVec.ofNat 32 (leValue (segment view address 4))

@[simp] theorem length_wordBytes (word : Word) : (wordBytes word).length = 4 := by simp [wordBytes]

theorem leValue_wordBytes (word : Word) : BitVec.ofNat 32 (leValue (wordBytes word)) = word := by
  have whole : word.toNat % 0x100 ^ 4 = word.toNat := Nat.mod_eq_of_lt word.isLt
  rw [wordBytes, leValue_leBytes, whole, BitVec.ofNat_toNat, BitVec.setWidth_eq]

theorem wordAt_of_segment {view : Nat → Byte} {address : Nat} {word : Word}
    (holds : segment view address 4 = wordBytes word) : wordAt view address = word := by
  rw [wordAt, holds, leValue_wordBytes]

theorem length_words (words : List Word) : (words.flatMap wordBytes).length = 4 * words.length := by
  induction words with
  | nil => rfl
  | cons word words ih =>
    rw [List.flatMap_cons, List.length_append, length_wordBytes, ih, List.length_cons]
    omega

/-- A word of a block of words. -/
theorem wordAt_words {view : Nat → Byte} {start index : Nat} {words : List Word} {word : Word}
    (found : words[index]? = some word) :
    wordAt (patch view start (words.flatMap wordBytes)) (start + 4 * index) = word := by
  apply wordAt_of_segment
  induction words generalizing view start index with
  | nil => simp at found
  | cons first words ih =>
    have split : patch view start ((first :: words).flatMap wordBytes) =
        patch (patch view start (wordBytes first)) (start + 4) (words.flatMap wordBytes) := by
      rw [List.flatMap_cons, ← patch_append, length_wordBytes]
    rw [split]
    cases index with
    | zero =>
      obtain rfl : first = word := by simpa using found
      have whole := segment_patch view start (wordBytes first)
      rw [length_wordBytes] at whole
      rw [segment_patch_apart (.inl (by omega))]
      exact whole
    | succ index =>
      have later : start + 4 * (index + 1) = start + 4 + 4 * index := by omega
      rw [later]
      exact ih (by simpa using found)

theorem wordAt_first (view : Nat → Byte) (start : Nat) (word : Word) (words : List Word) :
    wordAt (patch view start ((word :: words).flatMap wordBytes)) start = word := by
  have found : (word :: words)[0]? = some word := rfl
  exact wordAt_words found

theorem loadWord_sees {mem : Memory} {region : Nat → Prop} {view : Nat → Byte} {address : Nat}
    (sees : mem.Sees region view) (inside : ∀ index, index < 4 → region (address + index)) :
    loadWord mem address = wordAt view address := by
  rw [loadWord, sees.ucMemRead address 4 inside]
  rfl

end ZeeboLle.Unicorn

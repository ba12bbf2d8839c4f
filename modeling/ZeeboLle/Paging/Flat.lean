import ZeeboLle.Paging.Bytes
import Mathlib.Tactic.IntervalCases

/-! Memory as a byte at every 32-bit address, with little-endian words, rows of words and
runs of bytes. -/
namespace ZeeboLle.Paging

/-- A byte at every address. -/
abbrev FlatMemory := BitVec 32 → BitVec 8

namespace FlatMemory

/-- A word, little-endian. -/
def read32 (memory : FlatMemory) (addr : BitVec 32) : BitVec 32 :=
  memory (addr + 3) ++ memory (addr + 2) ++ memory (addr + 1) ++ memory addr

def write32 (memory : FlatMemory) (addr value : BitVec 32) : FlatMemory := fun cell =>
  if (cell - addr).toNat < 4 then value.extractLsb' (8 * (cell - addr).toNat) 8 else memory cell

theorem append_byte (highest high low lowest : BitVec 8) (offset : Fin 4) :
    (highest ++ high ++ low ++ lowest : BitVec (8 + 8 + 8 + 8)).extractLsb' (8 * offset) 8 =
      [lowest, low, high, highest][offset] := by
  obtain ⟨offset, inside⟩ := offset
  ext bit bound
  rw [BitVec.getElem_extractLsb']
  simp only [BitVec.getLsbD_append]
  interval_cases offset
  · simp [bound]
  · simp [bound]
  · grind
  · grind

/-- The bytes of a word, lowest first. -/
theorem read32_byte (memory : FlatMemory) (addr : BitVec 32) (offset : Fin 4) :
    (memory.read32 addr).extractLsb' (8 * offset) 8 = memory (addr + BitVec.ofNat 32 offset) := by
  refine (append_byte _ _ _ _ offset).trans ?_
  obtain ⟨offset, inside⟩ := offset
  interval_cases offset
  · simp
  · rfl
  · rfl
  · rfl

theorem bytes_ext {word other : BitVec 32} (same : ∀ offset : Fin 4,
    word.extractLsb' (8 * offset) 8 = other.extractLsb' (8 * offset) 8) : word = other := by
  ext bit bound
  have byte := congrArg (fun byte : BitVec 8 => byte.getLsbD (bit % 8)) (same ⟨bit / 8, by omega⟩)
  simp [Nat.mod_lt, Nat.div_add_mod] at byte
  simpa [← BitVec.getLsbD_eq_getElem] using byte

theorem write32_inside {memory : FlatMemory} {addr value : BitVec 32} (offset : Fin 4) :
    memory.write32 addr value (addr + BitVec.ofNat 32 offset) = value.extractLsb' (8 * offset) 8 := by
  have inside : (addr + BitVec.ofNat 32 offset - addr).toNat = offset := by
    have := offset.isLt
    bv_omega
  rw [write32, inside, if_pos offset.isLt]

/-- The cells from an address on. -/
def cells (addr : BitVec 32) (count : Nat) : List (BitVec 32) :=
  (List.range count).map fun offset => addr + BitVec.ofNat 32 offset

@[simp] theorem length_cells (addr : BitVec 32) (count : Nat) : (cells addr count).length = count := by
  simp [cells]

theorem getElem_cells {addr : BitVec 32} {count index : Nat} (inside : index < (cells addr count).length) :
    (cells addr count)[index] = addr + BitVec.ofNat 32 index := by
  simp [cells]

theorem mem_cells {addr cell : BitVec 32} {count : Nat} (inside : (cell - addr).toNat < count) :
    cell ∈ cells addr count := by
  refine List.mem_map.mpr ⟨(cell - addr).toNat, List.mem_range.mpr inside, ?_⟩
  bv_omega

theorem cells_subset (addr : BitVec 32) {start length size : Nat} (inside : start + length ≤ size) :
    cells (addr + BitVec.ofNat 32 start) length ⊆ cells addr size := by
  intro cell member
  obtain ⟨offset, range, rfl⟩ := List.mem_map.mp member
  have bound := List.mem_range.mp range
  refine List.mem_map.mpr ⟨start + offset, List.mem_range.mpr (by omega), ?_⟩
  rw [BitVec.ofNat_add, BitVec.add_assoc]

theorem cells_prefix (addr : BitVec 32) {less size : Nat} (le : less ≤ size) :
    cells addr less ⊆ cells addr size := by
  have inside := cells_subset addr (by omega : 0 + less ≤ size)
  rwa [BitVec.add_zero] at inside

theorem write32_outside {memory : FlatMemory} {addr value cell : BitVec 32}
    (outside : cell ∉ cells addr 4) : memory.write32 addr value cell = memory cell :=
  if_neg fun inside => outside (mem_cells inside)

theorem read32_congr {memory other : FlatMemory} {addr : BitVec 32}
    (same : ∀ cell ∈ cells addr 4, memory cell = other cell) :
    memory.read32 addr = other.read32 addr := by
  refine bytes_ext fun offset => ?_
  rw [read32_byte, read32_byte]
  exact same _ (List.mem_map.mpr ⟨offset, List.mem_range.mpr offset.isLt, rfl⟩)

theorem read32_write32 (memory : FlatMemory) (addr value : BitVec 32) :
    (memory.write32 addr value).read32 addr = value :=
  bytes_ext fun offset => (read32_byte _ addr offset).trans (write32_inside offset)

/-- A write elsewhere is not seen. -/
theorem read32_write32_apart (memory : FlatMemory) {addr other : BitVec 32} (value : BitVec 32)
    (above : 4 ≤ (addr - other).toNat) (below : 4 ≤ (other - addr).toNat) :
    (memory.write32 other value).read32 addr = memory.read32 addr := by
  refine bytes_ext fun offset => ?_
  rw [read32_byte, read32_byte, write32, if_neg]
  have := offset.isLt
  bv_omega

/-- Words in a row. -/
def writeWords (memory : FlatMemory) (addr : BitVec 32) : List (BitVec 32) → FlatMemory
  | [] => memory
  | value :: rest => (memory.write32 addr value).writeWords (addr + 4) rest

theorem writeWords_outside {memory : FlatMemory} {addr cell : BitVec 32} {values : List (BitVec 32)}
    (short : values.length ≤ 16) (outside : 4 * values.length ≤ (cell - addr).toNat) :
    memory.writeWords addr values cell = memory cell := by
  induction values generalizing memory addr with
  | nil => rfl
  | cons value rest ih =>
    rw [List.length_cons] at short outside
    rw [writeWords, ih (by omega), write32, if_neg (by omega)]
    bv_omega

/-- The first of a row is read back. -/
theorem read32_writeWords_cons {memory : FlatMemory} {addr value : BitVec 32} {rest : List (BitVec 32)}
    (short : rest.length < 16) :
    (memory.writeWords addr (value :: rest)).read32 addr = value := by
  refine bytes_ext fun offset => ?_
  have inside := offset.isLt
  rw [read32_byte, writeWords, writeWords_outside (by omega) (by bv_omega), write32_inside]

/-- Rows that leave one memory are equal. -/
theorem writeWords_inj {memory : FlatMemory} {addr : BitVec 32} {values others : List (BitVec 32)}
    (short : values.length ≤ 16) (same : values.length = others.length)
    (equal : memory.writeWords addr values = memory.writeWords addr others) : values = others := by
  induction values generalizing memory addr others with
  | nil => exact (List.eq_nil_of_length_eq_zero same.symm).symm
  | cons value rest ih =>
    cases others with
    | nil => cases same
    | cons other tail =>
      rw [List.length_cons] at short
      have tails : rest.length = tail.length := Nat.succ.inj same
      have first := congrArg (read32 · addr) equal
      rw [read32_writeWords_cons (by omega), read32_writeWords_cons (by omega)] at first
      subst first
      rw [ih (by omega) tails equal]

/-- A run of bytes. -/
def store (memory : FlatMemory) (addr : BitVec 32) (bytes : List (BitVec 8)) : FlatMemory := fun cell =>
  bytes.getD (cell - addr).toNat (memory cell)

/-- A run of bytes is one write after another. -/
theorem store_eq_writeAll (memory : FlatMemory) (addr : BitVec 32) {bytes : List (BitVec 8)}
    (short : bytes.length ≤ 2 ^ 32) :
    memory.store addr bytes = writeAll memory ((cells addr bytes.length).zip bytes) := by
  have written (write : BitVec 32 × BitVec 8) (member : write ∈ (cells addr bytes.length).zip bytes) :
      bytes[(write.1 - addr).toNat]? = some write.2 := by
    obtain ⟨index, bound, rfl⟩ := List.mem_iff_getElem.mp member
    rw [List.length_zip, length_cells, Nat.min_self] at bound
    have offset : (addr + BitVec.ofNat 32 index - addr).toNat = index := by bv_omega
    rw [List.getElem_zip]
    dsimp only
    rw [getElem_cells, offset, List.getElem?_eq_getElem bound]
  funext cell
  rw [store, List.getD_eq_getElem?_getD]
  by_cases inside : (cell - addr).toNat < bytes.length
  · rw [List.getElem?_eq_getElem inside, Option.getD_some]
    refine (writeAll_agreed ?_ ?_).symm
    · exact exists_zip (Nat.le_of_eq (length_cells ..)) (mem_cells inside)
    · rintro write member rfl
      have found := written write member
      rw [List.getElem?_eq_getElem inside] at found
      exact (Option.some.inj found).symm
  · rw [List.getElem?_eq_none (by omega), Option.getD_none]
    refine (writeAll_outside ?_).symm
    rintro write member rfl
    have found := written write member
    rw [List.getElem?_eq_none (by omega)] at found
    cases found

end FlatMemory

/-- Which pages of 4 KiB have memory. -/
abbrev Mapping := BitVec 20 → Bool

/-- An access to mapped pages alone, and not past the last of them. -/
def Mapping.backed (mapped : Mapping) (addr : BitVec 32) (size : Nat) : Bool :=
  addr.toNat + size ≤ 2 ^ 32 &&
    (List.range size).all fun offset => mapped ((addr + BitVec.ofNat 32 offset).extractLsb' 12 20)

theorem Mapping.backed_inside {mapped : Mapping} {addr : BitVec 32} {size start length : Nat}
    (backed : mapped.backed addr size = true) (inside : start + length ≤ size) :
    mapped.backed (addr + BitVec.ofNat 32 start) length = true := by
  unfold Mapping.backed at backed ⊢
  rw [Bool.and_eq_true, decide_eq_true_iff, List.all_eq_true] at backed ⊢
  obtain ⟨bound, pages⟩ := backed
  refine ⟨?_, ?_⟩
  · rw [BitVec.toNat_add, BitVec.toNat_ofNat]
    omega
  · intro offset member
    have range := List.mem_range.mp member
    rw [BitVec.add_assoc, ← BitVec.ofNat_add]
    exact pages (start + offset) (List.mem_range.mpr (by omega))

theorem Mapping.backed_prefix {mapped : Mapping} {addr : BitVec 32} {less size : Nat}
    (backed : mapped.backed addr size = true) (le : less ≤ size) : mapped.backed addr less = true := by
  have inside := Mapping.backed_inside backed (by omega : 0 + less ≤ size)
  rwa [BitVec.add_zero] at inside

end ZeeboLle.Paging

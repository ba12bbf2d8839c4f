import ZeeboLle.L4.MapControl
import ZeeboLle.Unicorn.Cells

/-! Host-side accesses through the lookup table. They go byte by byte and stop at the first
page without an entry; the bytes before it have been transferred by then. -/
namespace ZeeboLle.L4

open Paging Unicorn

namespace VtlbLut

/-- Whether every byte was found, and the destination, zero where the loop did not get. -/
def read (lut : VtlbLut) (host : HostPtr → Byte) (va : Nat) : Nat → Bool × List Byte
  | 0 => (true, [])
  | count + 1 =>
    if lut.translate va = nullptr then (false, List.replicate (count + 1) 0)
    else
      let (ok, bytes) := lut.read host (va + 1) count
      (ok, host (lut.translate va) :: bytes)

def write (lut : VtlbLut) (host : HostPtr → Byte) (va : Nat) :
    List Byte → Bool × (HostPtr → Byte)
  | [] => (true, host)
  | byte :: bytes =>
    if lut.translate va = nullptr then (false, host)
    else lut.write (Function.update host (lut.translate va) byte) (va + 1) bytes

def readU32 (lut : VtlbLut) (host : HostPtr → Byte) (va : Nat) : Bool × List Byte :=
  lut.read host va 4

def writeU32 (lut : VtlbLut) (host : HostPtr → Byte) (va : Nat) (value : Word) :
    Bool × (HostPtr → Byte) :=
  lut.write host va (leBytes 4 value.toNat)

/-- The cell an address resolves to. -/
def find (lut : VtlbLut) (va : Nat) : Option Cell :=
  if lut.translate va = nullptr then none else some (.host (lut.translate va))

/-- The cells of an access up to the first page without an entry. -/
def cells (lut : VtlbLut) (va count : Nat) : List Cell := reach lut.find va count

/-- The whole access is in the table. -/
def covers (lut : VtlbLut) (va count : Nat) : Bool := (lut.cells va count).length = count

/-- Every entry names what backs the page in the engine. -/
def Agrees (lut : VtlbLut) (mem : Memory) : Prop :=
  ∀ page, page < 0x100000 → lut.entries page ≠ nullptr →
    ∃ prot, mem.pages page = some ⟨prot, .host (lut.entries page)⟩

variable {lut : VtlbLut} {mem : Memory} {va count : Nat}

theorem covers_iff : lut.covers va count = true ↔
    ∀ index, index < count → (lut.find (va + index)).isSome = true := by
  rw [covers, decide_eq_true_eq]
  exact reach_full_iff

theorem read_eq (lut : VtlbLut) (mem : Memory) (va count : Nat) :
    lut.read mem.host va count = (lut.covers va count, (lut.cells va count).map mem.contents ++
      List.replicate (count - (lut.cells va count).length) 0) := by
  induction count generalizing va with
  | zero => rfl
  | succ count ih =>
    rw [read]
    by_cases missing : lut.translate va = nullptr
    · simp [covers, cells, reach, find, missing]
    · rw [if_neg missing, ih]
      have first : lut.cells va (count + 1) =
          .host (lut.translate va) :: lut.cells (va + 1) count := by
        rw [cells, reach, find, if_neg missing]
        rfl
      simp [covers, first, Memory.contents]

/-- The pointers of an access up to the first page without an entry. -/
def pointers (lut : VtlbLut) (va count : Nat) : List HostPtr :=
  reach (fun va => if lut.translate va = nullptr then none else some (lut.translate va)) va count

theorem cells_eq_map (lut : VtlbLut) (va count : Nat) :
    lut.cells va count = (lut.pointers va count).map Cell.host := by
  induction count generalizing va with
  | zero => rfl
  | succ count ih =>
    rw [cells, pointers, reach, reach, find]
    by_cases missing : lut.translate va = nullptr
    · simp [missing]
    · simp only [if_neg missing, List.map_cons]
      exact congrArg _ (ih (va + 1))

theorem write_host (lut : VtlbLut) (host : HostPtr → Byte) (va : Nat) (bytes : List Byte) :
    (lut.write host va bytes).2 = writeAll host ((lut.pointers va bytes.length).zip bytes) := by
  induction bytes generalizing host va with
  | nil => rfl
  | cons byte bytes ih =>
    rw [write, List.length_cons, pointers, reach]
    by_cases missing : lut.translate va = nullptr
    · simp [missing]
    · simp only [if_neg missing, List.zip_cons_cons, writeAll_cons]
      exact ih _ (va + 1)

theorem write_eq (lut : VtlbLut) (mem : Memory) (va : Nat) (bytes : List Byte) :
    { mem with host := (lut.write mem.host va bytes).2 } =
      mem.withContents (writeAll mem.contents ((lut.cells va bytes.length).zip bytes)) := by
  rw [write_host, cells_eq_map, List.zip_map_left, Memory.withContents_host]

/-- Addresses wrap around in the table. -/
theorem find_mod (lut : VtlbLut) (va : Nat) : lut.find (va % 0x100000000) = lut.find va := by
  have offset : va % 0x100000000 % 0x1000 = va % 0x1000 := by omega
  have same : lut.translate (va % 0x100000000) = lut.translate va := by
    rw [translate, translate, Nat.mod_mod, offset]
  rw [find, find, same]

/-- A shorter read is the beginning of a longer one. -/
theorem read_take (lut : VtlbLut) (host : HostPtr → Byte) (va count more : Nat) :
    (lut.read host va (count + more)).2.take count = (lut.read host va count).2 := by
  induction count generalizing va with
  | zero => simp [read]
  | succ count ih =>
    rw [Nat.add_right_comm, read, read]
    by_cases missing : lut.translate va = nullptr
    · simp [missing, List.take_replicate]
    · simp [missing, ih]

theorem length_read (lut : VtlbLut) (host : HostPtr → Byte) (va count : Nat) :
    (lut.read host va count).2.length = count := by
  induction count generalizing va with
  | zero => rfl
  | succ count ih =>
    rw [read]
    split
    · simp
    · simp [ih]

/-- A table that agrees resolves an address as the engine does. -/
theorem Agrees.cell (agrees : lut.Agrees mem) {address : Nat} {cell : Cell}
    (small : address < 0x100000000) (found : lut.find address = some cell) :
    mem.cell address = some cell := by
  unfold find at found
  split at found
  · cases found
  rename_i entry
  rw [translate, Nat.mod_eq_of_lt small] at found entry
  by_cases null : lut.entries (address / 0x1000) = nullptr
  · simp [null] at entry
  · obtain ⟨prot, page⟩ := agrees (address / 0x1000) (by omega) null
    rw [if_pos null] at found
    rw [Memory.cell, if_pos small, page]
    simpa using found

end VtlbLut

end ZeeboLle.L4

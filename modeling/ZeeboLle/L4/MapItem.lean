import ZeeboLle.Unicorn.Memory

/-! The descriptors of `L4_MapControl`: the control word, the physical
descriptor and the flexpage, and the page range an item asks for. Printing-only
fields (cache attributes, the meta bit) are not decoded. -/
namespace ZeeboLle.L4

open Paging Unicorn

/-- `map_control_t`: item count in bits 0-5, query in bit 30, modify in bit 31. -/
structure MapControl where
  raw : Word
deriving DecidableEq, Repr

namespace MapControl

def isModify (control : MapControl) : Bool := (control.raw >>> 31) &&& 1 == 1
def isQuery (control : MapControl) : Bool := (control.raw >>> 30) &&& 1 == 1
def highestItem (control : MapControl) : Nat := (control.raw &&& 0x3f).toNat
def count (control : MapControl) : Nat := control.highestItem + 1

end MapControl

/-- `phys_desc_t`: the physical base in 64-byte units from bit 6 up. -/
structure PhysDesc where
  raw : Word
deriving DecidableEq, Repr

def PhysDesc.physBase (phys : PhysDesc) : Nat := (phys.raw >>> 6).toNat <<< 6

/-- `fpage_t`: rwx in bits 0-2, log2 of the size in bits 4-9, base from bit 10 up. -/
structure Fpage where
  raw : Word
deriving DecidableEq, Repr

namespace Fpage

def isExecute (fpage : Fpage) : Bool := (fpage.raw >>> 0) &&& 1 == 1
def isWrite (fpage : Fpage) : Bool := (fpage.raw >>> 1) &&& 1 == 1
def isRead (fpage : Fpage) : Bool := (fpage.raw >>> 2) &&& 1 == 1
def sizeLog2 (fpage : Fpage) : Nat := ((fpage.raw >>> 4) &&& 0x3f).toNat
def rwx (fpage : Fpage) : Nat := (fpage.raw &&& 7).toNat
def vaddr (fpage : Fpage) : Nat := (fpage.raw &&& ~~~0x3ff).toNat

def sizeBytes (fpage : Fpage) : Nat :=
  if fpage.sizeLog2 ≥ 32 then 1 <<< 32 else 1 <<< fpage.sizeLog2

def isNil (fpage : Fpage) : Bool := fpage.raw == 0
def isWholeSpace (fpage : Fpage) : Bool := fpage.sizeLog2 ≥ 32

theorem vaddr_lt (fpage : Fpage) : fpage.vaddr < 2 ^ 32 := BitVec.isLt _

theorem sizeBytes_pos (fpage : Fpage) : 0 < fpage.sizeBytes := by
  unfold sizeBytes
  split
  · decide
  · rw [Nat.one_shiftLeft]; exact Nat.two_pow_pos _

theorem sizeBytes_le (fpage : Fpage) : fpage.sizeBytes ≤ 2 ^ 32 := by
  unfold sizeBytes
  split
  · decide
  · rw [Nat.one_shiftLeft]; exact Nat.pow_le_pow_right (by decide) (by omega)

end Fpage

structure MapItem where
  phys : PhysDesc
  fpage : Fpage
deriving DecidableEq, Repr

def decodeItem (mrPhys mrFpage : Word) : MapItem := ⟨⟨mrPhys⟩, ⟨mrFpage⟩⟩

def fpageToUcProt (fpage : Fpage) : Prot := ⟨fpage.isRead, fpage.isWrite, fpage.isExecute⟩

/-- The protection is empty exactly when the three rwx bits are clear. -/
theorem fpageToUcProt_eq_none_iff (fpage : Fpage) :
    fpageToUcProt fpage = Prot.none ↔ fpage.rwx = 0 := by
  have low (n : Nat) : n &&& 7 = n % 8 := Nat.and_two_pow_sub_one_eq_mod n 3
  have bit (n : Nat) : n &&& 1 = n % 2 := Nat.and_two_pow_sub_one_eq_mod n 1
  have one : (1 : Word).toNat = 1 := rfl
  have seven : (7 : Word).toNat = 7 := rfl
  simp only [fpageToUcProt, Prot.none, Prot.mk.injEq, Fpage.isRead, Fpage.isWrite, Fpage.isExecute,
    Fpage.rwx, beq_eq_false_iff_ne, ne_eq, ← BitVec.toNat_inj, BitVec.toNat_and,
    BitVec.toNat_ushiftRight, Nat.shiftRight_eq_div_pow, one, seven, bit, low]
  omega

/-- A nonempty byte range made of whole pages. -/
structure Extent where
  va : Nat
  size : Nat
  aligned : va % 0x1000 = 0
  whole : size % 0x1000 = 0
  nonempty : 0 < size
deriving DecidableEq, Repr

namespace Extent

def span (extent : Extent) : Span := pageSpan extent.va extent.size

theorem count_pos (extent : Extent) : 0 < extent.span.count := by
  have whole := extent.whole
  have nonempty := extent.nonempty
  simp only [span, pageSpan]
  omega

theorem first_mem (extent : Extent) : extent.va / 0x1000 ∈ extent.span := by
  have first := Span.first_mem extent.count_pos
  exact first

end Extent

/-- `n & ~(PAGE - 1)`. -/
def roundDown (n : Nat) : Nat := n - n % 0x1000

/-- The end of `[va, va + size)` rounded up to a page and clamped to the top of
the 32-bit space, in 64-bit arithmetic. -/
def clampEnd (va size : Nat) : Nat :=
  min (roundDown ((va + size + (0xfff)) % 2 ^ 64)) 0x100000000

/-- The page range that mapping and recording derive from `[va, va + size)`: none
when it starts above the 32-bit space, else rounded, clamped and at least one
page long. -/
def clampRange (va size : Nat) : Option Extent :=
  if inside : roundDown va < 0x100000000 then
    some {
      va := roundDown va
      size := max ((clampEnd va size + 2 ^ 64 - roundDown va) % 2 ^ 64) 0x1000
      aligned := by unfold roundDown; omega
      whole := by unfold clampEnd roundDown at *; omega
      nonempty := by omega }
  else none

theorem clampRange_va {va size : Nat} {extent : Extent} (clamped : clampRange va size = some extent) :
    extent.va = roundDown va ∧ extent.va < 0x100000000 := by
  unfold clampRange at clamped
  split at clamped
  · have same := Option.some.inj clamped
    subst same
    exact ⟨rfl, by assumption⟩
  · cases clamped

theorem clampEnd_eq {va size : Nat} (bounded : va + size + 0x1000 ≤ 2 ^ 64) :
    clampEnd va size = min (roundDown (va + size + 0xfff)) 0x100000000 := by
  rw [clampEnd, Nat.mod_eq_of_lt (by omega)]

/-- Without 64-bit overflow the size is the distance of the two ends. -/
theorem clampRange_size {va size : Nat} (inside : roundDown va < 0x100000000) (nonempty : 0 < size)
    (bounded : va + size + 0x1000 ≤ 2 ^ 64) :
    max ((clampEnd va size + 2 ^ 64 - roundDown va) % 2 ^ 64) 0x1000 =
      clampEnd va size - roundDown va := by
  have ends : roundDown va + 0x1000 ≤ clampEnd va size := by
    rw [clampEnd_eq bounded]
    unfold roundDown at inside ⊢
    omega
  have limit : clampEnd va size ≤ 0x100000000 := Nat.min_le_right _ _
  omega

/-- Without 64-bit overflow the range is exactly the pages that meet
`[va, va + size)` below 4 GiB. -/
theorem mem_clampRange {va size : Nat} {extent : Extent} (clamped : clampRange va size = some extent)
    (nonempty : 0 < size) (bounded : va + size + 0x1000 ≤ 2 ^ 64) (page : Nat) :
    page ∈ extent.span ↔ va / 0x1000 ≤ page ∧ page * 0x1000 < va + size ∧ page < 0x100000 := by
  unfold clampRange at clamped
  split at clamped
  · rename_i inside
    have same := Option.some.inj clamped
    subst same
    simp only [Extent.span, pageSpan, Span.mem_iff]
    rw [clampRange_size inside nonempty bounded, clampEnd_eq bounded]
    unfold roundDown at inside ⊢
    omega
  · cases clamped

/-- The range `map_one` and `map_one_aliased` work on. -/
def Fpage.extent (fpage : Fpage) : Option Extent := clampRange fpage.vaddr fpage.sizeBytes

theorem Fpage.extent_bounded (fpage : Fpage) :
    fpage.vaddr + fpage.sizeBytes + 0x1000 ≤ 2 ^ 64 := by
  have base := fpage.vaddr_lt
  have size := fpage.sizeBytes_le
  omega

/-- A flexpage starts inside the 32-bit space, so its range is never dropped. -/
theorem Fpage.exists_extent (fpage : Fpage) : ∃ extent, fpage.extent = some extent := by
  have base := fpage.vaddr_lt
  have inside : roundDown fpage.vaddr < 0x100000000 := by unfold roundDown; omega
  exact ⟨_, dif_pos inside⟩

/-- A flexpage that names a proper range: neither nil nor the whole space. -/
def Fpage.isOrdinary (fpage : Fpage) : Bool := !fpage.isNil && !fpage.isWholeSpace

/-- The pages an item speaks about: none for nil, all for a whole-space page,
else the pages that meet `[vaddr, vaddr + size)` below 4 GiB. -/
def Fpage.Covers (fpage : Fpage) (page : Nat) : Prop :=
  fpage.isNil = false ∧ page < 0x100000 ∧
    (fpage.isWholeSpace = true ∨
      fpage.vaddr / 0x1000 ≤ page ∧ page * 0x1000 < fpage.vaddr + fpage.sizeBytes)

instance (fpage : Fpage) (page : Nat) : Decidable (fpage.Covers page) :=
  inferInstanceAs (Decidable (_ ∧ _ ∧ (_ ∨ _ ∧ _)))

theorem Fpage.covers_iff_mem {fpage : Fpage} {extent : Extent} (ordinary : fpage.isOrdinary = true)
    (range : fpage.extent = some extent) (page : Nat) :
    fpage.Covers page ↔ page ∈ extent.span := by
  have kinds : fpage.isNil = false ∧ fpage.isWholeSpace = false := by
    simpa [isOrdinary] using ordinary
  rw [mem_clampRange range fpage.sizeBytes_pos fpage.extent_bounded]
  simp only [Covers, kinds]
  tauto

end ZeeboLle.L4

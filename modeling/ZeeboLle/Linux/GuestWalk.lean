import ZeeboLle.Paging.Flat
import ZeeboLle.Unicorn.Memory

/-! The page walk with which the host reads guest memory, beside the translation the MMU makes. The
walk reads four bytes from the place of the first one, cuts every table base at 16 KiB, and takes
supersections for sections and reserved entries for tables. -/
namespace ZeeboLle.Linux

open Unicorn Paging

/-- Physical memory and the registers of the translation. -/
structure GuestMmu where
  mapped : Mapping
  ram : FlatMemory
  ttbr0 : Word
  ttbr1 : Word
  ttbcr : Word

namespace GuestMmu

/-- `uc_mem_read` of a word. -/
def readWord (mmu : GuestMmu) (addr : Word) : Option Word :=
  if mmu.mapped.backed addr 4 then some (mmu.ram.read32 addr) else none

/-- The reads of the registers do not fail. -/
def guestReadU32 (mmu : GuestMmu) (va : Word) : Option Word :=
  let n := mmu.ttbcr &&& 7
  let split := if n = 0 then 0 else 0x80000000#32 >>> (n - 1)
  let pgdb := (if n = 0 ∨ va < split then mmu.ttbr0 else mmu.ttbr1) &&& 0xffffc000
  (mmu.readWord (pgdb + (va >>> 20 &&& 0xfff) * 4)).bind fun l1 =>
    if l1 &&& 3 = 0 then none
    else if l1 &&& 3 = 2 then mmu.readWord (l1 &&& 0xfff00000 ||| va &&& 0xfffff)
    else
      let l2 := l1 &&& 0xfffffc00
      (mmu.readWord (l2 + (va >>> 12 &&& 0xff) * 4)).bind fun pte =>
        if pte &&& 3 = 2 then mmu.readWord (pte &&& 0xfffff000 ||| va &&& 0xfff)
        else if pte &&& 3 = 3 then mmu.readWord (pte &&& 0xfffff000 ||| va &&& 0xfff)
        else if pte &&& 3 = 1 then mmu.readWord (pte &&& 0xffff0000 ||| va &&& 0xffff)
        else none

/-- The loop of `guest_read_bytes` from `i` on. Without fuel it goes on; the inner option is what
it returns. -/
def readChunks (mmu : GuestMmu) (va len : Word) : Nat → Word → List Byte → Option (Option (List Byte))
  | 0, _, _ => none
  | fuel + 1, i, out =>
    if i < len then
      match mmu.guestReadU32 (va + i) with
      | none => some none
      | some w =>
        let bytes := ((List.range 4).takeWhile fun b => i + BitVec.ofNat 32 b < len).map fun b =>
          w.extractLsb' (8 * b) 8
        mmu.readChunks va len fuel (i + 4) (out ++ bytes)
    else some (some out)

def guestReadBytes (mmu : GuestMmu) (va len : Word) (fuel : Nat) : Option (Option (List Byte)) :=
  mmu.readChunks va len fuel 0 []

/-- A frame from bit `size` on, and the address below. -/
def framed (size : Nat) (frame va : Word) : Word :=
  BitVec.ofNat 32 (frame.toNat / 2 ^ size * 2 ^ size + va.toNat % 2 ^ size)

/-- `TTBCR.N`. -/
def tableBits (mmu : GuestMmu) : Nat := mmu.ttbcr.toNat % 8

/-- The first-level entry of an address: `TTBR0` for the addresses below 2^(32 - N), with a table
of 2^(14 - N) bytes, else `TTBR1`. -/
def firstLevel (mmu : GuestMmu) (va : Word) : Word :=
  let base := if va.toNat < 2 ^ (32 - mmu.tableBits) then
    mmu.ttbr0.toNat / 2 ^ (14 - mmu.tableBits) * 2 ^ (14 - mmu.tableBits)
  else mmu.ttbr1.toNat / 2 ^ 14 * 2 ^ 14
  BitVec.ofNat 32 (base + va.toNat / 2 ^ 20 * 4)

def secondLevel (l1 va : Word) : Word :=
  BitVec.ofNat 32 (l1.toNat / 2 ^ 10 * 2 ^ 10 + va.toNat / 2 ^ 12 % 2 ^ 8 * 4)

/-- A section has bit 18 clear, a supersection has it set. -/
def sectionBits (l1 : Word) : Nat := if l1.getLsbD 18 then 24 else 20

/-- The ARMv6 short descriptors, subpages disabled. -/
def translate (mmu : GuestMmu) (va : Word) : Option Word :=
  (mmu.readWord (mmu.firstLevel va)).bind fun l1 =>
    if l1 &&& 3 = 1 then
      (mmu.readWord (secondLevel l1 va)).bind fun pte =>
        if pte &&& 3 = 0 then none
        else if pte &&& 3 = 1 then some (framed 16 pte va)
        else some (framed 12 pte va)
    else if l1 &&& 3 = 2 then some (framed (sectionBits l1) l1 va)
    else none

/-- A byte of mapped physical memory. -/
def byteAt (mmu : GuestMmu) (place : Word) : Option Byte :=
  if mmu.mapped (place.extractLsb' 12 20) then some (mmu.ram place) else none

/-- The physical byte behind an address. -/
def physicalByte (mmu : GuestMmu) (va : Word) : Option Byte := (mmu.translate va).bind mmu.byteAt

/-- The physical bytes behind some addresses. -/
def Gathered (mmu : GuestMmu) (va : Word) (count : Nat) (bytes : List Byte) : Prop :=
  bytes.length = count ∧ ∀ i < count, bytes[i]? = mmu.physicalByte (va + BitVec.ofNat 32 i)

/-- The read returns; it succeeds exactly where there is a physical byte behind every address, and
returns these bytes. -/
def ReadsExactly (mmu : GuestMmu) (va len : Word) : Prop :=
  ∃ result, (∃ fuel, mmu.guestReadBytes va len fuel = some result) ∧
    (result.isSome = true ↔
      ∀ i < len.toNat, (mmu.physicalByte (va + BitVec.ofNat 32 i)).isSome = true) ∧
    ∀ bytes, result = some bytes → mmu.Gathered va len.toNat bytes

variable {mmu : GuestMmu} {va len frame : Word}

theorem framed_toNat {size : Nat} (within : size ≤ 32) :
    (framed size frame va).toNat = frame.toNat / 2 ^ size * 2 ^ size + va.toNat % 2 ^ size := by
  have whole := Nat.mod_add_div' frame.toNat (2 ^ size)
  have low := Nat.mod_lt va.toNat (Nat.two_pow_pos size)
  have top : frame.toNat / 2 ^ size < 2 ^ (32 - size) := by
    rw [Nat.div_lt_iff_lt_mul (Nat.two_pow_pos size), ← Nat.pow_add, Nat.sub_add_cancel within]
    exact frame.isLt
  have bound : (frame.toNat / 2 ^ size + 1) * 2 ^ size ≤ 2 ^ 32 := by
    calc (frame.toNat / 2 ^ size + 1) * 2 ^ size
        ≤ 2 ^ (32 - size) * 2 ^ size := Nat.mul_le_mul_right _ top
      _ = 2 ^ 32 := by rw [← Nat.pow_add, Nat.sub_add_cancel within]
  rw [Nat.add_one_mul] at bound
  exact BitVec.toNat_ofNat _ _ |>.trans (Nat.mod_eq_of_lt (by omega))

/-- A frame as the host puts it together. -/
theorem framed_eq {size : Nat} (within : size ≤ 32) {mask low : Word}
    (high : mask = ~~~low) (whole : low = BitVec.ofNat 32 (2 ^ size - 1)) :
    frame &&& mask ||| va &&& low = framed size frame va := by
  subst high whole
  have apart : frame &&& ~~~BitVec.ofNat 32 (2 ^ size - 1) &&&
      (va &&& BitVec.ofNat 32 (2 ^ size - 1)) = 0#32 := by
    ext bit below
    simp only [BitVec.getElem_and, BitVec.getElem_not, BitVec.getElem_zero]
    cases (BitVec.ofNat 32 (2 ^ size - 1))[bit] <;> simp
  rw [← BitVec.add_eq_or_of_and_eq_zero _ _ apart]
  apply BitVec.eq_of_toNat_eq
  rw [BitVec.toNat_add_of_and_eq_zero apart, toNat_clear_low within, toNat_and_low within,
    framed_toNat within]

/-- Within a page an address and its place go on together. -/
theorem framed_add {size b : Nat} (large : 12 ≤ size) (within : size ≤ 32)
    (inside : va.toNat % 2 ^ 12 + b < 2 ^ 12) :
    framed size frame (va + BitVec.ofNat 32 b) = framed size frame va + BitVec.ofNat 32 b := by
  have bound := va.isLt
  have sum : (va + BitVec.ofNat 32 b).toNat = va.toNat + b := by
    rw [BitVec.toNat_add, BitVec.toNat_ofNat]
    omega
  obtain ⟨more, rfl⟩ := Nat.exists_eq_add_of_le large
  have low (n : Nat) : n % 2 ^ (12 + more) = n % 2 ^ 12 + 2 ^ 12 * (n / 2 ^ 12 % 2 ^ more) := by
    rw [Nat.pow_add, Nat.mod_mul]
  have page : (va.toNat + b) / 2 ^ 12 = va.toNat / 2 ^ 12 := by omega
  have offset : (va.toNat + b) % 2 ^ 12 = va.toNat % 2 ^ 12 + b := by omega
  unfold framed
  rw [sum, low, page, offset, ← BitVec.ofNat_add, low va.toNat]
  congr 1
  omega

/-- A place has the offset of its address in the page. -/
theorem framed_offset {size : Nat} (large : 12 ≤ size) (within : size ≤ 32) :
    (framed size frame va).toNat % 2 ^ 12 = va.toNat % 2 ^ 12 := by
  rw [framed_toNat within]
  obtain ⟨more, rfl⟩ := Nat.exists_eq_add_of_le large
  rw [Nat.pow_add, ← Nat.mul_assoc, Nat.mul_right_comm, Nat.mod_mul, Nat.add_comm]
  omega

theorem sectionBits_bounds (l1 : Word) : 12 ≤ sectionBits l1 ∧ sectionBits l1 ≤ 32 := by
  unfold sectionBits
  split <;> decide

/-- The first-level entry that the host reads. -/
def guestFirst (mmu : GuestMmu) (va : Word) : Word :=
  let base := if va.toNat < 2 ^ (32 - mmu.tableBits) then mmu.ttbr0 else mmu.ttbr1
  BitVec.ofNat 32 (base.toNat / 2 ^ 14 * 2 ^ 14 + va.toNat / 2 ^ 20 * 4)

def guestPlace (mmu : GuestMmu) (va : Word) : Option Word :=
  (mmu.readWord (mmu.guestFirst va)).bind fun l1 =>
    if l1 &&& 3 = 0 then none
    else if l1 &&& 3 = 2 then some (framed 20 l1 va)
    else
      (mmu.readWord (secondLevel l1 va)).bind fun pte =>
        if pte &&& 3 = 0 then none
        else if pte &&& 3 = 1 then some (framed 16 pte va)
        else some (framed 12 pte va)

/-- The split between the tables, for each N. -/
theorem below_split (ttbcr va : Word) :
    (ttbcr &&& 7 = 0 ∨ va < if ttbcr &&& 7 = 0 then 0 else 0x80000000#32 >>> ((ttbcr &&& 7) - 1)) ↔
      va.toNat < 2 ^ (32 - ttbcr.toNat % 8) := by
  have bits : ttbcr &&& 7 = BitVec.ofNat 32 (ttbcr.toNat % 8) := by
    apply BitVec.eq_of_toNat_eq
    rw [BitVec.toNat_ofNat, Nat.mod_eq_of_lt (by omega)]
    exact @toNat_and_low 32 3 (by decide) ttbcr
  have small : ttbcr.toNat % 8 < 8 := Nat.mod_lt _ (by decide)
  have bound := va.isLt
  have shifted : ∀ n : Fin 8, n ≠ 0 → BitVec.ofNat 32 n ≠ 0 ∧
      (0x80000000#32 >>> (BitVec.ofNat 32 n - 1)).toNat = 2 ^ (32 - n.val) := by decide
  rw [bits]
  by_cases none : ttbcr.toNat % 8 = 0
  · rw [none]
    simpa using bound
  · obtain ⟨some, power⟩ := shifted ⟨_, small⟩ fun zero => none (congrArg Fin.val zero)
    rw [if_neg some, BitVec.lt_def, power, or_iff_right some]

theorem index_toNat (va : Word) {low count : Nat} (within : count ≤ 32) :
    (va >>> low &&& BitVec.ofNat 32 (2 ^ count - 1)).toNat = va.toNat / 2 ^ low % 2 ^ count := by
  rw [toNat_and_low within, BitVec.toNat_ushiftRight, Nat.shiftRight_eq_div_pow]

/-- An entry of a table as the host finds it. -/
theorem entry_eq (table va : Word) (start count : Nat) {high low : Word} (within : count ≤ 30)
    (cut : high = ~~~BitVec.ofNat 32 (2 ^ (count + 2) - 1)) (whole : low = BitVec.ofNat 32 (2 ^ count - 1)) :
    (table &&& high) + (va >>> start &&& low) * 4 =
      BitVec.ofNat 32 (table.toNat / 2 ^ (count + 2) * 2 ^ (count + 2) +
        va.toNat / 2 ^ start % 2 ^ count * 4) := by
  subst cut whole
  apply BitVec.eq_of_toNat_eq
  rw [BitVec.toNat_add, BitVec.toNat_mul, toNat_clear_low (by omega), index_toNat va (by omega),
    BitVec.toNat_ofNat, Nat.add_mod_mod]
  rfl

theorem kind_cases (entry : Word) :
    entry &&& 3 = 0 ∨ entry &&& 3 = 1 ∨ entry &&& 3 = 2 ∨ entry &&& 3 = 3 := by
  have small : (entry &&& 3).toNat = entry.toNat % 4 := @toNat_and_low 32 2 (by decide) entry
  generalize entry &&& 3 = kind at small
  bv_omega

/-- The page that a second-level entry leads to. -/
theorem readPage_eq (mmu : GuestMmu) (pte va : Word) :
    (if pte &&& 3 = 2 then mmu.readWord (framed 12 pte va)
      else if pte &&& 3 = 3 then mmu.readWord (framed 12 pte va)
      else if pte &&& 3 = 1 then mmu.readWord (framed 16 pte va)
      else none) =
    (if pte &&& 3 = 0 then none
      else if pte &&& 3 = 1 then some (framed 16 pte va)
      else some (framed 12 pte va)).bind mmu.readWord := by
  rcases kind_cases pte with kind | kind | kind | kind
  · rw [kind, if_neg (by decide), if_neg (by decide), if_neg (by decide), if_pos rfl, Option.bind_none]
  · rw [kind, if_neg (by decide), if_neg (by decide), if_pos rfl, if_neg (by decide), if_pos rfl,
      Option.bind_some]
  · rw [kind, if_pos rfl, if_neg (by decide), if_neg (by decide), Option.bind_some]
  · rw [kind, if_neg (by decide), if_pos rfl, if_neg (by decide), if_neg (by decide),
      Option.bind_some]

theorem guestReadU32_eq (mmu : GuestMmu) (va : Word) :
    mmu.guestReadU32 va = (mmu.guestPlace va).bind mmu.readWord := by
  have first (table : Word) : (table &&& (0xffffc000 : Word)) + (va >>> 20 &&& (0xfff : Word)) * 4 =
      BitVec.ofNat 32 (table.toNat / 2 ^ 14 * 2 ^ 14 + va.toNat / 2 ^ 20 * 4) := by
    have bound := va.isLt
    rw [entry_eq table va 20 12 (by decide) (by decide) (by decide),
      Nat.mod_eq_of_lt (by omega : va.toNat / 2 ^ 20 < 2 ^ 12)]
  have second (l1 : Word) : (l1 &&& (0xfffffc00 : Word)) + (va >>> 12 &&& (0xff : Word)) * 4 =
      secondLevel l1 va := by
    rw [entry_eq l1 va 12 8 (by decide) (by decide) (by decide), secondLevel]
  have small (pte : Word) : pte &&& 0xfffff000 ||| va &&& 0xfff = framed 12 pte va :=
    framed_eq (by decide) (by decide) (by decide)
  have large (pte : Word) : pte &&& 0xffff0000 ||| va &&& 0xffff = framed 16 pte va :=
    framed_eq (by decide) (by decide) (by decide)
  have megabyte (l1 : Word) : l1 &&& 0xfff00000 ||| va &&& 0xfffff = framed 20 l1 va :=
    framed_eq (by decide) (by decide) (by decide)
  have found (l1 : Word) :
      (if l1 &&& 3 = 0 then none
        else if l1 &&& 3 = 2 then mmu.readWord (framed 20 l1 va)
        else (mmu.readWord (secondLevel l1 va)).bind fun pte =>
          (if pte &&& 3 = 0 then none
            else if pte &&& 3 = 1 then some (framed 16 pte va)
            else some (framed 12 pte va)).bind mmu.readWord) =
      (if l1 &&& 3 = 0 then none
        else if l1 &&& 3 = 2 then some (framed 20 l1 va)
        else (mmu.readWord (secondLevel l1 va)).bind fun pte =>
          if pte &&& 3 = 0 then none
          else if pte &&& 3 = 1 then some (framed 16 pte va)
          else some (framed 12 pte va)).bind mmu.readWord := by
    split
    · exact (Option.bind_none _).symm
    · split
      · exact (Option.bind_some _ _).symm
      · exact (Option.bind_assoc _ _ _).symm
  unfold guestReadU32 guestPlace guestFirst tableBits
  simp only [below_split, first, second, small, large, megabyte, readPage_eq, found, Option.bind_assoc]

/-- An entry that means to the host what it means to the MMU: it is not reserved, and a
supersection leads to the address's own megabyte. -/
def EntryPlain (l1 va : Word) : Prop :=
  l1 &&& 3 ≠ 3 ∧ (l1 &&& 3 = 2 → l1.getLsbD 18 = true →
    l1.toNat / 2 ^ 20 % 16 = va.toNat / 2 ^ 20 % 16)

/-- The walk from an address goes as the MMU's. -/
structure WalkPlain (mmu : GuestMmu) (va : Word) : Prop where
  base : va.toNat < 2 ^ (32 - mmu.tableBits) → mmu.ttbr0.toNat % 2 ^ 14 < 2 ^ (14 - mmu.tableBits)
  entry : ∀ l1, mmu.readWord (mmu.firstLevel va) = some l1 → EntryPlain l1 va

theorem tableBits_lt (mmu : GuestMmu) : mmu.tableBits < 8 := Nat.mod_lt _ (by decide)

theorem guestFirst_eq (plain : mmu.WalkPlain va) : mmu.guestFirst va = mmu.firstLevel va := by
  unfold guestFirst firstLevel
  dsimp only
  split
  · next low =>
    have aligned := plain.base low
    have bits := mmu.tableBits_lt
    generalize mmu.tableBits = n at aligned bits
    have same : mmu.ttbr0.toNat / 2 ^ 14 * 2 ^ 14 =
        mmu.ttbr0.toNat / 2 ^ (14 - n) * 2 ^ (14 - n) := by
      interval_cases n <;> omega
    rw [same]
  · rfl

theorem framed_supersection {l1 : Word} (same : l1.toNat / 2 ^ 20 % 16 = va.toNat / 2 ^ 20 % 16) :
    framed 20 l1 va = framed 24 l1 va := by
  apply BitVec.eq_of_toNat_eq
  rw [framed_toNat (by decide), framed_toNat (by decide)]
  omega

/-- On a plain walk the host reads from the place that the MMU gives. -/
theorem guestPlace_eq (plain : mmu.WalkPlain va) : mmu.guestPlace va = mmu.translate va := by
  unfold guestPlace translate
  rw [guestFirst_eq plain]
  cases found : mmu.readWord (mmu.firstLevel va) with
  | none => rfl
  | some l1 =>
    obtain ⟨unreserved, super⟩ := plain.entry l1 found
    rw [Option.bind_some, Option.bind_some]
    rcases kind_cases l1 with kind | kind | kind | kind
    · rw [kind]
      rfl
    · rw [kind]
      rfl
    · have place : framed 20 l1 va = framed (sectionBits l1) l1 va := by
        unfold sectionBits
        split
        · next wide => exact framed_supersection (super kind wide)
        · rfl
      rw [kind, place]
      rfl
    · exact absurd kind unreserved

/-- Addresses of one page have the same entries. -/
theorem translate_add {b : Nat} (inside : va.toNat % 2 ^ 12 + b < 2 ^ 12) :
    mmu.translate (va + BitVec.ofNat 32 b) =
      (mmu.translate va).map fun place => place + BitVec.ofNat 32 b := by
  have bound := va.isLt
  have sum : (va + BitVec.ofNat 32 b).toNat = va.toNat + b := by
    rw [BitVec.toNat_add, BitVec.toNat_ofNat]
    omega
  have bits := mmu.tableBits_lt
  have page : (va.toNat + b) / 2 ^ 12 = va.toNat / 2 ^ 12 := by omega
  have section' : (va.toNat + b) / 2 ^ 20 = va.toNat / 2 ^ 20 := by omega
  have table : va.toNat + b < 2 ^ (32 - mmu.tableBits) ↔ va.toNat < 2 ^ (32 - mmu.tableBits) := by
    generalize mmu.tableBits = n at bits
    interval_cases n <;> omega
  have first : mmu.firstLevel (va + BitVec.ofNat 32 b) = mmu.firstLevel va := by
    simp only [firstLevel, sum, section', table]
  have second (l1 : Word) : secondLevel l1 (va + BitVec.ofNat 32 b) = secondLevel l1 va := by
    simp only [secondLevel, sum, page]
  unfold translate
  rw [first, Option.map_bind]
  refine congrArg (Option.bind (mmu.readWord (mmu.firstLevel va))) (funext fun l1 => ?_)
  rw [Function.comp_apply]
  split
  · rw [second, Option.map_bind]
    refine congrArg (Option.bind (mmu.readWord (secondLevel l1 va))) (funext fun pte => ?_)
    rw [Function.comp_apply]
    split
    · rfl
    · split
      · rw [framed_add (by decide) (by decide) inside, Option.map_some]
      · rw [framed_add (by decide) (by decide) inside, Option.map_some]
  · split
    · obtain ⟨large, within⟩ := sectionBits_bounds l1
      rw [framed_add large within inside, Option.map_some]
    · rfl

/-- A place has the offset of its address in the page. -/
theorem translate_offset {place : Word} (found : mmu.translate va = some place) :
    place.toNat % 2 ^ 12 = va.toNat % 2 ^ 12 := by
  unfold translate at found
  obtain ⟨l1, -, found⟩ := Option.bind_eq_some_iff.mp found
  split at found
  · obtain ⟨pte, -, found⟩ := Option.bind_eq_some_iff.mp found
    split at found
    · cases found
    · split at found
      · cases found
        exact framed_offset (by decide) (by decide)
      · cases found
        exact framed_offset (by decide) (by decide)
  · split at found
    · cases found
      exact framed_offset (sectionBits_bounds l1).1 (sectionBits_bounds l1).2
    · cases found

variable {place w : Word} {want : Nat}

theorem readWord_eq_none (room : place.toNat + 4 ≤ 2 ^ 32) (failed : mmu.readWord place = none) :
    ∃ b < 4, mmu.byteAt (place + BitVec.ofNat 32 b) = none := by
  by_contra full
  push Not at full
  have backed : mmu.mapped.backed place 4 = true := by
    rw [Mapping.backed, Bool.and_eq_true, decide_eq_true_iff, List.all_eq_true]
    refine ⟨room, fun b member => ?_⟩
    have some := full b (List.mem_range.mp member)
    by_contra unmapped
    exact some (if_neg unmapped)
  rw [readWord, if_pos backed] at failed
  cases failed

theorem readWord_byte (read : mmu.readWord place = some w) {b : Nat} (inside : b < 4) :
    mmu.byteAt (place + BitVec.ofNat 32 b) = some (w.extractLsb' (8 * b) 8) := by
  unfold readWord at read
  split at read
  · next backed =>
    cases read
    rw [Mapping.backed, Bool.and_eq_true, List.all_eq_true] at backed
    have mapped := backed.2 b (List.mem_range.mpr inside)
    rw [byteAt, if_pos mapped, FlatMemory.read32_byte mmu.ram place ⟨b, inside⟩]
  · cases read

/-- The bytes of a word that are wanted lie one behind the other, and there is memory behind those
that are not. -/
def Straight (mmu : GuestMmu) (va : Word) (want : Nat) : Prop :=
  ∀ place, mmu.translate va = some place → (mmu.byteAt place).isSome = true →
    ∀ b < 4, place.toNat + b < 2 ^ 32 ∧
      (b < want → mmu.translate (va + BitVec.ofNat 32 b) = some (place + BitVec.ofNat 32 b)) ∧
      (want ≤ b → (mmu.byteAt (place + BitVec.ofNat 32 b)).isSome = true)

/-- A word within a page does. -/
theorem straight_of_page (inside : va.toNat % 2 ^ 12 + 4 ≤ 2 ^ 12) (want : Nat) :
    mmu.Straight va want := by
  intro place found first b below
  have offset := translate_offset found
  have bound := place.isLt
  have page : (place + BitVec.ofNat 32 b).extractLsb' 12 20 = place.extractLsb' 12 20 := by
    apply BitVec.eq_of_toNat_eq
    have sum : (place + BitVec.ofNat 32 b).toNat = place.toNat + b := by
      rw [BitVec.toNat_add, BitVec.toNat_ofNat]
      omega
    rw [BitVec.extractLsb'_toNat, BitVec.extractLsb'_toNat, Nat.shiftRight_eq_div_pow,
      Nat.shiftRight_eq_div_pow, sum]
    omega
  refine ⟨by omega, fun _ => ?_, fun _ => ?_⟩
  · rw [translate_add (by omega), found, Option.map_some]
  · unfold byteAt at first ⊢
    rw [page]
    split at first
    · next mapped => rw [if_pos mapped]; rfl
    · cases first

/-- A word that the host reads plainly. -/
structure WordPlain (mmu : GuestMmu) (va : Word) (want : Nat) : Prop where
  walk : mmu.WalkPlain va
  straight : mmu.Straight va want

theorem physicalByte_of_translate (found : mmu.translate va = some place) :
    mmu.physicalByte va = mmu.byteAt place := by
  rw [physicalByte, found, Option.bind_some]

/-- Where the host cannot read a word, one of the wanted bytes has nothing behind it. -/
theorem guestReadU32_none (plain : mmu.WordPlain va want) (positive : 0 < want)
    (failed : mmu.guestReadU32 va = none) :
    ∃ b < want, b < 4 ∧ mmu.physicalByte (va + BitVec.ofNat 32 b) = none := by
  rw [guestReadU32_eq, guestPlace_eq plain.walk] at failed
  have here : va + BitVec.ofNat 32 0 = va := BitVec.add_zero va
  cases found : mmu.translate va with
  | none =>
    refine ⟨0, positive, by decide, ?_⟩
    rw [here, physicalByte, found]
    rfl
  | some place =>
    rw [found, Option.bind_some] at failed
    cases first : mmu.byteAt place with
    | none => exact ⟨0, positive, by decide, by rw [here, physicalByte_of_translate found, first]⟩
    | some byte =>
      have present : (mmu.byteAt place).isSome = true := by rw [first]; rfl
      have line := plain.straight place found present
      have last := (line 3 (by decide)).1
      obtain ⟨b, below, missing⟩ := readWord_eq_none (by omega) failed
      obtain ⟨-, inside, outside⟩ := line b below
      by_cases wanted : b < want
      · exact ⟨b, wanted, below, by rw [physicalByte_of_translate (inside wanted), missing]⟩
      · have held := outside (not_lt.mp wanted)
        rw [missing] at held
        cases held

/-- A word that the host reads has the wanted bytes. -/
theorem guestReadU32_some (plain : mmu.WordPlain va want) (read : mmu.guestReadU32 va = some w)
    {b : Nat} (wanted : b < want) (below : b < 4) :
    mmu.physicalByte (va + BitVec.ofNat 32 b) = some (w.extractLsb' (8 * b) 8) := by
  rw [guestReadU32_eq, guestPlace_eq plain.walk] at read
  obtain ⟨place, found, read⟩ := Option.bind_eq_some_iff.mp read
  have first := readWord_byte read (b := 0) (by decide)
  rw [BitVec.add_zero] at first
  have present : (mmu.byteAt place).isSome = true := by rw [first]; rfl
  have inside := (plain.straight place found present b below).2.1 wanted
  rw [physicalByte_of_translate inside, readWord_byte read below]

/-- The wanted bytes of a word, as the inner loop counts them. -/
theorem takeWhile_wanted {i : Nat} (before : i < len.toNat) (whole : i % 4 = 0) :
    ((List.range 4).takeWhile fun b => BitVec.ofNat 32 i + BitVec.ofNat 32 b < len) =
      List.range (min 4 (len.toNat - i)) := by
  have bound := len.isLt
  have wanted (b : Nat) (below : b < 4) :
      BitVec.ofNat 32 i + BitVec.ofNat 32 b < len ↔ b < len.toNat - i := by
    rw [BitVec.lt_def, BitVec.toNat_add, BitVec.toNat_ofNat, BitVec.toNat_ofNat]
    omega
  have digits : List.range 4 = [0, 1, 2, 3] := by decide
  have few : len.toNat - i = 1 ∨ len.toNat - i = 2 ∨ len.toNat - i = 3 ∨ 4 ≤ len.toNat - i := by omega
  rw [digits]
  simp only [List.takeWhile_cons, wanted 0 (by decide), wanted 1 (by decide), wanted 2 (by decide),
    wanted 3 (by decide), List.takeWhile_nil]
  rcases few with rest | rest | rest | rest
  · rw [rest]
    decide
  · rw [rest]
    decide
  · rw [rest]
    decide
  · rw [Nat.min_eq_left rest]
    simp only [show 0 < len.toNat - i by omega, show 1 < len.toNat - i by omega,
      show 2 < len.toNat - i by omega, show 3 < len.toNat - i by omega, decide_true]
    decide

theorem Gathered.append {count more : Nat} {out bytes : List Byte} (gathered : mmu.Gathered va count out)
    (length : bytes.length = more) (each : ∀ b < more,
      bytes[b]? = mmu.physicalByte (va + BitVec.ofNat 32 count + BitVec.ofNat 32 b)) :
    mmu.Gathered va (count + more) (out ++ bytes) := by
  obtain ⟨size, held⟩ := gathered
  refine ⟨by rw [List.length_append, size, length], fun i below => ?_⟩
  by_cases early : i < count
  · rw [List.getElem?_append_left (size ▸ early), held i early]
  · rw [List.getElem?_append_right (by omega), size, each (i - count) (by omega), BitVec.add_assoc,
      ← BitVec.ofNat_add, Nat.add_sub_cancel' (by omega)]

theorem Gathered.present {count : Nat} {out : List Byte} (gathered : mmu.Gathered va count out) {i : Nat}
    (below : i < count) : (mmu.physicalByte (va + BitVec.ofNat 32 i)).isSome = true := by
  rw [← gathered.2 i below, List.getElem?_eq_getElem (gathered.1 ▸ below)]
  rfl

/-- Every word the loop comes to is read plainly, and the loop's counter does not overflow before
its end. -/
structure ReadPlain (mmu : GuestMmu) (va len : Word) : Prop where
  short : len.toNat ≤ 2 ^ 32 - 4 ∨
    ∃ i < len.toNat, mmu.physicalByte (va + BitVec.ofNat 32 i) = none
  words : ∀ i < len.toNat, i % 4 = 0 →
    (∀ j < i, (mmu.physicalByte (va + BitVec.ofNat 32 j)).isSome = true) →
      mmu.WordPlain (va + BitVec.ofNat 32 i) (len.toNat - i)

theorem readChunks_exact (plain : mmu.ReadPlain va len) {i : Nat} (whole : i % 4 = 0) (small : i < 2 ^ 32)
    {out : List Byte} (gathered : mmu.Gathered va (min i len.toNat) out) :
    ∃ result, (∃ fuel, mmu.readChunks va len fuel (BitVec.ofNat 32 i) out = some result) ∧
      (result.isSome = true ↔
        ∀ i < len.toNat, (mmu.physicalByte (va + BitVec.ofNat 32 i)).isSome = true) ∧
      ∀ bytes, result = some bytes → mmu.Gathered va len.toNat bytes := by
  induction rest : len.toNat - i using Nat.strong_induction_on generalizing i out with
  | h rest' ih =>
    have turn : BitVec.ofNat 32 i < len ↔ i < len.toNat := by
      rw [BitVec.lt_def, BitVec.toNat_ofNat, Nat.mod_eq_of_lt small]
    by_cases before : i < len.toNat
    · rw [Nat.min_eq_left before.le] at gathered
      have word := plain.words i before whole fun j below => gathered.present below
      cases read : mmu.guestReadU32 (va + BitVec.ofNat 32 i) with
      | none =>
        obtain ⟨b, wanted, -, missing⟩ := guestReadU32_none word (by omega) read
        refine ⟨none, ⟨1, ?_⟩, ⟨fun absent => absurd absent Bool.false_ne_true, fun all => ?_⟩, ?_⟩
        · rw [readChunks, if_pos (turn.mpr before), read]
        · have held := all (i + b) (by omega)
          rw [BitVec.ofNat_add, ← BitVec.add_assoc, missing] at held
          cases held
        · intro bytes absent
          cases absent
      | some w =>
        let bytes := (List.range (min 4 (len.toNat - i))).map fun b => w.extractLsb' (8 * b) 8
        have each : ∀ b < min 4 (len.toNat - i),
            bytes[b]? = mmu.physicalByte (va + BitVec.ofNat 32 i + BitVec.ofNat 32 b) := by
          intro b below
          rw [guestReadU32_some word read (by omega) (by omega), List.getElem?_map,
            List.getElem?_range below]
          rfl
        have grown := gathered.append (by simp [bytes]) each
        have room : i + 4 < 2 ^ 32 := by
          rcases plain.short with short | ⟨j, below, missing⟩
          · omega
          · by_contra last
            have bound := len.isLt
            have held := grown.present (i := j) (by omega)
            rw [missing] at held
            cases held
        have reached : i + min 4 (len.toNat - i) = min (i + 4) len.toNat := by omega
        rw [reached] at grown
        obtain ⟨result, ⟨fuel, run⟩, good⟩ := ih (len.toNat - (i + 4)) (by omega) (by omega) room grown rfl
        refine ⟨result, ⟨fuel + 1, ?_⟩, good⟩
        rw [readChunks, if_pos (turn.mpr before), read, takeWhile_wanted before whole, ← run,
          BitVec.ofNat_add]
        rfl
    · rw [Nat.min_eq_right (not_lt.mp before)] at gathered
      refine ⟨some out, ⟨1, ?_⟩, ⟨fun _ i below => gathered.present below, fun _ => rfl⟩, ?_⟩
      · rw [readChunks, if_neg fun less => before (turn.mp less)]
      · intro bytes same
        cases same
        exact gathered

/-- Where every word is read plainly, the host reads what the MMU would. -/
theorem guestReadBytes_exact (plain : mmu.ReadPlain va len) : mmu.ReadsExactly va len :=
  readChunks_exact plain rfl (by decide) ⟨by simp, fun i below => by simp at below⟩

/-- Every byte of memory is 2: each entry is a section at 0x02000000. -/
def sections (mapped : Mapping) : GuestMmu := ⟨mapped, fun _ => 2, 0, 0, 0⟩

theorem guestReadBytes_exact_sections : (sections fun _ => true).ReadsExactly 0x1000 5 := by
  apply guestReadBytes_exact
  have word (i : Nat) (fits : i = 0 ∨ i = 4) (want : Nat) :
      (sections fun _ => true).WordPlain (0x1000 + BitVec.ofNat 32 i) want := by
    constructor
    · refine ⟨fun _ => by decide, fun l1 found => ?_⟩
      have read : l1 = 0x02020202 := by
        rcases fits with rfl | rfl
        · exact (Option.some.inj found).symm
        · exact (Option.some.inj found).symm
      rw [read]
      exact ⟨by decide, fun _ wide => absurd wide (by decide)⟩
    · apply straight_of_page
      rcases fits with rfl | rfl <;> decide
  refine ⟨.inl (by decide), fun i below whole _ => word i ?_ _⟩
  have bound : i < 5 := below
  omega

/-- The second half of a word lies in the next section, which starts in mapped memory; the host
reads on behind the first section, where there is none. -/
theorem not_readsExactly_crossing :
    ¬(sections fun page => page ≠ 0x02100).ReadsExactly 0x000ffffe 4 := by
  rintro ⟨result, ⟨fuel, run⟩, succeeds, -⟩
  have all : ∀ i < (4 : Word).toNat, ((sections fun page => page ≠ 0x02100).physicalByte
      (0x000ffffe + BitVec.ofNat 32 i)).isSome = true := by decide
  have failed : (sections fun page => page ≠ 0x02100).guestReadU32 (0x000ffffe + 0) = none := by decide
  have held := succeeds.mpr all
  cases fuel with
  | zero => cases run
  | succ fuel =>
    rw [guestReadBytes, readChunks, if_pos (by decide), failed] at run
    cases run
    cases held

end GuestMmu

end ZeeboLle.Linux

import ZeeboLle.Paging.PageTable
import Mathlib.Algebra.GroupWithZero.Nat
import Mathlib.Logic.Function.Basic

/-! The memory side of a Unicorn engine as a page table. Mapping fails with
`UC_ERR_MAP` when any page of the range is taken, unmapping and protecting fail
unless the whole range is mapped, and each acts on exactly its range. Callers
pass page-aligned ranges. The host API reads and writes bytes whatever the guest
protection says. -/
namespace ZeeboLle.Unicorn

open Paging

abbrev Byte := BitVec 8
abbrev Word := BitVec 32

/-- A host address; zero is the null pointer. -/
abbrev HostPtr := Nat

abbrev nullptr : HostPtr := 0

inductive UcErr where
  | ok | arg | map | nomem | readUnmapped | writeUnmapped
deriving DecidableEq, Repr

/-- `UC_PROT_*` flags. -/
structure Prot where
  read : Bool
  write : Bool
  exec : Bool
deriving DecidableEq, Repr

namespace Prot

def none : Prot := ⟨false, false, false⟩
def readOnly : Prot := ⟨true, false, false⟩
def all : Prot := ⟨true, true, true⟩

end Prot

/-- Engine-owned RAM from `uc_mem_map`, or a host buffer from `uc_mem_map_ptr`;
the pointer is the host address of the page's first byte. -/
inductive Backing where
  | ram
  | host (ptr : HostPtr)
deriving DecidableEq, Repr

/-- Engine RAM is indexed by guest address, host memory by host address. -/
structure Memory where
  pages : PageTable Prot Backing
  ram : Nat → Byte
  host : HostPtr → Byte

/-- An engine with nothing mapped. -/
def Memory.blank : Memory := ⟨fun _ => none, fun _ => 0, fun _ => 0⟩

/-- The pages of a page-aligned byte range. -/
def pageSpan (address size : Nat) : Span := ⟨address / 0x1000, size / 0x1000⟩

namespace Memory

def ucMemMap (mem : Memory) (address size : Nat) (perms : Prot) : UcErr × Memory :=
  if mem.pages.free (pageSpan address size) then
    (.ok, { mem with
      pages := mem.pages.install (pageSpan address size) fun _ => ⟨perms, .ram⟩
      ram := fun byte => if byte / 0x1000 ∈ pageSpan address size then 0 else mem.ram byte })
  else (.map, mem)

/-- The backing of each page of a range bound to a host buffer. -/
def hostPages (address : Nat) (perms : Prot) (ptr : HostPtr) (page : Nat) : Page Prot Backing :=
  ⟨perms, .host (ptr + (page - address / 0x1000) * 0x1000)⟩

def ucMemMapPtr (mem : Memory) (address size : Nat) (perms : Prot) (ptr : HostPtr) :
    UcErr × Memory :=
  if ptr = nullptr then (.arg, mem)
  else if mem.pages.free (pageSpan address size) then
    (.ok, { mem with
      pages := mem.pages.install (pageSpan address size) (hostPages address perms ptr) })
  else (.map, mem)

def ucMemUnmap (mem : Memory) (address size : Nat) : UcErr × Memory :=
  if mem.pages.full (pageSpan address size) then
    (.ok, { mem with pages := mem.pages.remove (pageSpan address size) })
  else (.nomem, mem)

def ucMemProtect (mem : Memory) (address size : Nat) (perms : Prot) : UcErr × Memory :=
  if mem.pages.full (pageSpan address size) then
    (.ok, { mem with pages := mem.pages.protect (pageSpan address size) perms })
  else (.nomem, mem)

/-- The byte the host API reads at a guest address. -/
def loadByte (mem : Memory) (address : Nat) : Option Byte :=
  match mem.pages (address / 0x1000) with
  | none => none
  | some ⟨_, .ram⟩ => some (mem.ram address)
  | some ⟨_, .host ptr⟩ => some (mem.host (ptr + address % 0x1000))

def storeByte (mem : Memory) (address : Nat) (value : Byte) : Memory :=
  match mem.pages (address / 0x1000) with
  | none => mem
  | some ⟨_, .ram⟩ => { mem with ram := Function.update mem.ram address value }
  | some ⟨_, .host ptr⟩ =>
    { mem with host := Function.update mem.host (ptr + address % 0x1000) value }

end Memory

/-- Little-endian word of four bytes. -/
def wordOfBytes (b0 b1 b2 b3 : Byte) : Word :=
  BitVec.ofNat 32 (b0.toNat + 0x100 * b1.toNat + 0x10000 * b2.toNat + 0x1000000 * b3.toNat)

def wordByte (word : Word) (index : Nat) : Byte :=
  BitVec.ofNat 8 (word.toNat / 0x100 ^ index)

theorem wordByte_wordOfBytes (b0 b1 b2 b3 : Byte) :
    wordByte (wordOfBytes b0 b1 b2 b3) 0 = b0 ∧ wordByte (wordOfBytes b0 b1 b2 b3) 1 = b1 ∧
      wordByte (wordOfBytes b0 b1 b2 b3) 2 = b2 ∧ wordByte (wordOfBytes b0 b1 b2 b3) 3 = b3 := by
  have bound0 := b0.isLt
  have bound1 := b1.isLt
  have bound2 := b2.isLt
  have bound3 := b3.isLt
  refine ⟨?_, ?_, ?_, ?_⟩ <;> apply BitVec.eq_of_toNat_eq <;>
    simp only [wordByte, wordOfBytes, BitVec.toNat_ofNat] <;> omega

namespace Memory

/-- `uc_mem_read` of four bytes; the whole access must be mapped. -/
def ucMemRead32 (mem : Memory) (address : Nat) : Option Word := do
  let b0 ← mem.loadByte address
  let b1 ← mem.loadByte (address + 1)
  let b2 ← mem.loadByte (address + 2)
  let b3 ← mem.loadByte (address + 3)
  return wordOfBytes b0 b1 b2 b3

/-- `uc_mem_write` of four bytes; without effect unless the whole access is mapped. -/
def ucMemWrite32 (mem : Memory) (address : Nat) (word : Word) : UcErr × Memory :=
  if (mem.ucMemRead32 address).isSome then
    (.ok, (((mem.storeByte address (wordByte word 0)).storeByte (address + 1)
      (wordByte word 1)).storeByte (address + 2) (wordByte word 2)).storeByte (address + 3)
        (wordByte word 3))
  else (.writeUnmapped, mem)

variable {mem : Memory} {address size : Nat} {perms : Prot} {ptr : HostPtr}

theorem ucMemMap_free (free : mem.pages.free (pageSpan address size) = true) :
    mem.ucMemMap address size perms = (.ok, { mem with
      pages := mem.pages.install (pageSpan address size) fun _ => ⟨perms, .ram⟩
      ram := fun byte => if byte / 0x1000 ∈ pageSpan address size then 0 else mem.ram byte }) := by
  simp [ucMemMap, free]

theorem ucMemMap_taken (taken : mem.pages.free (pageSpan address size) = false) :
    mem.ucMemMap address size perms = (.map, mem) := by
  simp [ucMemMap, taken]

theorem ucMemMapPtr_free (backed : ptr ≠ nullptr)
    (free : mem.pages.free (pageSpan address size) = true) :
    mem.ucMemMapPtr address size perms ptr = (.ok, { mem with
      pages := mem.pages.install (pageSpan address size) (hostPages address perms ptr) }) := by
  simp [ucMemMapPtr, backed, free]

theorem ucMemMapPtr_taken (backed : ptr ≠ nullptr)
    (taken : mem.pages.free (pageSpan address size) = false) :
    mem.ucMemMapPtr address size perms ptr = (.map, mem) := by
  simp [ucMemMapPtr, backed, taken]

theorem ucMemUnmap_full (full : mem.pages.full (pageSpan address size) = true) :
    mem.ucMemUnmap address size =
      (.ok, { mem with pages := mem.pages.remove (pageSpan address size) }) := by
  simp [ucMemUnmap, full]

theorem ucMemUnmap_hole (hole : mem.pages.full (pageSpan address size) = false) :
    mem.ucMemUnmap address size = (.nomem, mem) := by
  simp [ucMemUnmap, hole]

theorem ucMemProtect_full (full : mem.pages.full (pageSpan address size) = true) :
    mem.ucMemProtect address size perms =
      (.ok, { mem with pages := mem.pages.protect (pageSpan address size) perms }) := by
  simp [ucMemProtect, full]

theorem ucMemProtect_hole (hole : mem.pages.full (pageSpan address size) = false) :
    mem.ucMemProtect address size perms = (.nomem, mem) := by
  simp [ucMemProtect, hole]

@[simp] theorem storeByte_pages (mem : Memory) (address : Nat) (value : Byte) :
    (mem.storeByte address value).pages = mem.pages := by
  unfold storeByte
  split <;> rfl

@[simp] theorem ucMemWrite32_pages (mem : Memory) (address : Nat) (word : Word) :
    (mem.ucMemWrite32 address word).2.pages = mem.pages := by
  unfold ucMemWrite32
  split <;> simp

/-- Storing the byte already there changes nothing. -/
theorem storeByte_self {value : Byte} (held : mem.loadByte address = some value) :
    mem.storeByte address value = mem := by
  unfold loadByte at held
  unfold storeByte
  split at held
  · cases held
  · rename_i mapped
    have same := Option.some.inj held
    simp [← same]
  · rename_i mapped
    have same := Option.some.inj held
    simp [← same]

/-- Writing back the word just read changes nothing. -/
theorem ucMemWrite32_self {word : Word} (held : mem.ucMemRead32 address = some word) :
    mem.ucMemWrite32 address word = (.ok, mem) := by
  have readable : (mem.ucMemRead32 address).isSome = true := by simp [held]
  simp only [ucMemRead32, Option.bind_eq_bind, Option.bind_eq_some_iff, Option.pure_def,
    Option.some.injEq] at held
  obtain ⟨b0, byte0, b1, byte1, b2, byte2, b3, byte3, same⟩ := held
  obtain ⟨part0, part1, part2, part3⟩ := wordByte_wordOfBytes b0 b1 b2 b3
  subst word
  simp only [ucMemWrite32, readable, if_true, part0, part1, part2, part3]
  rw [storeByte_self byte0, storeByte_self byte1, storeByte_self byte2, storeByte_self byte3]

/-- Where nothing is mapped a write has no effect. -/
theorem ucMemWrite32_unmapped {word : Word} (missing : mem.ucMemRead32 address = none) :
    mem.ucMemWrite32 address word = (.writeUnmapped, mem) := by
  simp [ucMemWrite32, missing]

/-- Every byte readable in the first memory reads the same in the second. -/
def Extends (later earlier : Memory) : Prop :=
  ∀ address value, earlier.loadByte address = some value → later.loadByte address = some value

theorem Extends.refl (mem : Memory) : mem.Extends mem := fun _ _ held => held

theorem Extends.trans {first second third : Memory} (later : third.Extends second)
    (earlier : second.Extends first) : third.Extends first :=
  fun address value held => later address value (earlier address value held)

theorem Extends.read32 {later earlier : Memory} (extends_ : later.Extends earlier) {word : Word}
    (held : earlier.ucMemRead32 address = some word) :
    later.ucMemRead32 address = some word := by
  simp only [ucMemRead32, Option.bind_eq_bind, Option.bind_eq_some_iff, Option.pure_def,
    Option.some.injEq] at held ⊢
  obtain ⟨b0, byte0, b1, byte1, b2, byte2, b3, byte3, same⟩ := held
  exact ⟨b0, extends_ _ _ byte0, b1, extends_ _ _ byte1, b2, extends_ _ _ byte2, b3,
    extends_ _ _ byte3, same⟩

theorem loadByte_mapped {value : Byte} (held : mem.loadByte address = some value) :
    mem.pages (address / 0x1000) ≠ none := by
  intro missing
  simp [loadByte, missing] at held

theorem loadByte_congr {other : Memory} (backing : other.pages.backing (address / 0x1000) =
    mem.pages.backing (address / 0x1000)) (ram : other.ram address = mem.ram address)
    (host : other.host = mem.host) : other.loadByte address = mem.loadByte address := by
  unfold PageTable.backing at backing
  unfold loadByte
  cases before : mem.pages (address / 0x1000) with
  | none => simp_all
  | some old =>
    cases after : other.pages (address / 0x1000) with
    | none => simp_all
    | some new =>
      have same : new.backing = old.backing := by simpa [before, after] using backing
      obtain ⟨_, oldBacking⟩ := old
      obtain ⟨_, newBacking⟩ := new
      subst same
      cases newBacking <;> simp [ram, host]

/-- A memory that differs within a free span only keeps all that was mapped. -/
theorem extends_of_free {other : Memory} {span : Span} (free : mem.pages.free span = true)
    (outside : ∀ address, address / 0x1000 ∉ span → other.loadByte address = mem.loadByte address) :
    other.Extends mem := by
  intro address value held
  have apart : address / 0x1000 ∉ span := fun member =>
    loadByte_mapped held (PageTable.free_iff.mp free _ member)
  rw [outside address apart, held]

theorem ucMemMap_extends (mem : Memory) (address size : Nat) (perms : Prot) :
    (mem.ucMemMap address size perms).2.Extends mem := by
  cases free : mem.pages.free (pageSpan address size) with
  | false =>
    rw [ucMemMap_taken free]
    exact Extends.refl mem
  | true =>
    rw [ucMemMap_free free]
    refine extends_of_free free fun byte outside => ?_
    apply loadByte_congr <;> simp [PageTable.backing, outside]

theorem ucMemMapPtr_extends (mem : Memory) (address size : Nat) (perms : Prot) (ptr : HostPtr) :
    (mem.ucMemMapPtr address size perms ptr).2.Extends mem := by
  by_cases null : ptr = nullptr
  · simpa [ucMemMapPtr, null] using Extends.refl mem
  cases free : mem.pages.free (pageSpan address size) with
  | false =>
    rw [ucMemMapPtr_taken null free]
    exact Extends.refl mem
  | true =>
    rw [ucMemMapPtr_free null free]
    refine extends_of_free free fun byte outside => ?_
    apply loadByte_congr <;> simp [PageTable.backing, outside]

theorem protect_extends (mem : Memory) (span : Span) (perms : Prot) :
    ({ mem with pages := mem.pages.protect span perms } : Memory).Extends mem := by
  intro byte value held
  rw [← held]
  apply loadByte_congr <;> simp

end Memory

end ZeeboLle.Unicorn

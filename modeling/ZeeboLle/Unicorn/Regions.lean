import ZeeboLle.Paging.Segments
import ZeeboLle.Unicorn.Memory
import Mathlib.Data.List.Pairwise

/-! An engine as `uc_mem_regions` lists it. The page table of `Unicorn.Memory` forgets where one
mapping ends and the next begins; here the regions are the state. They never overlap, and a new
one goes in only where nothing is mapped. The host API copies bytes of ranges that are mapped
throughout and has no effect on others. -/
namespace ZeeboLle.Unicorn

open Paging

abbrev DoubleWord := BitVec 64

/-- `uc_mem_region`; both ends belong to the region. -/
structure UcMemRegion where
  begin : DoubleWord
  last : DoubleWord
  perms : Word
deriving DecidableEq, Repr

namespace UcMemRegion

variable {region other : UcMemRegion} {address : Nat}

/-- `end - begin + 1` in 64 bits. -/
def size (region : UcMemRegion) : DoubleWord := region.last - region.begin + 1

def Covers (region : UcMemRegion) (address : Nat) : Prop :=
  region.begin.toNat ≤ address ∧ address ≤ region.last.toNat

def Apart (region other : UcMemRegion) : Prop :=
  region.last.toNat < other.begin.toNat ∨ other.last.toNat < region.begin.toNat

def SameRange (region other : UcMemRegion) : Prop :=
  region.begin = other.begin ∧ region.last = other.last

instance (region : UcMemRegion) (address : Nat) : Decidable (region.Covers address) :=
  inferInstanceAs (Decidable (_ ∧ _))

instance (region other : UcMemRegion) : Decidable (region.Apart other) :=
  inferInstanceAs (Decidable (_ ∨ _))

instance (region other : UcMemRegion) : Decidable (region.SameRange other) :=
  inferInstanceAs (Decidable (_ ∧ _))

instance : Std.Symm Apart := ⟨fun _ _ => Or.symm⟩

theorem Apart.not_covers (apart : region.Apart other) (inside : region.Covers address) :
    ¬ other.Covers address := by
  rintro ⟨low, high⟩
  obtain ⟨from', upTo⟩ := inside
  rcases apart with before | after <;> omega

theorem SameRange.covers (same : region.SameRange other) (inside : other.Covers address) :
    region.Covers address := by
  rw [Covers, same.1, same.2]
  exact inside

/-- Regions of one range and one permission are one region. -/
theorem SameRange.ext (same : region.SameRange other) (perms : region.perms = other.perms) :
    region = other := by
  obtain ⟨begin, last, flags⟩ := region
  obtain ⟨rfl, rfl⟩ := same
  exact congrArg _ perms

/-- Short of the whole address space, the size is the number of addresses covered. -/
theorem toNat_size (ordered : region.begin ≤ region.last) (proper : region.size ≠ 0) :
    region.begin.toNat + region.size.toNat = region.last.toNat + 1 := by
  unfold size at proper ⊢
  bv_omega

theorem begin_add_size (region : UcMemRegion) : region.begin + region.size - 1 = region.last := by
  unfold size
  bv_omega

end UcMemRegion

/-- The regions of one engine. -/
structure MemoryMap where
  regions : List UcMemRegion
  ordered : ∀ region ∈ regions, region.begin ≤ region.last
  apart : regions.Pairwise UcMemRegion.Apart

namespace MemoryMap

variable {map : MemoryMap} {region : UcMemRegion} {address count : Nat}

@[ext] theorem ext {map other : MemoryMap} (same : map.regions = other.regions) : map = other := by
  cases map
  cases other
  cases same
  rfl

def empty : MemoryMap := ⟨[], by simp, List.Pairwise.nil⟩

def single (region : UcMemRegion) (ordered : region.begin ≤ region.last) : MemoryMap where
  regions := [region]
  ordered := by simpa using ordered
  apart := List.pairwise_singleton _ _

/-- Nothing of the region is mapped. -/
def Free (map : MemoryMap) (region : UcMemRegion) : Prop :=
  ∀ present ∈ map.regions, present.Apart region

/-- Every byte of the access is mapped. -/
def Backs (map : MemoryMap) (address count : Nat) : Prop :=
  ∀ index, index < count → ∃ region ∈ map.regions, region.Covers (address + index)

instance (map : MemoryMap) (region : UcMemRegion) : Decidable (map.Free region) :=
  inferInstanceAs (Decidable (∀ present ∈ map.regions, _))

instance (map : MemoryMap) (address count : Nat) : Decidable (map.Backs address count) :=
  inferInstanceAs (Decidable (∀ index, index < count → _))

def insert (map : MemoryMap) (region : UcMemRegion) (ordered : region.begin ≤ region.last)
    (free : map.Free region) : MemoryMap where
  regions := map.regions ++ [region]
  ordered := by
    intro present member
    rcases List.mem_append.mp member with old | new
    · exact map.ordered present old
    · rwa [List.mem_singleton.mp new]
  apart := by
    refine List.pairwise_append.mpr ⟨map.apart, List.pairwise_singleton _ _, ?_⟩
    intro present old added new
    rw [List.mem_singleton.mp new]
    exact free present old

/-- Two regions that share an address are one. -/
theorem eq_of_covers {first second : UcMemRegion} (mapped : first ∈ map.regions)
    (also : second ∈ map.regions) (inside : first.Covers address) (meets : second.Covers address) :
    first = second := by
  by_contra different
  have apart : first.Apart second :=
    map.apart.forall mapped also different
  exact apart.not_covers inside meets

theorem eq_of_sameRange {first second : UcMemRegion} (mapped : first ∈ map.regions)
    (also : second ∈ map.regions) (same : first.SameRange second) : first = second := by
  have ordered := map.ordered second also
  have meets : second.Covers second.begin.toNat := ⟨Nat.le_refl _, ordered⟩
  exact map.eq_of_covers mapped also (same.covers meets) meets

/-- An access inside one mapped region. -/
theorem backs_of_covers (mapped : region ∈ map.regions)
    (inside : ∀ index, index < count → region.Covers (address + index)) : map.Backs address count :=
  fun index below => ⟨region, mapped, inside index below⟩

end MemoryMap

namespace MemoryMap

variable {map : MemoryMap} {region other : UcMemRegion}

/-- The map with the region in it, unless something is in the way. -/
def withRegion (map : MemoryMap) (region : UcMemRegion) : MemoryMap :=
  if room : region.begin ≤ region.last ∧ map.Free region then map.insert region room.1 room.2 else map

/-- The region is absent, or present over the same range. -/
def Fits (map : MemoryMap) (region : UcMemRegion) : Prop :=
  map.Free region ∨ ∃ present ∈ map.regions, present.SameRange region

/-- What is mapped over the range of the region has its permissions. -/
def SamePerms (map : MemoryMap) (region : UcMemRegion) : Prop :=
  ∀ present ∈ map.regions, present.SameRange region → present.perms = region.perms

theorem regions_withRegion (map : MemoryMap) (region : UcMemRegion) :
    (map.withRegion region).regions = map.regions ∨
      (map.withRegion region).regions = map.regions ++ [region] := by
  unfold withRegion
  split
  · exact .inr rfl
  · exact .inl rfl

theorem mem_withRegion {present : UcMemRegion} (mapped : present ∈ map.regions) :
    present ∈ (map.withRegion region).regions := by
  rcases map.regions_withRegion region with same | added
  · rwa [same]
  · rw [added]
    exact List.mem_append_left _ mapped

theorem mem_of_mem_withRegion {present : UcMemRegion} (mapped : present ∈ (map.withRegion region).regions) :
    present ∈ map.regions ∨ present = region := by
  rcases map.regions_withRegion region with same | added
  · exact .inl (same ▸ mapped)
  · rw [added, List.mem_append, List.mem_singleton] at mapped
    exact mapped

theorem mem_withRegion_of_free (ordered : region.begin ≤ region.last) (free : map.Free region) :
    region ∈ (map.withRegion region).regions := by
  rw [withRegion, dif_pos ⟨ordered, free⟩]
  exact List.mem_append_right _ (List.mem_singleton_self _)

/-- Afterwards the range is mapped. -/
theorem Fits.exists_withRegion (fits : map.Fits region) (ordered : region.begin ≤ region.last) :
    ∃ present ∈ (map.withRegion region).regions, present.SameRange region := by
  rcases fits with free | ⟨present, mapped, same⟩
  · exact ⟨region, mem_withRegion_of_free ordered free, rfl, rfl⟩
  · exact ⟨present, mem_withRegion mapped, same⟩

/-- With the right permissions in place the region itself is mapped. -/
theorem Fits.mem_withRegion (fits : map.Fits region) (ordered : region.begin ≤ region.last)
    (perms : map.SamePerms region) : region ∈ (map.withRegion region).regions := by
  rcases fits with free | ⟨present, mapped, same⟩
  · exact mem_withRegion_of_free ordered free
  · rw [← same.ext (perms present mapped same)]
    exact MemoryMap.mem_withRegion mapped

theorem Fits.withRegion_apart (fits : map.Fits other) (apart : region.Apart other) :
    (map.withRegion region).Fits other := by
  rcases fits with free | ⟨present, mapped, same⟩
  · left
    intro present mapped
    rcases mem_of_mem_withRegion mapped with old | rfl
    · exact free present old
    · exact apart
  · exact .inr ⟨present, MemoryMap.mem_withRegion mapped, same⟩

theorem SamePerms.withRegion_apart (perms : map.SamePerms other) (ordered : other.begin ≤ other.last)
    (apart : region.Apart other) : (map.withRegion region).SamePerms other := by
  intro present mapped same
  rcases mem_of_mem_withRegion mapped with old | rfl
  · exact perms present old same
  · have meets : other.Covers other.begin.toNat := ⟨Nat.le_refl _, ordered⟩
    exact absurd meets (apart.not_covers (same.covers meets))

end MemoryMap

/-- What an engine is opened with: which arguments `uc_mem_map` takes at all, and which contexts
`uc_context_restore` takes. -/
structure UcConfig where
  takesMapping : DoubleWord → DoubleWord → Word → Bool
  takesContext : List Byte → Bool

/-- Ranges of whole pages with the three `UC_PROT_*` flags, and any context. -/
def UcConfig.arm : UcConfig where
  takesMapping address size perms := address.toNat % 0x1000 = 0 ∧ size.toNat % 0x1000 = 0 ∧ perms.toNat ≤ 7
  takesContext _ := true

/-- Registers and system state are the bytes `uc_context_save` gives. -/
structure UcEngine where
  config : UcConfig
  map : MemoryMap
  bytes : Nat → Byte
  context : List Byte

namespace UcEngine

/-- A null size and a range past the last address are refused with the other arguments. -/
def ucMemMap (uc : UcEngine) (address size : DoubleWord) (perms : Word) : UcErr × UcEngine :=
  let region : UcMemRegion := ⟨address, address + size - 1, perms⟩
  if region.begin ≤ region.last ∧ size ≠ 0 ∧ uc.config.takesMapping address size perms then
    if uc.map.Free region then
      (.ok, { uc with
        map := uc.map.withRegion region
        bytes := fun byte => if region.Covers byte then 0 else uc.bytes byte })
    else (.map, uc)
  else (.arg, uc)

def ucMemRead (uc : UcEngine) (address count : Nat) : Option (List Byte) :=
  if uc.map.Backs address count then some (segment uc.bytes address count) else none

def ucMemWrite (uc : UcEngine) (address : Nat) (data : List Byte) : UcErr × UcEngine :=
  if uc.map.Backs address data.length then (.ok, { uc with bytes := patch uc.bytes address data })
  else (.writeUnmapped, uc)

def ucContextSize (uc : UcEngine) : Nat := uc.context.length

def ucContextRestore (uc : UcEngine) (context : List Byte) : UcErr × UcEngine :=
  if uc.config.takesContext context then (.ok, { uc with context }) else (.arg, uc)

variable {uc : UcEngine} {region : UcMemRegion}

/-- A request with acceptable arguments puts the region into the map where there is room. Bytes
change inside the region alone. -/
theorem ucMemMap_proper (ordered : region.begin ≤ region.last) (proper : region.size ≠ 0)
    (takes : uc.config.takesMapping region.begin region.size region.perms = true) :
    ∃ error bytes, (error = .ok ∨ error = .map) ∧
      uc.ucMemMap region.begin region.size region.perms =
        (error, { uc with map := uc.map.withRegion region, bytes }) ∧
      ∀ byte, ¬ region.Covers byte → bytes byte = uc.bytes byte := by
  simp only [ucMemMap, region.begin_add_size]
  rw [if_pos ⟨ordered, proper, takes⟩]
  by_cases free : uc.map.Free region
  · rw [if_pos free]
    exact ⟨.ok, _, .inl rfl, rfl, fun byte outside => if_neg outside⟩
  · rw [if_neg free]
    refine ⟨.map, uc.bytes, .inr rfl, ?_, fun _ _ => rfl⟩
    rw [MemoryMap.withRegion, dif_neg fun room => free room.2]

end UcEngine

end ZeeboLle.Unicorn

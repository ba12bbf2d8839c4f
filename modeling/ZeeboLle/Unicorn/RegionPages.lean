import ZeeboLle.Unicorn.Regions
import ZeeboLle.Unicorn.View

/-! The two pictures of an engine. Forgetting where its regions begin and end leaves the page
table of `Unicorn.Memory`; mapping a region of whole pages and accessing mapped bytes come to the
same in both. -/
namespace ZeeboLle.Unicorn

open Paging

/-- `UC_PROT_READ`, `UC_PROT_WRITE` and `UC_PROT_EXEC`. -/
def Prot.ofPerms (perms : Word) : Prot := ⟨perms.getLsbD 0, perms.getLsbD 1, perms.getLsbD 2⟩

namespace UcMemRegion

variable {region other : UcMemRegion} {address : Nat}

/-- Whole pages. -/
structure Paged (region : UcMemRegion) : Prop where
  ordered : region.begin ≤ region.last
  first : region.begin.toNat % 0x1000 = 0
  last : (region.last.toNat + 1) % 0x1000 = 0

def span (region : UcMemRegion) : Span :=
  pageSpan region.begin.toNat (region.last.toNat + 1 - region.begin.toNat)

theorem Paged.mem_span_iff (paged : region.Paged) :
    address / 0x1000 ∈ region.span ↔ region.Covers address := by
  have ordered := BitVec.le_def.mp paged.ordered
  have first := paged.first
  have last := paged.last
  rw [span, pageSpan, Span.mem_iff, Covers]
  dsimp only
  omega

/-- Regions of whole pages are apart when their pages are. -/
theorem Paged.disjoint_iff (paged : region.Paged) (also : other.Paged) :
    region.span.Disjoint other.span ↔ region.Apart other := by
  have ordered := BitVec.le_def.mp paged.ordered
  have ordered' := BitVec.le_def.mp also.ordered
  have first := paged.first
  have first' := also.first
  have last := paged.last
  have last' := also.last
  rw [Span.disjoint_iff, span, span, pageSpan, pageSpan, Apart]
  dsimp only
  omega

end UcMemRegion

namespace MemoryMap

variable {map : MemoryMap} {region : UcMemRegion} {address : Nat}

def Paged (map : MemoryMap) : Prop := ∀ region ∈ map.regions, region.Paged

/-- Nothing is mapped beyond the guest's address space. -/
def Low (map : MemoryMap) : Prop := ∀ region ∈ map.regions, region.last.toNat < 0x100000000

def pages (map : MemoryMap) : PageTable Prot Backing := fun page =>
  (map.regions.find? fun region => page ∈ region.span).map fun region => ⟨.ofPerms region.perms, .ram⟩

theorem pages_eq_none_iff {page : Nat} :
    map.pages page = none ↔ ∀ present ∈ map.regions, page ∉ present.span := by
  simp [pages]

/-- A free range is a free span. -/
theorem Paged.free_iff (paged : map.Paged) (whole : region.Paged) :
    map.pages.free region.span = true ↔ map.Free region := by
  rw [PageTable.free_iff]
  constructor
  · intro free present mapped
    apply ((paged present mapped).disjoint_iff whole).mp
    intro page inPresent inRegion
    exact pages_eq_none_iff.mp (free page inRegion) present mapped inPresent
  · intro free page inRegion
    apply pages_eq_none_iff.mpr
    intro present mapped inPresent
    exact ((paged present mapped).disjoint_iff whole).mpr (free present mapped) page inPresent inRegion

/-- Adding a region installs its pages. -/
theorem pages_withRegion (ordered : region.begin ≤ region.last) (free : map.Free region)
    (apart : map.pages.free region.span = true) :
    (map.withRegion region).pages =
      map.pages.install region.span fun _ => ⟨.ofPerms region.perms, .ram⟩ := by
  have regions : (map.withRegion region).regions = map.regions ++ [region] := by
    rw [withRegion, dif_pos ⟨ordered, free⟩]
    rfl
  funext page
  rw [pages, regions, List.find?_append]
  by_cases inside : page ∈ region.span
  · have missing : map.regions.find? (fun present => page ∈ present.span) = none := by
      simpa [pages] using PageTable.free_iff.mp apart page inside
    rw [PageTable.install_of_mem inside, missing]
    simp [inside]
  · rw [PageTable.install_of_not_mem inside, pages]
    simp [inside]

end MemoryMap

namespace UcEngine

variable {uc : UcEngine} {region : UcMemRegion} {address : Nat}

/-- The engine as a page table. -/
def memory (uc : UcEngine) : Memory := ⟨uc.map.pages, uc.bytes, fun _ => 0⟩

/-- Mapping whole pages. -/
theorem memory_ucMemMap (paged : uc.map.Paged) (whole : region.Paged) (proper : region.size ≠ 0)
    (takes : uc.config.takesMapping region.begin region.size region.perms = true) :
    (uc.ucMemMap region.begin region.size region.perms).1 =
        (uc.memory.ucMemMap region.begin.toNat region.size.toNat (.ofPerms region.perms)).1 ∧
      (uc.ucMemMap region.begin region.size region.perms).2.memory =
        (uc.memory.ucMemMap region.begin.toNat region.size.toNat (.ofPerms region.perms)).2 := by
  have size : region.size.toNat = region.last.toNat + 1 - region.begin.toNat := by
    have total := region.toNat_size whole.ordered proper
    omega
  have span : pageSpan region.begin.toNat region.size.toNat = region.span := by rw [size, UcMemRegion.span]
  simp only [ucMemMap, region.begin_add_size, Memory.ucMemMap, span]
  rw [if_pos ⟨whole.ordered, proper, takes⟩]
  by_cases free : uc.map.Free region
  · have apart := (paged.free_iff whole).mpr free
    have vacant : uc.memory.pages.free region.span = true := apart
    rw [if_pos free, if_pos vacant]
    refine ⟨rfl, ?_⟩
    simp only [memory, MemoryMap.pages_withRegion whole.ordered free apart, whole.mem_span_iff]
  · have taken : ¬ uc.memory.pages.free region.span = true := fun vacant =>
      free ((paged.free_iff whole).mp vacant)
    rw [if_neg free, if_neg taken]
    exact ⟨rfl, rfl⟩

/-- A byte is mapped in a region when its page is in the table. -/
theorem memory_cell (paged : uc.map.Paged) (low : uc.map.Low) :
    (uc.memory.cell address).isSome = true ↔ ∃ region ∈ uc.map.regions, region.Covers address := by
  have page : (uc.map.pages (address / 0x1000)).isSome = true ↔
      ∃ region ∈ uc.map.regions, address / 0x1000 ∈ region.span := by
    simp [MemoryMap.pages]
  have covers : (∃ region ∈ uc.map.regions, address / 0x1000 ∈ region.span) ↔
      ∃ region ∈ uc.map.regions, region.Covers address :=
    exists_congr fun region => and_congr_right fun mapped => (paged region mapped).mem_span_iff
  rw [Memory.isSome_cell, ← covers, ← page]
  refine and_iff_right_of_imp fun mapped => ?_
  obtain ⟨region, member, inside⟩ := covers.mp (page.mp mapped)
  exact Nat.lt_of_le_of_lt inside.2 (low region member)

theorem memory_backed (paged : uc.map.Paged) (low : uc.map.Low) {count : Nat} :
    uc.memory.backed address count = true ↔ uc.map.Backs address count :=
  Memory.backed_iff.trans (forall₂_congr fun _ _ => memory_cell paged low)

/-- The mapped bytes are those of the page table. -/
theorem memory_sees (paged : uc.map.Paged) (low : uc.map.Low) :
    uc.memory.Sees (fun address => ∃ region ∈ uc.map.regions, region.Covers address) uc.bytes := by
  have cells : ∀ address, (∃ region ∈ uc.map.regions, region.Covers address) →
      uc.memory.cell address = some (.ram address) := by
    intro address inside
    obtain ⟨below, mapped⟩ := Memory.isSome_cell.mp ((memory_cell paged low).mpr inside)
    obtain ⟨page, found⟩ := Option.isSome_iff_exists.mp mapped
    obtain ⟨owner, -, rfl⟩ := Option.map_eq_some_iff.mp found
    rw [Memory.cell, if_pos below, found]
    rfl
  refine ⟨Memory.owns_ram cells, fun address inside => ?_⟩
  rw [Memory.byteAt_of_cell (cells address inside)]
  rfl

/-- Reads and writes of the host API succeed alike in both pictures and find the same bytes. -/
theorem memory_access (paged : uc.map.Paged) (low : uc.map.Low) (count : Nat) (data : List Byte) :
    uc.ucMemRead address count = uc.memory.ucMemRead address count ∧
      (uc.ucMemWrite address data).1 = (uc.memory.ucMemWrite address data).1 ∧
      (uc.memory.ucMemWrite address data).2.Sees
        (fun address => ∃ region ∈ uc.map.regions, region.Covers address)
        (uc.ucMemWrite address data).2.bytes := by
  have sees := memory_sees paged low
  refine ⟨?_, ?_⟩
  · by_cases backs : uc.map.Backs address count
    · rw [ucMemRead, if_pos backs, sees.ucMemRead address count backs]
    · have refused : ¬ uc.memory.backed address count = true := fun backed =>
        backs ((memory_backed paged low).mp backed)
      rw [ucMemRead, if_neg backs, Memory.ucMemRead, if_neg refused]
  · by_cases backs : uc.map.Backs address data.length
    · have written := sees.ucMemWrite address data backs
      have taken := (memory_backed paged low).mpr backs
      rw [ucMemWrite, if_pos backs]
      exact ⟨by rw [Memory.ucMemWrite, if_pos taken], written⟩
    · have refused : ¬ uc.memory.backed address data.length = true := fun backed =>
        backs ((memory_backed paged low).mp backed)
      rw [ucMemWrite, if_neg backs, Memory.ucMemWrite, if_neg refused]
      exact ⟨rfl, sees⟩

end UcEngine

end ZeeboLle.Unicorn

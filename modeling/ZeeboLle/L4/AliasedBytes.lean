import ZeeboLle.L4.MapControl
import ZeeboLle.Unicorn.Cells

/-! Which physical byte an aliased mapping gives a guest address. The virtual side is rounded down
to a page before the pointer of the physical base is bound to it. -/
namespace ZeeboLle.L4

open Paging Unicorn

/-- The call gets as far as `uc_mem_map_ptr`, and the engine adopts the pointer. -/
def Adopted (mem : Memory) (item : MapItem) (pool : PhysPool) : Prop :=
  ∃ extent, item.fpage.extent = some extent ∧ pool.hostOf item.phys.physBase ≠ nullptr ∧
    pool.contains item.phys.physBase extent.size = true ∧
    (mem.ucMemMapPtr extent.va extent.size
      (if fpageToUcProt item.fpage == Prot.none then Prot.readOnly else fpageToUcProt item.fpage)
      (pool.hostOf item.phys.physBase)).1 = .ok

/-- Every address of the item's range resolves to its own byte of the pool, both ways. -/
def Exact (item : MapItem) (pool : PhysPool) (mem : Memory) (lut : VtlbLut) : Prop :=
  ∀ a, item.fpage.vaddr ≤ a → a < min (item.fpage.vaddr + item.fpage.sizeBytes) 0x100000000 →
    pool.hostOf (item.phys.physBase + (a - item.fpage.vaddr)) ≠ nullptr ∧
    lut.translate a = pool.hostOf (item.phys.physBase + (a - item.fpage.vaddr)) ∧
    mem.cell a = some (.host (pool.hostOf (item.phys.physBase + (a - item.fpage.vaddr))))

section Aliased

variable {mem : Memory} {item : MapItem} {pool : PhysPool} {extent : Extent}

theorem hostOf_eq {phys : Nat} (found : pool.hostOf phys ≠ nullptr) :
    pool.hostOf phys = pool.host + (phys - pool.physBase) ∧ pool.host ≠ nullptr ∧
      pool.physBase ≤ phys ∧ phys < pool.physBase + pool.size := by
  unfold PhysPool.hostOf at found ⊢
  split
  · rename_i outside
    exact absurd (if_pos outside) found
  · rename_i inside
    exact ⟨rfl, fun null => inside (.inl null), by omega, by omega⟩

theorem hostOf_inside (phys : Nat) (host : pool.host ≠ nullptr) (above : pool.physBase ≤ phys)
    (below : phys < pool.physBase + pool.size) : pool.hostOf phys = pool.host + (phys - pool.physBase) := by
  rw [PhysPool.hostOf, if_neg]
  rintro (null | before | beyond)
  · exact host null
  · omega
  · omega

/-- A mapped address resolves to its distance from the start of the first page, through the table
and through the engine. -/
theorem mapped_at (mem : Memory) (lut : VtlbLut) {host : Nat} (bound : host ≠ 0) (prot : Prot)
    {a : Nat} (low : a < 0x100000000) (start : extent.va ≤ a) (within : a < extent.va + extent.size) :
    (lut.map extent.va extent.size host).translate a = host + (a - extent.va) ∧
      ({ mem with pages := mem.pages.install extent.span (Memory.hostPages extent.va prot host) } :
        Memory).cell a = some (.host (host + (a - extent.va))) := by
  have aligned := extent.aligned
  have whole := extent.whole
  constructor
  · have reached : extent.va % 0x100000000 / 0x1000 ≤ a % 0x100000000 / 0x1000 ∧
        a % 0x100000000 / 0x1000 < extent.va % 0x100000000 / 0x1000 + (extent.size + 0xfff) / 0x1000 ∧
        a % 0x100000000 / 0x1000 < 0x100000 := by omega
    simp only [VtlbLut.translate, VtlbLut.map, if_pos reached]
    have entry : host + (a % 0x100000000 / 0x1000 - extent.va % 0x100000000 / 0x1000) * 0x1000 ≠ 0 := by
      omega
    rw [if_pos entry]
    show host + _ + _ = host + _
    omega
  · have inside : a / 0x1000 ∈ extent.span := by
      simp only [Extent.span, pageSpan, Span.mem_iff]
      omega
    simp only [Memory.cell, if_pos low, PageTable.install_of_mem inside, Option.map_some,
      Memory.hostPages, Option.some.injEq, Cell.host.injEq]
    show host + _ + _ = host + _
    omega

/-- The pages of an item hold its range below 4 GiB. -/
theorem extent_holds (range : item.fpage.extent = some extent) {a : Nat} (start : item.fpage.vaddr ≤ a)
    (within : a < min (item.fpage.vaddr + item.fpage.sizeBytes) 0x100000000) :
    extent.va = roundDown item.fpage.vaddr ∧ extent.va ≤ a ∧ a < extent.va + extent.size := by
  have first := (clampRange_va range).1
  have aligned := extent.aligned
  have whole := extent.whole
  have inside := (mem_clampRange range item.fpage.sizeBytes_pos item.fpage.extent_bounded (a / 0x1000)).2
    ⟨by omega, by omega, by omega⟩
  simp only [Extent.span, pageSpan, Span.mem_iff] at inside
  rw [first] at inside ⊢
  have rounded : roundDown item.fpage.vaddr ≤ item.fpage.vaddr := Nat.sub_le _ _
  refine ⟨rfl, by omega, ?_⟩
  rw [first] at aligned
  omega

/-- Where the pointer is adopted, the pages and the table get it, and that is all. -/
theorem Adopted.after (lut : VtlbLut) (adopted : Adopted mem item pool) (small : 10 ≤ item.fpage.sizeLog2)
    (large : item.fpage.sizeLog2 ≤ 31) :
    ∃ extent, item.fpage.extent = some extent ∧ pool.hostOf item.phys.physBase ≠ nullptr ∧
      pool.contains item.phys.physBase extent.size = true ∧
      mapOneAliased mem item pool (some lut) = (.ok, { mem with
        pages := mem.pages.install extent.span (Memory.hostPages extent.va
          (fpageToUcProt item.fpage) (pool.hostOf item.phys.physBase)) },
        some (lut.map extent.va extent.size (pool.hostOf item.phys.physBase))) := by
  obtain ⟨extent, range, bound, held, done⟩ := adopted
  have ordinary : item.fpage.isOrdinary = true := by
    have sized : item.fpage.raw ≠ 0 := by
      intro zero
      rw [Fpage.sizeLog2, zero] at small
      exact absurd small (by decide)
    simp only [Fpage.isOrdinary, Fpage.isNil, Fpage.isWholeSpace, beq_eq_false_iff_ne.2 sized]
    simp
    omega
  have free : mem.pages.free extent.span = true := by
    by_contra taken
    rw [Memory.ucMemMapPtr_taken bound (Bool.not_eq_true _ ▸ taken)] at done
    cases done
  refine ⟨extent, range, bound, held, ?_⟩
  exact mapOneAliased_free ordinary range (by simp [bound, held]) free

/-- Every address of the range resolves to its own physical byte exactly if the range starts at a
page. -/
theorem aliased_exact_iff {lut : VtlbLut} (small : 10 ≤ item.fpage.sizeLog2) (large : item.fpage.sizeLog2 ≤ 31)
    (adopted : Adopted mem item pool) :
    ∃ mem' lut', mapOneAliased mem item pool (some lut) = (.ok, mem', some lut') ∧
      (Exact item pool mem' lut' ↔ item.fpage.vaddr % 0x1000 = 0) := by
  obtain ⟨extent, range, bound, held, done⟩ := adopted.after lut small large
  obtain ⟨first, host, above, _⟩ := hostOf_eq bound
  have positive := item.fpage.sizeBytes_pos
  have low := item.fpage.vaddr_lt
  refine ⟨_, _, done, fun exact => ?_, fun aligned a start within => ?_⟩
  · have within : item.fpage.vaddr < min (item.fpage.vaddr + item.fpage.sizeBytes) 0x100000000 := by
      omega
    obtain ⟨rounded, before, inside⟩ := extent_holds range (Nat.le_refl _) within
    obtain ⟨_, found, _⟩ := exact _ (Nat.le_refl _) within
    rw [(mapped_at mem lut bound .none low before inside).1, Nat.sub_self, Nat.add_zero] at found
    have shift : item.fpage.vaddr - extent.va = 0 := Nat.add_left_cancel (found.trans (Nat.add_zero _).symm)
    rw [rounded, roundDown] at shift
    omega
  · obtain ⟨rounded, before, inside⟩ := extent_holds range start within
    have same : extent.va = item.fpage.vaddr := by
      rw [rounded, roundDown, aligned, Nat.sub_zero]
    obtain ⟨table, engine⟩ := mapped_at mem lut bound (fpageToUcProt item.fpage) (by omega) before inside
    have room : item.phys.physBase + extent.size ≤ pool.physBase + pool.size := by
      simp only [PhysPool.contains, Bool.and_eq_true, decide_eq_true_eq] at held
      exact held.2
    have own := hostOf_inside (item.phys.physBase + (a - item.fpage.vaddr)) host (by omega) (by omega)
    have shift : pool.hostOf item.phys.physBase + (a - extent.va) =
        pool.hostOf (item.phys.physBase + (a - item.fpage.vaddr)) := by
      have parts : item.phys.physBase - pool.physBase + (a - item.fpage.vaddr) =
          item.phys.physBase + (a - item.fpage.vaddr) - pool.physBase := by omega
      rw [own, first, same, Nat.add_assoc, parts]
    rw [shift] at table engine
    refine ⟨?_, table, engine⟩
    rw [own]
    have positive : 0 < pool.host := Nat.pos_of_ne_zero host
    exact Nat.ne_of_gt (Nat.lt_add_right _ positive)

end Aliased

/-- A pool of one page. -/
def pagePool : PhysPool := ⟨0x10000000, 0x1000, 0x7f000000⟩

/-- The page of the pool at a virtual page. -/
def pageItem : MapItem := ⟨⟨0x10000000⟩, ⟨0x50000c7⟩⟩

theorem pageItem_adopted : Adopted .blank pageItem pagePool := by
  exact ⟨⟨0x5000000, 0x1000, rfl, rfl, by decide⟩, by decide +kernel, by decide, by decide, by decide⟩

theorem aliased_exact_page :
    ∃ mem' lut', mapOneAliased .blank pageItem pagePool (some .empty) = (.ok, mem', some lut') ∧
      (Exact pageItem pagePool mem' lut' ↔ pageItem.fpage.vaddr % 0x1000 = 0) :=
  aliased_exact_iff (by decide) (by decide) pageItem_adopted

/-- One KiB in the middle of a page resolves to what lies one KiB on. -/
theorem aliased_shifted :
    ∃ mem' lut', mapOneAliased .blank ⟨⟨0x10000000⟩, ⟨0x4a7⟩⟩ ⟨0x10000000, 0x1000, 0x7f000000⟩
        (some .empty) = (.ok, mem', some lut') ∧
      lut'.translate 0x400 = 0x7f000400 ∧ mem'.cell 0x400 = some (.host 0x7f000400) ∧
      ¬Exact ⟨⟨0x10000000⟩, ⟨0x4a7⟩⟩ ⟨0x10000000, 0x1000, 0x7f000000⟩ mem' lut' := by
  refine ⟨_, _, rfl, by decide, by decide, fun exact => ?_⟩
  exact absurd (exact 0x400 (by decide) (by decide)).2.1 (by decide)

end ZeeboLle.L4

import ZeeboLle.Paging.Bytes
import ZeeboLle.Unicorn.Memory

/-! Engine memory as a store of cells. A guest address resolves through the page table to a
byte of engine RAM or of host memory; two pages bound to one host buffer share cells. The
engine has a 32-bit address space: nothing resolves past its end. -/
namespace ZeeboLle.Unicorn

open Paging

inductive Cell where
  | ram (address : Nat)
  | host (ptr : HostPtr)
deriving DecidableEq, Repr

namespace Memory

def cell (mem : Memory) (address : Nat) : Option Cell :=
  if address < 0x100000000 then
    (mem.pages (address / 0x1000)).map fun page =>
      match page.backing with
      | .ram => .ram address
      | .host ptr => .host (ptr + address % 0x1000)
  else none

def contents (mem : Memory) : Cell → Byte
  | .ram address => mem.ram address
  | .host ptr => mem.host ptr

def withContents (mem : Memory) (contents : Cell → Byte) : Memory :=
  { mem with ram := fun address => contents (.ram address), host := fun ptr => contents (.host ptr) }

/-- The byte behind an address; zero where nothing is mapped. -/
def byteAt (mem : Memory) (address : Nat) : Byte :=
  match mem.cell address with
  | none => 0
  | some cell => mem.contents cell

/-- The cells of an access up to the first unmapped byte. -/
def cells (mem : Memory) (address count : Nat) : List Cell := reach mem.cell address count

/-- The whole access is mapped. -/
def backed (mem : Memory) (address count : Nat) : Bool := (mem.cells address count).length = count

/-- `uc_mem_read`; the whole access must be mapped. -/
def ucMemRead (mem : Memory) (address count : Nat) : Option (List Byte) :=
  if mem.backed address count then some ((mem.cells address count).map mem.contents) else none

/-- `uc_mem_write`; without effect unless the whole access is mapped. -/
def ucMemWrite (mem : Memory) (address : Nat) (bytes : List Byte) : UcErr × Memory :=
  if mem.backed address bytes.length then
    (.ok, mem.withContents (writeAll mem.contents ((mem.cells address bytes.length).zip bytes)))
  else (.writeUnmapped, mem)

/-- `uc_mem_map` of the page that holds an address. -/
def mapPage (mem : Memory) (address : Nat) : UcErr × Memory :=
  mem.ucMemMap (address / 0x1000 * 0x1000) 0x1000 .all

variable {mem : Memory} {address count : Nat}

@[simp] theorem contents_withContents (mem : Memory) (contents : Cell → Byte) :
    (mem.withContents contents).contents = contents := by
  funext cell
  cases cell <;> rfl

@[simp] theorem withContents_contents (mem : Memory) : mem.withContents mem.contents = mem := rfl

@[simp] theorem cell_withContents (mem : Memory) (contents : Cell → Byte) :
    (mem.withContents contents).cell = mem.cell := rfl

@[simp] theorem cells_withContents (mem : Memory) (contents : Cell → Byte) (address count : Nat) :
    (mem.withContents contents).cells address count = mem.cells address count := rfl

@[simp] theorem backed_withContents (mem : Memory) (contents : Cell → Byte)
    (address count : Nat) :
    (mem.withContents contents).backed address count = mem.backed address count := rfl

/-- Writes to host cells are writes to host memory. -/
theorem withContents_host (mem : Memory) (writes : List (HostPtr × Byte)) :
    mem.withContents (writeAll mem.contents (writes.map (Prod.map Cell.host id))) =
      { mem with host := writeAll mem.host writes } := by
  induction writes generalizing mem with
  | nil => rfl
  | cons write writes ih =>
    let stored : Memory := { mem with host := Function.update mem.host write.1 write.2 }
    have contents : stored.contents = Function.update mem.contents (.host write.1) write.2 := by
      funext cell
      cases cell with
      | ram address => simp [stored, Memory.contents]
      | host ptr => simp [stored, Memory.contents, Function.update]
    have later := ih stored
    rw [contents] at later
    exact later

theorem backed_iff : mem.backed address count = true ↔
    ∀ index, index < count → (mem.cell (address + index)).isSome = true := by
  rw [backed, decide_eq_true_eq]
  exact reach_full_iff

theorem isSome_cell : (mem.cell address).isSome = true ↔
    address < 0x100000000 ∧ (mem.pages (address / 0x1000)).isSome = true := by
  unfold cell
  split
  · rename_i inside
    simp [inside]
  · rename_i outside
    simp [outside]

/-- Engine RAM is never shared. -/
theorem cell_ram {byte : Nat} (found : mem.cell address = some (.ram byte)) : byte = address := by
  unfold cell at found
  split at found
  · obtain ⟨page, _, same⟩ := Option.map_eq_some_iff.mp found
    split at same
    · exact (Cell.ram.inj same).symm
    · cases same
  · cases found

theorem mem_pageSpan_page {page : Nat} :
    page ∈ pageSpan (address / 0x1000 * 0x1000) 0x1000 ↔ page = address / 0x1000 := by
  rw [Span.mem_iff]
  dsimp only [pageSpan]
  omega

theorem mapPage_taken (taken : (mem.pages (address / 0x1000)).isSome = true) :
    (mem.mapPage address).2 = mem := by
  rw [mapPage, ucMemMap_taken]
  by_contra free
  rw [Bool.not_eq_false] at free
  have missing := PageTable.free_iff.mp free _ (mem_pageSpan_page.mpr rfl)
  rw [missing] at taken
  cases taken

theorem mapPage_missing (missing : mem.pages (address / 0x1000) = none) :
    (mem.mapPage address).2 = { mem with
      pages := fun page => if page = address / 0x1000 then some ⟨.all, .ram⟩ else mem.pages page
      ram := fun byte => if byte / 0x1000 = address / 0x1000 then 0 else mem.ram byte } := by
  have free : mem.pages.free (pageSpan (address / 0x1000 * 0x1000) 0x1000) = true := by
    refine PageTable.free_iff.mpr fun page member => ?_
    rw [mem_pageSpan_page.mp member]
    exact missing
  have table : (mem.pages.install (pageSpan (address / 0x1000 * 0x1000) 0x1000) fun _ =>
      ⟨Prot.all, Backing.ram⟩) =
        fun page => if page = address / 0x1000 then some ⟨.all, .ram⟩ else mem.pages page := by
    apply PageTable.ext
    intro page
    simp only [PageTable.install, mem_pageSpan_page]
  rw [mapPage, ucMemMap_free free, table]
  simp only [mem_pageSpan_page]

/-- After mapping, a byte resolves as before or lies in the new page. -/
theorem cell_mapPage (missing : mem.pages (address / 0x1000) = none) (byte : Nat) :
    (mem.mapPage address).2.cell byte =
      if byte / 0x1000 = address / 0x1000 ∧ byte < 0x100000000 then some (.ram byte)
      else mem.cell byte := by
  rw [mapPage_missing missing]
  by_cases inside : byte < 0x100000000
  · by_cases same : byte / 0x1000 = address / 0x1000
    · simp [cell, inside, same]
    · simp [cell, inside, same]
  · simp [cell, inside]

/-- A page mapped on demand reads as zero, like the missing one. -/
theorem byteAt_mapPage (mem : Memory) (address byte : Nat) :
    (mem.mapPage address).2.byteAt byte = mem.byteAt byte := by
  cases page : mem.pages (address / 0x1000) with
  | some taken => rw [mapPage_taken (by rw [page]; rfl)]
  | none =>
    rw [byteAt, byteAt, cell_mapPage page]
    by_cases fresh : byte / 0x1000 = address / 0x1000 ∧ byte < 0x100000000
    · have before : mem.cell byte = none := by simp [cell, fresh.1, page]
      rw [if_pos fresh, before, mapPage_missing page]
      simp [contents, fresh.1]
    · rw [if_neg fresh, mapPage_missing page]
      cases found : mem.cell byte with
      | none => rfl
      | some cell =>
        cases cell with
        | host ptr => rfl
        | ram old =>
          have same := cell_ram found
          subst same
          have inside := (isSome_cell.mp (by rw [found]; rfl)).1
          have other : old / 0x1000 ≠ address / 0x1000 := fun same => fresh ⟨same, inside⟩
          simp [contents, other]

end Memory

end ZeeboLle.Unicorn

import ZeeboLle.System.BackendReads

/-! What the recompiler's accesses see and change outside the device windows. A byte load
takes its value from one cell, of the lookup table or of the engine; a write of the bridge
writes the cells of its access once, however many of its two sides take it. -/
namespace ZeeboLle.System

open Paging Unicorn L4 Device

namespace Fabric

variable {fabric after : Fabric} {size : Nat} {addr : Word}

def offset (addr : Word) (index : Nat) : Word := addr + BitVec.ofNat 32 index

/-- The cell a byte load takes its value from. -/
def source (fabric : Fabric) (addr : Word) : Option Cell :=
  if isRegister addr then none
  else
    match fabric.vtlb.find addr.toNat with
    | some cell => some cell
    | none => if isCore0Peripheral addr then none else fabric.core0.cell addr.toNat

/-- The table or the engine has the whole access. -/
def covered (fabric : Fabric) (size : Nat) (addr : Word) : Bool :=
  fabric.vtlb.covers addr.toNat size || fabric.core0.backed addr.toNat size

/-- No byte of the access is read through another address as well. Engine RAM never is. -/
def Unshared (fabric : Fabric) (addr : Word) (count : Nat) : Prop :=
  ∀ index, index < count → ∀ ptr, fabric.source (offset addr index) = some (.host ptr) →
    ∀ other, fabric.source other = some (.host ptr) → other = offset addr index

def view (fabric : Fabric) (addr : Word) : Byte :=
  match fabric.source addr with
  | none => 0
  | some cell => fabric.core0.contents cell

theorem toNat_offset (addr : Word) (index : Nat) : (offset addr index).toNat = guestByte addr index := by
  rw [offset, BitVec.toNat_add, BitVec.toNat_ofNat, guestByte]
  omega

theorem plain_not_register (plain : isCore0Peripheral addr = false) : isRegister addr = false := by
  by_contra register
  rw [register_peripheral (by simpa using register)] at plain
  cases plain

theorem source_plain (agrees : fabric.vtlb.Agrees fabric.core0)
    (plain : isCore0Peripheral addr = false) : fabric.source addr = fabric.core0.cell addr.toNat := by
  rw [source, plain_not_register plain, if_neg Bool.false_ne_true]
  cases found : fabric.vtlb.find addr.toNat with
  | some cell => exact (agrees.cell addr.isLt found).symm
  | none => simp [plain]

theorem view_plain (agrees : fabric.vtlb.Agrees fabric.core0)
    (plain : isCore0Peripheral addr = false) : fabric.view addr = fabric.core0.byteAt addr.toNat := by
  rw [view, source_plain agrees plain]
  rfl

/-- Engine RAM is read through its own address only. -/
theorem source_ram {byte : Nat} (found : fabric.source addr = some (.ram byte)) :
    byte = addr.toNat := by
  unfold source at found
  split at found
  · cases found
  · split at found
    · rename_i cell entry
      unfold VtlbLut.find at entry
      split at entry
      · cases entry
      · rw [← Option.some.inj entry] at found
        cases found
    · split at found
      · cases found
      · exact Memory.cell_ram found

theorem listed_one (fabric : Fabric) (addr : Word) :
    fabric.listed 1 addr = [match fabric.vtlb.find addr.toNat with
      | none => 0
      | some cell => fabric.core0.contents cell] := by
  rw [listed, VtlbLut.read, VtlbLut.find]
  split
  · rfl
  · rfl

theorem memoryRead_view (readable : isRegister addr = false) :
    (memoryRead 1 fabric addr).1 = (fabric.view addr).toNat := by
  have one : ∀ byte : Byte, leValue [byte] = byte.toNat := fun byte => by simp [leValue]
  cases peripheral : isCore0Peripheral addr with
  | true =>
    rw [memoryRead_neutral (.inl rfl) peripheral readable, listed_one, one, view, source, readable,
      if_neg Bool.false_ne_true]
    cases fabric.vtlb.find addr.toNat with
    | none => simp [peripheral]
    | some cell => rfl
  | false =>
    rw [memoryRead_plain peripheral, listed_one, view, source, readable, if_neg Bool.false_ne_true]
    cases found : fabric.vtlb.find addr.toNat with
    | some cell =>
      have covers : fabric.vtlb.covers addr.toNat 1 = true := by
        simp [VtlbLut.covers, VtlbLut.cells, reach, found]
      rw [if_neg (by simp [covers])]
      exact one _
    | none =>
      have covers : fabric.vtlb.covers addr.toNat 1 = false := by
        simp [VtlbLut.covers, VtlbLut.cells, reach, found]
      cases cell : fabric.core0.cell addr.toNat with
      | none =>
        have backed : fabric.core0.backed addr.toNat 1 = false := by
          simp [Memory.backed, Memory.cells, reach, cell]
        rw [if_neg (by simp [backed])]
        simp [peripheral, one]
      | some cell' =>
        have backed : fabric.core0.backed addr.toNat 1 = true := by
          simp [Memory.backed, Memory.cells, reach, cell]
        rw [if_pos ⟨covers, backed⟩]
        simp [peripheral, Memory.cells, reach, cell, one]

/-- A register reads alike as long as the devices do. -/
theorem memoryRead_devices (register : isRegister addr = true)
    (same : after.devices = fabric.devices) :
    (memoryRead 1 after addr).1 = (memoryRead 1 fabric addr).1 := by
  have found := readRegister_isSome fabric.devices addr
  rw [register] at found
  obtain ⟨value, read⟩ := Option.isSome_iff_exists.mp found
  have whole : fabric.devices.readRegister addr = (some value, (fabric.devices.readRegister addr).2) :=
    Prod.ext read rfl
  have later : after.devices.readRegister addr = (some value, (fabric.devices.readRegister addr).2) := by
    rw [same, ← whole]
  rw [memoryRead_register (.inl rfl) whole, memoryRead_register (.inl rfl) later]

/-- A load of several bytes sees what byte loads see, where one side has it all. -/
theorem memoryRead_covered_views (agrees : fabric.vtlb.Agrees fabric.core0) (positive : 0 < size)
    (plain : ∀ index, index < size → isCore0Peripheral (offset addr index) = false)
    (covered : fabric.covered size addr = true) :
    (memoryRead size fabric addr).1 =
      leValue ((List.range size).map fun index => fabric.view (offset addr index)) := by
  have first : offset addr 0 = addr := by simp [offset]
  have here := plain 0 positive
  rw [first] at here
  have either : fabric.core0.backed addr.toNat size = true ∨
      fabric.vtlb.covers addr.toNat size = true := by
    rw [Fabric.covered, Bool.or_eq_true] at covered
    exact covered.symm
  rw [memoryRead_covered agrees positive here either, behind,
    faultIn_present positive true fun _ below => covered_present agrees either below]
  refine congrArg leValue (List.map_congr_left fun index member => ?_)
  rw [view_plain agrees (plain index (List.mem_range.mp member)), toNat_offset]

/-- The same table and devices, and at most more pages. -/
structure Enlarged (before after : Fabric) : Prop where
  vtlb : after.vtlb = before.vtlb
  devices : after.devices = before.devices
  pages : Grown before.core0.pages after.core0.pages

theorem Enlarged.trans {first second third : Fabric} (early : Enlarged first second)
    (late : Enlarged second third) : Enlarged first third :=
  ⟨late.vtlb.trans early.vtlb, late.devices.trans early.devices, early.pages.trans late.pages⟩

theorem Grown.mapped {before after : PageTable Prot Backing} (grown : Grown before after) {page : Nat}
    {held : Page Prot Backing} (found : before page = some held) : after page = some held := by
  rcases grown page with kept | ⟨missing, _⟩
  · rw [kept, found]
  · rw [missing] at found
    cases found

theorem Enlarged.agrees (enlarged : Enlarged fabric after)
    (agrees : fabric.vtlb.Agrees fabric.core0) : after.vtlb.Agrees after.core0 := by
  intro page small entry
  rw [enlarged.vtlb] at entry ⊢
  obtain ⟨prot, found⟩ := agrees page small entry
  exact ⟨prot, enlarged.pages.mapped found⟩

theorem Enlarged.cell (enlarged : Enlarged fabric after) {address : Nat} {cell : Cell}
    (found : fabric.core0.cell address = some cell) : after.core0.cell address = some cell := by
  unfold Memory.cell at found ⊢
  split at found
  · rename_i small
    obtain ⟨page, mapped, same⟩ := Option.map_eq_some_iff.mp found
    rw [if_pos small, enlarged.pages.mapped mapped]
    exact congrArg some same
  · cases found

/-- A page mapped on demand is engine RAM, so host memory is reached as before. -/
theorem Enlarged.cell_host (enlarged : Enlarged fabric after) {address : Nat} {ptr : HostPtr}
    (found : after.core0.cell address = some (.host ptr)) :
    fabric.core0.cell address = some (.host ptr) := by
  unfold Memory.cell at found ⊢
  split at found
  · rename_i small
    rw [if_pos small]
    rcases enlarged.pages (address / 0x1000) with kept | ⟨_, fresh⟩
    · rwa [kept] at found
    · rw [fresh] at found
      cases Option.some.inj found
  · cases found

theorem Enlarged.source_host (enlarged : Enlarged fabric after) (addr : Word) (ptr : HostPtr) :
    after.source addr = some (.host ptr) ↔ fabric.source addr = some (.host ptr) := by
  unfold source
  rw [enlarged.vtlb]
  split
  · rfl
  · split
    · rfl
    · split
      · rfl
      · exact ⟨enlarged.cell_host, enlarged.cell⟩

theorem Enlarged.unshared (enlarged : Enlarged fabric after) {count : Nat} :
    after.Unshared addr count ↔ fabric.Unshared addr count := by
  unfold Unshared
  simp only [enlarged.source_host]

theorem Enlarged.covered (enlarged : Enlarged fabric after) (covered : fabric.covered size addr = true) :
    after.covered size addr = true := by
  rw [Fabric.covered, Bool.or_eq_true] at covered ⊢
  rw [enlarged.vtlb]
  refine covered.imp_right fun backed => Memory.backed_iff.mpr fun index below => ?_
  obtain ⟨cell, found⟩ := Option.isSome_iff_exists.mp (Memory.backed_iff.mp backed index below)
  rw [enlarged.cell found]
  rfl

/-- The cells a write reaches: all of them through the engine, or a beginning through the
table. -/
def taken (fabric : Fabric) (size : Nat) (addr : Word) : List Cell :=
  if fabric.core0.backed addr.toNat size then fabric.core0.cells addr.toNat size
  else fabric.vtlb.cells addr.toNat size

theorem length_taken (fabric : Fabric) (size : Nat) (addr : Word) :
    (fabric.taken size addr).length ≤ size := by
  unfold taken
  split
  · exact length_reach_le _ _ _
  · exact length_reach_le _ _ _

theorem getElem?_taken (agrees : fabric.vtlb.Agrees fabric.core0) {index : Nat}
    (below : index < (fabric.taken size addr).length) :
    (fabric.taken size addr)[index]? = fabric.core0.cell (guestByte addr index) := by
  have short := length_taken fabric size addr
  unfold taken at below short ⊢
  split at below
  · rename_i backed
    rw [if_pos backed] at short ⊢
    rw [guestByte_backed backed (by omega)]
    exact getElem?_reach below
  · rename_i hole
    rw [if_neg hole]
    have entry : (fabric.vtlb.cells addr.toNat size)[index]? =
        fabric.vtlb.find (addr.toNat + index) := getElem?_reach below
    obtain ⟨cell, found⟩ : ∃ cell, fabric.vtlb.find (addr.toNat + index) = some cell := by
      rw [← entry, List.getElem?_eq_getElem below]
      exact ⟨_, rfl⟩
    rw [entry, found, cell_guestByte agrees found]

theorem length_taken_covered (covered : fabric.covered size addr = true) :
    (fabric.taken size addr).length = size := by
  unfold taken
  rw [Fabric.covered, Bool.or_eq_true] at covered
  cases backed : fabric.core0.backed addr.toNat size with
  | true => simpa [Memory.backed] using backed
  | false => simpa [backed, VtlbLut.covers] using covered

/-- The bridge's writes to the table and to the engine come to one. -/
theorem bridgeWrite_eq (agrees : fabric.vtlb.Agrees fabric.core0) (size : Nat) (addr : Word)
    (value : Nat) : bridgeWrite size fabric addr value =
      (if fabric.core0.backed addr.toNat size then .ok else .writeUnmapped,
        { fabric with core0 := fabric.core0.withContents (writeAll fabric.core0.contents
          ((fabric.taken size addr).zip (leBytes size value))) }) := by
  have table := fabric.vtlb.write_eq fabric.core0 addr.toNat (leBytes size value)
  rw [length_leBytes] at table
  rw [bridgeWrite]
  simp only [table, Memory.ucMemWrite, length_leBytes, Memory.backed_withContents]
  unfold taken
  cases backed : fabric.core0.backed addr.toNat size with
  | false => rfl
  | true =>
    have full : (fabric.core0.cells addr.toNat size).length = size := by
      simpa [Memory.backed] using backed
    simp only [if_true, Memory.contents_withContents, Memory.cells_withContents]
    rw [writeAll_absorb]
    · rfl
    · intro write member
      refine exists_zip (by rw [full, length_leBytes]) ?_
      obtain ⟨index, found⟩ := List.mem_iff_getElem?.mp (List.of_mem_zip member).1
      have below : index < (fabric.vtlb.cells addr.toNat size).length :=
        (List.getElem?_eq_some_iff.mp found).1
      have short := length_reach_le fabric.vtlb.find addr.toNat size
      have small : index < size := lt_of_lt_of_le below short
      have entry : (fabric.vtlb.cells addr.toNat size)[index]? =
          fabric.vtlb.find (addr.toNat + index) := getElem?_reach below
      rw [found] at entry
      have cell := cell_guestByte agrees entry.symm
      rw [guestByte_backed backed small] at cell
      have inside : index < (fabric.core0.cells addr.toNat size).length := by rwa [full]
      refine List.mem_iff_getElem?.mpr ⟨index, ?_⟩
      rw [← cell]
      exact getElem?_reach inside

theorem bridgeWrite_enlarged (agrees : fabric.vtlb.Agrees fabric.core0) (size : Nat) (addr : Word)
    (value : Nat) : Enlarged fabric (bridgeWrite size fabric addr value).2 := by
  rw [bridgeWrite_eq agrees]
  exact ⟨rfl, rfl, Grown.refl _⟩

theorem bridgeWrite_source (agrees : fabric.vtlb.Agrees fabric.core0) (size : Nat) (addr : Word)
    (value : Nat) (other : Word) :
    (bridgeWrite size fabric addr value).2.source other = fabric.source other := by
  rw [bridgeWrite_eq agrees]
  rfl

theorem bridgeWrite_contents (agrees : fabric.vtlb.Agrees fabric.core0) (size : Nat) (addr : Word)
    (value : Nat) : (bridgeWrite size fabric addr value).2.core0.contents =
      writeAll fabric.core0.contents ((fabric.taken size addr).zip (leBytes size value)) := by
  rw [bridgeWrite_eq agrees, Memory.contents_withContents]

theorem offset_inj {left right : Nat} (first : left < 8) (second : right < 8)
    (same : offset addr left = offset addr right) : left = right := by
  have bytes := congrArg BitVec.toNat same
  rw [toNat_offset, toNat_offset, guestByte, guestByte] at bytes
  omega

/-- A cell of an unshared access is read through one address only. -/
theorem Unshared.address {count index : Nat} (unshared : fabric.Unshared addr count)
    (below : index < count) {cell : Cell} (here : fabric.source (offset addr index) = some cell)
    {other : Word} (there : fabric.source other = some cell) : other = offset addr index := by
  cases cell with
  | host ptr => exact unshared index below ptr here other there
  | ram byte => exact BitVec.eq_of_toNat_eq ((source_ram there).symm.trans (source_ram here))

/-- Every cell written is the source of a byte of the access. -/
theorem source_taken (agrees : fabric.vtlb.Agrees fabric.core0)
    (plain : ∀ index, index < size → isCore0Peripheral (offset addr index) = false) {cell : Cell}
    {index : Nat} (found : (fabric.taken size addr)[index]? = some cell) :
    index < size ∧ fabric.source (offset addr index) = some cell := by
  have below : index < (fabric.taken size addr).length := (List.getElem?_eq_some_iff.mp found).1
  have small : index < size := lt_of_lt_of_le below (length_taken fabric size addr)
  refine ⟨small, ?_⟩
  rw [source_plain agrees (plain index small), toNat_offset, ← getElem?_taken agrees below, found]

/-- A write that is taken can be seen. -/
theorem view_written (agrees : fabric.vtlb.Agrees fabric.core0) (narrow : size ≤ 8)
    (plain : ∀ index, index < size → isCore0Peripheral (offset addr index) = false)
    (covered : fabric.covered size addr = true) (unshared : fabric.Unshared addr size) (value : Nat) :
    (List.range size).map (fun index =>
      (bridgeWrite size fabric addr value).2.view (offset addr index)) = leBytes size value := by
  have full := length_taken_covered covered
  apply List.ext_getElem?
  intro index
  by_cases below : index < size
  · have width : index < (leBytes size value).length := by rwa [length_leBytes]
    have inside : index < (fabric.taken size addr).length := by rwa [full]
    obtain ⟨cell, found⟩ : ∃ cell, (fabric.taken size addr)[index]? = some cell :=
      ⟨_, List.getElem?_eq_getElem inside⟩
    obtain ⟨_, here⟩ := source_taken agrees plain found
    rw [List.getElem?_map, List.getElem?_range below, Option.map_some, view,
      bridgeWrite_source agrees, here, bridgeWrite_contents agrees, List.getElem?_eq_getElem width]
    refine congrArg some (writeAll_agreed ?_ ?_)
    · exact exists_zip (by rw [full, length_leBytes]) (List.mem_iff_getElem?.mpr ⟨index, found⟩)
    · intro write member same
      obtain ⟨position, at'⟩ := List.mem_iff_getElem?.mp member
      obtain ⟨left, right⟩ := List.getElem?_zip_eq_some.mp at'
      rw [same] at left
      obtain ⟨small, there⟩ := source_taken agrees plain left
      have equal := offset_inj (by omega) (by omega) (unshared.address below here there)
      subst equal
      rw [List.getElem?_eq_getElem width] at right
      exact (Option.some.inj right).symm
  · rw [List.getElem?_eq_none (by simp; omega), List.getElem?_eq_none (by simp; omega)]

/-- A write is not seen where none of its cells is read. -/
theorem view_apart (agrees : fabric.vtlb.Agrees fabric.core0)
    (plain : ∀ index, index < size → isCore0Peripheral (offset addr index) = false)
    (value : Nat) {other : Word} (apart : ∀ index, index < size → ∀ cell,
      fabric.source (offset addr index) = some cell → fabric.source other ≠ some cell) :
    (bridgeWrite size fabric addr value).2.view other = fabric.view other := by
  rw [view, view, bridgeWrite_source agrees, bridgeWrite_contents agrees]
  cases found : fabric.source other with
  | none => rfl
  | some cell =>
    refine writeAll_outside fun write member same => ?_
    obtain ⟨index, held⟩ := List.mem_iff_getElem?.mp (List.of_mem_zip member).1
    rw [same] at held
    obtain ⟨below, here⟩ := source_taken agrees plain held
    exact apart index below cell here found

/-- An unshared write is seen nowhere else. -/
theorem view_elsewhere (agrees : fabric.vtlb.Agrees fabric.core0)
    (plain : ∀ index, index < size → isCore0Peripheral (offset addr index) = false)
    (unshared : fabric.Unshared addr size) (value : Nat) {other : Word}
    (outside : ∀ index, index < size → other ≠ offset addr index) :
    (bridgeWrite size fabric addr value).2.view other = fabric.view other :=
  view_apart agrees plain value fun index below _ here there =>
    outside index below (unshared.address below here there)

/-- Byte loads agree where the devices and the bytes seen do. -/
theorem memoryRead_congr (same : after.devices = fabric.devices)
    (seen : after.view addr = fabric.view addr) :
    (memoryRead 1 after addr).1 = (memoryRead 1 fabric addr).1 := by
  cases register : isRegister addr with
  | true => exact memoryRead_devices register same
  | false => rw [memoryRead_view register, memoryRead_view register, seen]

theorem offset_zero (addr : Word) : offset addr 0 = addr := by simp [offset]

theorem covered_bridgeWrite (agrees : fabric.vtlb.Agrees fabric.core0) (value : Nat) :
    (bridgeWrite size fabric addr value).2.covered size addr = fabric.covered size addr := by
  rw [bridgeWrite_eq agrees]
  rfl

theorem views_of_load (agrees : fabric.vtlb.Agrees fabric.core0) (positive : 0 < size)
    (plain : ∀ index, index < size → isCore0Peripheral (offset addr index) = false)
    (covered : fabric.covered size addr = true) {value : Nat}
    (load : (memoryRead size fabric addr).1 = value) :
    (List.range size).map (fun index => fabric.view (offset addr index)) = leBytes size value := by
  rw [memoryRead_covered_views agrees positive plain covered] at load
  have back := leBytes_leValue ((List.range size).map fun index => fabric.view (offset addr index))
  rw [load, List.length_map, List.length_range] at back
  exact back.symm

theorem view_of_memoryRead (readable : isRegister addr = false)
    (same : (memoryRead 1 after addr).1 = (memoryRead 1 fabric addr).1) :
    after.view addr = fabric.view addr := by
  rw [memoryRead_view readable, memoryRead_view readable] at same
  exact BitVec.eq_of_toNat_eq same

/-- The page a word store starts in is mapped if it was not. -/
def mapped (fabric : Fabric) (addr : Word) : Fabric :=
  { fabric with core0 := (fabric.core0.mapPage addr.toNat).2 }

theorem mapped_taken (taken : (fabric.core0.pages (addr.toNat / 0x1000)).isSome = true) :
    fabric.mapped addr = fabric := by
  rw [mapped, Memory.mapPage_taken taken]

theorem mapped_pages (fabric : Fabric) (addr : Word) (page : Nat) :
    ((fabric.mapped addr).core0.pages page).isSome = true ↔
      (fabric.core0.pages page).isSome = true ∨ page = addr.toNat / 0x1000 := by
  cases found : fabric.core0.pages (addr.toNat / 0x1000) with
  | some held =>
    have taken : (fabric.core0.pages (addr.toNat / 0x1000)).isSome = true := by rw [found]; rfl
    rw [mapped_taken taken]
    refine ⟨.inl, fun either => either.elim id fun same => ?_⟩
    rw [same]
    exact taken
  | none =>
    rw [mapped, Memory.mapPage_missing found]
    by_cases same : page = addr.toNat / 0x1000
    · simp [same]
    · simp [same]

theorem mapped_enlarged (fabric : Fabric) (addr : Word) : Enlarged fabric (fabric.mapped addr) := by
  refine ⟨rfl, rfl, fun page => ?_⟩
  cases found : fabric.core0.pages (addr.toNat / 0x1000) with
  | some held => rw [mapped_taken (by rw [found]; rfl)]; exact .inl rfl
  | none =>
    rw [mapped, Memory.mapPage_missing found]
    by_cases same : page = addr.toNat / 0x1000
    · exact .inr ⟨by rw [same]; exact found, if_pos same⟩
    · exact .inl (if_neg same)

/-- What a byte load sees, case by case. -/
theorem view_eq (fabric : Fabric) (addr : Word) : fabric.view addr =
    if isRegister addr then 0
    else
      match fabric.vtlb.find addr.toNat with
      | some cell => fabric.core0.contents cell
      | none => if isCore0Peripheral addr then 0 else fabric.core0.byteAt addr.toNat := by
  rw [view, source]
  cases isRegister addr with
  | true => rfl
  | false =>
    cases fabric.vtlb.find addr.toNat with
    | some cell => rfl
    | none =>
      cases isCore0Peripheral addr with
      | true => rfl
      | false => rfl

/-- Mapping a page shows nothing. -/
theorem view_mapped (fabric : Fabric) (addr other : Word) :
    (fabric.mapped addr).view other = fabric.view other := by
  have behind : (fabric.mapped addr).core0.byteAt other.toNat = fabric.core0.byteAt other.toNat :=
    fabric.core0.byteAt_mapPage addr.toNat other.toNat
  have buffers : (fabric.mapped addr).core0.host = fabric.core0.host := by
    cases found : fabric.core0.pages (addr.toNat / 0x1000) with
    | some held => rw [mapped_taken (by rw [found]; rfl)]
    | none => rw [mapped, Memory.mapPage_missing found]
  have table : (fabric.mapped addr).vtlb = fabric.vtlb := rfl
  rw [view_eq, view_eq, table, behind]
  cases entry : fabric.vtlb.find other.toNat with
  | none => rfl
  | some cell =>
    unfold VtlbLut.find at entry
    split at entry
    · cases entry
    · rw [← Option.some.inj entry]
      simp only [Memory.contents, buffers]

theorem write32_eq (agrees : fabric.vtlb.Agrees fabric.core0) (addr : Word) (value : Nat) :
    fabric.write32 addr value = (bridgeWrite 4 (fabric.mapped addr) addr value).2 := by
  have later := (mapped_enlarged fabric addr).agrees agrees
  rw [bridgeWrite_eq later, write32, bridgeWrite_eq agrees]
  cases found : fabric.core0.pages (addr.toNat / 0x1000) with
  | some held =>
    have taken : (fabric.core0.pages (addr.toNat / 0x1000)).isSome = true := by rw [found]; rfl
    rw [mapped_taken taken]
    cases backed : fabric.core0.backed addr.toNat 4 with
    | true => rfl
    | false =>
      have still (contents : Cell → Byte) : ((fabric.core0.withContents contents).mapPage addr.toNat).2 =
          fabric.core0.withContents contents := Memory.mapPage_taken taken
      simp only [Bool.false_eq_true, if_false]
      rw [still, Memory.ucMemWrite, length_leBytes, Memory.backed_withContents, backed]
      rfl
  | none =>
    -- the table has no entry for a page the engine lacks, so the first try did nothing
    have hole : fabric.core0.cell addr.toNat = none := by
      simp [Memory.cell, found]
    have backed : fabric.core0.backed addr.toNat 4 = false := by
      simp [Memory.backed, Memory.cells, reach, hole]
    have entry : fabric.vtlb.find addr.toNat = none := by
      cases entry : fabric.vtlb.find addr.toNat with
      | none => rfl
      | some cell =>
        rw [agrees.cell addr.isLt entry] at hole
        cases hole
    have nothing : fabric.vtlb.cells addr.toNat 4 = [] := by
      simp [VtlbLut.cells, reach, entry]
    have first : fabric.taken 4 addr = [] := by
      rw [taken, backed, if_neg Bool.false_ne_true, nothing]
    rw [backed, first]
    simp only [Bool.false_eq_true, if_false, List.zip_nil_left, writeAll_nil,
      Memory.withContents_contents, Memory.ucMemWrite, length_leBytes]
    have table : (fabric.mapped addr).vtlb.cells addr.toNat 4 = [] := nothing
    rw [taken, table]
    cases whole : (fabric.core0.mapPage addr.toNat).2.backed addr.toNat 4 with
    | true =>
      have same : (fabric.mapped addr).core0.backed addr.toNat 4 = true := whole
      rw [same]
      rfl
    | false =>
      have same : (fabric.mapped addr).core0.backed addr.toNat 4 = false := whole
      rw [same]
      rfl

theorem write32_enlarged (agrees : fabric.vtlb.Agrees fabric.core0) (addr : Word) (value : Nat) :
    Enlarged fabric (fabric.write32 addr value) := by
  rw [write32_eq agrees]
  have first := mapped_enlarged fabric addr
  exact first.trans (bridgeWrite_enlarged (first.agrees agrees) 4 addr value)

theorem write32_pages (agrees : fabric.vtlb.Agrees fabric.core0) (addr : Word) (value page : Nat) :
    ((fabric.write32 addr value).core0.pages page).isSome = true ↔
      (fabric.core0.pages page).isSome = true ∨ page = addr.toNat / 0x1000 := by
  rw [write32_eq agrees, bridgeWrite_eq ((mapped_enlarged fabric addr).agrees agrees)]
  exact mapped_pages fabric addr page

end Fabric

end ZeeboLle.System

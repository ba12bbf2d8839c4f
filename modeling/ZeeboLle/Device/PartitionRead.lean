import ZeeboLle.Device.NandRead

/-! A whole partition read page by page into the same destination, each page copied out before
the next one comes. -/
namespace ZeeboLle.Device

open Paging Unicorn

namespace DmovModel

/-- The pages of a partition, block by block. -/
def partitionPages (startBlk nblocks : Word) : List Word :=
  (List.range nblocks.toNat).flatMap fun blk =>
    (List.range 64).map fun p => (startBlk + BitVec.ofNat 32 blk) * 64 + BitVec.ofNat 32 p

/-- One turn: the page is read to the destination, and the local buffer is filled from there. It
keeps the bytes it happens to have where the engine refuses the read. -/
def readOne (dest : Word) (unset : List Byte) (state : DmovModel × List Byte) (page : Word) :
    DmovModel × List Byte :=
  let dmov := state.1.dmovReadPage page dest
  (dmov, state.2 ++ (dmov.mem.ucMemRead dest.toNat 2048).getD unset)

def readPartition (dmov : DmovModel) (dest : Word) (unset : List Byte) (startBlk nblocks : Word) :
    DmovModel × List Byte :=
  (partitionPages startBlk nblocks).foldl (readOne dest unset) (dmov, [])

/-- What was read against the raw dump. -/
def byteIdentical (raw out : List Byte) (startBlk nblocks : Word) : Bool :=
  out.length = (nblocks * 64).toNat * 2048 ∧
    out = (raw.drop ((startBlk * 64).toNat * 2048)).take out.length

/-- `run`: what was read, whether it is the raw dump, and how often the data mover ran. -/
def partitionRun (raw unset : List Byte) (startBlk nblocks : Word) : List Byte × Bool × Word :=
  let result := readPartition (overDump raw) 0x10000000 unset startBlk nblocks
  (result.2, byteIdentical raw result.2 startBlk nblocks, result.1.execCount)

variable {dmov other after : DmovModel} {dest page startBlk nblocks : Word} {unset raw : List Byte}

/-- The dump is the same, memory is mapped as it was, and no further call was counted. -/
structure Kept (dmov after : DmovModel) : Prop where
  cell : after.mem.cell = dmov.mem.cell
  dataBlob : after.nand.dataBlob = dmov.nand.dataBlob
  execCount : after.execCount = dmov.execCount

theorem Kept.refl (dmov : DmovModel) : Kept dmov dmov := ⟨rfl, rfl, rfl⟩

theorem Kept.trans (first : Kept dmov other) (second : Kept other after) : Kept dmov after :=
  ⟨second.cell.trans first.cell, second.dataBlob.trans first.dataBlob,
    second.execCount.trans first.execCount⟩

theorem cell_writeBytes (mem : Memory) (address : Nat) (bytes : List Byte) :
    (writeBytes mem address bytes).cell = mem.cell :=
  Memory.cell_ucMemWrite mem address bytes

theorem dataBlob_execute (nand : NandController) (cmd : Word) :
    (nand.execute cmd).dataBlob = nand.dataBlob := by
  unfold NandController.execute
  split
  · rfl
  · split
    · dsimp only
      split <;> rfl
    · rfl

theorem dataBlob_write (nand : NandController) (off val : Word) (size : Nat) :
    (nand.write off val size).dataBlob = nand.dataBlob := by
  unfold NandController.write
  dsimp only
  split
  · rfl
  · split
    · exact dataBlob_execute _ _
    · split <;> rfl

theorem dataBlob_writeRegs (dmov : DmovModel) (src off : Word) (indices : List Word)
    (nand : NandController) : (dmov.writeRegs src off indices nand).dataBlob = nand.dataBlob := by
  induction indices generalizing nand with
  | nil => rfl
  | cons index indices ih =>
    rw [writeRegs]
    split
    · exact dataBlob_write _ _ _ _
    · rw [ih, dataBlob_write]

theorem dataBlob_foldl_write (values : Word → Word) (off : Word) (indices : List Word)
    (nand : NandController) :
    (indices.foldl (fun nand index => nand.write (off + index) (values index) 4) nand).dataBlob =
      nand.dataBlob := by
  induction indices generalizing nand with
  | nil => rfl
  | cons index indices ih => rw [List.foldl_cons, ih, dataBlob_write]

theorem execDescriptor_kept (dmov : DmovModel) (src dst ln : Word) :
    Kept dmov (dmov.execDescriptor src dst ln) := by
  unfold execDescriptor
  split
  · unfold fromNand
    dsimp only
    split
    · refine ⟨?_, rfl, rfl⟩
      dsimp only
      split
      · rfl
      · exact cell_writeBytes _ _ _
    · exact ⟨cell_writeBytes _ _ _, rfl, rfl⟩
  · split
    · unfold toNand
      dsimp only
      split
      · exact ⟨rfl, dataBlob_foldl_write (fun index => dmov.ram32 (src + index)) _ _ _, rfl⟩
      · split
        · split
          · exact ⟨rfl, dataBlob_writeRegs _ _ _ _ _, rfl⟩
          · exact .refl dmov
        · exact ⟨rfl, dataBlob_write _ _ _ _, rfl⟩
    · unfold ramToRam
      dsimp only
      split
      · split
        · exact .refl dmov
        · exact ⟨cell_writeBytes _ _ _, rfl, rfl⟩
      · exact .refl dmov

theorem runCmdlist_kept (dmov : DmovModel) (base : Word) (fuel : Nat) :
    Kept dmov (dmov.runCmdlist base fuel) := by
  induction fuel generalizing dmov base with
  | zero => exact .refl dmov
  | succ fuel ih =>
    rw [runCmdlist]
    split
    · exact execDescriptor_kept _ _ _ _
    · exact (execDescriptor_kept _ _ _ _).trans (ih _ _)

theorem runPtrlist_kept (dmov : DmovModel) (pptr : Word) (fuel : Nat) :
    Kept dmov (dmov.runPtrlist pptr fuel) := by
  induction fuel generalizing dmov pptr with
  | zero => exact .refl dmov
  | succ fuel ih =>
    rw [runPtrlist]
    dsimp only
    split
    · exact .refl dmov
    · split
      · exact runCmdlist_kept _ _ _
      · exact (runCmdlist_kept _ _ _).trans (ih _ _)

theorem cell_wram (mem : Memory) (address : Nat) (words : List Word) :
    (wram mem address words).cell = mem.cell := by
  induction words generalizing mem address with
  | nil => rfl
  | cons word words ih => rw [wram, ih, cell_writeBytes]

theorem cell_wdesc (mem : Memory) (address : Nat) (descriptors : List Descriptor) :
    (wdesc mem address descriptors).cell = mem.cell := by
  induction descriptors generalizing mem address with
  | nil => rfl
  | cons descriptor descriptors ih => rw [wdesc, ih, cell_writeBytes]

/-- A page read counts one call, and leaves the dump and the mapping as they were. -/
theorem dmovReadPage_kept (dmov : DmovModel) (page dest : Word) :
    Kept { dmov with execCount := dmov.execCount + 1 } (dmov.dmovReadPage page dest) := by
  have start : Kept { dmov with execCount := dmov.execCount + 1 } (dmov.prepared page dest) :=
    ⟨by simp only [prepared, cell_wram, cell_wdesc], by simp only [prepared],
      by simp only [prepared]⟩
  have ran := start.trans (runPtrlist_kept (dmov.prepared page dest) ptrArea 16)
  rw [dmovReadPage_eq]
  generalize (dmov.prepared page dest).runPtrlist ptrArea 16 = final at ran ⊢
  exact ⟨ran.cell, ran.dataBlob, ran.execCount⟩

theorem Apart.of_cell {mem kept : Memory} (room : Apart mem dest) (same : kept.cell = mem.cell) :
    Apart kept dest := by
  refine ⟨⟨?_, ?_⟩, room.apart⟩
  · rw [same]
    exact room.owns.mapped
  · rw [same]
    exact room.owns.apart

/-- Each turn adds the page that arrives, and leaves everything ready for the next one. -/
theorem foldl_readOne (room : Apart dmov.mem dest) (pages : List Word)
    (inside : ∀ page ∈ pages, page.toNat < dmov.nand.dataBlob.length / pageData) (out : List Byte) :
    let result := pages.foldl (readOne dest unset) (dmov, out)
    result.2 = out ++ (pages.flatMap fun page =>
        NandController.imagePage dmov.nand.dataBlob (aliasPage page.toNat)) ∧
      result.1.execCount = dmov.execCount + BitVec.ofNat 32 pages.length := by
  induction pages generalizing dmov out with
  | nil =>
    exact ⟨(List.append_nil out).symm, (BitVec.add_zero _).symm⟩
  | cons page pages ih =>
    obtain ⟨first, others⟩ := List.forall_mem_cons.mp inside
    have kept := dmovReadPage_kept dmov page dest
    have arrived := (dmovReadPage_result room first).1
    rw [List.foldl_cons, readOne]
    generalize dmov.dmovReadPage page dest = next at kept arrived ⊢
    have dump : next.nand.dataBlob = dmov.nand.dataBlob := kept.dataBlob
    have room : Apart next.mem dest := room.of_cell kept.cell
    have bytes : next.mem.ucMemRead dest.toNat 2048 =
        some (NandController.imagePage dmov.nand.dataBlob (aliasPage page.toNat)) := by
      rw [room.owns.sees.ucMemRead dest.toNat 2048 fun index below => .inr ⟨by omega, by omega⟩,
        arrived]
    obtain ⟨read, count⟩ := @ih next room (by rwa [dump]) (out ++
      NandController.imagePage dmov.nand.dataBlob (aliasPage page.toNat))
    have calls : next.execCount = dmov.execCount + 1 := kept.execCount
    dsimp only
    rw [bytes, Option.getD_some, read, count, dump, calls, List.flatMap_cons, List.append_assoc,
      List.length_cons, BitVec.add_assoc, Nat.add_comm pages.length, BitVec.ofNat_add]
    exact ⟨rfl, rfl⟩

theorem blocks_eq (first count : Nat) :
    ((List.range count).flatMap fun blk => (List.range 64).map fun p => (first + blk) * 64 + p) =
      List.range' (first * 64) (count * 64) := by
  induction count with
  | zero => rfl
  | succ count ih =>
    have start : (first + count) * 64 = first * 64 + count * 64 := Nat.add_mul _ _ _
    have blocks : List.range (count + 1) = List.range count ++ [count] := List.range_succ
    rw [blocks, List.flatMap_append, ih, List.flatMap_singleton, Nat.succ_mul,
      ← List.range'_append_1, start]
    exact congrArg (_ ++ ·) List.range'_eq_map_range.symm

/-- The pages of a partition that does not leave 32 bits are numbered one after the other. -/
theorem map_toNat_partitionPages (small : (startBlk.toNat + nblocks.toNat) * 64 < 2 ^ 32) :
    (partitionPages startBlk nblocks).map BitVec.toNat =
      List.range' (startBlk.toNat * 64) (nblocks.toNat * 64) := by
  rw [← blocks_eq, partitionPages, List.map_flatMap]
  refine List.flatMap_congr fun blk member => ?_
  rw [List.map_map]
  refine List.map_congr_left fun p below => ?_
  have block := List.mem_range.mp member
  have place := List.mem_range.mp below
  have size : (64 : Word).toNat = 64 := rfl
  simp only [Function.comp_apply, BitVec.toNat_add, BitVec.toNat_mul, BitVec.toNat_ofNat, size]
  omega

/-- Two readings of a list of blocks of one size are the same only where all blocks are. -/
theorem flatMap_eq_iff {α β : Type} {first second : α → List β} {values : List α} {size : Nat}
    (sizes : ∀ value ∈ values, (first value).length = size ∧ (second value).length = size) :
    values.flatMap first = values.flatMap second ↔ ∀ value ∈ values, first value = second value := by
  induction values with
  | nil => simp
  | cons value values ih =>
    obtain ⟨⟨left, right⟩, others⟩ := List.forall_mem_cons.mp sizes
    rw [List.flatMap_cons, List.flatMap_cons, List.forall_mem_cons, ← ih others]
    constructor
    · exact fun same => List.append_inj same (left.trans right.symm)
    · rintro ⟨same, rest⟩
      rw [same, rest]

/-- Pages one after the other are one block of the dump. -/
theorem flatMap_imagePage (first count : Nat) :
    (List.range' first count).flatMap (NandController.imagePage raw) =
      (raw.drop (first * pageData)).take (count * pageData) := by
  induction count generalizing first with
  | zero => rw [Nat.zero_mul, List.take_zero]; rfl
  | succ count ih =>
    have next : (first + 1) * pageData = first * pageData + pageData := Nat.succ_mul _ _
    rw [List.range'_succ, List.flatMap_cons, ih, NandController.imagePage, next, ← List.drop_drop,
      ← List.take_add, Nat.succ_mul, Nat.add_comm pageData]

theorem length_flatMap_of_forall {α β : Type} {reading : α → List β} {values : List α} {size : Nat}
    (sizes : ∀ value ∈ values, (reading value).length = size) :
    (values.flatMap reading).length = values.length * size := by
  induction values with
  | nil => simp
  | cons value values ih =>
    obtain ⟨first, others⟩ := List.forall_mem_cons.mp sizes
    rw [List.flatMap_cons, List.length_append, first, ih others, List.length_cons, Nat.succ_mul,
      Nat.add_comm]

section Partition

/-- The pages that arrive for a partition. -/
def arrivingPages (raw : List Byte) (startBlk nblocks : Word) : List Byte :=
  (List.range' (startBlk.toNat * 64) (nblocks.toNat * 64)).flatMap fun page =>
    NandController.imagePage raw (aliasPage page)

variable (small : (startBlk.toNat + nblocks.toNat) * 64 < 2 ^ 32)
  (inside : (startBlk.toNat + nblocks.toNat) * 64 ≤ raw.length / pageData)

theorem mem_pages_iff {page : Nat} :
    page ∈ List.range' (startBlk.toNat * 64) (nblocks.toNat * 64) ↔
      startBlk.toNat * 64 ≤ page ∧ page < (startBlk.toNat + nblocks.toNat) * 64 := by
  rw [List.mem_range'_1, Nat.add_mul]

theorem toNat_pages (blocks : Word) (bound : blocks.toNat * 64 < 2 ^ 32) :
    (blocks * 64).toNat = blocks.toNat * 64 := by
  have size : (64 : Word).toNat = 64 := rfl
  rw [BitVec.toNat_mul, size]
  omega

include inside in
theorem length_pages : ∀ page ∈ List.range' (startBlk.toNat * 64) (nblocks.toNat * 64),
    (NandController.imagePage raw (aliasPage page)).length = pageData ∧
      (NandController.imagePage raw page).length = pageData := by
  intro page member
  have below := (mem_pages_iff.mp member).2.trans_le inside
  exact ⟨length_imagePage ((aliasPage_le page).trans_lt below), length_imagePage below⟩

include small inside in
theorem byteIdentical_iff :
    byteIdentical raw (arrivingPages raw startBlk nblocks) startBlk nblocks = true ↔
      ∀ page, startBlk.toNat * 64 ≤ page → page < (startBlk.toNat + nblocks.toNat) * 64 →
        page < 0x10000 ∨
          NandController.imagePage raw (aliasPage page) = NandController.imagePage raw page := by
  have each := length_pages inside
  have wanted := @flatMap_imagePage raw (startBlk.toNat * 64) (nblocks.toNat * 64)
  have count := toNat_pages nblocks (by omega)
  have first := toNat_pages startBlk (by omega)
  have length : (arrivingPages raw startBlk nblocks).length = nblocks.toNat * 64 * pageData := by
    rw [arrivingPages, length_flatMap_of_forall fun page member => (each page member).1,
      List.length_range']
  have page : (2048 : Nat) = pageData := rfl
  rw [byteIdentical, length, count, first, page, ← wanted, decide_eq_true_iff, arrivingPages,
    flatMap_eq_iff each]
  constructor
  · rintro ⟨-, same⟩ page since before
    exact .inr (same page (mem_pages_iff.mpr ⟨since, before⟩))
  · refine fun exact => ⟨rfl, fun page member => ?_⟩
    obtain ⟨since, before⟩ := mem_pages_iff.mp member
    rcases exact page since before with low | same
    · rw [aliasPage_low low]
    · exact same

include small inside in
theorem readPartition_result (unset : List Byte) :
    let result := readPartition (overDump raw) 0x10000000 unset startBlk nblocks
    result.2 = arrivingPages raw startBlk nblocks ∧ result.1.execCount = nblocks * 64 := by
  have numbers := map_toNat_partitionPages small
  have within : ∀ page ∈ partitionPages startBlk nblocks,
      page.toNat < (overDump raw).nand.dataBlob.length / pageData := by
    intro page member
    have number : page.toNat ∈ List.range' (startBlk.toNat * 64) (nblocks.toNat * 64) := by
      rw [← numbers]
      exact List.mem_map_of_mem member
    exact (mem_pages_iff.mp number).2.trans_le inside
  have arrived : (partitionPages startBlk nblocks).flatMap (fun page =>
      NandController.imagePage raw (aliasPage page.toNat)) = arrivingPages raw startBlk nblocks := by
    rw [arrivingPages, ← numbers, List.flatMap_map]
  have total : (partitionPages startBlk nblocks).length = (nblocks * 64).toNat := by
    rw [toNat_pages nblocks (by omega), ← List.length_map BitVec.toNat, numbers,
      List.length_range']
  have read := @foldl_readOne _ _ unset (overDump_apart raw) _ within []
  rw [overDump_dataBlob, List.nil_append, arrived, total, BitVec.ofNat_toNat,
    BitVec.setWidth_eq] at read
  exact ⟨read.1, read.2.trans (BitVec.zero_add _)⟩

/-- A partition is read page by page from where its pages arrive, with one call a page. What was
read is the raw dump exactly where every page of the partition arrives as itself: below page
0x10000, or where the dump has the same bytes at the page that arrives. -/
theorem partitionRun_exact (raw unset : List Byte) (startBlk nblocks : Word)
    (small : (startBlk.toNat + nblocks.toNat) * 64 < 2 ^ 32)
    (inside : (startBlk.toNat + nblocks.toNat) * 64 ≤ raw.length / pageData) :
    let result := partitionRun raw unset startBlk nblocks
    result.1 = arrivingPages raw startBlk nblocks ∧
      (result.2.1 = true ↔ ∀ page, startBlk.toNat * 64 ≤ page →
        page < (startBlk.toNat + nblocks.toNat) * 64 → page < 0x10000 ∨
          NandController.imagePage raw (aliasPage page) = NandController.imagePage raw page) ∧
      result.2.2 = nblocks * 64 := by
  obtain ⟨read, calls⟩ := readPartition_result small inside unset
  refine ⟨read, ?_, calls⟩
  dsimp only [partitionRun]
  rw [read]
  exact byteIdentical_iff small inside

/-- A dump whose block 0x400 alone is not zero. -/
def tallBlock : List Byte := List.replicate (0x10000 * 2048) 0 ++ List.replicate (64 * 2048) 1

/-- Page 0x10001 of that block arrives as page 0x101, so what is read is not the dump. -/
theorem partitionRun_exact_tallBlock :
    (partitionRun tallBlock [] 0x400 1).1 = arrivingPages tallBlock 0x400 1 ∧
      (partitionRun tallBlock [] 0x400 1).2.1 = false ∧ (partitionRun tallBlock [] 0x400 1).2.2 = 64 := by
  have length : tallBlock.length = (0x10000 + 64) * 2048 := by
    rw [tallBlock, List.length_append, List.length_replicate, List.length_replicate, Nat.add_mul]
  have inside : ((0x400 : Word).toNat + (1 : Word).toNat) * 64 ≤ tallBlock.length / pageData := by
    rw [length, pageData]
    decide
  obtain ⟨read, exact, calls⟩ := partitionRun_exact tallBlock [] 0x400 1 (by decide) inside
  refine ⟨read, Bool.eq_false_iff.mpr fun identical => ?_, calls⟩
  have asked : NandController.imagePage tallBlock 0x10001 = List.replicate 2048 1 := by
    rw [NandController.imagePage, tallBlock, pageData, List.drop_append, List.drop_eq_nil_of_le
      (by rw [List.length_replicate]; omega), List.length_replicate, List.drop_replicate, List.nil_append,
      List.take_replicate]
    congr 1
  have arrives : NandController.imagePage tallBlock 0x101 = List.replicate 2048 0 := by
    rw [NandController.imagePage, tallBlock, pageData, List.drop_append_of_le_length, List.drop_replicate,
      List.take_append_of_le_length, List.take_replicate]
    · congr 1
    · rw [List.length_replicate]
      omega
    · rw [List.length_replicate]
      omega
  have decoded : aliasPage 0x10001 = 0x101 := by decide
  rcases exact.mp identical 0x10001 (by decide) (by decide) with low | same
  · omega
  · rw [decoded, arrives, asked, List.replicate_inj] at same
    simp at same

/-- Both images the loader reads lie below page 0x10000, so they are read exactly from every dump
that holds them. -/
theorem byteIdentical_images (image : startBlk = 0x012 ∧ nblocks = 0x0a5 ∨ startBlk = 0x0e6 ∧ nblocks = 0x0a9)
    (inside : (startBlk.toNat + nblocks.toNat) * 64 ≤ raw.length / pageData) (unset : List Byte) :
    (partitionRun raw unset startBlk nblocks).2.1 = true := by
  have bound : (startBlk.toNat + nblocks.toNat) * 64 ≤ 0x10000 := by
    rcases image with ⟨rfl, rfl⟩ | ⟨rfl, rfl⟩ <;> decide
  dsimp only [partitionRun]
  rw [(readPartition_result (by omega) inside unset).1, byteIdentical_iff (by omega) inside]
  exact fun page since before => .inl (before.trans_le bound)

end Partition

end DmovModel

end ZeeboLle.Device

import ZeeboLle.Device.Nand

/-! A page read through the data mover, from the driver's descriptor list to the bytes in
memory. The address registers are decoded with the high byte of the page number eight bits too
low, so the page that arrives is the one asked for only below page 0x10000. -/
namespace ZeeboLle.Device

open Paging Unicorn

namespace DmovModel

variable {dmov : DmovModel} {page dest : Word} {view : Nat → Byte} {mem : Memory}

/-- The areas the driver uses for values, descriptors and the pointer list. -/
def descriptorArea (address : Nat) : Prop :=
  (0x400000 ≤ address ∧ address < 0x400028) ∨ (0x401000 ≤ address ∧ address < 0x401080) ∨
    (0x402000 ≤ address ∧ address < 0x402004)

/-- The descriptor area and the destination. -/
def nandRegion (dest address : Nat) : Prop :=
  descriptorArea address ∨ (dest ≤ address ∧ address < dest + 2048)

theorem wram_sees {region : Nat → Prop} (sees : mem.Sees region view) (address : Nat) (words : List Word)
    (inside : ∀ index, index < 4 * words.length → region (address + index)) :
    (wram mem address words).Sees region (patch view address (words.flatMap wordBytes)) := by
  induction words generalizing mem view address with
  | nil => simpa [wram] using sees
  | cons word words ih =>
    have first := sees.ucMemWrite address (wordBytes word) fun index below => by
      rw [length_wordBytes] at below
      exact inside index (by rw [List.length_cons]; omega)
    have rest := ih first (address + 4) fun index below => by
      rw [Nat.add_assoc]
      exact inside (4 + index) (by rw [List.length_cons]; omega)
    have joined := patch_append view address (wordBytes word) (words.flatMap wordBytes)
    rw [length_wordBytes] at joined
    rw [joined] at rest
    exact rest

theorem wdesc_sees {region : Nat → Prop} (sees : mem.Sees region view) (address : Nat)
    (descriptors : List Descriptor)
    (inside : ∀ index, index < 16 * descriptors.length → region (address + index)) :
    (wdesc mem address descriptors).Sees region
      (patch view address ((descriptors.flatMap Descriptor.words).flatMap wordBytes)) := by
  induction descriptors generalizing mem view address with
  | nil => simpa [wdesc] using sees
  | cons descriptor descriptors ih =>
    have size : (descriptor.words.flatMap wordBytes).length = 16 := length_words descriptor.words
    have first := sees.ucMemWrite address (descriptor.words.flatMap wordBytes) fun index below => by
      rw [size] at below
      exact inside index (by rw [List.length_cons]; omega)
    have rest := ih first (address + 16) fun index below => by
      rw [Nat.add_assoc]
      exact inside (16 + index) (by rw [List.length_cons]; omega)
    have joined := patch_append view address (descriptor.words.flatMap wordBytes)
      ((descriptors.flatMap Descriptor.words).flatMap wordBytes)
    rw [size] at joined
    rw [List.flatMap_cons, List.flatMap_append, ← joined]
    exact rest

/-- The data mover with the driver's values and descriptors in memory. -/
structure Loaded (dmov : DmovModel) (page dest : Word) (view : Nat → Byte) : Prop where
  sees : dmov.mem.Sees (nandRegion dest.toNat) view
  io : ∀ index word, (ioWords page)[index]? = some word → wordAt view (0x400000 + 4 * index) = word
  cl : ∀ index word, ((readDescriptors dest).flatMap Descriptor.words)[index]? = some word →
    wordAt view (0x401000 + 4 * index) = word

/-- Writes into the status word or the destination leave values and descriptors alone. -/
theorem Loaded.write (loaded : Loaded dmov page dest view) (start : Nat) (bytes : List Byte)
    (inside : ∀ index, index < bytes.length → nandRegion dest.toNat (start + index))
    (clear : ∀ index, index < bytes.length →
      ¬ (0x400000 ≤ start + index ∧ start + index < 0x400024) ∧
        ¬ (0x401000 ≤ start + index ∧ start + index < 0x401080)) :
    Loaded { dmov with mem := writeBytes dmov.mem start bytes } page dest (patch view start bytes) := by
  have kept {address : Nat}
      (used : (0x400000 ≤ address ∧ address + 4 ≤ 0x400024) ∨
        (0x401000 ≤ address ∧ address + 4 ≤ 0x401080)) :
      wordAt (patch view start bytes) address = wordAt view address := by
    rw [wordAt, wordAt]
    congr 2
    apply segment_congr
    intro index below
    apply patch_apart
    by_contra within
    have hit := clear (address + index - start) (by omega)
    have place : start + (address + index - start) = address + index := by omega
    rw [place] at hit
    omega
  refine ⟨loaded.sees.ucMemWrite start bytes inside, ?_, ?_⟩
  · intro index word found
    have bound := (List.getElem?_eq_some_iff.mp found).1
    rw [kept (.inl ⟨by omega, by simp [ioWords] at bound; omega⟩)]
    exact loaded.io index word found
  · intro index word found
    have bound := (List.getElem?_eq_some_iff.mp found).1
    rw [kept (.inr ⟨by omega, by simp [readDescriptors, Descriptor.words] at bound; omega⟩)]
    exact loaded.cl index word found

theorem Loaded.ram32_io (loaded : Loaded dmov page dest view) {address : Word} (index : Nat) {word : Word}
    (place : address.toNat = 0x400000 + 4 * index) (found : (ioWords page)[index]? = some word) :
    dmov.ram32 address = word := by
  have bound : index < 9 := (List.getElem?_eq_some_iff.mp found).1
  rw [ram32, place, loadWord_sees loaded.sees, loaded.io index word found]
  intro offset below
  exact .inl (.inl ⟨by omega, by omega⟩)

theorem Loaded.ram32_cl (loaded : Loaded dmov page dest view) {address : Word} (index : Nat) {word : Word}
    (place : address.toNat = 0x401000 + 4 * index)
    (found : ((readDescriptors dest).flatMap Descriptor.words)[index]? = some word) :
    dmov.ram32 address = word := by
  have bound : index < 32 := (List.getElem?_eq_some_iff.mp found).1
  rw [ram32, place, loadWord_sees loaded.sees, loaded.cl index word found]
  intro offset below
  exact .inl (.inr (.inl ⟨by omega, by omega⟩))

def descriptorAt (index : Nat) : Word := BitVec.ofNat 32 (0x401000 + 16 * index)

theorem toNat_descriptorAt {index field : Nat} (small : index < 8) (word : field < 4) :
    (descriptorAt index + BitVec.ofNat 32 (4 * field)).toNat = 0x401000 + 4 * (4 * index + field) := by
  rw [descriptorAt, BitVec.toNat_add, BitVec.toNat_ofNat, BitVec.toNat_ofNat]
  omega

theorem descriptorAt_succ (index : Nat) : descriptorAt index + 16 = descriptorAt (index + 1) :=
  (BitVec.ofNat_add ..).symm

/-- The words of a descriptor list, four for each descriptor. -/
theorem getElem?_words {descriptors : List Descriptor} {index field : Nat} {descriptor : Descriptor}
    (found : descriptors[index]? = some descriptor) (word : field < 4) :
    (descriptors.flatMap Descriptor.words)[4 * index + field]? = descriptor.words[field]? := by
  induction descriptors generalizing index with
  | nil => simp at found
  | cons first rest ih =>
    have size (one : Descriptor) : one.words.length = 4 := rfl
    rw [List.flatMap_cons]
    cases index with
    | zero =>
      obtain rfl : first = descriptor := by simpa using found
      rw [Nat.mul_zero, Nat.zero_add, List.getElem?_append_left (by rw [size]; exact word)]
    | succ index =>
      rw [List.getElem?_append_right (by rw [size]; omega), size, ← ih (by simpa using found)]
      congr 1
      omega

theorem Loaded.ram32_descriptor (loaded : Loaded dmov page dest view) {index field : Nat}
    {descriptor : Descriptor} (found : (readDescriptors dest)[index]? = some descriptor) (word : field < 4)
    {value : Word} (here : descriptor.words[field]? = some value) :
    dmov.ram32 (descriptorAt index + BitVec.ofNat 32 (4 * field)) = value := by
  have small : index < 8 := (List.getElem?_eq_some_iff.mp found).1
  exact loaded.ram32_cl _ (toNat_descriptorAt small word) ((getElem?_words found word).trans here)

/-- A descriptor is fetched and executed; the mark of the last one ends the list. -/
theorem Loaded.runCmdlist (loaded : Loaded dmov page dest view) {index : Nat} {descriptor : Descriptor}
    (found : (readDescriptors dest)[index]? = some descriptor) (fuel : Nat) :
    dmov.runCmdlist (descriptorAt index) (fuel + 1) =
      if descriptor.cmd &&& cmdLc ≠ 0 then
        dmov.execDescriptor descriptor.src descriptor.dst descriptor.len
      else
        (dmov.execDescriptor descriptor.src descriptor.dst descriptor.len).runCmdlist
          (descriptorAt (index + 1)) fuel := by
  have cmd : dmov.ram32 (descriptorAt index) = descriptor.cmd := by
    have first := loaded.ram32_descriptor found (show 0 < 4 by omega) rfl
    have start : descriptorAt index + BitVec.ofNat 32 (4 * 0) = descriptorAt index := BitVec.add_zero _
    rwa [start] at first
  have src : dmov.ram32 (descriptorAt index + 4) = descriptor.src :=
    loaded.ram32_descriptor found (show 1 < 4 by omega) rfl
  have dst : dmov.ram32 (descriptorAt index + 8) = descriptor.dst :=
    loaded.ram32_descriptor found (show 2 < 4 by omega) rfl
  have len : dmov.ram32 (descriptorAt index + 12) = descriptor.len :=
    loaded.ram32_descriptor found (show 3 < 4 by omega) rfl
  rw [DmovModel.runCmdlist, cmd, src, dst, len, descriptorAt_succ]

/-- The controller with command and address in its registers. -/
def addressed (nand : NandController) (page : Word) : NandController :=
  (((nand.write 0 0x33 4).write 4 (page <<< 16) 4).write 8 ((page >>> 16) &&& 0xff) 4).write 12 4 4

theorem Loaded.exec_address (loaded : Loaded dmov page dest view) :
    dmov.execDescriptor ioArea nandBase 16 = { dmov with nand := addressed dmov.nand page } := by
  have cmd : dmov.ram32 (ioArea + 0) = 0x33 := loaded.ram32_io 0 (by decide) rfl
  have addr0 : dmov.ram32 (ioArea + 4) = page <<< 16 := loaded.ram32_io 1 (by decide) rfl
  have addr1 : dmov.ram32 (ioArea + 8) = (page >>> 16) &&& 0xff := loaded.ram32_io 2 (by decide) rfl
  have chip : dmov.ram32 (ioArea + 12) = 4 := loaded.ram32_io 3 (by decide) rfl
  have source : isNand ioArea = false := by decide
  have target : isNand nandBase = true := by decide
  have other : nandBase ≠ nandFlashBuffer := by decide
  have aligned : nandBase &&& ~~~3#32 = nandBase := by decide
  rw [execDescriptor, source, target]
  simp only [Bool.false_eq_true, if_false, if_true, toNand, if_neg other, if_pos aligned]
  have first : nandBase - nandBase + 0 = 0 := by decide
  have second : nandBase - nandBase + 4 = 4 := by decide
  have third : nandBase - nandBase + 8 = 8 := by decide
  have fourth : nandBase - nandBase + 12 = 12 := by decide
  have low (off : Word) (small : off < 0x400) : ¬ off ≥ 0x400 := by
    rw [ge_iff_le, BitVec.not_le]
    exact small
  simp only [writeRegs, cmd, addr0, addr1, chip, first, second, third, fourth,
    if_neg (low 0 (by decide)), if_neg (low 4 (by decide)), if_neg (low 8 (by decide)),
    if_neg (low 12 (by decide)), addressed]

/-- A word of memory into one register. -/
theorem exec_register (dmov : DmovModel) {src dst ln : Word} (source : isNand src = false)
    (target : isNand dst = true) (window : dst ≠ nandFlashBuffer) (single : ln ≠ 16) :
    dmov.execDescriptor src dst ln = { dmov with
      nand := dmov.nand.write (dst - nandBase) (dmov.ram32 src) (min ln.toNat 4)
      bufCursor := if dst = nandBase + 0x10 then 0 else dmov.bufCursor } := by
  rw [execDescriptor, source, target]
  simp only [Bool.false_eq_true, if_false, if_true, toNand, if_neg window, if_neg single]

theorem Loaded.exec_config (loaded : Loaded dmov page dest view) :
    dmov.execDescriptor (ioArea + 0x10) (nandBase + 0x20) 8 =
      { dmov with nand := dmov.nand.write 0x20 0xa25400c0 4 } := by
  have value : dmov.ram32 (ioArea + 0x10) = 0xa25400c0 := loaded.ram32_io 4 (by decide) rfl
  have other : nandBase + 0x20 ≠ nandBase + 0x10 := by decide
  rw [exec_register dmov (by decide) (by decide) (by decide) (by decide), value, if_neg other]
  rfl

/-- The execution register starts the read and sets the cursor back. -/
theorem Loaded.exec_start (loaded : Loaded dmov page dest view) :
    dmov.execDescriptor (ioArea + 0x18) (nandBase + 0x10) 4 =
      { dmov with nand := dmov.nand.write 0x10 1 4, bufCursor := 0 } := by
  have value : dmov.ram32 (ioArea + 0x18) = 1 := loaded.ram32_io 6 (by decide) rfl
  rw [exec_register dmov (by decide) (by decide) (by decide) (by decide), value, if_pos rfl]
  rfl

theorem exec_status (dmov : DmovModel) :
    dmov.execDescriptor (nandBase + 0x14) (ioArea + 0x24) 8 =
      { dmov with mem := writeBytes dmov.mem 0x400024 (wordBytes dmov.nand.status) } := by
  have source : isNand (nandBase + 0x14) = true := by decide
  have window : nandBase + 0x14 ≠ nandFlashBuffer := by decide
  have status : dmov.nand.read (nandBase + 0x14 - nandBase) = dmov.nand.status := rfl
  have place : (ioArea + 0x24).toNat = 0x400024 := by decide
  rw [execDescriptor, source]
  simp only [if_true, fromNand, if_neg window, status, place]

/-- The cursor does not wrap inside the page. -/
theorem drained_eq (nand : NandController) {start count : Nat} (inside : start + count ≤ 2048) :
    (List.range count).map (fun index => nand.bufferByte ((start + index) % pageData)) =
      segment nand.bufferByte start count := by
  apply List.map_congr_left
  intro index member
  have below := List.mem_range.mp member
  rw [pageData, Nat.mod_eq_of_lt (by omega)]

/-- The next quarter of the page buffer. -/
theorem exec_drain {start : Nat} (inside : start + 512 ≤ 2048) (cursor : dmov.bufCursor = start)
    (target : Word) :
    dmov.execDescriptor nandFlashBuffer target 512 =
      { dmov with
        mem := writeBytes dmov.mem target.toNat (segment dmov.nand.bufferByte start 512)
        bufCursor := (start + 512) % 2048 } := by
  have source : isNand nandFlashBuffer = true := by decide
  have length : min (512 : Word).toNat pageData = 512 := by decide
  have some : ¬ (segment dmov.nand.bufferByte start 512).isEmpty = true := by
    intro none
    have size := length_segment dmov.nand.bufferByte start 512
    rw [List.isEmpty_iff.mp none] at size
    cases size
  rw [execDescriptor, if_pos source, fromNand, if_pos rfl, length, cursor, drained_eq dmov.nand inside]
  dsimp only
  rw [if_neg some]
  rfl

/-- The controller after the first three descriptors. -/
def started (nand : NandController) (page : Word) : NandController :=
  ((addressed nand page).write 0x20 0xa25400c0 4).write 0x10 1 4

/-- The page that arrives for a page asked for. -/
def arrivingPage (page : Word) : Word := NandController.decodePage (page <<< 16) ((page >>> 16) &&& 0xff)

theorem started_eq (nand : NandController) (page : Word) :
    ∃ reg, started nand page =
      if (arrivingPage page).toNat < nand.dataBlob.length / pageData then
        { nand with
          lastCmd := 0x33
          reg
          buffer := patch nand.buffer 0 (NandController.imagePage nand.dataBlob (arrivingPage page).toNat)
          status := fsReady }
      else { nand with lastCmd := 0x33, reg, status := fsOpErr } :=
  ⟨_, rfl⟩

/-- The number the decoder makes of a page: bits 16 to 23 land on bits 8 to 15, and a page whose
low half is zero is taken for a linear address. -/
def aliasPage (page : Nat) : Nat :=
  if page % 0x10000 = 0 then 0 else page % 0x10000 ||| page / 0x10000 % 0x100 * 0x100

theorem toNat_arrivingPage (page : Word) : (arrivingPage page).toNat = aliasPage page.toNat := by
  have bound := page.isLt
  have byte (value : Nat) : value &&& 0xff = value % 0x100 := Nat.and_two_pow_sub_one_eq_mod value 8
  have mask : (0xff : Word).toNat = 0xff := rfl
  have limit : (0x10000 : Word).toNat = 0x10000 := rfl
  have row : (page <<< 16).toNat = page.toNat % 0x10000 * 0x10000 := by
    rw [BitVec.toNat_shiftLeft, Nat.shiftLeft_eq]
    omega
  have high : ((page >>> 16) &&& 0xff).toNat = page.toNat / 0x10000 % 0x100 := by
    rw [BitVec.toNat_and, BitVec.toNat_ushiftRight, Nat.shiftRight_eq_div_pow, mask, byte]
  rw [arrivingPage, NandController.decodePage, aliasPage]
  by_cases low : page.toNat % 0x10000 = 0
  · have small : ¬ page <<< 16 ≥ 0x10000 := by
      rw [ge_iff_le, BitVec.le_def, row, low, limit]
      omega
    rw [if_neg small, if_pos low, row, low]
  · have large : page <<< 16 ≥ 0x10000 := by
      rw [ge_iff_le, BitVec.le_def, row, limit]
      omega
    have left : (page <<< 16 >>> 16).toNat = page.toNat % 0x10000 := by
      rw [BitVec.toNat_ushiftRight, row, Nat.shiftRight_eq_div_pow]
      omega
    have right : (((page >>> 16) &&& 0xff &&& 0xff) <<< 8).toNat =
        page.toNat / 0x10000 % 0x100 * 0x100 := by
      rw [BitVec.toNat_shiftLeft, BitVec.toNat_and, high, mask, byte, Nat.shiftLeft_eq]
      omega
    rw [if_pos large, if_neg low, BitVec.toNat_or, left, right]

theorem aliasPage_low {page : Nat} (small : page < 0x10000) : aliasPage page = page := by
  have high : page / 0x10000 = 0 := Nat.div_eq_of_lt small
  have low : page % 0x10000 = page := Nat.mod_eq_of_lt small
  rw [aliasPage, high, low]
  split
  · rename_i zero
    exact zero.symm
  · simp

theorem aliasPage_le (page : Nat) : aliasPage page ≤ page := by
  by_cases small : page < 0x10000
  · exact (aliasPage_low small).le
  · have bound : aliasPage page < 2 ^ 16 := by
      rw [aliasPage]
      split
      · omega
      · exact Nat.or_lt_two_pow (by omega) (by omega)
    omega

theorem length_imagePage {dataBlob : List Byte} {page : Nat} (inside : page < dataBlob.length / pageData) :
    (NandController.imagePage dataBlob page).length = 2048 := by
  rw [pageData] at inside
  rw [NandController.imagePage, List.length_take, List.length_drop, pageData]
  have whole := Nat.div_mul_le_self dataBlob.length 2048
  have room : (page + 1) * 2048 ≤ dataBlob.length / 2048 * 2048 := Nat.mul_le_mul_right 2048 inside
  omega

/-- The read succeeds, with the page that arrives in the buffer. -/
theorem started_spec (nand : NandController) {page : Word}
    (inside : page.toNat < nand.dataBlob.length / pageData) :
    (started nand page).status = fsReady ∧
      segment (started nand page).bufferByte 0 2048 =
        NandController.imagePage nand.dataBlob (aliasPage page.toNat) := by
  have arrives := (aliasPage_le page.toNat).trans_lt inside
  obtain ⟨reg, after⟩ := started_eq nand page
  rw [toNat_arrivingPage, if_pos arrives] at after
  rw [after]
  refine ⟨rfl, ?_⟩
  have size := length_imagePage arrives
  have filled := segment_patch nand.buffer 0 (NandController.imagePage nand.dataBlob (aliasPage page.toNat))
  rw [size] at filled
  refine Eq.trans (segment_congr fun index below => ?_) filled
  have bound : 0 + index < pageFull := by
    rw [pageFull]
    omega
  rw [NandController.bufferByte, if_pos bound]

theorem Loaded.of_mem {other : DmovModel} (loaded : Loaded dmov page dest view)
    (same : other.mem = dmov.mem) : Loaded other page dest view :=
  ⟨same ▸ loaded.sees, loaded.io, loaded.cl⟩

/-- A destination apart from the areas the driver uses. -/
structure Apart (mem : Memory) (dest : Word) : Prop where
  owns : mem.Owns (nandRegion dest.toNat)
  apart : ∀ index, index < 2048 → ¬ descriptorArea (dest.toNat + index)

theorem Apart.fits (room : Apart mem dest) : dest.toNat + 2048 ≤ 0x100000000 := by
  have last : nandRegion dest.toNat (dest.toNat + 2047) := .inr ⟨by omega, by omega⟩
  have mapped := (Memory.isSome_cell.mp (room.owns.mapped _ last)).1
  omega

theorem Loaded.drain (loaded : Loaded dmov page dest view) (room : Apart mem dest) {start : Nat}
    (bytes : List Byte) (inside : start + bytes.length ≤ 2048) :
    Loaded { dmov with mem := writeBytes dmov.mem (dest.toNat + start) bytes } page dest
      (patch view (dest.toNat + start) bytes) := by
  apply loaded.write
  · intro index below
    exact .inr ⟨by omega, by omega⟩
  · intro index below
    have clear := room.apart (start + index) (by omega)
    rw [← Nat.add_assoc] at clear
    constructor
    · intro io
      exact clear (.inl ⟨io.1, by omega⟩)
    · intro cl
      exact clear (.inr (.inl cl))

/-- The data mover when it starts on the pointer list. -/
def prepared (dmov : DmovModel) (page dest : Word) : DmovModel :=
  { dmov with
    mem := wram (wdesc (wram dmov.mem ioArea.toNat (ioWords page)) clArea.toNat (readDescriptors dest))
      ptrArea.toNat [clArea >>> 3 ||| cmdPtrLp]
    execCount := dmov.execCount + 1 }

theorem dmovReadPage_eq (dmov : DmovModel) (page dest : Word) :
    dmov.dmovReadPage page dest =
      { (dmov.prepared page dest).runPtrlist ptrArea 16 with lastChan := dmovNandChan } := by
  have start : ((ptrArea >>> 3 ||| cmdPtrLp) &&& 0x7fffffff) <<< 3 = ptrArea := by decide
  simp only [dmovReadPage, execCmdptr, start, prepared]

/-- The driver's words are in place before the list is run. -/
theorem loaded_prepared (room : Apart dmov.mem dest) (page : Word) :
    ∃ view, Loaded (dmov.prepared page dest) page dest view ∧
      (dmov.prepared page dest).ram32 ptrArea = clArea >>> 3 ||| cmdPtrLp := by
  have io : ioArea.toNat = 0x400000 := rfl
  have cl : clArea.toNat = 0x401000 := rfl
  have ptr : ptrArea.toNat = 0x402000 := rfl
  have values := wram_sees room.owns.sees 0x400000 (ioWords page) fun index below =>
    .inl (.inl ⟨by omega, by simp [ioWords] at below; omega⟩)
  have descriptors := wdesc_sees values 0x401000 (readDescriptors dest) fun index below =>
    .inl (.inr (.inl ⟨by omega, by simp [readDescriptors] at below; omega⟩))
  have pointer := wram_sees descriptors 0x402000 [clArea >>> 3 ||| cmdPtrLp] fun index below =>
    .inl (.inr (.inr ⟨by omega, by simp at below; omega⟩))
  rw [prepared, io, cl, ptr]
  have apart (address : Nat) (store : Nat → Byte) (start : Nat) (bytes : List Byte)
      (clear : address + 4 ≤ start ∨ start + bytes.length ≤ address) :
      wordAt (patch store start bytes) address = wordAt store address := by
    rw [wordAt, segment_patch_apart clear, wordAt]
  have table : (((readDescriptors dest).flatMap Descriptor.words).flatMap wordBytes).length = 128 :=
    length_words _
  generalize wram (wdesc (wram dmov.mem 0x400000 (ioWords page)) 0x401000 (readDescriptors dest)) 0x402000
    [clArea >>> 3 ||| cmdPtrLp] = after at pointer ⊢
  have entry : loadWord after 0x402000 = clArea >>> 3 ||| cmdPtrLp := by
    rw [loadWord_sees pointer fun index below => .inl (.inr (.inr ⟨by omega, by omega⟩))]
    exact wordAt_first _ _ _ []
  refine ⟨_, ⟨pointer, fun index word found => ?_, fun index word found => ?_⟩, entry⟩
  · have bound : index < 9 := (List.getElem?_eq_some_iff.mp found).1
    rw [apart _ _ _ _ (.inl (by omega)), apart _ _ _ _ (.inl (by omega))]
    exact wordAt_words found
  · have bound : index < 32 := (List.getElem?_eq_some_iff.mp found).1
    rw [apart _ _ _ _ (.inl (by omega))]
    exact wordAt_words found

theorem toNat_quarter (room : Apart mem dest) {start : Word} (inside : start.toNat < 2048) :
    (dest + start).toNat = dest.toNat + start.toNat := by
  have fits := room.fits
  rw [BitVec.toNat_add]
  omega

/-- The four quarters together are the page. -/
theorem patch_quarters (view buffer : Nat → Byte) (start : Nat) :
    patch (patch (patch (patch view start (segment buffer 0 512)) (start + 512) (segment buffer 512 512))
      (start + 1024) (segment buffer 1024 512)) (start + 1536) (segment buffer 1536 512) =
      patch view start (segment buffer 0 2048) := by
  have second := patch_append view start (segment buffer 0 512) (segment buffer 512 512)
  have third := patch_append view start (segment buffer 0 1024) (segment buffer 1024 512)
  have fourth := patch_append view start (segment buffer 0 1536) (segment buffer 1536 512)
  rw [length_segment] at second third fourth
  have half : segment buffer 0 1024 = segment buffer 0 512 ++ segment buffer 512 512 :=
    segment_add buffer 0 512 512
  have most : segment buffer 0 1536 = segment buffer 0 1024 ++ segment buffer 1024 512 :=
    segment_add buffer 0 1024 512
  have whole : segment buffer 0 2048 = segment buffer 0 1536 ++ segment buffer 1536 512 :=
    segment_add buffer 0 1536 512
  rw [second, ← half, third, ← most, fourth, ← whole]

/-- Command and address, configuration, execution and status. -/
theorem Loaded.runCmdlist_command (loaded : Loaded dmov page dest view) :
    dmov.runCmdlist (descriptorAt 0) 64 =
      ({ dmov with
        mem := writeBytes dmov.mem 0x400024 (wordBytes (started dmov.nand page).status)
        nand := started dmov.nand page
        bufCursor := 0 } : DmovModel).runCmdlist (descriptorAt 4) 60 := by
  have goesOn : ¬ (0 : Word) &&& cmdLc ≠ 0 := by decide
  have command : ¬ (5 <<< 7 : Word) &&& cmdLc ≠ 0 := by decide
  have sync : ¬ (4 <<< 3 : Word) &&& cmdLc ≠ 0 := by decide
  have fetch0 : (readDescriptors dest)[0]? = some ⟨5 <<< 7, ioArea, nandBase, 16⟩ := rfl
  have fetch1 : (readDescriptors dest)[1]? = some ⟨0, ioArea + 0x10, nandBase + 0x20, 8⟩ := rfl
  have fetch2 : (readDescriptors dest)[2]? = some ⟨0, ioArea + 0x18, nandBase + 0x10, 4⟩ := rfl
  have fetch3 : (readDescriptors dest)[3]? = some ⟨4 <<< 3, nandBase + 0x14, ioArea + 0x24, 8⟩ := rfl
  have second : Loaded { dmov with nand := addressed dmov.nand page } page dest view :=
    loaded.of_mem rfl
  have third : Loaded { dmov with nand := (addressed dmov.nand page).write 0x20 0xa25400c0 4 } page dest
      view := loaded.of_mem rfl
  have fourth : Loaded { dmov with nand := started dmov.nand page, bufCursor := 0 } page dest view :=
    loaded.of_mem rfl
  rw [loaded.runCmdlist fetch0, if_neg command, loaded.exec_address, second.runCmdlist fetch1,
    if_neg goesOn, second.exec_config, third.runCmdlist fetch2, if_neg goesOn, third.exec_start]
  change ({ dmov with nand := started dmov.nand page, bufCursor := 0 } : DmovModel).runCmdlist
    (descriptorAt 3) 61 = _
  rw [fourth.runCmdlist fetch3, if_neg sync, exec_status]

/-- The data mover after a quarter of the page. -/
def drained (dmov : DmovModel) (dest : Word) (start : Nat) : DmovModel :=
  { dmov with
    mem := writeBytes dmov.mem (dest.toNat + start) (segment dmov.nand.bufferByte start 512)
    bufCursor := (start + 512) % 2048 }

@[simp] theorem drained_nand (dmov : DmovModel) (dest : Word) (start : Nat) :
    (dmov.drained dest start).nand = dmov.nand := by simp only [drained]

theorem Loaded.drained (loaded : Loaded dmov page dest view) (room : Apart mem dest) {start : Nat}
    (inside : start + 512 ≤ 2048) :
    Loaded (dmov.drained dest start) page dest
      (patch view (dest.toNat + start) (segment dmov.nand.bufferByte start 512)) := by
  have size := length_segment dmov.nand.bufferByte start 512
  exact (loaded.drain room (segment dmov.nand.bufferByte start 512) (by omega)).of_mem rfl

theorem Loaded.runCmdlist_quarter (loaded : Loaded dmov page dest view) {index start : Nat}
    {cmd target : Word} (fetch : (readDescriptors dest)[index]? = some ⟨cmd, nandFlashBuffer, target, 512⟩)
    (place : target.toNat = dest.toNat + start) (inside : start + 512 ≤ 2048)
    (cursor : dmov.bufCursor = start) (fuel : Nat) :
    dmov.runCmdlist (descriptorAt index) (fuel + 1) =
      if cmd &&& cmdLc ≠ 0 then dmov.drained dest start
      else (dmov.drained dest start).runCmdlist (descriptorAt (index + 1)) fuel := by
  rw [loaded.runCmdlist fetch, exec_drain inside cursor, place]
  rfl

/-- The four quarters of the page. -/
theorem Loaded.runCmdlist_drain (loaded : Loaded dmov page dest view) (room : Apart mem dest)
    (cursor : dmov.bufCursor = 0) :
    (dmov.runCmdlist (descriptorAt 4) 60).nand = dmov.nand ∧
      (dmov.runCmdlist (descriptorAt 4) 60).mem.Sees (nandRegion dest.toNat)
        (patch view dest.toNat (segment dmov.nand.bufferByte 0 2048)) := by
  have goesOn : ¬ (0 : Word) &&& cmdLc ≠ 0 := by decide
  have last : cmdLc &&& cmdLc ≠ 0 := by decide
  have fetch4 : (readDescriptors dest)[4]? = some ⟨0, nandFlashBuffer, dest, 512⟩ := rfl
  have fetch5 : (readDescriptors dest)[5]? = some ⟨0, nandFlashBuffer, dest + 512, 512⟩ := rfl
  have fetch6 : (readDescriptors dest)[6]? = some ⟨0, nandFlashBuffer, dest + 1024, 512⟩ := rfl
  have fetch7 : (readDescriptors dest)[7]? = some ⟨cmdLc, nandFlashBuffer, dest + 1536, 512⟩ := rfl
  have to5 : (dest + 512).toNat = dest.toNat + 512 := toNat_quarter room (by decide)
  have to6 : (dest + 1024).toNat = dest.toNat + 1024 := toNat_quarter room (by decide)
  have to7 : (dest + 1536).toNat = dest.toNat + 1536 := toNat_quarter room (by decide)
  have first := loaded.drained room (show 0 + 512 ≤ 2048 by omega)
  have second := first.drained room (show 512 + 512 ≤ 2048 by omega)
  have third := second.drained room (show 1024 + 512 ≤ 2048 by omega)
  have fourth := third.drained room (show 1536 + 512 ≤ 2048 by omega)
  have ran : dmov.runCmdlist (descriptorAt 4) 60 =
      (((dmov.drained dest 0).drained dest 512).drained dest 1024).drained dest 1536 := by
    rw [loaded.runCmdlist_quarter fetch4 rfl (by omega) cursor, if_neg goesOn,
      first.runCmdlist_quarter fetch5 to5 (by omega) rfl, if_neg goesOn,
      second.runCmdlist_quarter fetch6 to6 (by omega) rfl, if_neg goesOn,
      third.runCmdlist_quarter fetch7 to7 (by omega) rfl, if_pos last]
  have sees := fourth.sees
  simp only [drained_nand, Nat.add_zero, patch_quarters] at sees
  rw [ran]
  exact ⟨by simp only [drained_nand], sees⟩

/-- The page that arrives is in the destination, and the flash is ready. -/
theorem dmovReadPage_result (room : Apart dmov.mem dest)
    (inside : page.toNat < dmov.nand.dataBlob.length / pageData) :
    segment (dmov.dmovReadPage page dest).mem.byteAt dest.toNat 2048 =
        NandController.imagePage dmov.nand.dataBlob (aliasPage page.toNat) ∧
      (dmov.dmovReadPage page dest).nand.read rFlashStatus = fsReady := by
  obtain ⟨view, loaded, pointer⟩ := loaded_prepared room page
  obtain ⟨status, arrived⟩ := started_spec dmov.nand inside
  have nand : (dmov.prepared page dest).nand = dmov.nand := by simp only [prepared]
  have some : clArea >>> 3 ||| cmdPtrLp ≠ 0 := by decide
  have list : ((clArea >>> 3 ||| cmdPtrLp) &&& 0x7fffffff) <<< 3 = descriptorAt 0 := by decide
  have only : (clArea >>> 3 ||| cmdPtrLp) &&& cmdPtrLp ≠ 0 := by decide
  have ran : (dmov.prepared page dest).runPtrlist ptrArea 16 =
      (dmov.prepared page dest).runCmdlist (descriptorAt 0) 64 := by
    rw [runPtrlist, pointer, if_neg some, list]
    simp only [if_pos only]
  -- the status word lies behind the values, so the list stays as it was
  have noted := loaded.write 0x400024 (wordBytes (started dmov.nand page).status)
    (fun index below => .inl (.inl ⟨by omega, by rw [length_wordBytes] at below; omega⟩))
    (fun index below => by rw [length_wordBytes] at below; omega)
  have waiting : Loaded { dmov.prepared page dest with
      mem := writeBytes (dmov.prepared page dest).mem 0x400024 (wordBytes (started dmov.nand page).status)
      nand := started dmov.nand page
      bufCursor := 0 } page dest _ := noted.of_mem rfl
  obtain ⟨controller, sees⟩ := waiting.runCmdlist_drain room rfl
  rw [dmovReadPage_eq, ran, loaded.runCmdlist_command, nand]
  generalize DmovModel.runCmdlist _ (descriptorAt 4) 60 = after at controller sees ⊢
  dsimp only at controller sees ⊢
  constructor
  · have bytes : segment after.mem.byteAt dest.toNat 2048 =
        segment (patch _ dest.toNat (segment (started dmov.nand page).bufferByte 0 2048)) dest.toNat 2048 :=
      segment_congr fun index below => sees.holds _ (.inr ⟨by omega, by omega⟩)
    have whole := segment_patch (patch view 0x400024 (wordBytes (started dmov.nand page).status)) dest.toNat
      (segment (started dmov.nand page).bufferByte 0 2048)
    rw [length_segment] at whole
    rw [bytes, whole, arrived]
  · rw [controller]
    exact status

/-- The destination holds the page asked for, and the flash is ready. -/
def PageReadExact (dmov : DmovModel) (page dest : Word) : Prop :=
  segment (dmov.dmovReadPage page dest).mem.byteAt dest.toNat 2048 =
      NandController.imagePage dmov.nand.dataBlob page.toNat ∧
    (dmov.dmovReadPage page dest).nand.read rFlashStatus = fsReady

/-- Whatever was done with the controller and the data mover before, a page read is exact below
page 0x10000, and above only where the dump has the same bytes at the page that arrives. -/
theorem pageReadExact_iff (room : Apart dmov.mem dest)
    (inside : page.toNat < dmov.nand.dataBlob.length / pageData) :
    PageReadExact dmov page dest ↔
      page.toNat < 0x10000 ∨
        NandController.imagePage dmov.nand.dataBlob (aliasPage page.toNat) =
          NandController.imagePage dmov.nand.dataBlob page.toNat := by
  obtain ⟨bytes, ready⟩ := dmovReadPage_result room inside
  unfold PageReadExact
  rw [bytes]
  constructor
  · intro exact
    exact .inr exact.1
  · rintro (small | same)
    · rw [aliasPage_low small]
      exact ⟨rfl, ready⟩
    · exact ⟨same, ready⟩

/-- Memory as the tool that reads a partition maps it. -/
def partitionMemory : Memory :=
  ((Memory.blank.ucMemMap 0x400000 0x100000 .all).2.ucMemMap 0x10000000 0x400000 .all).2

theorem partitionMemory_cell {address : Nat}
    (inside : (0x400000 ≤ address ∧ address < 0x500000) ∨
      (0x10000000 ≤ address ∧ address < 0x10400000)) :
    partitionMemory.cell address = some (.ram address) := by
  have driver {page : Nat} : page ∈ pageSpan 0x400000 0x100000 ↔ 0x400 ≤ page ∧ page < 0x500 := by
    rw [Span.mem_iff]
    exact Iff.rfl
  have target {page : Nat} : page ∈ pageSpan 0x10000000 0x400000 ↔ 0x10000 ≤ page ∧ page < 0x10400 := by
    rw [Span.mem_iff]
    exact Iff.rfl
  have blank : Memory.blank.pages.free (pageSpan 0x400000 0x100000) = true :=
    PageTable.free_iff.mpr fun _ _ => rfl
  have free : (Memory.blank.ucMemMap 0x400000 0x100000 .all).2.pages.free
      (pageSpan 0x10000000 0x400000) = true := by
    refine PageTable.free_iff.mpr fun page member => ?_
    have outside : page ∉ pageSpan 0x400000 0x100000 := by
      rw [target] at member
      rw [driver]
      omega
    rw [Memory.ucMemMap_free blank]
    simp only [PageTable.install_of_not_mem outside]
    rfl
  rcases inside with first | second
  · have outside : address / 0x1000 ∉ pageSpan 0x10000000 0x400000 := by
      rw [target]
      omega
    rw [partitionMemory, Memory.cell_ucMemMap_outside free outside]
    refine Memory.cell_ucMemMap blank (by omega) ?_
    rw [driver]
    omega
  · refine Memory.cell_ucMemMap free (by omega) ?_
    rw [target]
    omega

theorem partitionMemory_apart : Apart partitionMemory 0x10000000 := by
  have dest : (0x10000000 : Word).toNat = 0x10000000 := rfl
  refine ⟨Memory.owns_ram fun address inside => partitionMemory_cell ?_, fun index below area => ?_⟩
  · rw [dest] at inside
    unfold nandRegion descriptorArea at inside
    omega
  · rw [dest] at area
    unfold descriptorArea at area
    omega

/-- A data mover over a dump, with nothing done yet. -/
def overDump (dataBlob : List Byte) : DmovModel := ⟨partitionMemory, .initial dataBlob, 0, 0, 0⟩

theorem overDump_dataBlob (dataBlob : List Byte) : (overDump dataBlob).nand.dataBlob = dataBlob := rfl

theorem overDump_apart (dataBlob : List Byte) : Apart (overDump dataBlob).mem 0x10000000 := by
  simp only [overDump]
  exact partitionMemory_apart

/-- The only page of a small dump. -/
theorem pageReadExact_iff_onePage :
    Apart (overDump (List.replicate 2048 7)).mem 0x10000000 ∧
      (PageReadExact (overDump (List.replicate 2048 7)) 0 0x10000000 ↔
        (0 : Word).toNat < 0x10000 ∨
          NandController.imagePage (overDump (List.replicate 2048 7)).nand.dataBlob
              (aliasPage (0 : Word).toNat) =
            NandController.imagePage (overDump (List.replicate 2048 7)).nand.dataBlob (0 : Word).toNat) := by
  have inside : (0 : Word).toNat < (overDump (List.replicate 2048 7)).nand.dataBlob.length / pageData := by
    rw [overDump_dataBlob, List.length_replicate]
    decide
  exact ⟨overDump_apart _, pageReadExact_iff (overDump_apart _) inside⟩

/-- A dump that is zero except for page 0x10001. -/
def tallDump : List Byte := List.replicate (0x10001 * 2048) 0 ++ List.replicate 2048 1

/-- Page 0x101 arrives for page 0x10001. -/
theorem not_pageReadExact_tallDump :
    Apart (overDump tallDump).mem 0x10000000 ∧
      (0x10001 : Word).toNat < (overDump tallDump).nand.dataBlob.length / pageData ∧
      ¬ PageReadExact (overDump tallDump) 0x10001 0x10000000 := by
  have page : (0x10001 : Word).toNat = 0x10001 := rfl
  have decoded : aliasPage 0x10001 = 0x101 := by decide
  have length : tallDump.length = 0x10002 * 2048 := by
    rw [tallDump, List.length_append, List.length_replicate, List.length_replicate]
  have inside : (0x10001 : Word).toNat < (overDump tallDump).nand.dataBlob.length / pageData := by
    rw [overDump_dataBlob, length, page, pageData]
    omega
  have asked : NandController.imagePage tallDump 0x10001 = List.replicate 2048 1 := by
    rw [NandController.imagePage, tallDump, pageData, List.drop_append, List.drop_replicate,
      List.length_replicate, Nat.sub_self, List.replicate_zero, List.nil_append,
      List.drop_zero, List.take_replicate, Nat.min_self]
  have arrives : NandController.imagePage tallDump 0x101 = List.replicate 2048 0 := by
    rw [NandController.imagePage, tallDump, pageData, List.drop_append_of_le_length, List.drop_replicate,
      List.take_append_of_le_length, List.take_replicate]
    · congr 1
    · rw [List.length_replicate]
      omega
    · rw [List.length_replicate]
      omega
  refine ⟨overDump_apart _, inside, fun exact => ?_⟩
  have bytes := (dmovReadPage_result (overDump_apart _) inside).1.symm.trans exact.1
  rw [page, decoded, overDump_dataBlob, arrives, asked, List.replicate_inj] at bytes
  simp at bytes

end DmovModel

end ZeeboLle.Device

import ZeeboLle.Device.DmovReference
import ZeeboLle.Device.RegisterBlocks

/-! The port of the flash controller and the data mover against its reference. One relation holds
between the two states; every descriptor keeps it, and so do command lists, calls and sequences of
calls, whatever the descriptors do to memory, the list itself included. -/
namespace ZeeboLle.Device

open Paging Unicorn

theorem push_byte (value : Word) (byte : Byte) :
    value <<< 8 ||| byte.setWidth 32 = BitVec.ofNat 32 (byte.toNat + 0x100 * value.toNat) := by
  apply BitVec.eq_of_toNat_eq
  have small := byte.isLt
  have disjoint := Nat.shiftLeft_add_eq_or_of_lt small value.toNat
  have bits : (value <<< 8 ||| byte.setWidth 32).toNat = (value.toNat <<< 8 ||| byte.toNat) % 2 ^ 32 := by
    rw [BitVec.toNat_or, BitVec.toNat_shiftLeft, BitVec.toNat_setWidth, Nat.or_mod_two_pow]
  rw [bits, ← disjoint, BitVec.toNat_ofNat, Nat.shiftLeft_eq]
  omega

/-- A word of the buffer is its four bytes, low byte first. -/
theorem bufferWord_eq (nand : NandController) (index : Nat) :
    nand.bufferWord index = BitVec.ofNat 32 (leValue (segment nand.bufferByte index 4)) := by
  have bytes : segment nand.bufferByte index 4 = [nand.bufferByte index, nand.bufferByte (index + 1),
      nand.bufferByte (index + 2), nand.bufferByte (index + 3)] := rfl
  rw [bytes, NandController.bufferWord]
  simp only [List.foldl_cons, List.foldl_nil, push_byte, leValue, Nat.add_zero]
  apply BitVec.eq_of_toNat_eq
  simp only [BitVec.toNat_ofNat]
  omega

theorem segment_bufferByte (nand : NandController) {start count : Nat} (inside : start + count ≤ pageFull) :
    segment nand.bufferByte start count = segment nand.buffer start count :=
  segment_congr fun index below => if_pos (by omega)

/-- A block written inside a longer block. -/
theorem segment_patch_within {store : Nat → Byte} {start count : Nat} {values : List Byte}
    (inside : start + values.length ≤ count) :
    segment (patch store start values) 0 count =
      (segment store 0 count).take start ++ (values ++ (segment store 0 count).drop (start + values.length)) := by
  obtain ⟨rest, rfl⟩ := Nat.exists_eq_add_of_le inside
  have low : segment (patch store start values) 0 start = segment store 0 start :=
    segment_patch_apart (.inl (by omega))
  have high : segment (patch store start values) (start + values.length) rest =
      segment store (start + values.length) rest := segment_patch_apart (.inr (by omega))
  have after : start + values.length + rest - (start + values.length) = rest := by omega
  rw [take_segment (by omega), drop_segment (by omega), segment_add, segment_add, Nat.zero_add, Nat.zero_add,
    low, high, segment_patch, after, List.append_assoc]

/-- The controllers agree: no spare image, and a register that was never written reads as zero. -/
structure NandAgrees (ref : Reference.NandController) (nand : NandController) : Prop where
  image : ref.dataBlob = nand.dataBlob
  plain : ref.blob = ref.dataBlob ∧ ref.stride = pageData
  nandId : ref.nandId = nand.nandId.toNat
  reg : ∀ off : Word, (ref.reg off.toNat).getD 0 = (nand.reg off).toNat
  buffer : ref.buffer = segment nand.buffer 0 pageFull
  status : ref.status = nand.status.toNat
  lastCmd : ref.lastCmd = nand.lastCmd.toNat
  idLatched : ref.idLatched = nand.idLatched.toNat

/-- The same memory, the same drain cursor, and controllers that agree. -/
structure Agrees (ref : Reference.DmovModel) (dmov : DmovModel) : Prop where
  mem : ref.mem = dmov.mem
  cursor : ref.bufCursor = dmov.bufCursor
  nand : NandAgrees ref.nand dmov.nand

variable {ref : Reference.NandController} {nand : NandController}

theorem toNat_inj_iff {word other : Word} {value : Nat} (is : other.toNat = value) :
    word.toNat = value ↔ word = other := by
  subst is
  exact ⟨BitVec.eq_of_toNat_eq, congrArg BitVec.toNat⟩

theorem inBuffer_iff {off : Word} :
    NandController.inBuffer off = true ↔
      Reference.rFlashBuffer ≤ off.toNat ∧ off.toNat < Reference.rFlashBuffer + Reference.pageFull := by
  rw [NandController.inBuffer, Bool.and_eq_true, decide_eq_true_eq, decide_eq_true_eq, ge_iff_le,
    BitVec.le_def, BitVec.lt_def]
  rfl

theorem toNat_bufferIndex {off : Word} (inside : NandController.inBuffer off = true) :
    (off - rFlashBuffer).toNat = off.toNat - Reference.rFlashBuffer := by
  have low := (inBuffer_iff.mp inside).1
  have start : rFlashBuffer.toNat = Reference.rFlashBuffer := rfl
  have bound := off.isLt
  rw [BitVec.toNat_sub, start]
  omega

/-- A word of the page buffer as the reference reads it. -/
theorem read_buffer (agrees : NandAgrees ref nand) {index : Nat} (inside : index + 4 ≤ pageFull) :
    ref.read (Reference.rFlashBuffer + index) = leValue (segment nand.bufferByte index 4) := by
  have full : pageFull = 2112 := rfl
  have size : Reference.pageFull = 2112 := rfl
  have start : Reference.rFlashBuffer = 0x100 := rfl
  have length : ref.buffer.length = pageFull := by rw [agrees.buffer, length_segment]
  have apart (register : Nat) (low : register < 0x100) : Reference.rFlashBuffer + index ≠ register := by omega
  rw [Reference.NandController.read, if_neg (apart _ (by decide)), if_neg (apart _ (by decide)),
    if_neg (apart _ (by decide)), if_neg (apart _ (by decide)), if_neg (apart _ (by decide)),
    if_pos ⟨by omega, by omega⟩, Nat.add_sub_cancel_left, length, if_pos inside, fieldAt, agrees.buffer,
    drop_segment (by omega), take_segment (by omega), Nat.zero_add, segment_bufferByte nand inside]

theorem read_agrees (agrees : NandAgrees ref nand) {off : Word}
    (inside : off.toNat + 4 ≤ Reference.rFlashBuffer + Reference.pageFull) :
    ref.read off.toNat = (nand.read off).toNat := by
  have size : Reference.pageFull = pageFull := rfl
  by_cases window : NandController.inBuffer off = true
  · have low := (inBuffer_iff.mp window).1
    obtain ⟨index, place⟩ := Nat.exists_eq_add_of_le low
    have bound := leValue_lt (segment nand.bufferByte index 4)
    have apart (register : Word) (outside : ¬ NandController.inBuffer register = true) : off ≠ register :=
      fun same => outside (same ▸ window)
    rw [length_segment] at bound
    rw [place, read_buffer agrees (by omega), NandController.read,
      if_neg (by simp [apart rFlashStatus (by decide), apart rReadStatus (by decide)]),
      if_neg (apart _ (by decide)), if_neg (apart _ (by decide)), if_neg (apart _ (by decide)), if_pos window,
      toNat_bufferIndex window, place, Nat.add_sub_cancel_left, bufferWord_eq, BitVec.toNat_ofNat]
    exact (Nat.mod_eq_of_lt bound).symm
  · have outside := mt inBuffer_iff.mpr window
    rw [Reference.NandController.read, NandController.read, if_neg outside, if_neg window]
    simp only [toNat_inj_iff (show rFlashStatus.toNat = Reference.rFlashStatus from rfl),
      toNat_inj_iff (show rBufferStatus.toNat = Reference.rBufferStatus from rfl),
      toNat_inj_iff (show rReadId.toNat = Reference.rReadId from rfl),
      toNat_inj_iff (show rReadStatus.toNat = Reference.rReadStatus from rfl),
      toNat_inj_iff (show rConfigStatus.toNat = Reference.rConfigStatus from rfl),
      Bool.or_eq_true, decide_eq_true_eq]
    by_cases status : off = rFlashStatus
    · rw [if_pos status, if_pos (.inl status), agrees.status]
    by_cases buffer : off = rBufferStatus
    · rw [if_neg status, if_pos buffer, if_neg (by subst buffer; decide), if_pos buffer]
      rfl
    by_cases id : off = rReadId
    · rw [if_neg status, if_neg buffer, if_pos id, if_neg (by subst id; decide), if_neg buffer, if_pos id,
        agrees.idLatched]
    by_cases again : off = rReadStatus
    · rw [if_neg status, if_neg buffer, if_neg id, if_pos again, if_pos (.inr again), agrees.status]
    have other : ¬ (off = rFlashStatus ∨ off = rReadStatus) := not_or.mpr ⟨status, again⟩
    by_cases config : off = rConfigStatus
    · rw [if_neg status, if_neg buffer, if_neg id, if_neg again, if_pos config, if_neg other, if_neg buffer,
        if_neg id, if_pos config]
      rfl
    rw [if_neg status, if_neg buffer, if_neg id, if_neg again, if_neg config, if_neg other, if_neg buffer,
      if_neg id, if_neg config]
    exact agrees.reg off

/-- The page number of the two address registers. -/
theorem decodePage_agrees (addr0 addr1 : Word) :
    (if addr0.toNat ≥ 0x10000 then addr0.toNat >>> 16 ||| (addr1.toNat &&& 0xff) <<< 8 else addr0.toNat) =
      (NandController.decodePage addr0 addr1).toNat := by
  have limit : addr0 ≥ 0x10000 ↔ addr0.toNat ≥ 0x10000 := by
    rw [ge_iff_le, BitVec.le_def]
    rfl
  have column : ((addr1 &&& 0xff) <<< 8).toNat = (addr1.toNat &&& 0xff) <<< 8 := by
    have mask : (0xff : Word).toNat = 0xff := rfl
    have byte : addr1.toNat &&& 0xff ≤ 0xff := Nat.and_le_right
    rw [BitVec.toNat_shiftLeft, BitVec.toNat_and, mask, Nat.shiftLeft_eq]
    omega
  rw [NandController.decodePage]
  by_cases shifted : addr0.toNat ≥ 0x10000
  · rw [if_pos shifted, if_pos (limit.mpr shifted), BitVec.toNat_or, BitVec.toNat_ushiftRight, column]
  · rw [if_neg shifted, if_neg fun large => shifted (limit.mp large)]

theorem execute_agrees (agrees : NandAgrees ref nand) :
    NandAgrees ref.execute (nand.execute nand.lastCmd) := by
  have count : ref.blob.length / ref.stride = nand.dataBlob.length / pageData := by
    rw [agrees.plain.1, agrees.plain.2, agrees.image]
  rw [Reference.NandController.execute, NandController.execute]
  simp only [agrees.lastCmd, Bool.or_eq_true, decide_eq_true_eq, or_assoc,
    toNat_inj_iff (show cmdFetchId.toNat = Reference.cmdFetchId from rfl),
    toNat_inj_iff (show cmdPageRead.toNat = Reference.cmdPageRead from rfl),
    toNat_inj_iff (show cmdPageReadEcc.toNat = Reference.cmdPageReadEcc from rfl),
    toNat_inj_iff (show cmdPageReadAll.toNat = Reference.cmdPageReadAll from rfl), ite_self]
  split
  · exact { agrees with idLatched := agrees.nandId, status := rfl, lastCmd := rfl }
  · split
    · have addr0 : (ref.reg Reference.rAddr0).getD 0 = (nand.reg rAddr0).toNat := agrees.reg rAddr0
      have addr1 : (ref.reg Reference.rAddr1).getD 0 = (nand.reg rAddr1).toNat := agrees.reg rAddr1
      rw [addr0, addr1, decodePage_agrees, count]
      split
      · rename_i inside
        have size := DmovModel.length_imagePage inside
        have page (number : Nat) : ref.pageBytes number = NandController.imagePage nand.dataBlob number := by
          rw [Reference.NandController.pageBytes, agrees.image]
          rfl
        refine { agrees with status := rfl, lastCmd := rfl, buffer := ?_ }
        dsimp only
        rw [page, agrees.buffer, segment_patch_within (by rw [size]; decide), Nat.zero_add]
        rfl
      · exact { agrees with status := rfl, lastCmd := rfl }
    · exact { agrees with status := rfl, lastCmd := rfl }

theorem and_word (word : Word) : word.toNat &&& 0xffffffff = word.toNat := by
  have mask := Nat.and_two_pow_sub_one_eq_mod word.toNat 32
  rw [Nat.mod_eq_of_lt word.isLt] at mask
  exact mask

theorem write_agrees (agrees : NandAgrees ref nand) {off : Word} (val : Word)
    (inside : off.toNat + 4 ≤ Reference.rFlashBuffer + Reference.pageFull) :
    (ref.write off.toNat val.toNat).1 = true ∧
      NandAgrees (ref.write off.toNat val.toNat).2 (nand.write off val 4) := by
  have stored : NandAgrees
      { ref with reg := Function.update ref.reg off.toNat (some val.toNat) }
      { nand with reg := Function.update nand.reg off val } := by
    refine { agrees with reg := fun other => ?_ }
    by_cases same : other = off
    · subst same
      dsimp only
      rw [Function.update_self, Function.update_self]
      rfl
    · have apart : other.toNat ≠ off.toNat := fun equal => same (BitVec.eq_of_toNat_eq equal)
      dsimp only
      rw [Function.update_of_ne apart, Function.update_of_ne same]
      exact agrees.reg other
  rw [Reference.NandController.write, NandController.write, and_word]
  simp only [toNat_inj_iff (show rFlashCmd.toNat = Reference.rFlashCmd from rfl),
    toNat_inj_iff (show rExecCmd.toNat = Reference.rExecCmd from rfl), ← inBuffer_iff]
  split
  · refine ⟨rfl, { stored with lastCmd := ?_ }⟩
    rw [BitVec.toNat_and]
    rfl
  · split
    · exact ⟨rfl, execute_agrees stored⟩
    · split
      · rename_i window
        have low := (inBuffer_iff.mp window).1
        have length : ref.buffer.length = pageFull := by rw [agrees.buffer, length_segment]
        have fits : off.toNat - Reference.rFlashBuffer + 4 ≤ pageFull := by
          have size : Reference.pageFull = pageFull := rfl
          omega
        have whole : (leBytes (min 4 4) val.toNat).take (pageFull - (off.toNat - Reference.rFlashBuffer)) =
            leBytes 4 val.toNat := List.take_of_length_le (by rw [length_leBytes]; omega)
        have filled : segment (patch nand.buffer (off.toNat - Reference.rFlashBuffer) (leBytes 4 val.toNat)) 0
            pageFull = ref.buffer.take (off.toNat - Reference.rFlashBuffer) ++ (leBytes 4 val.toNat ++
              ref.buffer.drop (off.toNat - Reference.rFlashBuffer + 4)) := by
          rw [segment_patch_within (by rw [length_leBytes]; exact fits), length_leBytes, agrees.buffer]
        rw [Reference.NandController.packInto, if_pos (by rw [length]; exact fits),
          NandController.storeBuffer, toNat_bufferIndex window, whole]
        dsimp only
        refine ⟨rfl, stored.image, stored.plain, stored.nandId, stored.reg, ?_, stored.status,
          stored.lastCmd, stored.idLatched⟩
        dsimp only
        rw [filled]
      · exact ⟨rfl, stored⟩

namespace DmovModel

variable {model : Reference.DmovModel} {dmov : DmovModel} {src dst ln : Word}

/-- What a descriptor moves: the page buffer without running past its end, a block of registers, or
memory. What it reads of memory is mapped, and what it drains to. -/
inductive Shape (dmov : DmovModel) (src dst ln : Word) : Prop where
  | drain (source : src = nandFlashBuffer) (inside : dmov.bufCursor + min ln.toNat pageData ≤ pageData)
      (mapped : dmov.mem.backed dst.toNat (min ln.toNat pageData) = true)
  | fetch (source : RegisterBlock src ln)
  | fill (source : isNand src = false) (target : dst = nandFlashBuffer)
      (mapped : dmov.mem.backed src.toNat (min ln.toNat pageData) = true)
  | program (source : isNand src = false) (target : RegisterBlock dst ln)
      (mapped : dmov.mem.backed src.toNat (if ln = 16 then 16 else 4) = true)
  | copy (source : isNand src = false) (target : isNand dst = false)

/-- A descriptor of whole words, at least one. -/
structure Admitted (dmov : DmovModel) (src dst ln : Word) : Prop where
  whole : ln.toNat % 4 = 0
  some : 4 ≤ ln.toNat
  shape : Shape dmov src dst ln

/-- A list whose descriptors are mapped and admitted when their turn comes, the last one marked. -/
def ListAdmitted (dmov : DmovModel) (e : Nat) : Nat → Prop
  | 0 => False
  | fuel + 1 =>
    dmov.mem.backed e 16 = true ∧
      Admitted dmov (loadWord dmov.mem (e + 4)) (loadWord dmov.mem (e + 8)) (loadWord dmov.mem (e + 12)) ∧
      (loadWord dmov.mem e &&& cmdLc = 0 →
        ListAdmitted (dmov.execDescriptor (loadWord dmov.mem (e + 4)) (loadWord dmov.mem (e + 8))
          (loadWord dmov.mem (e + 12))) (e + 16) fuel)

/-- The address in the command pointer register. -/
def pointerList (regval : Word) : Word := (regval &&& 0x7fffffff) <<< 3

/-- The list an entry of the pointer list names. -/
def entryList (entry : Word) : Nat := (entry &&& 0x7fffffff).toNat <<< 3

/-- One entry, marked last, that names a list of at most 64 descriptors. A mapped list starts below
the end of the address space. -/
structure CallAdmitted (dmov : DmovModel) (regval : Word) : Prop where
  mapped : dmov.mem.backed (pointerList regval).toNat 4 = true
  last : dmov.ram32 (pointerList regval) &&& cmdPtrLp ≠ 0
  list : ListAdmitted { dmov with execCount := dmov.execCount + 1 }
    (entryList (dmov.ram32 (pointerList regval))) 64

/-- The words that go through the page buffer. -/
theorem Admitted.words (admitted : Admitted dmov src dst ln) :
    ∃ count, min ln.toNat pageData = 4 * count := by
  have whole := admitted.whole
  have data : pageData = 2048 := rfl
  exact ⟨min ln.toNat pageData / 4, by omega⟩

theorem isNandReg_toNat (address : Word) : Reference.DmovModel.isNandReg address.toNat = isNand address := by
  rw [Reference.DmovModel.isNandReg, and_word, isNand]
  simp only [ge_iff_le, BitVec.le_def, BitVec.lt_def]
  rfl

theorem nandOff_toNat (block : RegisterBlock src ln) :
    Reference.DmovModel.nandOff src.toNat = (src - nandBase).toNat := by
  have place := block.toNat_off
  have base : Reference.nandBase = 0xa0a00000 := rfl
  rw [Reference.DmovModel.nandOff, and_word]
  omega

theorem leBytes_read (word : Word) : leBytes 4 (word.toNat &&& 0xffffffff) = wordBytes word := by
  rw [and_word, wordBytes]

theorem leBytes_masked {bytes : List Byte} (word : bytes.length = 4) :
    leBytes 4 (leValue bytes &&& 0xffffffff) = bytes := by
  have bound := leValue_lt bytes
  have back := leBytes_leValue bytes
  have mask := Nat.and_two_pow_sub_one_eq_mod (leValue bytes) 32
  rw [word] at bound back
  rw [Nat.mod_eq_of_lt (show leValue bytes < 2 ^ 32 from bound)] at mask
  exact (congrArg (leBytes 4) mask).trans back

theorem writeBytes_nil (mem : Memory) (address : Nat) : writeBytes mem address [] = mem := by
  rw [writeBytes, Memory.ucMemWrite]
  split <;> rfl

/-- Word by word the page buffer arrives as one block. -/
theorem drain_agrees (agrees : Agrees model dmov) {address count : Nat}
    (inside : dmov.bufCursor + 4 * count ≤ pageData) (mapped : dmov.mem.backed address (4 * count) = true) :
    model.drain Reference.nandFlashBuffer address ((List.range count).map (4 * ·)) =
      writeBytes dmov.mem address (segment dmov.nand.bufferByte dmov.bufCursor (4 * count)) := by
  have data : pageData = 2048 := rfl
  have full : pageFull = 2112 := rfl
  have off : Reference.DmovModel.nandOff Reference.nandFlashBuffer = Reference.rFlashBuffer := rfl
  rw [Reference.DmovModel.drain, off]
  induction count with
  | zero =>
    rw [Paging.segment]
    exact (congrArg (fun mem => mem) agrees.mem).trans (writeBytes_nil dmov.mem address).symm
  | succ count ih =>
    have split : 4 * (count + 1) = 4 * count + 4 := by omega
    rw [split] at mapped inside ⊢
    have earlier := ih (by omega) (Memory.backed_left mapped)
    have word : model.nand.read (Reference.rFlashBuffer + model.bufCursor + 4 * count) =
        leValue (segment dmov.nand.bufferByte (dmov.bufCursor + 4 * count) 4) := by
      rw [agrees.cursor, Nat.add_assoc, read_buffer agrees.nand (by omega)]
    have length := length_segment dmov.nand.bufferByte dmov.bufCursor (4 * count)
    have both : dmov.mem.backed address
        ((segment dmov.nand.bufferByte dmov.bufCursor (4 * count)).length +
          (segment dmov.nand.bufferByte (dmov.bufCursor + 4 * count) 4).length) = true := by
      rw [length_segment, length_segment]
      exact mapped
    have joined := writeBytes_append both
    rw [length] at joined
    rw [List.range_succ, List.map_append, List.foldl_append, earlier, List.map_singleton, List.foldl_cons,
      List.foldl_nil, word, leBytes_masked (length_segment ..), segment_add, ← joined]

/-- One word of mapped memory into one register. -/
theorem program_agrees (agrees : Agrees model dmov) {ref : Reference.NandController} {nand : NandController}
    (nands : NandAgrees ref nand) {off : Word} (mapped : dmov.mem.backed src.toNat 4 = true)
    (inside : off.toNat + 4 ≤ Reference.rFlashBuffer + Reference.pageFull) :
    (model.program src.toNat off.toNat 4 ref).1 = true ∧
      NandAgrees (model.program src.toNat off.toNat 4 ref).2 (nand.write off (dmov.ram32 src) 4) := by
  have fetched := ucMemRead_word mapped
  rw [← agrees.mem] at fetched
  rw [Reference.DmovModel.program, fetched]
  dsimp only
  rw [if_pos (length_wordBytes _), leValue_wordBytes_toNat, agrees.mem]
  exact write_agrees nands (loadWord dmov.mem src.toNat) inside

/-- Words of mapped memory into the page buffer. -/
theorem fill_agrees (agrees : Agrees model dmov) {off : Word} {count : Nat} (place : off = rFlashBuffer)
    (inside : 4 * count ≤ pageData) (mapped : dmov.mem.backed src.toNat (4 * count) = true) :
    NandAgrees
      (((List.range count).map (4 * ·)).foldl
        (fun nand i => (model.program (src.toNat + i) (off.toNat + i) 4 nand).2) model.nand)
      (((List.range count).map fun index => BitVec.ofNat 32 (4 * index)).foldl
        (fun nand index => nand.write (off + index) (dmov.ram32 (src + index)) 4) dmov.nand) := by
  have data : pageData = 2048 := rfl
  have room : Reference.rFlashBuffer + Reference.pageFull = 0x940 := rfl
  have start : off.toNat = 0x100 := place ▸ rfl
  induction count with
  | zero => exact agrees.nand
  | succ count ih =>
    have split : 4 * (count + 1) = 4 * count + 4 := by omega
    rw [split] at mapped inside
    have bound : src.toNat + (4 * count + 3) < 0x100000000 := Memory.backed_inside mapped
    have source : (src + BitVec.ofNat 32 (4 * count)).toNat = src.toNat + 4 * count := toNat_step _ (by omega)
    have target : (off + BitVec.ofNat 32 (4 * count)).toNat = off.toNat + 4 * count := toNat_step _ (by omega)
    have earlier := ih (by omega) (Memory.backed_left mapped)
    rw [List.range_succ, List.map_append, List.map_append, List.foldl_append, List.foldl_append]
    have last : dmov.mem.backed (src + BitVec.ofNat 32 (4 * count)).toNat 4 = true :=
      source.symm ▸ Memory.backed_right mapped
    have fits : (off + BitVec.ofNat 32 (4 * count)).toNat + 4 ≤
        Reference.rFlashBuffer + Reference.pageFull := by omega
    have step := program_agrees agrees earlier last fits
    rw [source, target] at step
    exact step.2

/-- Words of mapped memory into registers inside the window. -/
theorem burst_agrees (agrees : Agrees model dmov) {off : Word} (indices : List Nat)
    {ref : Reference.NandController} {nand : NandController} (nands : NandAgrees ref nand)
    (mapped : ∀ i ∈ indices, src.toNat + i < 0x100000000 ∧ dmov.mem.backed (src.toNat + i) 4 = true)
    (inside : ∀ i ∈ indices, off.toNat + i < 0x400) :
    NandAgrees (model.burst src.toNat off.toNat indices ref)
      (dmov.writeRegs src off (indices.map (BitVec.ofNat 32)) nand) := by
  have room : Reference.rFlashBuffer + Reference.pageFull = 0x940 := rfl
  induction indices generalizing ref nand with
  | nil => exact nands
  | cons i rest ih =>
    obtain ⟨bound, backed⟩ := mapped i List.mem_cons_self
    have below := inside i List.mem_cons_self
    have source : (src + BitVec.ofNat 32 i).toNat = src.toNat + i := toNat_step _ bound
    have target : (off + BitVec.ofNat 32 i).toNat = off.toNat + i := toNat_step _ (by omega)
    have fits : (off + BitVec.ofNat 32 i).toNat + 4 ≤ Reference.rFlashBuffer + Reference.pageFull := by omega
    obtain ⟨returned, stored⟩ := program_agrees agrees nands (source.symm ▸ backed) fits
    have goesOn : ¬ off + BitVec.ofNat 32 i ≥ 0x400 := by
      rw [ge_iff_le, BitVec.le_def, target]
      exact Nat.not_le.mpr below
    rw [source, target] at returned stored
    rw [List.map_cons, writeRegs, if_neg goesOn, Reference.DmovModel.burst]
    split
    · rename_i after same
      rw [same] at stored
      exact ih stored (fun i member => mapped i (List.mem_cons_of_mem _ member))
        fun i member => inside i (List.mem_cons_of_mem _ member)
    · rename_i after same
      rw [same] at returned
      cases returned

theorem fromNand_agrees (agrees : Agrees model dmov) (admitted : Admitted dmov src dst ln)
    (source : isNand src = true) :
    Agrees (model.fromNand src.toNat dst.toNat ln.toNat) (dmov.fromNand src dst ln) := by
  have buffer : src.toNat = Reference.nandFlashBuffer ↔ src = nandFlashBuffer := toNat_inj_iff rfl
  have other {address : Word} (memory : isNand address = false) : src ≠ address := fun same => by
    rw [← same, source] at memory
    cases memory
  rw [Reference.DmovModel.fromNand, fromNand]
  simp only [buffer]
  rcases admitted.shape with ⟨drained, inside, mapped⟩ | block | ⟨memory⟩ | ⟨memory⟩ | ⟨memory⟩
  · obtain ⟨count, words⟩ := admitted.words
    have some := admitted.some
    have data : pageData = 2048 := rfl
    rw [words] at inside mapped
    have full : ¬ (segment dmov.nand.bufferByte dmov.bufCursor (4 * count)).isEmpty = true := by
      rw [List.isEmpty_iff_length_eq_zero, length_segment]
      omega
    have whole : (4 * count + 3) / 4 = count := by omega
    subst drained
    rw [if_pos rfl, if_pos rfl, words, show min ln.toNat 2048 = 4 * count from words]
    refine ⟨?_, ?_, agrees.nand⟩
    · dsimp only
      rw [drained_eq dmov.nand inside, if_neg full, Reference.DmovModel.wordRange, whole]
      exact drain_agrees agrees inside mapped
    · dsimp only
      rw [agrees.cursor, data]
  · rw [if_neg block.other, if_neg block.other]
    refine ⟨?_, agrees.cursor, agrees.nand⟩
    have room : Reference.rFlashBuffer + Reference.pageFull = 0x940 := rfl
    have inside := block.inside
    have some := admitted.some
    dsimp only
    rw [nandOff_toNat block, read_agrees agrees.nand (by omega), leBytes_read, and_word, agrees.mem]
  · exact absurd rfl (other memory)
  · exact absurd rfl (other memory)
  · exact absurd rfl (other memory)

theorem toNand_agrees (agrees : Agrees model dmov) (admitted : Admitted dmov src dst ln)
    (source : isNand src = false) (target : isNand dst = true) :
    Agrees (model.toNand src.toNat dst.toNat ln.toNat) (dmov.toNand src dst ln) := by
  have buffer : dst.toNat = Reference.nandFlashBuffer ↔ dst = nandFlashBuffer := toNat_inj_iff rfl
  have four : ln.toNat = 16 ↔ ln = 16 := toNat_inj_iff rfl
  have starts : dst.toNat = Reference.nandBase + 0x10 ↔ dst = nandBase + 0x10 := toNat_inj_iff rfl
  have other {address : Word} (memory : isNand address = false) : dst ≠ address := fun same => by
    rw [← same, target] at memory
    cases memory
  have some := admitted.some
  rw [Reference.DmovModel.toNand, toNand]
  simp only [buffer, four, starts]
  rcases admitted.shape with ⟨drained⟩ | block | ⟨_, filled, mapped⟩ | ⟨_, block, mapped⟩ | ⟨_, memory⟩
  · subst drained
    cases source
  · rw [block.register] at source
    cases source
  · obtain ⟨count, words⟩ := admitted.words
    have data : pageData = 2048 := rfl
    rw [words] at mapped
    have whole : (4 * count + 3) / 4 = count := by omega
    have off : Reference.DmovModel.nandOff dst.toNat = (dst - nandBase).toNat := by subst filled; rfl
    rw [if_pos filled, if_pos filled, words, show min ln.toNat 2048 = 4 * count from words,
      Reference.DmovModel.wordRange, whole, off]
    exact ⟨agrees.mem, agrees.cursor, fill_agrees agrees (by subst filled; rfl) (by omega) mapped⟩
  · have inside := block.inside
    rw [if_neg block.other, if_neg block.other, nandOff_toNat block]
    by_cases burst : ln = 16
    · subst burst
      have bound : src.toNat + 15 < 0x100000000 := Memory.backed_inside mapped
      have sixteen : (16 : Word).toNat = 16 := rfl
      rw [if_pos rfl, if_pos rfl, if_pos (masked_of_aligned block.aligned)]
      have small {i : Nat} (member : i ∈ [0, 4, 8, 12]) : i ≤ 12 := by
        simp only [List.mem_cons, List.not_mem_nil, or_false] at member
        omega
      refine ⟨agrees.mem, agrees.cursor, burst_agrees agrees [0, 4, 8, 12] agrees.nand ?_ ?_⟩
      · intro i member
        have low := small member
        exact ⟨by omega, Memory.backed_within mapped (by rw [if_pos rfl]; omega)⟩
      · intro i member
        have low := small member
        omega
    · rw [if_neg burst] at mapped
      have single : min ln.toNat 4 = 4 := by omega
      have room : Reference.rFlashBuffer + Reference.pageFull = 0x940 := rfl
      rw [if_neg burst, if_neg burst, single, and_word]
      refine ⟨agrees.mem, ?_, (program_agrees agrees agrees.nand mapped (by omega)).2⟩
      dsimp only
      rw [agrees.cursor]
  · exact absurd rfl (other memory)

theorem ramToRam_agrees (agrees : Agrees model dmov) :
    Agrees (model.ramToRam src.toNat dst.toNat ln.toNat) (dmov.ramToRam src dst ln) := by
  rw [Reference.DmovModel.ramToRam, ramToRam, agrees.mem]
  cases data : dmov.mem.ucMemRead src.toNat (min ln.toNat 0x1000) with
  | none => exact agrees
  | some bytes =>
    dsimp only
    split
    · rename_i none
      have empty : bytes = [] := by
        rw [none, Memory.ucMemRead, if_pos (Memory.backed_iff.mpr fun index below => by omega)] at data
        exact (Option.some.inj data).symm
      subst empty
      rw [writeBytes_nil]
      exact { agrees with mem := rfl }
    · exact { agrees with mem := rfl }

theorem execDescriptor_agrees (agrees : Agrees model dmov) (admitted : Admitted dmov src dst ln) :
    Agrees (model.execDescriptor src.toNat dst.toNat ln.toNat) (dmov.execDescriptor src dst ln) := by
  rw [Reference.DmovModel.execDescriptor, execDescriptor, isNandReg_toNat, isNandReg_toNat]
  split
  · rename_i source
    exact fromNand_agrees agrees admitted source
  · split
    · rename_i source target
      exact toNand_agrees agrees admitted (Bool.eq_false_iff.mpr source) target
    · exact ramToRam_agrees agrees

/-- The four words of a descriptor in memory. -/
def descriptorBytes (mem : Memory) (e : Nat) : List Byte :=
  [loadWord mem e, loadWord mem (e + 4), loadWord mem (e + 8), loadWord mem (e + 12)].flatMap wordBytes

theorem ucMemRead_descriptor {mem : Memory} {e : Nat} (mapped : mem.backed e 16 = true) :
    mem.ucMemRead e 16 = some (descriptorBytes mem e) := by
  have word (index : Nat) (inside : index + 4 ≤ 16) :
      mem.ucMemRead (e + index) 4 = some (wordBytes (loadWord mem (e + index))) :=
    ucMemRead_word (Memory.backed_within mapped inside)
  have upper : mem.backed (e + 8) (4 + 4) = true := Memory.backed_within mapped (by omega)
  have middle : mem.backed (e + 4) (4 + 8) = true := Memory.backed_within mapped (by omega)
  have last := Memory.ucMemRead_add upper (word 8 (by omega)) (word 12 (by omega))
  have rest := Memory.ucMemRead_add middle (word 4 (by omega)) last
  have whole := Memory.ucMemRead_add mapped (word 0 (by omega)) rest
  rw [descriptorBytes, List.flatMap_cons, List.flatMap_cons, List.flatMap_cons, List.flatMap_singleton]
  exact whole

theorem fieldAt_words (first : Word) (rest : List Word) :
    fieldAt ((first :: rest).flatMap wordBytes) 0 4 = first.toNat := by
  rw [List.flatMap_cons, wordBytes, fieldAt_first]
  exact Nat.mod_eq_of_lt first.isLt

theorem fieldAt_words_later {offset : Nat} (behind : 4 ≤ offset) (first : Word) (rest : List Word) :
    fieldAt ((first :: rest).flatMap wordBytes) offset 4 = fieldAt (rest.flatMap wordBytes) (offset - 4) 4 := by
  rw [List.flatMap_cons, wordBytes, fieldAt_later behind]

/-- The fields of a descriptor are its words. -/
theorem fieldAt_descriptor (mem : Memory) (e : Nat) :
    fieldAt (descriptorBytes mem e) 0 4 = (loadWord mem e).toNat ∧
      fieldAt (descriptorBytes mem e) 4 4 = (loadWord mem (e + 4)).toNat ∧
      fieldAt (descriptorBytes mem e) 8 4 = (loadWord mem (e + 8)).toNat ∧
      fieldAt (descriptorBytes mem e) 12 4 = (loadWord mem (e + 12)).toNat := by
  unfold descriptorBytes
  refine ⟨fieldAt_words _ _, ?_, ?_, ?_⟩
  · rw [fieldAt_words_later (by omega)]
    exact fieldAt_words _ _
  · rw [fieldAt_words_later (by omega), fieldAt_words_later (by omega)]
    exact fieldAt_words _ _
  · rw [fieldAt_words_later (by omega), fieldAt_words_later (by omega), fieldAt_words_later (by omega)]
    exact fieldAt_words _ _

theorem ListAdmitted.low {e fuel : Nat} (admitted : ListAdmitted dmov e fuel) : e + 15 < 0x100000000 := by
  cases fuel with
  | zero => exact admitted.elim
  | succ fuel => exact Memory.backed_inside admitted.1

theorem last_iff (cmd : Word) : cmd.toNat &&& Reference.cmdLc ≠ 0 ↔ cmd &&& cmdLc ≠ 0 := by
  have mask : cmdLc.toNat = Reference.cmdLc := rfl
  have zero : (cmd &&& cmdLc).toNat = 0 ↔ cmd &&& cmdLc = 0 := toNat_inj_iff rfl
  rw [BitVec.toNat_and, mask] at zero
  exact not_congr zero

/-- Each descriptor is fetched, from whatever the list has become, and executed. -/
theorem runCmdlist_agrees {e fuel : Nat} (agrees : Agrees model dmov) (admitted : ListAdmitted dmov e fuel)
    (spare : Nat) : Agrees (model.runCmdlist e (fuel + spare)) (dmov.runCmdlist (BitVec.ofNat 32 e) fuel) := by
  induction fuel generalizing model dmov e with
  | zero => exact admitted.elim
  | succ fuel ih =>
    have low := admitted.low
    obtain ⟨mapped, descriptor, later⟩ := admitted
    have here : (BitVec.ofNat 32 e).toNat = e := by
      rw [BitVec.toNat_ofNat]
      omega
    have next (index : Nat) (inside : index < 16) : (BitVec.ofNat 32 e + BitVec.ofNat 32 index).toNat = e + index := by
      rw [toNat_step _ (by omega), here]
    have cmd : dmov.ram32 (BitVec.ofNat 32 e) = loadWord dmov.mem e := by rw [ram32, here]
    have source : dmov.ram32 (BitVec.ofNat 32 e + 4) = loadWord dmov.mem (e + 4) :=
      congrArg (loadWord dmov.mem) (next 4 (by omega))
    have target : dmov.ram32 (BitVec.ofNat 32 e + 8) = loadWord dmov.mem (e + 8) :=
      congrArg (loadWord dmov.mem) (next 8 (by omega))
    have length : dmov.ram32 (BitVec.ofNat 32 e + 12) = loadWord dmov.mem (e + 12) :=
      congrArg (loadWord dmov.mem) (next 12 (by omega))
    have done := execDescriptor_agrees agrees descriptor
    obtain ⟨field0, field1, field2, field3⟩ := fieldAt_descriptor dmov.mem e
    have more : fuel + 1 + spare = fuel + spare + 1 := by omega
    rw [more, Reference.DmovModel.runCmdlist, agrees.mem, ucMemRead_descriptor mapped, runCmdlist, cmd, source,
      target, length]
    dsimp only
    rw [field0, field1, field2, field3]
    by_cases last : loadWord dmov.mem e &&& cmdLc = 0
    · have after : BitVec.ofNat 32 e + 16 = BitVec.ofNat 32 (e + 16) := (BitVec.ofNat_add ..).symm
      rw [if_neg fun marked => (last_iff _).mp marked last, if_neg fun marked => marked last, after]
      exact ih done (later last)
    · rw [if_pos ((last_iff _).mpr last), if_pos last]
      exact done

theorem counted_agrees (agrees : Agrees model dmov) :
    Agrees { model with execCount := model.execCount + 1 } { dmov with execCount := dmov.execCount + 1 } :=
  ⟨agrees.mem, agrees.cursor, agrees.nand⟩

theorem pointerList_toNat (regval : Word) :
    (regval.toNat &&& 0x7fffffff) <<< 3 &&& 0xffffffff = (pointerList regval).toNat := by
  have mask := Nat.and_two_pow_sub_one_eq_mod ((regval.toNat &&& 0x7fffffff) <<< 3) 32
  rw [pointerList, BitVec.toNat_shiftLeft, BitVec.toNat_and]
  exact mask

theorem entryList_ofNat (entry : Word) :
    (entry &&& 0x7fffffff) <<< 3 = BitVec.ofNat 32 (entryList entry) := by
  apply BitVec.eq_of_toNat_eq
  rw [BitVec.toNat_shiftLeft, BitVec.toNat_ofNat, entryList]

/-- The same result word, and states that agree again. -/
theorem execCmdptr_agrees (agrees : Agrees model dmov) {regval : Word} (admitted : CallAdmitted dmov regval) :
    ∃ after, model.execCmdptr regval.toNat = some ((dmov.execCmdptr regval).1.toNat, after) ∧
      Agrees after (dmov.execCmdptr regval).2 := by
  have entry : ({ model with execCount := model.execCount + 1 } : Reference.DmovModel).readRam
      ((regval.toNat &&& 0x7fffffff) <<< 3) = some (dmov.ram32 (pointerList regval)).toNat := by
    rw [Reference.DmovModel.readRam, pointerList_toNat, agrees.mem, ucMemRead_word admitted.mapped,
      Option.map_some, leValue_wordBytes_toNat]
    rfl
  have list : ((dmov.ram32 (pointerList regval)).toNat &&& 0x7fffffff) <<< 3 =
      entryList (dmov.ram32 (pointerList regval)) := by
    rw [entryList, BitVec.toNat_and]
    rfl
  have ran := runCmdlist_agrees (counted_agrees agrees) admitted.list 1
  have last : (dmov.ram32 (pointerList regval)).toNat &&& Reference.cmdPtrLp ≠ 0 :=
    (last_iff _).mpr admitted.last
  have nonzero : dmov.ram32 (pointerList regval) ≠ 0 := fun zero => admitted.last (by rw [zero]; rfl)
  have port : dmov.execCmdptr regval = (dmovRsltDone,
      { ({ dmov with execCount := dmov.execCount + 1 } : DmovModel).runCmdlist
          (BitVec.ofNat 32 (entryList (dmov.ram32 (pointerList regval)))) 64 with lastChan := dmovNandChan }) := by
    have same : ({ dmov with execCount := dmov.execCount + 1 } : DmovModel).ram32 (pointerList regval) =
        dmov.ram32 (pointerList regval) := rfl
    have start : (regval &&& 0x7fffffff) <<< 3 = pointerList regval := rfl
    rw [execCmdptr]
    dsimp only
    rw [start, runPtrlist, same, if_neg nonzero, entryList_ofNat, if_pos admitted.last]
  rw [port, Reference.DmovModel.execCmdptr]
  dsimp only
  rw [Reference.DmovModel.runPtrlist, entry]
  dsimp only
  rw [if_pos last, list]
  exact ⟨_, rfl, ran.mem, ran.cursor, ran.nand⟩

/-- Calls one after another, with the result word of each. -/
def execCmdptrs (dmov : DmovModel) : List Word → List Word × DmovModel
  | [] => ([], dmov)
  | regval :: rest =>
    let (result, dmov) := dmov.execCmdptr regval
    let (results, dmov) := dmov.execCmdptrs rest
    (result :: results, dmov)

/-- Each call is admitted when its turn comes. -/
def CallsAdmitted (dmov : DmovModel) : List Word → Prop
  | [] => True
  | regval :: rest => CallAdmitted dmov regval ∧ CallsAdmitted (dmov.execCmdptr regval).2 rest

end DmovModel

namespace Reference.DmovModel

def execCmdptrs (model : DmovModel) : List Nat → Option (List Nat × DmovModel)
  | [] => some ([], model)
  | regval :: rest => do
    let (result, model) ← model.execCmdptr regval
    let (results, model) ← model.execCmdptrs rest
    return (result :: results, model)

end Reference.DmovModel

namespace DmovModel

variable {model : Reference.DmovModel} {dmov : DmovModel}

/-- The port simulates the reference over every sequence of admitted calls. -/
theorem execCmdptrs_simulates (calls : List Word) (agrees : Agrees model dmov)
    (admitted : CallsAdmitted dmov calls) :
    ∃ after, model.execCmdptrs (calls.map BitVec.toNat) =
        some ((dmov.execCmdptrs calls).1.map BitVec.toNat, after) ∧
      Agrees after (dmov.execCmdptrs calls).2 := by
  induction calls generalizing model dmov with
  | nil => exact ⟨model, rfl, agrees⟩
  | cons regval rest ih =>
    obtain ⟨first, later⟩ := admitted
    obtain ⟨between, ran, same⟩ := execCmdptr_agrees agrees first
    obtain ⟨after, finished, final⟩ := ih same later
    refine ⟨after, ?_, final⟩
    rw [List.map_cons, Reference.DmovModel.execCmdptrs, ran]
    simp only [Option.bind_eq_bind, Option.bind_some, finished]
    rfl

/-- Both are built over one data image. -/
def overImage (mem : Memory) (dataBlob : List Byte) : DmovModel := ⟨mem, .initial dataBlob, 0, 0, 0⟩

end DmovModel

def Reference.DmovModel.overImage (mem : Memory) (dataBlob : List Byte) : Reference.DmovModel :=
  ⟨mem, .initial dataBlob none 0x5580b1ad, 0, none, 0⟩

namespace DmovModel

/-- Fresh models agree. -/
theorem overImage_agrees (mem : Memory) (dataBlob : List Byte) :
    Agrees (Reference.DmovModel.overImage mem dataBlob) (overImage mem dataBlob) := by
  have held (first : Nat → Option Nat) (second : Word → Word) (register value off : Word)
      (same : (first off.toNat).getD 0 = (second off).toNat) :
      (Function.update first register.toNat (some value.toNat) off.toNat).getD 0 =
        (Function.update second register value off).toNat := by
    by_cases here : off = register
    · subst here
      rw [Function.update_self, Function.update_self]
      rfl
    · have apart : off.toNat ≠ register.toNat := fun equal => here (BitVec.eq_of_toNat_eq equal)
      rw [Function.update_of_ne apart, Function.update_of_ne here]
      exact same
  refine ⟨rfl, rfl, rfl, ⟨rfl, rfl⟩, rfl, fun off => ?_, ?_, rfl, rfl, rfl⟩
  · exact held _ _ 0x24 0x0004745e off (held _ _ 0x20 0xa25400c0 off rfl)
  · exact ((List.map_const' ..).trans (by rw [List.length_range]; rfl)).symm

variable {dmov : DmovModel} {page dest : Word} {view : Nat → Byte} {mem : Memory}

/-- A descriptor of the driver is admitted where the list has it. -/
theorem Loaded.listAdmitted (loaded : Loaded dmov page dest view) {index : Nat} {descriptor : Descriptor}
    (found : (readDescriptors dest)[index]? = some descriptor) {fuel : Nat}
    (admitted : Admitted dmov descriptor.src descriptor.dst descriptor.len)
    (later : descriptor.cmd &&& cmdLc = 0 →
      ListAdmitted (dmov.execDescriptor descriptor.src descriptor.dst descriptor.len)
        (0x401000 + 16 * (index + 1)) fuel) :
    ListAdmitted dmov (0x401000 + 16 * index) (fuel + 1) := by
  have small : index < 8 := (List.getElem?_eq_some_iff.mp found).1
  have word {field : Nat} {value : Word} (inside : field < 4) (here : descriptor.words[field]? = some value) :
      loadWord dmov.mem (0x401000 + 16 * index + 4 * field) = value := by
    have fetched := loaded.ram32_descriptor found inside here
    have place : 0x401000 + 4 * (4 * index + field) = 0x401000 + 16 * index + 4 * field := by omega
    rwa [ram32, toNat_descriptorAt small inside, place] at fetched
  have cmd : loadWord dmov.mem (0x401000 + 16 * index) = descriptor.cmd := @word 0 _ (by omega) rfl
  have src : loadWord dmov.mem (0x401000 + 16 * index + 4) = descriptor.src := @word 1 _ (by omega) rfl
  have dst : loadWord dmov.mem (0x401000 + 16 * index + 8) = descriptor.dst := @word 2 _ (by omega) rfl
  have len : loadWord dmov.mem (0x401000 + 16 * index + 12) = descriptor.len := @word 3 _ (by omega) rfl
  rw [ListAdmitted, cmd, src, dst, len]
  refine ⟨loaded.sees.backed fun offset below => ?_, admitted, later⟩
  exact .inl (.inr (.inl ⟨by omega, by omega⟩))

/-- A quarter of the page is admitted while the cursor stays inside the page. -/
theorem Loaded.quarter_admitted (loaded : Loaded dmov page dest view) {index start : Nat} {cmd target : Word}
    (found : (readDescriptors dest)[index]? = some ⟨cmd, nandFlashBuffer, target, 512⟩)
    (place : target.toNat = dest.toNat + start) (inside : start + 512 ≤ 2048) (cursor : dmov.bufCursor = start)
    {fuel : Nat} (later : cmd &&& cmdLc = 0 →
      ListAdmitted (dmov.drained dest start) (0x401000 + 16 * (index + 1)) fuel) :
    ListAdmitted dmov (0x401000 + 16 * index) (fuel + 1) := by
  have length : min (512 : Word).toNat pageData = 512 := by decide
  have data : pageData = 2048 := rfl
  have whole : (512 : Word).toNat % 4 = 0 := by decide
  have some : 4 ≤ (512 : Word).toNat := by decide
  refine loaded.listAdmitted found ⟨whole, some, .drain rfl ?_ ?_⟩ fun goesOn => ?_
  · rw [length, cursor]
    omega
  · dsimp only
    rw [length, place]
    exact loaded.sees.backed fun offset below => .inr ⟨by omega, by omega⟩
  · dsimp only
    rw [exec_drain inside cursor, place]
    exact later goesOn

/-- Command and address, configuration and execution come from memory, the status goes there. -/
theorem Loaded.command_admitted (loaded : Loaded dmov page dest view) {fuel : Nat}
    (later : ListAdmitted { dmov with
        mem := writeBytes dmov.mem 0x400024 (wordBytes (started dmov.nand page).status)
        nand := started dmov.nand page
        bufCursor := 0 } (0x401000 + 16 * 4) fuel) :
    ListAdmitted dmov (0x401000 + 16 * 0) (fuel + 4) := by
  have io (address : Word) (count : Nat)
      (inside : 0x400000 ≤ address.toNat ∧ address.toNat + count ≤ 0x400028) :
      dmov.mem.backed address.toNat count = true :=
    loaded.sees.backed fun index below => .inl (.inl ⟨by omega, by omega⟩)
  have fetch0 : (readDescriptors dest)[0]? = some ⟨5 <<< 7, ioArea, nandBase, 16⟩ := rfl
  have fetch1 : (readDescriptors dest)[1]? = some ⟨0, ioArea + 0x10, nandBase + 0x20, 8⟩ := rfl
  have fetch2 : (readDescriptors dest)[2]? = some ⟨0, ioArea + 0x18, nandBase + 0x10, 4⟩ := rfl
  have fetch3 : (readDescriptors dest)[3]? = some ⟨4 <<< 3, nandBase + 0x14, ioArea + 0x24, 8⟩ := rfl
  have second : Loaded { dmov with nand := addressed dmov.nand page } page dest view := loaded.of_mem rfl
  have third : Loaded { dmov with nand := (addressed dmov.nand page).write 0x20 0xa25400c0 4 } page dest view :=
    loaded.of_mem rfl
  have fourth : Loaded { dmov with nand := started dmov.nand page, bufCursor := 0 } page dest view :=
    loaded.of_mem rfl
  have block (off ln : Word) (fits : isNand (nandBase + off) = true ∧ (nandBase + off).toNat % 4 = 0 ∧
      ln.toNat % 4 = 0 ∧ (nandBase + off - nandBase).toNat + ln.toNat ≤ 0x400 ∧
      nandBase + off ≠ nandFlashBuffer) :
      RegisterBlock (nandBase + off) ln := ⟨fits.1, fits.2.1, fits.2.2.1, fits.2.2.2.1, fits.2.2.2.2⟩
  refine loaded.listAdmitted fetch0 ⟨by decide, by decide,
    .program (by decide) (block 0 16 (by decide)) (io _ _ (by decide))⟩ fun _ => ?_
  dsimp only
  rw [loaded.exec_address]
  refine second.listAdmitted fetch1 ⟨by decide, by decide,
    .program (by decide) (block 0x20 8 (by decide)) (io _ _ (by decide))⟩ fun _ => ?_
  dsimp only
  rw [second.exec_config]
  refine third.listAdmitted fetch2 ⟨by decide, by decide,
    .program (by decide) (block 0x10 4 (by decide)) (io _ _ (by decide))⟩ fun _ => ?_
  dsimp only
  rw [third.exec_start]
  refine fourth.listAdmitted fetch3 ⟨by decide, by decide, .fetch (block 0x14 8 (by decide))⟩ fun _ => ?_
  dsimp only
  rw [exec_status]
  exact later

/-- The four quarters of the page. -/
theorem Loaded.drain_admitted (loaded : Loaded dmov page dest view) (room : Apart mem dest)
    (cursor : dmov.bufCursor = 0) : ListAdmitted dmov (0x401000 + 16 * 4) 60 := by
  have fetch4 : (readDescriptors dest)[4]? = some ⟨0, nandFlashBuffer, dest, 512⟩ := rfl
  have fetch5 : (readDescriptors dest)[5]? = some ⟨0, nandFlashBuffer, dest + 512, 512⟩ := rfl
  have fetch6 : (readDescriptors dest)[6]? = some ⟨0, nandFlashBuffer, dest + 1024, 512⟩ := rfl
  have fetch7 : (readDescriptors dest)[7]? = some ⟨cmdLc, nandFlashBuffer, dest + 1536, 512⟩ := rfl
  have to5 : (dest + 512).toNat = dest.toNat + 512 := toNat_quarter room (by decide)
  have to6 : (dest + 1024).toNat = dest.toNat + 1024 := toNat_quarter room (by decide)
  have to7 : (dest + 1536).toNat = dest.toNat + 1536 := toNat_quarter room (by decide)
  have first := loaded.drained room (show 0 + 512 ≤ 2048 by omega)
  have second := first.drained room (show 512 + 512 ≤ 2048 by omega)
  have third := second.drained room (show 1024 + 512 ≤ 2048 by omega)
  refine loaded.quarter_admitted fetch4 (Nat.add_zero _).symm (by omega) cursor fun _ => ?_
  refine first.quarter_admitted fetch5 to5 (by omega) rfl fun _ => ?_
  refine second.quarter_admitted fetch6 to6 (by omega) rfl fun _ => ?_
  exact third.quarter_admitted fetch7 to7 (by omega) rfl fun goesOn => absurd goesOn (by decide)

/-- The driver's page read is a call that may be made. -/
theorem pageRead_admitted (room : Apart dmov.mem dest) {moved : DmovModel}
    (mem : moved.mem = (dmov.prepared page dest).mem)
    (counted : { moved with execCount := moved.execCount + 1 } = dmov.prepared page dest) :
    CallAdmitted moved (ptrArea >>> 3 ||| cmdPtrLp) := by
  obtain ⟨view, loaded, pointer⟩ := loaded_prepared room page
  have start : pointerList (ptrArea >>> 3 ||| cmdPtrLp) = ptrArea := by decide
  have entry : moved.ram32 (pointerList (ptrArea >>> 3 ||| cmdPtrLp)) = clArea >>> 3 ||| cmdPtrLp := by
    rw [start, ← pointer, ram32, ram32, mem]
  have list : entryList (clArea >>> 3 ||| cmdPtrLp) = 0x401000 + 16 * 0 := by decide
  refine ⟨?_, ?_, ?_⟩
  · have place : ptrArea.toNat = 0x402000 := by decide
    rw [start, place, mem]
    exact loaded.sees.backed fun index below => .inl (.inr (.inr ⟨by omega, by omega⟩))
  · rw [entry]
    decide
  · rw [entry, counted, list]
    apply loaded.command_admitted
    -- the status word lies behind the values, so the list stays as it was
    have noted := loaded.write 0x400024 (wordBytes (started (dmov.prepared page dest).nand page).status)
      (fun index below => .inl (.inl ⟨by omega, by rw [length_wordBytes] at below; omega⟩))
      (fun index below => by rw [length_wordBytes] at below; omega)
    have waiting : Loaded { dmov.prepared page dest with
        mem := writeBytes (dmov.prepared page dest).mem 0x400024
          (wordBytes (started (dmov.prepared page dest).nand page).status)
        nand := started (dmov.prepared page dest).nand page
        bufCursor := 0 } page dest _ := noted.of_mem rfl
    exact waiting.drain_admitted room rfl

/-- Two pages, read by the driver's list from a data mover over the dump. -/
def twoPages : List Byte := List.replicate 2048 0x11 ++ List.replicate 2048 0x22

def pageReadMemory : Memory := ((overDump twoPages).prepared 1 0x10000000).mem

theorem pageReadMemory_admitted :
    CallsAdmitted (overImage pageReadMemory twoPages) [ptrArea >>> 3 ||| cmdPtrLp] := by
  have counted : { overImage pageReadMemory twoPages with
      execCount := (overImage pageReadMemory twoPages).execCount + 1 } =
        (overDump twoPages).prepared 1 0x10000000 := by
    simp only [overImage, pageReadMemory, prepared, overDump]
  have mem : (overImage pageReadMemory twoPages).mem = ((overDump twoPages).prepared 1 0x10000000).mem := by
    simp only [overImage, pageReadMemory]
  exact ⟨pageRead_admitted (overDump_apart twoPages) mem counted, trivial⟩

/-- The second page arrives in both memories. -/
theorem execCmdptrs_simulates_pageRead :
    ∃ after, (Reference.DmovModel.overImage pageReadMemory twoPages).execCmdptrs
        ([ptrArea >>> 3 ||| cmdPtrLp].map BitVec.toNat) =
          some (((overImage pageReadMemory twoPages).execCmdptrs [ptrArea >>> 3 ||| cmdPtrLp]).1.map
            BitVec.toNat, after) ∧
      Agrees after ((overImage pageReadMemory twoPages).execCmdptrs [ptrArea >>> 3 ||| cmdPtrLp]).2 ∧
      segment after.mem.byteAt 0x10000000 2048 = List.replicate 2048 0x22 := by
  obtain ⟨after, ran, agrees⟩ := execCmdptrs_simulates [ptrArea >>> 3 ||| cmdPtrLp]
    (overImage_agrees pageReadMemory twoPages) pageReadMemory_admitted
  refine ⟨after, ran, agrees, ?_⟩
  have inside : (1 : Word).toNat < (overDump twoPages).nand.dataBlob.length / pageData := by
    rw [overDump_dataBlob, twoPages, List.length_append, List.length_replicate, List.length_replicate]
    decide
  have read : ((overImage pageReadMemory twoPages).execCmdptrs [ptrArea >>> 3 ||| cmdPtrLp]).2 =
      (overDump twoPages).dmovReadPage 1 0x10000000 := by
    simp only [execCmdptrs, dmovReadPage, overImage, pageReadMemory, prepared, overDump]
  have second : NandController.imagePage twoPages 1 = List.replicate 2048 0x22 := by
    rw [NandController.imagePage, twoPages, pageData, List.drop_append, List.drop_replicate,
      List.length_replicate, Nat.one_mul, Nat.sub_self, List.replicate_zero, List.nil_append,
      List.drop_zero, List.take_replicate, Nat.min_self]
  have arrived := (dmovReadPage_result (overDump_apart twoPages) inside).1
  rw [agrees.mem, read]
  exact arrived.trans ((congrArg _ (aliasPage_low (by decide))).trans second)

end DmovModel

end ZeeboLle.Device

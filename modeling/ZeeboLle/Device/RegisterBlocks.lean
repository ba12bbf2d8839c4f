import ZeeboLle.Device.NandRead

/-! Blocks of controller registers as the data mover transfers them. One descriptor should move
every word of its block, the register that starts a command setting the buffer's cursor back. The
data mover does so for one word, and for four words that do not start a command. -/
namespace ZeeboLle.Device

open Paging Unicorn

namespace NandController

@[simp] theorem reg_execute (nand : NandController) (cmd : Word) : (nand.execute cmd).reg = nand.reg := by
  unfold execute
  split
  · rfl
  · split
    · dsimp only
      split <;> rfl
    · rfl

/-- A store changes one entry of the register file, whatever else it starts. -/
@[simp] theorem reg_write (nand : NandController) (off val : Word) (size : Nat) :
    (nand.write off val size).reg = Function.update nand.reg off val := by
  unfold write
  dsimp only
  split
  · rfl
  · split
    · rw [reg_execute]
    · split <;> rfl

end NandController

namespace DmovModel

variable {dmov : DmovModel} {src dst ln : Word}

/-- A register into memory. -/
def fetchWord (dmov : DmovModel) (src dst : Word) : DmovModel :=
  { dmov with mem := writeBytes dmov.mem dst.toNat (wordBytes (dmov.nand.read (src - nandBase))) }

/-- Memory into a register; starting a command sets the cursor back. -/
def programWord (dmov : DmovModel) (src dst : Word) : DmovModel :=
  { dmov with
    nand := dmov.nand.write (dst - nandBase) (dmov.ram32 src) 4
    bufCursor := if dst = nandBase + rExecCmd then 0 else dmov.bufCursor }

/-- The words of a block in order, each once. -/
def eachWord (move : DmovModel → Word → Word → DmovModel) (dmov : DmovModel) (src dst : Word) :
    Nat → DmovModel
  | 0 => dmov
  | count + 1 => eachWord move (move dmov src dst) (src + 4) (dst + 4) count

/-- All words of a block, whichever side the registers are on. -/
def transferBlock (dmov : DmovModel) (src dst ln : Word) : DmovModel :=
  if isNand src then eachWord fetchWord dmov src dst (ln.toNat / 4)
  else eachWord programWord dmov src dst (ln.toNat / 4)

/-- Whole registers inside the window, other than the page buffer's address. -/
structure RegisterBlock (address ln : Word) : Prop where
  register : isNand address = true
  aligned : address.toNat % 4 = 0
  whole : ln.toNat % 4 = 0
  inside : (address - nandBase).toNat + ln.toNat ≤ 0x400
  other : address ≠ nandFlashBuffer

/-- Memory that does not run past the end of the address space. -/
structure RamBlock (address ln : Word) : Prop where
  memory : isNand address = false
  inside : address.toNat + ln.toNat ≤ 0x100000000

/-- A descriptor between registers and memory. -/
def BlockTransfer (src dst ln : Word) : Prop :=
  (RegisterBlock src ln ∧ RamBlock dst ln) ∨ (RamBlock src ln ∧ RegisterBlock dst ln)

/-- The register that starts a command is in the block. -/
def startsCommand (dst ln : Word) : Prop := ∃ index, 4 * index < ln.toNat ∧
  dst + BitVec.ofNat 32 (4 * index) = nandBase + rExecCmd

theorem RegisterBlock.toNat_off (block : RegisterBlock dst ln) :
    (dst - nandBase).toNat + 0xa0a00000 = dst.toNat := by
  have base : nandBase.toNat = 0xa0a00000 := rfl
  have low := block.register
  rw [isNand, Bool.and_eq_true, decide_eq_true_eq, ge_iff_le, BitVec.le_def, base] at low
  have bound := dst.isLt
  rw [BitVec.toNat_sub, base]
  omega

theorem execDescriptor_fetch (block : RegisterBlock src ln) :
    dmov.execDescriptor src dst ln = dmov.fetchWord src dst := by
  rw [execDescriptor, if_pos block.register, fromNand]
  exact if_neg block.other

theorem execDescriptor_program (ram : RamBlock src ln) (block : RegisterBlock dst ln)
    (single : ln ≠ 16) :
    dmov.execDescriptor src dst ln = { dmov.programWord src dst with
      nand := dmov.nand.write (dst - nandBase) (dmov.ram32 src) (min ln.toNat 4) } :=
  exec_register dmov ram.memory block.register block.other single

theorem toNat_step {address : Word} (index : Nat) (inside : address.toNat + index < 0x100000000) :
    (address + BitVec.ofNat 32 index).toNat = address.toNat + index := by
  rw [BitVec.toNat_add, BitVec.toNat_ofNat]
  omega

theorem masked_of_aligned {word : Word} (aligned : word.toNat % 4 = 0) : word &&& ~~~3#32 = word := by
  have low : word &&& 3#32 = 0#32 := by
    apply BitVec.eq_of_toNat_eq
    rw [BitVec.toNat_and, show (3#32 : Word).toNat = 2 ^ 2 - 1 from rfl, Nat.and_two_pow_sub_one_eq_mod]
    exact aligned
  calc word &&& ~~~3#32
    _ = (word &&& 3#32) ||| (word &&& ~~~3#32) := by rw [low, BitVec.zero_or]
    _ = word &&& (3#32 ||| ~~~3#32) := BitVec.and_or_distrib_left.symm
    _ = word := by
      have all : (3#32 ||| ~~~3#32) = BitVec.allOnes 32 := by decide
      rw [all, BitVec.and_allOnes]

/-- Four words at once are all moved, but the cursor stays. -/
theorem execDescriptor_burst (ram : RamBlock src 16) (block : RegisterBlock dst 16) :
    dmov.execDescriptor src dst 16 =
      { eachWord programWord dmov src dst 4 with bufCursor := dmov.bufCursor } := by
  have inside : (dst - nandBase).toNat + 16 ≤ 0x400 := block.inside
  have below (index : Word) (small : index.toNat < 16) : ¬ dst - nandBase + index ≥ 0x400 := by
    have limit : (0x400 : Word).toNat = 0x400 := rfl
    rw [ge_iff_le, BitVec.le_def, limit, BitVec.toNat_add]
    omega
  have register (index : Word) : dst + index - nandBase = dst - nandBase + index := by
    rw [BitVec.sub_eq_add_neg, BitVec.sub_eq_add_neg, BitVec.add_assoc, BitVec.add_comm index,
      BitVec.add_assoc]
  have first (word : Word) : word + 0 = word := BitVec.add_zero word
  have start : ¬ dst - nandBase ≥ 0x400 := first (dst - nandBase) ▸ below 0 (by decide)
  have third (word : Word) : word + 4 + 4 = word + 8 := BitVec.add_assoc ..
  have fourth (word : Word) : word + 8 + 4 = word + 12 := BitVec.add_assoc ..
  have source : ¬ isNand src = true := by rw [ram.memory]; exact Bool.false_ne_true
  rw [execDescriptor, if_neg source, if_pos block.register, toNand]
  simp only [if_neg block.other, if_true, if_pos (masked_of_aligned block.aligned), writeRegs,
    if_neg (below 4 (by decide)), if_neg (below 8 (by decide)),
    if_neg (below 12 (by decide)), if_neg start, eachWord, programWord, first, third, fourth, register, ram32]

theorem nextWord (address : Word) (index : Nat) :
    address + BitVec.ofNat 32 (4 * (index + 1)) = address + 4 + BitVec.ofNat 32 (4 * index) := by
  rw [BitVec.add_assoc, Nat.mul_succ, Nat.add_comm, BitVec.ofNat_add]
  rfl

/-- The registers a block names, in order. -/
def registerWords (nand : NandController) (src : Word) (count : Nat) : List Word :=
  (List.range count).map fun index => nand.read (src + BitVec.ofNat 32 (4 * index) - nandBase)

theorem registerWords_succ (nand : NandController) (src : Word) (count : Nat) :
    registerWords nand src (count + 1) = nand.read (src - nandBase) :: registerWords nand (src + 4) count := by
  have first : src + BitVec.ofNat 32 (4 * 0) = src := BitVec.add_zero src
  rw [registerWords, List.range_succ_eq_map, List.map_cons, List.map_map, first]
  congr 1
  apply List.map_congr_left
  intro index _
  rw [Function.comp_apply, nextWord]

/-- All words of a register block end up in memory. -/
theorem mem_eachWord_fetch {count : Nat} (inside : dst.toNat + 4 * count ≤ 0x100000000) :
    (eachWord fetchWord dmov src dst count).mem =
      wram dmov.mem dst.toNat (registerWords dmov.nand src count) := by
  induction count generalizing dmov src dst with
  | zero => rfl
  | succ count ih =>
    rw [registerWords_succ, eachWord, wram]
    cases count with
    | zero => rfl
    | succ count =>
      have next : (dst + 4).toNat = dst.toNat + 4 := toNat_step 4 (by omega)
      rw [ih (by omega), next]
      rfl

theorem eachWord_program_apart {count : Nat} {off : Word}
    (apart : ∀ index, index < count → dst + BitVec.ofNat 32 (4 * index) - nandBase ≠ off) :
    (eachWord programWord dmov src dst count).nand.reg off = dmov.nand.reg off := by
  induction count generalizing dmov src dst with
  | zero => rfl
  | succ count ih =>
    have first := apart 0 (by omega)
    rw [eachWord, ih fun index below => nextWord dst index ▸ apart (index + 1) (by omega), programWord]
    dsimp only
    rw [NandController.reg_write, Function.update_of_ne]
    exact fun same => first (by rw [same]; congr 1; exact BitVec.add_zero dst)

/-- Each register of the block ends up with its word of memory. -/
theorem reg_eachWord_program {count index : Nat} (small : count ≤ 0x100) (below : index < count) :
    (eachWord programWord dmov src dst count).nand.reg (dst + BitVec.ofNat 32 (4 * index) - nandBase) =
      dmov.ram32 (src + BitVec.ofNat 32 (4 * index)) := by
  induction count generalizing dmov src dst index with
  | zero => omega
  | succ count ih =>
    rw [eachWord]
    cases index with
    | zero =>
      have first (address : Word) : address + BitVec.ofNat 32 (4 * 0) = address := BitVec.add_zero address
      rw [first, first, eachWord_program_apart, programWord]
      · dsimp only
        rw [NandController.reg_write, Function.update_self]
      · intro later short same
        have place := congrArg BitVec.toNat same
        have base : nandBase.toNat = 0xa0a00000 := rfl
        rw [← nextWord, BitVec.toNat_sub, BitVec.toNat_sub, BitVec.toNat_add, BitVec.toNat_ofNat, base] at place
        omega
    | succ index =>
      rw [nextWord, nextWord, ih (by omega) (by omega)]
      rfl

theorem bufCursor_eachWord_kept {count : Nat}
    (never : ∀ index, index < count → dst + BitVec.ofNat 32 (4 * index) ≠ nandBase + rExecCmd) :
    (eachWord programWord dmov src dst count).bufCursor = dmov.bufCursor := by
  induction count generalizing dmov src dst with
  | zero => rfl
  | succ count ih =>
    have first : dst ≠ nandBase + rExecCmd := fun same => never 0 (by omega) (same ▸ BitVec.add_zero _)
    rw [eachWord, ih fun index below => nextWord dst index ▸ never (index + 1) (by omega), programWord]
    exact if_neg first

/-- The cursor is back at the start once the register that starts a command is written. -/
theorem bufCursor_eachWord_reset {count index : Nat} (below : index < count)
    (starts : dst + BitVec.ofNat 32 (4 * index) = nandBase + rExecCmd) :
    (eachWord programWord dmov src dst count).bufCursor = 0 := by
  induction count generalizing dmov src dst index with
  | zero => omega
  | succ count ih =>
    rw [eachWord]
    cases index with
    | succ index => exact ih (by omega) (nextWord dst index ▸ starts)
    | zero =>
      have first : dst = nandBase + rExecCmd := (BitVec.add_zero dst).symm.trans starts
      by_cases again : ∃ later, later < count ∧ dst + 4 + BitVec.ofNat 32 (4 * later) = nandBase + rExecCmd
      · obtain ⟨later, short, hit⟩ := again
        exact ih short hit
      · rw [bufCursor_eachWord_kept fun later short hit => again ⟨later, short, hit⟩, programWord]
        exact if_pos first

/-- Memory of ones throughout, the same word in every register, and a cursor inside the page. -/
def flooded : DmovModel where
  mem := ⟨fun _ => some ⟨.all, .ram⟩, fun _ => 0xff, fun _ => 0xff⟩
  nand := { NandController.initial [] with reg := fun _ => 5 }
  execCount := 0
  bufCursor := 4
  lastChan := 0

theorem flooded_sees : flooded.mem.Sees (· < 0x100000000) fun _ => 0xff := by
  have ram (address : Nat) (low : address < 0x100000000) : flooded.mem.cell address = some (.ram address) := by
    rw [Memory.cell, if_pos low]
    rfl
  refine ⟨Memory.owns_ram ram, fun address low => ?_⟩
  rw [Memory.byteAt_of_cell (ram address low)]
  rfl

theorem wordAt_ones (address : Nat) : wordAt (fun _ => 0xff) address = 0xffffffff := by
  have bytes : (List.range 4).map (fun _ => (0xff : Byte)) = wordBytes 0xffffffff := by decide
  exact wordAt_of_segment bytes

theorem flooded_ram32 (address : Word) :
    flooded.ram32 address = 0xffffffff ∨ flooded.ram32 address = 0 := by
  by_cases inside : address.toNat + 4 ≤ 0x100000000
  · rw [ram32, loadWord_sees flooded_sees fun index below => by omega]
    exact .inl (wordAt_ones _)
  · rw [ram32, loadWord, Memory.ucMemRead, if_neg]
    · exact .inr rfl
    · intro backed
      have last := Memory.backed_iff.mp backed 3 (by omega)
      have low := (Memory.isSome_cell.mp last).1
      omega

theorem flooded_read (off : Word) : flooded.nand.read off ≠ 0xffffffff := by
  have empty (index : Nat) : flooded.nand.bufferByte index = 0 := by
    rw [NandController.bufferByte, ite_eq_right_iff]
    exact fun _ => rfl
  rw [NandController.read]
  split
  · decide
  · split
    · decide
    · split
      · decide
      · split
        · decide
        · split
          · simp only [NandController.bufferWord, empty]
            decide
          · change (5 : Word) ≠ 0xffffffff
            decide

/-- Two views of one memory hold the same words. -/
theorem wordAt_of_sees {mem : Memory} {region : Nat → Prop} {view other : Nat → Byte}
    (sees : mem.Sees region view) (also : mem.Sees region other) (address : Nat)
    (inside : ∀ index, index < 4 → region (address + index)) : wordAt view address = wordAt other address := by
  rw [← loadWord_sees sees inside, loadWord_sees also inside]

theorem fetch_loses (block : RegisterBlock src ln) (ram : RamBlock dst ln)
    (room : dst.toNat + 4 ≤ 0x100000000) (other : ln ≠ 4) :
    flooded.execDescriptor src dst ln ≠ flooded.transferBlock src dst ln := by
  intro same
  rw [execDescriptor_fetch block, transferBlock, if_pos block.register] at same
  have inside := ram.inside
  have whole := block.whole
  have one := flooded_sees.ucMemWrite dst.toNat (wordBytes (flooded.nand.read (src - nandBase)))
    fun index below => by rw [length_wordBytes] at below; omega
  have each := wram_sees flooded_sees dst.toNat (registerWords flooded.nand src (ln.toNat / 4))
    fun index below => by rw [registerWords, List.length_map, List.length_range] at below; omega
  rw [← mem_eachWord_fetch (by omega), ← same] at each
  by_cases none : ln.toNat = 0
  · -- the word that should have stayed
    have moved := wordAt_of_sees one each dst.toNat fun index below => by omega
    have words : registerWords flooded.nand src (ln.toNat / 4) = [] := by rw [none]; rfl
    rw [words, List.flatMap_nil, patch_nil, wordAt_ones] at moved
    have first := wordAt_first (fun _ => 0xff) dst.toNat (flooded.nand.read (src - nandBase)) []
    rw [List.flatMap_cons, List.flatMap_nil, List.append_nil] at first
    exact flooded_read _ (first.symm.trans moved)
  · -- the second word, which should have moved
    have long : 8 ≤ ln.toNat := by
      have short : ln.toNat ≠ 4 := fun four => other (BitVec.eq_of_toNat_eq four)
      omega
    have moved := wordAt_of_sees one each (dst.toNat + 4 * 1) fun index below => by omega
    have second : (registerWords flooded.nand src (ln.toNat / 4))[1]? =
        some (flooded.nand.read (src + BitVec.ofNat 32 (4 * 1) - nandBase)) := by
      rw [registerWords, List.getElem?_map, List.getElem?_range (by omega)]
      rfl
    rw [wordAt_words second, wordAt, segment_patch_apart (.inr (by rw [length_wordBytes])), ← wordAt,
      wordAt_ones] at moved
    exact flooded_read _ moved.symm

theorem program_loses (ram : RamBlock src ln) (block : RegisterBlock dst ln) (other : ln ≠ 4)
    (more : ln ≠ 16) : flooded.execDescriptor src dst ln ≠ flooded.transferBlock src dst ln := by
  intro same
  have source : ¬ isNand src = true := by rw [ram.memory]; exact Bool.false_ne_true
  rw [execDescriptor_program ram block more, transferBlock, if_neg source] at same
  have inside := block.inside
  have whole := block.whole
  have place := block.toNat_off
  have registers := fun off => congrArg (fun after => after.nand.reg off) same
  dsimp only at registers
  simp only [NandController.reg_write] at registers
  by_cases none : ln.toNat = 0
  · have kept := registers (dst - nandBase)
    rw [Function.update_self, none] at kept
    change flooded.ram32 src = 5 at kept
    rcases flooded_ram32 src with ones | zero
    · rw [ones] at kept
      exact absurd kept (by decide)
    · rw [zero] at kept
      exact absurd kept (by decide)
  · have long : 8 ≤ ln.toNat := by
      have short : ln.toNat ≠ 4 := fun four => other (BitVec.eq_of_toNat_eq four)
      omega
    have moved := registers (dst + BitVec.ofNat 32 (4 * 1) - nandBase)
    rw [reg_eachWord_program (by omega) (by omega), Function.update_of_ne] at moved
    · change (5 : Word) = flooded.ram32 _ at moved
      rcases flooded_ram32 (src + BitVec.ofNat 32 (4 * 1)) with ones | zero
      · rw [ones] at moved
        exact absurd moved (by decide)
      · rw [zero] at moved
        exact absurd moved (by decide)
    · intro same
      have place := congrArg BitVec.toNat same
      have base : nandBase.toNat = 0xa0a00000 := rfl
      rw [BitVec.toNat_sub, BitVec.toNat_sub, BitVec.toNat_add, BitVec.toNat_ofNat, base] at place
      omega

/-- One word; or four words into registers that start no command. A descriptor for no words at all
is complete only where the word it moves has no room in memory. -/
def BlockCompletes (src dst ln : Word) : Prop :=
  ln = 4 ∨ (ln = 16 ∧ isNand dst = true ∧ ¬ startsCommand dst ln) ∨
    (ln = 0 ∧ isNand src = true ∧ 0x100000000 < dst.toNat + 4)

theorem fetch_completes_iff (block : RegisterBlock src ln) (ram : RamBlock dst ln) :
    (∀ dmov : DmovModel, dmov.execDescriptor src dst ln = dmov.transferBlock src dst ln) ↔
      BlockCompletes src dst ln := by
  constructor
  · intro complete
    by_contra incomplete
    have other : ln ≠ 4 := fun four => incomplete (.inl four)
    by_cases room : dst.toNat + 4 ≤ 0x100000000
    · exact fetch_loses block ram room other (complete flooded)
    · have none : ln = 0 := by
        have inside := ram.inside
        have whole := block.whole
        apply BitVec.eq_of_toNat_eq
        change ln.toNat = 0
        omega
      exact incomplete (.inr (.inr ⟨none, block.register, by omega⟩))
  · rintro (four | ⟨_, target, _⟩ | ⟨none, _, beyond⟩) dmov
    · subst four
      rw [execDescriptor_fetch block, transferBlock, if_pos block.register]
      rfl
    · rw [ram.memory] at target
      cases target
    · subst none
      have missing : ¬ dmov.mem.backed dst.toNat 4 = true := by
        intro backed
        have last := Memory.backed_iff.mp backed 3 (by omega)
        have low := (Memory.isSome_cell.mp last).1
        omega
      rw [execDescriptor_fetch block, transferBlock, if_pos block.register, fetchWord, writeBytes,
        Memory.ucMemWrite, length_wordBytes, if_neg missing]
      rfl

theorem program_completes_iff (ram : RamBlock src ln) (block : RegisterBlock dst ln) :
    (∀ dmov : DmovModel, dmov.execDescriptor src dst ln = dmov.transferBlock src dst ln) ↔
      BlockCompletes src dst ln := by
  have source : ¬ isNand src = true := by rw [ram.memory]; exact Bool.false_ne_true
  constructor
  · intro complete
    by_contra incomplete
    have other : ln ≠ 4 := fun four => incomplete (.inl four)
    by_cases burst : ln = 16
    · subst burst
      have starts : startsCommand dst 16 := by
        by_contra never
        exact incomplete (.inr (.inl ⟨rfl, block.register, never⟩))
      obtain ⟨index, below, hit⟩ := starts
      have cursor := congrArg DmovModel.bufCursor (complete flooded)
      rw [execDescriptor_burst ram block, transferBlock, if_neg source] at cursor
      change 4 = (eachWord programWord flooded src dst 4).bufCursor at cursor
      have short : index < 4 := by
        change 4 * index < 16 at below
        omega
      rw [bufCursor_eachWord_reset short hit] at cursor
      cases cursor
    · exact program_loses ram block other burst (complete flooded)
  · rintro (four | ⟨burst, _, never⟩ | ⟨_, register, _⟩) dmov
    · subst four
      rw [execDescriptor_program ram block (by decide), transferBlock, if_neg source]
      rfl
    · subst burst
      have kept : (eachWord programWord dmov src dst 4).bufCursor = dmov.bufCursor :=
        bufCursor_eachWord_kept fun index below hit =>
          never ⟨index, by change 4 * index < 16; omega, hit⟩
      rw [execDescriptor_burst ram block, transferBlock, if_neg source, ← kept]
      rfl
    · exact absurd register source

/-- A descriptor between registers and memory moves all its words, each once and in order, and sets
the cursor back when it starts a command, exactly when it has one word or is a burst of four that
starts none. -/
theorem execDescriptor_complete_iff (transfer : BlockTransfer src dst ln) :
    (∀ dmov : DmovModel, dmov.execDescriptor src dst ln = dmov.transferBlock src dst ln) ↔
      BlockCompletes src dst ln := by
  rcases transfer with ⟨block, ram⟩ | ⟨ram, block⟩
  · exact fetch_completes_iff block ram
  · exact program_completes_iff ram block

/-- The two configuration words of the driver's own list. -/
theorem driver_config_transfer : BlockTransfer (ioArea + 0x10) (nandBase + 0x20) 8 :=
  .inr ⟨⟨by decide, by decide⟩, ⟨by decide, by decide, by decide, by decide, by decide⟩⟩

theorem execDescriptor_complete_iff_config :
    (∀ dmov : DmovModel, dmov.execDescriptor (ioArea + 0x10) (nandBase + 0x20) 8 =
        dmov.transferBlock (ioArea + 0x10) (nandBase + 0x20) 8) ↔
      BlockCompletes (ioArea + 0x10) (nandBase + 0x20) 8 :=
  execDescriptor_complete_iff driver_config_transfer

/-- The second configuration word never arrives. -/
theorem config_descriptor_incomplete :
    ⟨0, ioArea + 0x10, nandBase + 0x20, 8⟩ ∈ readDescriptors 0 ∧
      ¬ ∀ src dst ln, BlockTransfer src dst ln →
        ∀ dmov : DmovModel, dmov.execDescriptor src dst ln = dmov.transferBlock src dst ln := by
  refine ⟨by decide, fun complete => ?_⟩
  obtain ⟨_, block⟩ | ⟨ram, block⟩ := driver_config_transfer
  · exact absurd block.memory (by decide)
  · exact program_loses ram block (by decide) (by decide) (complete _ _ _ driver_config_transfer flooded)

end DmovModel

end ZeeboLle.Device

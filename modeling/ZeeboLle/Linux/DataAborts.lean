import ZeeboLle.Linux.GuestWalk

/-! Data aborts of the Linux machine: the host enters them in place of the CPU, and where the fault
address register reads zero it takes the address from the instruction. Beside it stands the address
that the ARMv6 addressing modes give. -/
namespace ZeeboLle.Linux

open Unicorn

/-- What the host can read: r0 to r14, PC, CPSR, the fault address register, and memory. -/
structure GuestCpu where
  mmu : GuestMmu
  regs : Fin 15 → Word
  pc : Word
  cpsr : Word
  far : Word

/-- `apply_shift`. -/
def applyShift (v type sh : Word) : Word :=
  let sh := sh &&& 31
  if sh = 0 then v
  else if type = 0 then v <<< sh
  else if type = 1 then v >>> sh
  else if type = 2 then v.sshiftRight' sh
  else v >>> sh ||| v <<< (32 - sh)

/-- `__builtin_popcount`. -/
def popcount (word : Word) : Nat := (List.range 32).countP fun bit => word.getLsbD bit

/-- An offset before or after the access, up or down. -/
def indexed (p u : Bool) (base off : Word) : Word :=
  if p then if u then base + off else base - off else base

/-- What `arm_ls_fault_addr` returns and sets. -/
structure FaultAddr where
  addr : Word
  decoded : Bool
  isWrite : Bool
deriving DecidableEq

namespace GuestCpu

variable (cpu : GuestCpu)

/-- `regs[n]`, which has 15 entries. -/
def reg? (n : Nat) : Option Word := if inside : n < 15 then some (cpu.regs ⟨n, inside⟩) else none

/-- The offset of a halfword or signed transfer. -/
def extraOffset (insn : Word) : Option Word :=
  if insn >>> 22 &&& 1 ≠ 0 then some (insn >>> 4 &&& 0xf0 ||| insn &&& 0xf)
  else cpu.reg? (insn &&& 0xf).toNat

/-- The address of the access of an instruction. Nothing stands for a read outside the array. -/
def decodeFault (pc insn : Word) : Option FaultAddr :=
  let isWrite := decide (insn >>> 20 &&& 1 = 0)
  let rn := (insn >>> 16 &&& 0xf).toNat
  let u := decide (insn >>> 23 &&& 1 ≠ 0)
  let p := decide (insn >>> 24 &&& 1 ≠ 0)
  let stype := insn >>> 5 &&& 3
  let cls := insn &&& 0x0e000000
  (if rn = 15 then some (pc + 8) else cpu.reg? rn).bind fun base =>
    if cls = 0x04000000 then some ⟨indexed p u base (insn &&& 0xfff), true, isWrite⟩
    else if cls = 0x06000000 then
      let off :=
        if insn &&& 0x10 ≠ 0 then
          (cpu.reg? (insn &&& 0xf).toNat).bind fun v =>
            (cpu.reg? (insn >>> 8 &&& 0xf).toNat).map fun rs => applyShift v stype (rs &&& 0xff)
        else (cpu.reg? (insn &&& 0xf).toNat).map fun v => applyShift v stype (insn >>> 7 &&& 0x1f)
      off.map fun off => ⟨indexed p u base off, true, isWrite⟩
    else if cls = 0 ∧ insn &&& 0x90 = 0x90 then
      (cpu.extraOffset insn).map fun off => ⟨indexed p u base off, true, isWrite⟩
    else if cls = 0x08000000 then
      let nregs := popcount (insn &&& 0xffff)
      if u then some ⟨if p then base + 4 else base, true, isWrite⟩
      else some ⟨base - 4 * BitVec.ofNat 32 (if p then nregs else if nregs ≠ 0 then nregs - 1 else 0),
        true, isWrite⟩
    else if insn &&& 0x0fb00ff0 = 0x01000090 then some ⟨base, true, isWrite⟩
    else if insn &&& 0x0e0000f0 = 0x000000d0 then
      (cpu.extraOffset insn).map fun off => ⟨indexed p u base off, true, isWrite⟩
    else some ⟨base, false, isWrite⟩

def armLsFaultAddr (pc : Word) : Option FaultAddr :=
  match cpu.mmu.guestReadU32 pc with
  | none => some ⟨0, false, false⟩
  | some insn => cpu.decodeFault pc insn

end GuestCpu

structure PendingAbort where
  addr : Word
  fsr : Word
  kind : Word
deriving DecidableEq

/-- The aborts recorded last, and how many there were. -/
structure AbortLog where
  pending : List PendingAbort
  pabt : Word
  dabt : Word

/-- The registers that an entry writes, in the mode it enters. -/
structure ExceptionEntry where
  cpsr : Word
  spsr : Word
  lr : Word
  pc : Word
deriving DecidableEq

/-- The oldest record goes when there are more than eight. -/
def AbortLog.push (log : AbortLog) (record : PendingAbort) : AbortLog :=
  let pending := log.pending ++ [record]
  { log with pending := if 8 < pending.length then pending.tail else pending }

/-- The log afterwards, and the entry unless there is none. Exception 2 is SWI, 3 a prefetch abort
and 4 a data abort. -/
def GuestCpu.onIntr (cpu : GuestCpu) (log : AbortLog) (intno : Word) :
    Option (AbortLog × Option ExceptionEntry) :=
  if intno ≠ 2 ∧ intno ≠ 3 ∧ intno ≠ 4 then some (log, none)
  else
    let isSwi := decide (intno = 2)
    let isPabt := decide (intno = 3)
    let found :=
      if isPabt then some ⟨cpu.pc, false, false⟩
      else if cpu.far ≠ 0 then some ⟨cpu.far, false, false⟩
      else cpu.armLsFaultAddr cpu.pc
    found.map fun found =>
      let fsr : Word := if isPabt then 0x7 else 0x7 ||| (if found.isWrite then 0x800#32 else 0#32)
      let log := if isPabt then { log with pabt := log.pabt + 1 } else log
      let log := if !isPabt && !isSwi then { log with dabt := log.dabt + 1 } else log
      if 20000 < log.pabt + log.dabt then (log, none)
      else
        let mode : Word := if isSwi then 0x13 else 0x17
        let vec : Word := 0xffff0000 + (if isSwi then 0x08#32 else if isPabt then 0x0c#32 else 0x10#32)
        let lr := if isSwi then cpu.pc else if isPabt then cpu.pc + 4 else cpu.pc + 8
        let entry := ⟨cpu.cpsr &&& ~~~0x3f ||| mode ||| 0x80 ||| 0x40, cpu.cpsr, lr, vec⟩
        if isPabt || !isSwi then
          (log.push ⟨found.addr, fsr, if isPabt then 0 else 1⟩, some entry)
        else (log, some entry)

/-- An offset as it is encoded; a register that is PC is unpredictable. -/
inductive Offset where
  | immediate (n : Word)
  | register (rm : Fin 15)
  | scaled (rm : Fin 15) (type : BitVec 2) (amount : BitVec 5)

/-- The loads and stores. `stores` says which of two it is. -/
inductive LoadStore where
  | single (p u : Bool) (rn : Fin 16) (offset : Offset) (stores : Bool)
  | double (p u : Bool) (rn : Fin 16) (offset : Offset) (stores : Bool)
  | swap (byte : Bool) (rn : Fin 16) (rm : Fin 15)
  | loadExclusive (rn : Fin 16)
  | storeExclusive (rn : Fin 16) (rm : Fin 15)
  | multiple (p u : Bool) (rn : Fin 16) (count : Nat) (stores : Bool)

/-- The register in bits 0 to 3. -/
def offsetIndex (insn : Word) : Option (Fin 15) :=
  let rm := (insn.extractLsb' 0 4).toNat
  if inside : rm < 15 then some ⟨rm, inside⟩ else none

/-- Two halves of an immediate, or a register with bits 8 to 11 zero. -/
def extraOperand (insn : Word) : Option Offset :=
  if insn.getLsbD 22 then some (.immediate (insn >>> 4 &&& 0xf0 ||| insn &&& 0xf))
  else if insn &&& 0xf00 = 0 then (offsetIndex insn).map .register
  else none

/-- The transfers among the encodings `000`, by their bits 24 to 20 and 7 to 4:
`10B00 1001` is SWP and SWPB with bits 8 to 11 zero, `11001 1001` and `11000 1001` are LDREX and
STREX with ones for the registers they do not have, and `PUIWL 1SH1` are LDRH and STRH, the signed
loads, LDRD and STRD. -/
def extraLoadStore? (insn : Word) : Option LoadStore :=
  let p := insn.getLsbD 24
  let u := insn.getLsbD 23
  let rn := (insn.extractLsb' 16 4).toFin
  if insn &&& 0x0ff00ff0 = 0x01000090 then (offsetIndex insn).map (.swap false rn)
  else if insn &&& 0x0ff00ff0 = 0x01400090 then (offsetIndex insn).map (.swap true rn)
  else if insn &&& 0x0ff00fff = 0x01900f9f then some (.loadExclusive rn)
  else if insn &&& 0x0ff00ff0 = 0x01800f90 then (offsetIndex insn).map (.storeExclusive rn)
  else if insn &&& 0x0e0000f0 = 0x000000b0 then
    (extraOperand insn).map fun offset => .single p u rn offset !insn.getLsbD 20
  else if insn &&& 0x0e1000d0 = 0x001000d0 then
    (extraOperand insn).map fun offset => .single p u rn offset false
  else if insn &&& 0x0e1000d0 = 0x000000d0 then
    (extraOperand insn).map fun offset => .double p u rn offset (insn.getLsbD 5)
  else none

/-- The encodings, under a condition other than `1111`: `010 PUBWL` and `011 PUBWL` with bit 4
clear are LDR and STR of words and bytes, and `100 PUSWL` is LDM and STM of a list that is not
empty. -/
def loadStore? (insn : Word) : Option LoadStore :=
  let p := insn.getLsbD 24
  let u := insn.getLsbD 23
  let stores := !insn.getLsbD 20
  let rn := (insn.extractLsb' 16 4).toFin
  if insn.extractLsb' 28 4 = 0b1111#4 then none
  else if insn &&& 0x0e000000 = 0x04000000 then some (.single p u rn (.immediate (insn &&& 0xfff)) stores)
  else if insn &&& 0x0e000010 = 0x06000000 then
    (offsetIndex insn).map fun rm =>
      .single p u rn (.scaled rm (insn.extractLsb' 5 2) (insn.extractLsb' 7 5)) stores
  else if insn &&& 0x0e000000 = 0x08000000 then
    if popcount (insn &&& 0xffff) = 0 then none
    else some (.multiple p u rn (popcount (insn &&& 0xffff)) stores)
  else extraLoadStore? insn

/-- A scaled register. Amount 0 stands for 32 in LSR and ASR, and for RRX in place of ROR. -/
def scaled (carry : Bool) (v : Word) (type : BitVec 2) (amount : BitVec 5) : Word :=
  if type = 0 then v <<< amount.toNat
  else if type = 1 then if amount = 0 then 0 else v >>> amount.toNat
  else if type = 2 then
    if amount = 0 then if v.msb then BitVec.allOnes 32 else 0 else v.sshiftRight amount.toNat
  else if amount = 0 then (if carry then 0x80000000#32 else 0#32) ||| v >>> 1
  else v.rotateRight amount.toNat

/-- Where a block of `count` words begins: IB, IA, DB and DA. -/
def blockStart (p u : Bool) (base : Word) (count : Nat) : Word :=
  match p, u with
  | true, true => base + 4
  | false, true => base
  | true, false => base - 4 * BitVec.ofNat 32 count
  | false, false => base - 4 * BitVec.ofNat 32 count + 4

namespace GuestCpu

variable (cpu : GuestCpu)

def carry : Bool := cpu.cpsr.getLsbD 29

/-- A base register; PC reads as the instruction's address and 8. -/
def base (rn : Fin 16) : Word := if inside : rn.val < 15 then cpu.regs ⟨rn, inside⟩ else cpu.pc + 8

def offset : Offset → Word
  | .immediate n => n
  | .register rm => cpu.regs rm
  | .scaled rm type amount => scaled cpu.carry (cpu.regs rm) type amount

/-- The address of the first word that the instruction at PC accesses. -/
def address : LoadStore → Word
  | .single p u rn offset _ => indexed p u (cpu.base rn) (cpu.offset offset)
  | .double p u rn offset _ => indexed p u (cpu.base rn) (cpu.offset offset)
  | .swap _ rn _ => cpu.base rn
  | .loadExclusive rn => cpu.base rn
  | .storeExclusive rn _ => cpu.base rn
  | .multiple p u rn count _ => blockStart p u (cpu.base rn) count

end GuestCpu

def LoadStore.stores : LoadStore → Bool
  | .single _ _ _ _ stores => stores
  | .double _ _ _ _ stores => stores
  | .swap _ _ _ => true
  | .loadExclusive _ => false
  | .storeExclusive _ _ => true
  | .multiple _ _ _ _ stores => stores

/-- The decoder finds the access of the instruction at PC without reading outside its array, and
whenever a data abort is entered the status recorded last has bit 11 exactly for a store. -/
structure AbortLaw (cpu : GuestCpu) (transfer : LoadStore) : Prop where
  found : cpu.armLsFaultAddr cpu.pc = some ⟨cpu.address transfer, true, transfer.stores⟩
  status : ∀ log after entry, cpu.onIntr log 4 = some (after, some entry) →
    ∃ record, after.pending.getLast? = some record ∧
      (record.fsr.getLsbD 11 = true ↔ transfer.stores = true)

/-- A shift by 0 does to a register what it does with amount 0. -/
def Offset.Kept (cpu : GuestCpu) : Offset → Prop
  | .immediate _ => True
  | .register _ => True
  | .scaled rm type amount => amount = 0 →
      (type = 1 → cpu.regs rm = 0) ∧
      (type = 2 → cpu.regs rm = 0 ∨ cpu.regs rm = BitVec.allOnes 32) ∧
      (type = 3 → cpu.regs rm = if cpu.carry then BitVec.allOnes 32 else 0)

/-- What the decoder gets right. -/
def LoadStore.Handled (cpu : GuestCpu) : LoadStore → Prop
  | .single p _ _ offset _ => p = true → offset.Kept cpu
  | .double _ _ _ _ stores => stores = true
  | .swap byte _ rm => if byte then rm = 0 else cpu.regs rm = 0
  | .loadExclusive _ => False
  | .storeExclusive _ rm => cpu.regs rm = 0
  | .multiple _ _ _ _ _ => True

variable {cpu : GuestCpu} {insn mask value narrow v : Word}

theorem narrowed (found : insn &&& mask = value) (inside : mask &&& narrow = narrow) :
    insn &&& narrow = value &&& narrow := by
  rw [← found, BitVec.and_assoc, inside]

theorem bit_masked (found : insn &&& mask = value) {k : Nat} (inside : mask.getLsbD k = true) :
    insn.getLsbD k = value.getLsbD k := by
  rw [← found, BitVec.getLsbD_and, inside, Bool.and_true]

/-- A field as the host takes it. -/
theorem field_eq (insn : Word) (start len : Nat) (within : len ≤ 32) :
    insn >>> start &&& BitVec.ofNat 32 (2 ^ len - 1) = (insn.extractLsb' start len).setWidth 32 := by
  apply BitVec.eq_of_toNat_eq
  have small : insn.toNat / 2 ^ start % 2 ^ len < 2 ^ 32 :=
    (Nat.mod_lt _ (Nat.two_pow_pos len)).trans_le (Nat.pow_le_pow_right (by decide) within)
  rw [Paging.toNat_and_low within, BitVec.toNat_ushiftRight, BitVec.toNat_setWidth,
    BitVec.extractLsb'_toNat, Nat.shiftRight_eq_div_pow, Nat.mod_eq_of_lt small]

theorem bit_test (insn : Word) (k : Nat) : insn >>> k &&& 1 = 0 ↔ insn.getLsbD k = false := by
  have bit : insn >>> k &&& (1 : Word) = (BitVec.ofBool (insn.getLsbD k)).setWidth 32 :=
    BitVec.and_one_eq_setWidth_ofBool_getLsbD.trans (by rw [BitVec.getLsbD_ushiftRight, Nat.add_zero])
  rw [bit]
  cases insn.getLsbD k <;> decide

theorem bit_set {k : Nat} (set : insn.getLsbD k = true) : insn >>> k &&& 1 ≠ 0 := by
  rw [ne_eq, bit_test, set]
  exact Bool.noConfusion

theorem flag_eq (insn : Word) (k : Nat) : decide (insn >>> k &&& 1 ≠ 0) = insn.getLsbD k := by
  rw [Bool.eq_iff_iff, decide_eq_true_iff, ne_eq, bit_test, Bool.not_eq_false]

theorem flag_clear (insn : Word) (k : Nat) : decide (insn >>> k &&& 1 = 0) = !insn.getLsbD k := by
  rw [Bool.eq_iff_iff, decide_eq_true_iff, bit_test, Bool.not_eq_true']

/-- The base register, or PC and 8. -/
theorem base_eq (cpu : GuestCpu) (insn : Word) :
    (if (insn >>> 16 &&& 0xf).toNat = 15 then some (cpu.pc + 8)
      else cpu.reg? (insn >>> 16 &&& 0xf).toNat) = some (cpu.base (insn.extractLsb' 16 4).toFin) := by
  have field : insn >>> 16 &&& (0xf : Word) = (insn.extractLsb' 16 4).setWidth 32 :=
    field_eq insn 16 4 (by decide)
  rw [field, BitVec.toNat_setWidth_of_le (by decide)]
  generalize insn.extractLsb' 16 4 = rn
  have bound := rn.isLt
  unfold GuestCpu.base GuestCpu.reg?
  change _ = some (if inside : rn.toNat < 15 then cpu.regs ⟨rn.toNat, inside⟩ else cpu.pc + 8)
  by_cases inside : rn.toNat < 15
  · rw [if_neg (by omega), dif_pos inside, dif_pos inside]
  · rw [if_pos (by omega), dif_neg inside]

/-- The register of an offset, unless it is PC. -/
theorem reg?_eq (cpu : GuestCpu) (insn : Word) :
    cpu.reg? (insn &&& 0xf).toNat = (offsetIndex insn).map cpu.regs := by
  have field : insn >>> 0 &&& (0xf : Word) = (insn.extractLsb' 0 4).setWidth 32 :=
    field_eq insn 0 4 (by decide)
  rw [BitVec.ushiftRight_zero] at field
  rw [field, BitVec.toNat_setWidth_of_le (by decide)]
  unfold GuestCpu.reg? offsetIndex
  dsimp only
  split <;> rfl

variable (cpu) (insn) in
/-- What a transfer with an offset comes to. -/
def offsetFault (off : Word) : FaultAddr :=
  ⟨indexed (insn.getLsbD 24) (insn.getLsbD 23) (cpu.base (insn.extractLsb' 16 4).toFin) off, true,
    !insn.getLsbD 20⟩

theorem decodeFault_immediate (cls : insn &&& 0x0e000000 = 0x04000000) :
    cpu.decodeFault cpu.pc insn = some (offsetFault cpu insn (insn &&& 0xfff)) := by
  unfold GuestCpu.decodeFault
  dsimp only
  rw [base_eq, Option.bind_some, flag_eq, flag_eq, flag_clear, if_pos cls, offsetFault]

theorem decodeFault_scaled (cls : insn &&& 0x0e000010 = 0x06000000) :
    cpu.decodeFault cpu.pc insn = (offsetIndex insn).map fun rm =>
      offsetFault cpu insn (applyShift (cpu.regs rm) ((insn.extractLsb' 5 2).setWidth 32)
        ((insn.extractLsb' 7 5).setWidth 32)) := by
  have group : insn &&& 0x0e000000 = 0x06000000 := narrowed cls (by decide)
  have plain : ¬insn &&& 0x10 ≠ 0 := not_not.mpr (narrowed cls (by decide))
  have type : insn >>> 5 &&& (3 : Word) = (insn.extractLsb' 5 2).setWidth 32 :=
    field_eq insn 5 2 (by decide)
  have amount : insn >>> 7 &&& (0x1f : Word) = (insn.extractLsb' 7 5).setWidth 32 :=
    field_eq insn 7 5 (by decide)
  unfold GuestCpu.decodeFault
  dsimp only
  rw [base_eq, Option.bind_some, flag_eq, flag_eq, flag_clear, group, if_neg (by decide), if_pos rfl,
    if_neg plain, reg?_eq, type, amount, Option.map_map, Option.map_map]
  rfl

theorem decodeFault_extra (cls : insn &&& 0x0e000000 = 0) (marks : insn &&& 0x90 = 0x90) :
    cpu.decodeFault cpu.pc insn = (cpu.extraOffset insn).map (offsetFault cpu insn) := by
  unfold GuestCpu.decodeFault
  dsimp only
  rw [base_eq, Option.bind_some, flag_eq, flag_eq, flag_clear, cls, marks, if_neg (by decide),
    if_neg (by decide), if_pos ⟨rfl, rfl⟩]
  rfl

/-- A block begins where the architecture says. -/
theorem decodeFault_multiple (cls : insn &&& 0x0e000000 = 0x08000000)
    (listed : popcount (insn &&& 0xffff) ≠ 0) :
    cpu.decodeFault cpu.pc insn = some ⟨blockStart (insn.getLsbD 24) (insn.getLsbD 23)
      (cpu.base (insn.extractLsb' 16 4).toFin) (popcount (insn &&& 0xffff)), true,
      !insn.getLsbD 20⟩ := by
  unfold GuestCpu.decodeFault
  dsimp only
  rw [base_eq, Option.bind_some, flag_eq, flag_eq, flag_clear, cls, if_neg (by decide),
    if_neg (by decide), if_neg (fun both => absurd both.1 (by decide)), if_pos rfl]
  generalize popcount (insn &&& 0xffff) = count at listed
  obtain ⟨fewer, rfl⟩ := Nat.exists_eq_succ_of_ne_zero listed
  cases insn.getLsbD 23 with
  | true => cases insn.getLsbD 24 <;> rfl
  | false =>
    cases insn.getLsbD 24 with
    | true => rfl
    | false =>
      have words : 4 * BitVec.ofNat 32 (fewer + 1) = 4 * BitVec.ofNat 32 fewer + 4 := by
        rw [BitVec.ofNat_add, BitVec.mul_add]
        rfl
      rw [if_neg Bool.false_ne_true, if_neg Bool.false_ne_true, if_pos (Nat.succ_ne_zero fewer),
        blockStart, words, Nat.succ_sub_one]
      congr 2
      bv_omega

variable {carry : Bool} {type : BitVec 2} {amount : BitVec 5}

theorem type_cases (type : BitVec 2) : type = 0 ∨ type = 1 ∨ type = 2 ∨ type = 3 := by
  revert type
  decide

/-- A shift by an amount other than 0 is the architecture's. -/
theorem applyShift_eq (nonzero : amount ≠ 0) (carry : Bool) (v : Word) (type : BitVec 2) :
    applyShift v (type.setWidth 32) (amount.setWidth 32) = scaled carry v type amount := by
  have low : amount.setWidth 32 &&& (31 : Word) = amount.setWidth 32 := by
    revert amount
    decide
  have positive : amount.setWidth 32 ≠ (0 : Word) := by
    revert amount
    decide
  have size : (amount.setWidth 32 : Word).toNat = amount.toNat := BitVec.toNat_setWidth_of_le (by decide)
  have bound : amount.toNat < 32 := amount.isLt
  have rest : ((32 : Word) - amount.setWidth 32).toNat = 32 - amount.toNat := by
    have count : amount.toNat ≠ 0 := fun zero => nonzero (BitVec.eq_of_toNat_eq zero)
    have whole : (32 : Word).toNat = 32 := rfl
    rw [BitVec.toNat_sub, size, whole]
    omega
  unfold applyShift scaled
  dsimp only
  rw [low, if_neg positive]
  rcases type_cases type with rfl | rfl | rfl | rfl
  · rw [if_pos (by decide), if_pos rfl, BitVec.shiftLeft_eq', size]
  · rw [if_neg (by decide), if_pos (by decide), if_neg (by decide), if_pos rfl, if_neg nonzero,
      BitVec.ushiftRight_eq', size]
  · rw [if_neg (by decide), if_neg (by decide), if_pos (by decide), if_neg (by decide),
      if_neg (by decide), if_pos rfl, if_neg nonzero, BitVec.sshiftRight', size]
  · rw [if_neg (by decide), if_neg (by decide), if_neg (by decide), if_neg (by decide),
      if_neg (by decide), if_neg (by decide), if_neg nonzero, BitVec.ushiftRight_eq',
      BitVec.shiftLeft_eq', size, rest, BitVec.rotateRight, BitVec.rotateRightAux,
      Nat.mod_eq_of_lt bound]

theorem applyShift_zero (v type : Word) : applyShift v type ((0 : BitVec 5).setWidth 32) = v := by
  unfold applyShift
  exact if_pos (by decide)

/-- The sign of a word in all of its bits is the word when they are all the same. -/
theorem eq_signs_iff (v : Word) :
    (v = if v.msb then BitVec.allOnes 32 else 0) ↔ v = 0 ∨ v = BitVec.allOnes 32 := by
  constructor
  · intro same
    cases sign : v.msb with
    | true => exact .inr (by rw [same, sign]; rfl)
    | false => exact .inl (by rw [same, sign]; rfl)
  · rintro (rfl | rfl) <;> decide

/-- A word that moving one place down with the carry on top leaves as it was. -/
theorem eq_rrx_iff (carry : Bool) (v : Word) :
    (v = (if carry then 0x80000000#32 else 0#32) ||| v >>> 1) ↔
      v = if carry then BitVec.allOnes 32 else 0 := by
  constructor
  · intro same
    have bit (k : Nat) : v.getLsbD k =
        ((if carry then 0x80000000#32 else 0#32).getLsbD k || v.getLsbD (1 + k)) := by
      conv_lhs => rw [same]
      rw [BitVec.getLsbD_or, BitVec.getLsbD_ushiftRight]
    have all (k : Nat) (within : k < 32) : v.getLsbD (31 - k) = carry := by
      induction k with
      | zero =>
        rw [bit, BitVec.getLsbD_of_ge v (1 + (31 - 0)) (by decide)]
        cases carry <;> decide
      | succ k ih =>
        have next : 1 + (31 - (k + 1)) = 31 - k := by omega
        rw [bit, next, ih (by omega)]
        have low : (if carry then 0x80000000#32 else 0#32).getLsbD (31 - (k + 1)) = false := by
          cases carry with
          | false => exact BitVec.getLsbD_zero
          | true =>
            have top : 0x80000000#32 = BitVec.twoPow 32 31 := by decide
            have apart : 31 ≠ 31 - (k + 1) := by omega
            rw [if_pos rfl, top, BitVec.getLsbD_twoPow, decide_eq_false apart, Bool.and_false]
        rw [low, Bool.false_or]
    apply BitVec.eq_of_getLsbD_eq
    intro k within
    have here := all (31 - k) (by omega)
    rw [Nat.sub_sub_self (by omega)] at here
    rw [here]
    cases carry with
    | true => exact (BitVec.getLsbD_allOnes.trans (decide_eq_true within)).symm
    | false => exact BitVec.getLsbD_zero.symm
  · rintro rfl
    cases carry <;> decide

/-- The host's shift is the architecture's where a shift by 0 keeps the register. -/
theorem applyShift_iff {rm : Fin 15} :
    applyShift (cpu.regs rm) (type.setWidth 32) (amount.setWidth 32) =
        scaled cpu.carry (cpu.regs rm) type amount ↔ (Offset.scaled rm type amount).Kept cpu := by
  by_cases zero : amount = 0
  · subst zero
    rw [applyShift_zero]
    unfold Offset.Kept scaled
    rcases type_cases type with rfl | rfl | rfl | rfl
    · simp
    · simp
    · simpa using eq_signs_iff (cpu.regs rm)
    · simpa using eq_rrx_iff cpu.carry (cpu.regs rm)
  · rw [applyShift_eq zero cpu.carry]
    exact iff_of_true rfl fun none => absurd none zero

theorem indexed_inj {p u : Bool} {base off other : Word} :
    indexed p u base off = indexed p u base other ↔ (p = true → off = other) := by
  cases p with
  | false => exact iff_of_true rfl fun absent => absurd absent Bool.false_ne_true
  | true =>
    cases u with
    | true => simp [indexed]
    | false => simp [indexed]

/-- The offset of a halfword, signed or double transfer is the architecture's. -/
theorem extraOffset_eq {offset : Offset} (operand : extraOperand insn = some offset) :
    cpu.extraOffset insn = some (cpu.offset offset) ∧ offset.Kept cpu := by
  unfold extraOperand at operand
  unfold GuestCpu.extraOffset
  split at operand
  · next immediate =>
    cases operand
    rw [if_pos (bit_set immediate)]
    exact ⟨rfl, trivial⟩
  · next register =>
    split at operand
    · obtain ⟨rm, found, same⟩ := Option.map_eq_some_iff.mp operand
      cases same
      rw [if_neg (not_not.mpr ((bit_test insn 22).mpr (Bool.eq_false_iff.mpr register))), reg?_eq,
        found]
      exact ⟨rfl, trivial⟩
    · cases operand

/-- A transfer with an operand of its own is decoded as such. -/
theorem decodeFault_operand {offset : Offset} (cls : insn &&& 0x0e000000 = 0)
    (marks : insn &&& 0x90 = 0x90) (operand : extraOperand insn = some offset) :
    cpu.decodeFault cpu.pc insn = some (offsetFault cpu insn (cpu.offset offset)) := by
  rw [decodeFault_extra cls marks, (extraOffset_eq operand).1, Option.map_some]

/-- An instruction whose bits 0 to 3 name a register that is no offset is decoded with one. -/
theorem decodeFault_register {rm : Fin 15} (cls : insn &&& 0x0e000000 = 0)
    (marks : insn &&& 0x90 = 0x90) (register : insn.getLsbD 22 = false)
    (found : offsetIndex insn = some rm) :
    cpu.decodeFault cpu.pc insn = some (offsetFault cpu insn (cpu.regs rm)) := by
  rw [decodeFault_extra cls marks, GuestCpu.extraOffset,
    if_neg (not_not.mpr ((bit_test insn 22).mpr register)), reg?_eq, found]
  rfl

theorem add_eq_base {base off : Word} : base + off = base ↔ off = 0 := by
  constructor
  · intro same
    exact BitVec.add_right_inj base |>.mp (same.trans (BitVec.add_zero base).symm)
  · rintro rfl
    exact BitVec.add_zero base

theorem sub_eq_base {base off : Word} : base - off = base ↔ off = 0 := by
  constructor
  · intro same
    exact BitVec.sub_right_inj base |>.mp (same.trans (BitVec.sub_zero base).symm)
  · rintro rfl
    exact BitVec.sub_zero base

theorem offsetIndex_some {rm : Fin 15} (found : offsetIndex insn = some rm) :
    insn &&& 0xf = BitVec.ofNat 32 rm.val := by
  have field : insn >>> 0 &&& (0xf : Word) = (insn.extractLsb' 0 4).setWidth 32 :=
    field_eq insn 0 4 (by decide)
  rw [BitVec.ushiftRight_zero] at field
  unfold offsetIndex at found
  dsimp only at found
  split at found
  · cases found
    rw [field]
    apply BitVec.eq_of_toNat_eq
    rw [BitVec.toNat_setWidth, BitVec.toNat_ofNat]
  · cases found

theorem offsetIndex_none (ones : insn &&& 0xf = 0xf) : offsetIndex insn = none := by
  cases found : offsetIndex insn with
  | none => rfl
  | some rm =>
    have small := rm.isLt
    have index := (offsetIndex_some found).symm.trans ones
    have same := congrArg BitVec.toNat index
    rw [BitVec.toNat_ofNat, Nat.mod_eq_of_lt (by omega)] at same
    exact absurd same small.ne

/-- SWPB is decoded with the number of its register for an offset. -/
theorem extraOffset_swapByte {rm : Fin 15} (swap : insn &&& 0x0ff00ff0 = 0x01400090)
    (found : offsetIndex insn = some rm) : cpu.extraOffset insn = some (BitVec.ofNat 32 rm.val) := by
  have immediate : insn.getLsbD 22 = true := bit_masked swap (by decide)
  have blank : insn &&& 0xf00 = 0 := narrowed swap (by decide)
  have high : insn >>> 4 &&& (0xf0 : Word) = 0 := by
    have shifted : insn >>> 4 &&& (0xf00 : Word) >>> 4 = (insn &&& 0xf00) >>> 4 :=
      BitVec.ushiftRight_and_distrib .. |>.symm
    rw [blank] at shifted
    exact shifted
  rw [GuestCpu.extraOffset, if_pos (bit_set immediate), high, offsetIndex_some found]
  exact congrArg some BitVec.zero_or

/-- What the decoder makes of the transfers among the encodings `000`. -/
theorem decodeFault_extra_iff {transfer : LoadStore} (decoded : extraLoadStore? insn = some transfer) :
    cpu.decodeFault cpu.pc insn = some ⟨cpu.address transfer, true, transfer.stores⟩ ↔
      transfer.Handled cpu := by
  unfold extraLoadStore? at decoded
  dsimp only at decoded
  by_cases swap : insn &&& 0x0ff00ff0 = 0x01000090
  · rw [if_pos swap] at decoded
    obtain ⟨rm, found, same⟩ := Option.map_eq_some_iff.mp decoded
    cases same
    rw [decodeFault_register (narrowed swap (by decide)) (narrowed swap (by decide))
      (bit_masked swap (by decide)) found, offsetFault, bit_masked swap (k := 24) (by decide),
      bit_masked swap (k := 23) (by decide), bit_masked swap (k := 20) (by decide),
      Option.some.injEq, FaultAddr.mk.injEq]
    exact (and_iff_left ⟨rfl, rfl⟩).trans sub_eq_base
  rw [if_neg swap] at decoded
  by_cases byte : insn &&& 0x0ff00ff0 = 0x01400090
  · rw [if_pos byte] at decoded
    obtain ⟨rm, found, same⟩ := Option.map_eq_some_iff.mp decoded
    cases same
    rw [decodeFault_extra (narrowed byte (by decide)) (narrowed byte (by decide)),
      extraOffset_swapByte byte found, Option.map_some, offsetFault,
      bit_masked byte (k := 24) (by decide), bit_masked byte (k := 23) (by decide),
      bit_masked byte (k := 20) (by decide), Option.some.injEq, FaultAddr.mk.injEq]
    refine (and_iff_left ⟨rfl, rfl⟩).trans (sub_eq_base.trans ?_)
    have small := rm.isLt
    change BitVec.ofNat 32 rm.val = BitVec.ofNat 32 0 ↔ rm = 0
    rw [← BitVec.toNat_inj, BitVec.toNat_ofNat, BitVec.toNat_ofNat, Fin.ext_iff]
    change _ ↔ rm.val = 0
    omega
  rw [if_neg byte] at decoded
  by_cases exclusive : insn &&& 0x0ff00fff = 0x01900f9f
  · rw [if_pos exclusive] at decoded
    cases decoded
    rw [decodeFault_extra (narrowed exclusive (by decide)) (narrowed exclusive (by decide)),
      GuestCpu.extraOffset,
      if_neg (not_not.mpr ((bit_test insn 22).mpr (bit_masked exclusive (by decide)))), reg?_eq,
      offsetIndex_none (narrowed exclusive (by decide))]
    exact iff_of_false (fun absent => by cases absent) id
  rw [if_neg exclusive] at decoded
  by_cases store : insn &&& 0x0ff00ff0 = 0x01800f90
  · rw [if_pos store] at decoded
    obtain ⟨rm, found, same⟩ := Option.map_eq_some_iff.mp decoded
    cases same
    rw [decodeFault_register (narrowed store (by decide)) (narrowed store (by decide))
      (bit_masked store (by decide)) found, offsetFault, bit_masked store (k := 24) (by decide),
      bit_masked store (k := 23) (by decide), bit_masked store (k := 20) (by decide),
      Option.some.injEq, FaultAddr.mk.injEq]
    exact (and_iff_left ⟨rfl, rfl⟩).trans add_eq_base
  rw [if_neg store] at decoded
  by_cases halfword : insn &&& 0x0e0000f0 = 0x000000b0
  · rw [if_pos halfword] at decoded
    obtain ⟨offset, operand, same⟩ := Option.map_eq_some_iff.mp decoded
    cases same
    rw [decodeFault_operand (narrowed halfword (by decide)) (narrowed halfword (by decide)) operand]
    exact iff_of_true rfl fun _ => (extraOffset_eq operand).2
  rw [if_neg halfword] at decoded
  by_cases signed : insn &&& 0x0e1000d0 = 0x001000d0
  · rw [if_pos signed] at decoded
    obtain ⟨offset, operand, same⟩ := Option.map_eq_some_iff.mp decoded
    cases same
    rw [decodeFault_operand (narrowed signed (by decide)) (narrowed signed (by decide)) operand,
      offsetFault, bit_masked signed (k := 20) (by decide)]
    exact iff_of_true rfl fun _ => (extraOffset_eq operand).2
  rw [if_neg signed] at decoded
  by_cases double : insn &&& 0x0e1000d0 = 0x000000d0
  · rw [if_pos double] at decoded
    obtain ⟨offset, operand, same⟩ := Option.map_eq_some_iff.mp decoded
    cases same
    rw [decodeFault_operand (narrowed double (by decide)) (narrowed double (by decide)) operand,
      offsetFault, bit_masked double (k := 20) (by decide), Option.some.injEq, FaultAddr.mk.injEq]
    exact ⟨fun both => both.2.2.symm, fun stores => ⟨rfl, rfl, stores.symm⟩⟩
  rw [if_neg double] at decoded
  cases decoded

/-- The host decodes an instruction rightly exactly where it is handled. -/
theorem decodeFault_iff {transfer : LoadStore} (decoded : loadStore? insn = some transfer) :
    cpu.decodeFault cpu.pc insn = some ⟨cpu.address transfer, true, transfer.stores⟩ ↔
      transfer.Handled cpu := by
  unfold loadStore? at decoded
  dsimp only at decoded
  by_cases always : insn.extractLsb' 28 4 = 0b1111#4
  · rw [if_pos always] at decoded
    cases decoded
  rw [if_neg always] at decoded
  by_cases immediate : insn &&& 0x0e000000 = 0x04000000
  · rw [if_pos immediate] at decoded
    cases decoded
    rw [decodeFault_immediate immediate]
    exact iff_of_true rfl fun _ => trivial
  rw [if_neg immediate] at decoded
  by_cases shift : insn &&& 0x0e000010 = 0x06000000
  · rw [if_pos shift] at decoded
    obtain ⟨rm, found, same⟩ := Option.map_eq_some_iff.mp decoded
    cases same
    rw [decodeFault_scaled shift, found, Option.map_some, offsetFault, Option.some.injEq,
      FaultAddr.mk.injEq]
    refine (and_iff_left ⟨rfl, rfl⟩).trans (indexed_inj.trans (forall_congr' fun _ => ?_))
    exact applyShift_iff
  rw [if_neg shift] at decoded
  by_cases block : insn &&& 0x0e000000 = 0x08000000
  · rw [if_pos block] at decoded
    split at decoded
    · cases decoded
    · next listed =>
      cases decoded
      rw [decodeFault_multiple block listed]
      exact iff_of_true rfl trivial
  rw [if_neg block] at decoded
  exact decodeFault_extra_iff decoded

theorem push_getLast? (log : AbortLog) (record : PendingAbort) :
    (log.push record).pending.getLast? = some record := by
  unfold AbortLog.push
  dsimp only
  split
  · next many =>
    rw [List.getLast?_tail, if_neg (by omega), List.getLast?_concat]
  · exact List.getLast?_concat ..

/-- Where a data abort takes its address from. -/
def GuestCpu.abortSource (cpu : GuestCpu) : Option FaultAddr :=
  if cpu.far ≠ 0 then some ⟨cpu.far, false, false⟩ else cpu.armLsFaultAddr cpu.pc

def statusOf (isWrite : Bool) : Word := 0x7 ||| (if isWrite then 0x800#32 else 0#32)

theorem statusOf_bit (isWrite : Bool) : (statusOf isWrite).getLsbD 11 = isWrite := by
  cases isWrite <;> decide

theorem onIntr_dataAbort (cpu : GuestCpu) (log : AbortLog) :
    cpu.onIntr log 4 = cpu.abortSource.map fun found =>
      if 20000 < log.pabt + (log.dabt + 1) then ({ log with dabt := log.dabt + 1 }, none)
      else (({ log with dabt := log.dabt + 1 } : AbortLog).push ⟨found.addr, statusOf found.isWrite, 1⟩,
        some ⟨cpu.cpsr &&& ~~~0x3f ||| 0x17 ||| 0x80 ||| 0x40, cpu.cpsr, cpu.pc + 8, 0xffff0010⟩) := by
  unfold GuestCpu.onIntr
  rw [if_neg (by decide)]
  rfl

/-- A data abort that is entered is recorded. -/
theorem onIntr_recorded {log after : AbortLog} {entry : ExceptionEntry}
    (entered : cpu.onIntr log 4 = some (after, some entry)) :
    ∃ found, cpu.abortSource = some found ∧
      after.pending.getLast? = some ⟨found.addr, statusOf found.isWrite, 1⟩ := by
  rw [onIntr_dataAbort] at entered
  obtain ⟨found, source, same⟩ := Option.map_eq_some_iff.mp entered
  refine ⟨found, source, ?_⟩
  split at same
  · cases same
  · cases same
    exact push_getLast? ..

/-- While there are few of them, every data abort is entered. -/
theorem onIntr_entered {found : FaultAddr} (source : cpu.abortSource = some found) :
    ∃ after entry, cpu.onIntr ⟨[], 0, 0⟩ 4 = some (after, some entry) := by
  rw [onIntr_dataAbort, source, Option.map_some, if_neg (by decide)]
  exact ⟨_, _, rfl⟩

/-- For a load or store at PC, the address and the direction are right exactly where the instruction
is handled, and the recorded status is too where a store finds the fault address register zero. -/
theorem abortLaw_iff {transfer : LoadStore} (fetched : cpu.mmu.guestReadU32 cpu.pc = some insn)
    (decoded : loadStore? insn = some transfer) :
    AbortLaw cpu transfer ↔ transfer.Handled cpu ∧ (transfer.stores = true → cpu.far = 0) := by
  have decoder : cpu.armLsFaultAddr cpu.pc = cpu.decodeFault cpu.pc insn := by
    rw [GuestCpu.armLsFaultAddr, fetched]
  rw [← decodeFault_iff decoded, ← decoder]
  constructor
  · rintro ⟨found, status⟩
    refine ⟨found, fun stores => ?_⟩
    by_contra reads
    have source : cpu.abortSource = some ⟨cpu.far, false, false⟩ := if_pos reads
    obtain ⟨after, entry, entered⟩ := onIntr_entered source
    obtain ⟨record, last, bit⟩ := status _ after entry entered
    obtain ⟨other, taken, held⟩ := onIntr_recorded entered
    rw [source] at taken
    cases taken
    rw [held] at last
    cases last
    have set := bit.mpr stores
    rw [statusOf_bit] at set
    cases set
  · rintro ⟨found, store⟩
    refine ⟨found, fun log after entry entered => ?_⟩
    obtain ⟨other, taken, held⟩ := onIntr_recorded entered
    refine ⟨_, held, ?_⟩
    dsimp only
    rw [statusOf_bit]
    by_cases reads : cpu.far = 0
    · have source : cpu.abortSource = cpu.armLsFaultAddr cpu.pc := if_neg (not_not.mpr reads)
      rw [source, found] at taken
      cases taken
      rfl
    · have source : cpu.abortSource = some ⟨cpu.far, false, false⟩ := if_pos reads
      rw [source] at taken
      cases taken
      exact iff_of_false Bool.false_ne_true fun stores => reads (store stores)

/-- Sections at 0x02000000, and an instruction over and over. -/
def holding (insn : Word) : GuestCpu where
  mmu := ⟨fun _ => true, fun addr => if addr < 0x4000 then 2 else insn.extractLsb' (8 * (addr.toNat % 4)) 8,
    0, 0, 0⟩
  regs _ := 0x1000
  pc := 0x8000
  cpsr := 0x10
  far := 0

/-- `ldr r1, [r2, r3, lsl #2]`. -/
theorem abortLaw_load :
    AbortLaw (holding 0xe7921103) (.single true true 2 (.scaled 3 0 2) false) := by
  have fetched : (holding 0xe7921103).mmu.guestReadU32 (holding 0xe7921103).pc = some 0xe7921103 := by
    decide
  refine (abortLaw_iff fetched (by rfl)).mpr ⟨?_, ?_⟩
  · intro _ zero
    exact absurd zero (by decide)
  · intro stores
    cases stores

/-- `swp r0, r1, [r2]` is taken for a transfer with the offset r1. -/
theorem not_abortLaw_swap :
    loadStore? 0xe1020091 = some (.swap false 2 1) ∧
      (holding 0xe1020091).mmu.guestReadU32 (holding 0xe1020091).pc = some 0xe1020091 ∧
      ¬AbortLaw (holding 0xe1020091) (.swap false 2 1) := by
  refine ⟨by rfl, by decide, fun law => ?_⟩
  have found := law.found
  revert found
  decide

end ZeeboLle.Linux

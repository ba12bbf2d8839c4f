import ZeeboLle.Unicorn.Memory
import Mathlib.Tactic.IntervalCases

/-! The register side of a Unicorn ARM engine. SP, LR and SPSR are banked by the mode
bits of CPSR. Reading PC never yields bit 0; writing it sets CPSR.T to bit 0 of the
written value. The FIQ copies of r8-r12 are not modelled. -/
namespace ZeeboLle.Unicorn

/-- The register banks; user and system mode share one. -/
inductive Bank where
  | usr | fiq | irq | svc | abt | und
deriving DecidableEq, Repr

def bankOf (cpsr : Word) : Bank :=
  match (cpsr &&& 0x1f#32).toNat with
  | 0x11 => .fiq
  | 0x12 => .irq
  | 0x13 => .svc
  | 0x17 => .abt
  | 0x1b => .und
  | _ => .usr

/-- `(cpsr >> 5) & 1`, the Thumb bit. -/
def tBit (cpsr : Word) : Word := (cpsr >>> 5) &&& 1#32

/-- There are register numbers to write as literals. -/
instance neZero_general : NeZero 13 := ⟨by decide⟩

/-- r0-r12, the banked registers, PC and CPSR. -/
structure RegFile where
  r : Fin 13 → Word
  sp : Bank → Word
  lr : Bank → Word
  spsr : Bank → Word
  pc : Word
  cpsr : Word

namespace RegFile

/-- All registers zero but the mode, which is user mode. -/
def blank : RegFile := ⟨fun _ => 0, fun _ => 0, fun _ => 0, fun _ => 0, 0, 0x10⟩

def readSp (regs : RegFile) : Word := regs.sp (bankOf regs.cpsr)
def readLr (regs : RegFile) : Word := regs.lr (bankOf regs.cpsr)
def readPc (regs : RegFile) : Word := regs.pc &&& ~~~1#32

def write (regs : RegFile) (index : Fin 13) (value : Word) : RegFile :=
  { regs with r := Function.update regs.r index value }

def writeSp (regs : RegFile) (value : Word) : RegFile :=
  { regs with sp := Function.update regs.sp (bankOf regs.cpsr) value }

def writeLr (regs : RegFile) (value : Word) : RegFile :=
  { regs with lr := Function.update regs.lr (bankOf regs.cpsr) value }

def writeSpsr (regs : RegFile) (value : Word) : RegFile :=
  { regs with spsr := Function.update regs.spsr (bankOf regs.cpsr) value }

def writeCpsr (regs : RegFile) (value : Word) : RegFile := { regs with cpsr := value }

def writePc (regs : RegFile) (value : Word) : RegFile :=
  { regs with
    pc := value &&& ~~~1#32
    cpsr := (regs.cpsr &&& ~~~0x20#32) ||| ((value &&& 1#32) <<< 5) }

/-- The state `uc_emu_start(begin)` starts from. -/
def startAt (regs : RegFile) (begin : Word) : RegFile := regs.writePc begin

@[simp] theorem writeSp_readSp (regs : RegFile) (value : Word) :
    (regs.writeSp value).readSp = value := Function.update_self ..

@[simp] theorem writePc_readPc (regs : RegFile) (value : Word) :
    (regs.writePc value).readPc = value &&& ~~~1#32 := by
  rw [readPc, writePc, BitVec.and_assoc, BitVec.and_self]

/-- The address PC reads as has bit 0 clear. -/
theorem readPc_high (regs : RegFile) : regs.readPc &&& ~~~1#32 = regs.readPc := by
  rw [readPc, BitVec.and_assoc, BitVec.and_self]

theorem readPc_low (regs : RegFile) : regs.readPc &&& 1#32 = 0#32 := by
  rw [readPc, BitVec.and_assoc]
  exact BitVec.and_zero

/-- A PC write selects the instruction set. -/
theorem tBit_writePc (regs : RegFile) (value : Word) :
    tBit (regs.writePc value).cpsr = value &&& 1#32 := by
  unfold tBit writePc
  ext index bound
  interval_cases index <;> simp

/-- A PC write keeps the mode, so it keeps the bank. -/
theorem bankOf_writePc (regs : RegFile) (value : Word) :
    bankOf (regs.writePc value).cpsr = bankOf regs.cpsr := by
  have mode : (regs.writePc value).cpsr &&& 0x1f#32 = regs.cpsr &&& 0x1f#32 := by
    unfold writePc
    ext index bound
    interval_cases index <;> simp
  rw [bankOf, bankOf, mode]

/-- A PC write whose bit 0 agrees with T leaves CPSR alone. -/
theorem writePc_cpsr {regs : RegFile} {value : Word} (same : value &&& 1#32 = tBit regs.cpsr) :
    (regs.writePc value).cpsr = regs.cpsr := by
  rw [writePc, same, tBit]
  ext index bound
  interval_cases index <;> simp

@[simp] theorem writePc_readSp (regs : RegFile) (value : Word) :
    (regs.writePc value).readSp = regs.readSp := by
  rw [readSp, bankOf_writePc]
  rfl

@[simp] theorem writePc_readLr (regs : RegFile) (value : Word) :
    (regs.writePc value).readLr = regs.readLr := by
  rw [readLr, bankOf_writePc]
  rfl

end RegFile

/-- A full thread context. -/
structure CpuContext where
  r : Fin 13 → Word
  sp : Word
  lr : Word
  pc : Word
  cpsr : Word

/-- `pc | T`, with bit 0 of the address cleared first. -/
def withT (pc t : Word) : Word := if t = 1#32 then pc ||| 1#32 else pc &&& ~~~1#32

theorem and_one_eq_zero_or_one (value : Word) : value &&& 1#32 = 0#32 ∨ value &&& 1#32 = 1#32 := by
  have below : (value &&& 1#32).toNat < 2 := by
    rw [BitVec.toNat_and]
    exact Nat.and_lt_two_pow (n := 1) _ (by decide)
  rcases Nat.lt_or_ge (value &&& 1#32).toNat 1 with zero | one
  · exact .inl (BitVec.eq_of_toNat_eq (by simpa using zero))
  · exact .inr (BitVec.eq_of_toNat_eq (by simp at below one ⊢; omega))

theorem tBit_eq_zero_or_one (cpsr : Word) : tBit cpsr = 0#32 ∨ tBit cpsr = 1#32 :=
  and_one_eq_zero_or_one (cpsr >>> 5)

theorem withT_low {t : Word} (bit : t = 0#32 ∨ t = 1#32) (pc : Word) : withT pc t &&& 1#32 = t := by
  rcases bit with zero | one
  · subst zero
    rw [withT, if_neg (by decide), BitVec.and_assoc]
    exact BitVec.and_zero
  · subst one
    rw [withT, if_pos rfl]
    ext index bound
    cases index with
    | zero => simp
    | succ index => simp

theorem withT_high (pc t : Word) : withT pc t &&& ~~~1#32 = pc &&& ~~~1#32 := by
  unfold withT
  split
  · ext index bound
    cases index with
    | zero => simp
    | succ index => simp
  · rw [BitVec.and_assoc, BitVec.and_self]

def cpuContextRead (regs : RegFile) : CpuContext :=
  ⟨regs.r, regs.readSp, regs.readLr, regs.readPc, regs.cpsr⟩

/-- CPSR goes first, so that SP and LR land in the bank of the restored mode. -/
def cpuContextWrite (regs : RegFile) (ctx : CpuContext) : RegFile :=
  let regs := regs.writeCpsr ctx.cpsr
  let regs := { regs with r := ctx.r }
  let regs := regs.writeSp ctx.sp
  let regs := regs.writeLr ctx.lr
  regs.writePc (withT ctx.pc (tBit ctx.cpsr))

/-- Writing a context back restores every part of it, whatever ran in between. -/
theorem cpuContextWrite_spec (regs : RegFile) (ctx : CpuContext) :
    let after := cpuContextWrite regs ctx
    after.r = ctx.r ∧ after.readSp = ctx.sp ∧ after.readLr = ctx.lr ∧
      after.readPc = ctx.pc &&& ~~~1#32 ∧ after.cpsr = ctx.cpsr := by
  intro after
  refine ⟨rfl, ?_, ?_, ?_, ?_⟩
  · exact (RegFile.writePc_readSp ..).trans (Function.update_self ..)
  · exact (RegFile.writePc_readLr ..).trans (Function.update_self ..)
  · exact (RegFile.writePc_readPc ..).trans (withT_high ..)
  · exact RegFile.writePc_cpsr (withT_low (tBit_eq_zero_or_one ctx.cpsr) ctx.pc)

end ZeeboLle.Unicorn

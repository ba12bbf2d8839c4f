import ZeeboLle.System.Scheduler

/-! Copying registers between the recompiler and Unicorn, beside the context copy of the kernel.
Both write the whole register file; only the context copy selects the mode before it writes
the banked registers. -/
namespace ZeeboLle.System

open Unicorn

/-- Unicorn's visible registers are the recompiler's. -/
structure Agrees (jit : JitRegs) (regs : RegFile) : Prop where
  general : ∀ index : Fin 13, regs.r index = jit.r (index.castLE (by decide))
  sp : regs.readSp = jit.r 13
  lr : regs.readLr = jit.r 14
  pc : regs.readPc = jit.r 15
  cpsr : regs.cpsr = jit.cpsr

/-- Copying to Unicorn shows the recompiler's registers there, and copying back returns them. -/
def Lossless (jit : JitRegs) (regs : RegFile) : Prop :=
  Agrees jit (jit.syncToUnicorn regs) ∧ JitRegs.syncFromUnicorn (jit.syncToUnicorn regs) = jit

/-- SP and LR land in the bank that is read back, or are there already. -/
def BanksMeet (jit : JitRegs) (regs : RegFile) : Prop :=
  bankOf jit.cpsr = bankOf regs.cpsr ∨
    (regs.sp (bankOf jit.cpsr) = jit.r 13 ∧ regs.lr (bankOf jit.cpsr) = jit.r 14)

variable {jit : JitRegs} {regs : RegFile}

theorem Agrees.syncFromUnicorn_eq (agrees : Agrees jit regs) :
    JitRegs.syncFromUnicorn regs = jit := by
  have registers : (JitRegs.syncFromUnicorn regs).r = jit.r := by
    funext index
    simp only [JitRegs.syncFromUnicorn]
    split
    · exact agrees.general _
    · split
      · rename_i sp
        rw [agrees.sp, sp]
      · split
        · rename_i lr
          rw [agrees.lr, lr]
        · rename_i high other last
          have pc : index = 15 := by omega
          rw [agrees.pc, pc]
  have flags : (JitRegs.syncFromUnicorn regs).cpsr = jit.cpsr := agrees.cpsr
  cases jit with
  | mk r cpsr => exact congrArg₂ JitRegs.mk registers flags

/-- What reading the banked registers yields after the copy, mode by mode. -/
theorem readSp_syncToUnicorn (jit : JitRegs) (regs : RegFile) :
    (jit.syncToUnicorn regs).readSp =
      if bankOf jit.cpsr = bankOf regs.cpsr then jit.r 13 else regs.sp (bankOf jit.cpsr) := by
  simp only [JitRegs.syncToUnicorn, RegFile.readSp, RegFile.writeCpsr, RegFile.writePc,
    RegFile.writeLr, RegFile.writeSp, Function.update_apply]

theorem readLr_syncToUnicorn (jit : JitRegs) (regs : RegFile) :
    (jit.syncToUnicorn regs).readLr =
      if bankOf jit.cpsr = bankOf regs.cpsr then jit.r 14 else regs.lr (bankOf jit.cpsr) := by
  simp only [JitRegs.syncToUnicorn, RegFile.readLr, RegFile.writeCpsr, RegFile.writePc,
    RegFile.writeLr, RegFile.writeSp, Function.update_apply]

theorem readPc_syncToUnicorn (jit : JitRegs) (regs : RegFile) :
    (jit.syncToUnicorn regs).readPc = jit.r 15 &&& ~~~1#32 := by
  simp only [JitRegs.syncToUnicorn, RegFile.readPc, RegFile.writeCpsr, RegFile.writePc]
  rw [BitVec.and_assoc, BitVec.and_self]

theorem clear_eq_self_iff (pc : Word) : pc &&& ~~~1#32 = pc ↔ pc &&& 1#32 = 0#32 := by
  constructor
  · intro same
    rw [← same, BitVec.and_assoc]
    exact BitVec.and_zero
  · intro even
    have parts : (pc &&& ~~~1#32) ||| (pc &&& 1#32) = pc := by
      rw [← BitVec.and_or_distrib_left]
      exact BitVec.and_allOnes
    rwa [even, BitVec.or_zero] at parts

theorem agrees_syncToUnicorn_iff :
    Agrees jit (jit.syncToUnicorn regs) ↔ BanksMeet jit regs ∧ jit.r 15 &&& 1#32 = 0#32 := by
  constructor
  · intro agrees
    have sp := agrees.sp
    have lr := agrees.lr
    have pc := agrees.pc
    rw [readSp_syncToUnicorn] at sp
    rw [readLr_syncToUnicorn] at lr
    rw [readPc_syncToUnicorn, clear_eq_self_iff] at pc
    refine ⟨?_, pc⟩
    by_cases same : bankOf jit.cpsr = bankOf regs.cpsr
    · exact .inl same
    · rw [if_neg same] at sp lr
      exact .inr ⟨sp, lr⟩
  · rintro ⟨banks, even⟩
    refine ⟨fun _ => rfl, ?_, ?_, ?_, rfl⟩
    · rw [readSp_syncToUnicorn]
      split
      · rfl
      · rename_i other
        exact (banks.resolve_left other).1
    · rw [readLr_syncToUnicorn]
      split
      · rfl
      · rename_i other
        exact (banks.resolve_left other).2
    · rw [readPc_syncToUnicorn]
      exact (clear_eq_self_iff _).mpr even

/-- A context whose PC is aligned for its instruction set. -/
def CpuContext.Aligned (ctx : CpuContext) : Prop :=
  if tBit ctx.cpsr = 1#32 then ctx.pc.toNat % 2 = 0 else ctx.pc.toNat % 4 = 0

instance (ctx : CpuContext) : Decidable (CpuContext.Aligned ctx) :=
  inferInstanceAs (Decidable
    (if tBit ctx.cpsr = 1#32 then ctx.pc.toNat % 2 = 0 else ctx.pc.toNat % 4 = 0))

theorem and_one_of_even {pc : Word} (even : pc.toNat % 2 = 0) : pc &&& 1#32 = 0#32 := by
  apply BitVec.eq_of_toNat_eq
  rw [BitVec.toNat_and]
  exact (Nat.and_one_is_mod _).trans even

theorem cpuContextRead_cpuContextWrite {ctx : CpuContext} (aligned : CpuContext.Aligned ctx) :
    cpuContextRead (cpuContextWrite regs ctx) = ctx := by
  have even : ctx.pc.toNat % 2 = 0 := by
    unfold CpuContext.Aligned at aligned
    split at aligned
    · exact aligned
    · omega
  obtain ⟨general, sp, lr, pc, cpsr⟩ := cpuContextWrite_spec regs ctx
  rw [(clear_eq_self_iff _).mpr (and_one_of_even even)] at pc
  rw [cpuContextRead, general, sp, lr, pc, cpsr]

/-- The copy between the engines is lossless exactly where the banks meet and PC is even; the
context copy is for every aligned context, whatever mode the engine is in. -/
theorem sync_lossless_iff (jit : JitRegs) (regs : RegFile) :
    (Lossless jit regs ↔ BanksMeet jit regs ∧ jit.r 15 &&& 1#32 = 0#32) ∧
      ∀ ctx : CpuContext, CpuContext.Aligned ctx → cpuContextRead (cpuContextWrite regs ctx) = ctx := by
  refine ⟨?_, fun ctx aligned => cpuContextRead_cpuContextWrite aligned⟩
  rw [← agrees_syncToUnicorn_iff]
  exact ⟨fun lossless => lossless.1, fun agrees => ⟨agrees, agrees.syncFromUnicorn_eq⟩⟩

/-- Supervisor mode on the recompiler, with a stack. -/
def supervised : JitRegs where
  r := Function.update (fun _ => 0) 13 0x1000
  cpsr := 0x13

theorem sync_lossless_iff_same_mode :
    Lossless supervised { RegFile.blank with cpsr := 0x93 } ∧
      cpuContextRead (cpuContextWrite { RegFile.blank with cpsr := 0x93 }
        ⟨fun _ => 0, 0x1000, 0, 0x2000, 0x10⟩) = ⟨fun _ => 0, 0x1000, 0, 0x2000, 0x10⟩ := by
  have both := sync_lossless_iff supervised { RegFile.blank with cpsr := 0x93 }
  exact ⟨both.1.mpr ⟨.inl (by decide), by decide⟩, both.2 _ (by decide)⟩

/-- Unicorn in user mode takes the supervisor's stack for the user's. -/
theorem sync_loses_stack :
    ¬((∀ jit regs, Lossless jit regs) ∧
      ∀ (regs : RegFile) (ctx : CpuContext), CpuContext.Aligned ctx →
        cpuContextRead (cpuContextWrite regs ctx) = ctx) := by
  rintro ⟨every, _⟩
  have sp := (every supervised RegFile.blank).1.sp
  exact absurd sp (by decide)

end ZeeboLle.System

import ZeeboLle.System.SliceBoundary
import ZeeboLle.System.JitSync

/-! Calls that the code hooks end on the guest's behalf. The hook leaves PC at the caller and
stops the slice; the caller goes on when the next slice starts. The preemption fast path
and the graphics bridge select the caller's instruction set, the scripted stubs do not. -/
namespace ZeeboLle.System

open Unicorn Device

/-- The script actions that end a call. -/
inductive ScriptAction where
  | stub | stubR00 | stubR01
deriving DecidableEq, Repr

/-- The places of Core 0's hook that end a call. The graphics bridge may have returned a
value in r0. -/
inductive Interception where
  | preempt
  | iglBridge (ret : Option Word)
  | script (action : ScriptAction)
deriving DecidableEq, Repr

/-- PC from LR, then T from bit 0 of LR. -/
def returnToCaller (regs : RegFile) : RegFile :=
  let lr := regs.readLr
  let regs := regs.writePc (lr &&& ~~~1#32)
  let cpsr := regs.cpsr
  regs.writeCpsr (if lr &&& 1#32 ≠ 0 then cpsr ||| 0x20#32 else cpsr &&& ~~~0x20#32)

def ScriptAction.retVal : ScriptAction → Word
  | .stub | .stubR00 => 0
  | .stubR01 => 1

/-- CPSR is not written. -/
def ScriptAction.hook (action : ScriptAction) (regs : RegFile) : RegFile :=
  let lr := regs.readLr
  let regs := regs.write 0 action.retVal
  regs.writePc (lr &&& ~~~1#32)

def Interception.hook (site : Interception) (regs : RegFile) : RegFile :=
  match site with
  | .preempt => returnToCaller regs
  | .iglBridge none => returnToCaller regs
  | .iglBridge (some ret) => returnToCaller (regs.write 0 ret)
  | .script action => action.hook regs

/-- Whether the hook selects the caller's instruction set. -/
def Interception.selectsT : Interception → Bool
  | .preempt | .iglBridge _ => true
  | .script _ => false

/-- Core 0 as the hook leaves it: on the interpreter, or between the two copies of the
recompiler's registers. -/
def Core0.intercept (core : Core0) (site : Interception) : Core0 :=
  let sys := core.trapped
  let regs := site.hook sys.regs
  let sys := { sys with regs, entry := sys.regs.readLr &&& ~~~1#32 }
  match core.backend with
  | .unicorn => { core with sys }
  | .dynarmic => { core with sys, jit := JitRegs.syncFromUnicorn regs }

def Core1.intercept (core : Core1) (action : ScriptAction) : Core1 :=
  { core with regs := action.hook core.regs, entry := core.regs.readLr &&& ~~~1#32 }

/-- The start of the slice after one that ended in this state. -/
def Core0.nextSlice (core : Core0) (slice : Slice) (vic : VicState) (c : Nat) : Core0 :=
  ((core.finish slice).deliver vic).2.1.startSlice c

def Core1.nextSlice (core : Core1) (vic : VicState) : Core1 :=
  ((core.runSlice core.regs false).deliver vic).2.startSlice

/-- The call has returned with `t` for the instruction set; only r0, PC and T changed. -/
structure ReturnsWith (t : Word) (before after : RegFile) : Prop where
  pc : after.readPc = before.readLr &&& ~~~1#32
  thumb : tBit after.cpsr = t
  status : after.cpsr &&& ~~~0x20#32 = before.cpsr &&& ~~~0x20#32
  general : ∀ index, index ≠ 0 → after.r index = before.r index
  sp : after.sp = before.sp
  lr : after.lr = before.lr
  spsr : after.spsr = before.spsr

/-- The call has returned as `bx lr` does. -/
def ReturnsLikeBx (before after : RegFile) : Prop := ReturnsWith (before.readLr &&& 1#32) before after

section

variable {before regs : RegFile} {t : Word}

theorem ReturnsWith.likeBx_iff (returns : ReturnsWith t before regs) :
    ReturnsLikeBx before regs ↔ t = before.readLr &&& 1#32 := by
  constructor
  · intro likeBx
    exact returns.thumb.symm.trans likeBx.thumb
  · intro same
    rw [same] at returns
    exact returns

theorem writePc_status (regs : RegFile) (value : Word) :
    (regs.writePc value).cpsr &&& ~~~0x20#32 = regs.cpsr &&& ~~~0x20#32 := by
  rw [RegFile.writePc]
  ext index bound
  interval_cases index <;> simp

theorem or_thumb_status (cpsr : Word) : (cpsr ||| 0x20#32) &&& ~~~0x20#32 = cpsr &&& ~~~0x20#32 := by
  ext index bound
  interval_cases index <;> simp

theorem tBit_or_thumb (cpsr : Word) : tBit (cpsr ||| 0x20#32) = 1#32 := by
  unfold tBit
  ext index bound
  interval_cases index <;> simp

theorem tBit_and_thumb (cpsr : Word) : tBit (cpsr &&& ~~~0x20#32) = 0#32 := by
  unfold tBit
  ext index bound
  interval_cases index <;> simp

/-- Writing PC at the caller keeps everything but T. -/
theorem ReturnsWith.writePc (returns : ReturnsWith t before regs) {value : Word}
    (same : value &&& ~~~1#32 = before.readLr &&& ~~~1#32) :
    ReturnsWith (value &&& 1#32) before (regs.writePc value) where
  pc := (RegFile.writePc_readPc ..).trans same
  thumb := RegFile.tBit_writePc ..
  status := (writePc_status ..).trans returns.status
  general := returns.general
  sp := returns.sp
  lr := returns.lr
  spsr := returns.spsr

theorem returnToCaller_returnsWith (regs : RegFile) :
    ReturnsWith (regs.readLr &&& 1#32) regs (returnToCaller regs) := by
  have pc : (returnToCaller regs).readPc = regs.readLr &&& ~~~1#32 := by
    change (regs.writePc (regs.readLr &&& ~~~1#32)).readPc = _
    rw [RegFile.writePc_readPc, BitVec.and_assoc, BitVec.and_self]
  refine ⟨pc, ?_, ?_, fun _ _ => rfl, rfl, rfl, rfl⟩
  · simp only [returnToCaller, RegFile.writeCpsr]
    rcases and_one_eq_zero_or_one regs.readLr with arm | thumb
    · rw [arm, if_neg (by decide), tBit_and_thumb]
    · rw [thumb, if_pos (by decide), tBit_or_thumb]
  · simp only [returnToCaller, RegFile.writeCpsr]
    split
    · rw [or_thumb_status, writePc_status]
    · rw [BitVec.and_assoc, BitVec.and_self, writePc_status]

/-- What a call returns in r0 is no part of how it returns. -/
theorem ReturnsWith.of_write {ret : Word} (returns : ReturnsWith t (before.write 0 ret) regs) :
    ReturnsWith t before regs := by
  refine ⟨returns.pc, returns.thumb, returns.status, ?_, returns.sp, returns.lr, returns.spsr⟩
  intro index other
  exact (returns.general index other).trans (Function.update_of_ne other ..)

theorem ScriptAction.hook_returnsWith (action : ScriptAction) (regs : RegFile) :
    ReturnsWith 0#32 regs (action.hook regs) := by
  have low : (regs.readLr &&& ~~~1#32) &&& 1#32 = 0#32 := by
    rw [BitVec.and_assoc]
    exact BitVec.and_zero
  have high : (regs.readLr &&& ~~~1#32) &&& ~~~1#32 = regs.readLr &&& ~~~1#32 := by
    rw [BitVec.and_assoc, BitVec.and_self]
  refine ⟨(RegFile.writePc_readPc ..).trans high, (RegFile.tBit_writePc ..).trans low,
    writePc_status .., ?_, rfl, rfl, rfl⟩
  intro index other
  exact Function.update_of_ne other ..

/-- How each site returns. -/
theorem Interception.hook_returnsWith (site : Interception) (regs : RegFile) :
    ReturnsWith (if site.selectsT then regs.readLr &&& 1#32 else 0#32) regs (site.hook regs) := by
  match site with
  | .preempt => exact returnToCaller_returnsWith regs
  | .iglBridge none => exact returnToCaller_returnsWith regs
  | .iglBridge (some ret) => exact (returnToCaller_returnsWith (regs.write 0 ret)).of_write
  | .script action => exact action.hook_returnsWith regs

/-- Restarting at the PC the engine stopped at, with T in bit 0 of the address. -/
theorem ReturnsWith.startAt (returns : ReturnsWith t before regs) {bit : Word}
    (isBit : bit = 0#32 ∨ bit = 1#32) : ReturnsWith bit before (regs.startAt (regs.readPc ||| bit)) := by
  have address : withT regs.readPc bit = regs.readPc ||| bit := by
    rcases isBit with zero | one
    · rw [zero, withT, if_neg (by decide), RegFile.readPc_high, BitVec.or_zero]
    · rw [one, withT, if_pos rfl]
  have low := withT_low isBit regs.readPc
  have high := withT_high regs.readPc bit
  rw [address] at low high
  have restarted := returns.writePc (high.trans ((RegFile.readPc_high regs).trans returns.pc))
  rw [low] at restarted
  exact restarted

/-- Returning keeps every part of CPSR without T. -/
theorem ReturnsWith.and_eq (returns : ReturnsWith t before regs) {mask : Word}
    (apart : ~~~0x20#32 &&& mask = mask) : regs.cpsr &&& mask = before.cpsr &&& mask := by
  rw [← apart, ← BitVec.and_assoc, returns.status, BitVec.and_assoc]

/-- Returning leaves the interrupt mask as it was. -/
theorem ReturnsWith.mask (returns : ReturnsWith t before regs) :
    regs.cpsr &&& cpsrIBit = before.cpsr &&& cpsrIBit := returns.and_eq rfl

/-- An exception entered since then masks interrupts that were not masked. -/
theorem not_returnsLikeBx_takeIrq {entered : RegFile} {base address : Word}
    (unmasked : before.cpsr &&& cpsrIBit = 0#32) :
    ¬ ReturnsLikeBx before ((takeIrq entered base).startAt address) := by
  intro returns
  have masked : ((takeIrq entered base).startAt address).cpsr &&& cpsrIBit = cpsrIBit := by
    unfold RegFile.startAt takeIrq RegFile.writePc RegFile.writeSpsr RegFile.writeLr
      RegFile.writeCpsr cpsrModeMask cpsrTBit cpsrModeIrq cpsrIBit
    ext index bound
    interval_cases index <;> simp
  rw [returns.mask, unmasked] at masked
  exact absurd masked (by decide)

end

theorem vicDeliverNext_taken_iff (regs : RegFile) (vic : VicState) (vectorBase : Word) :
    (vicDeliverNext regs vic vectorBase).1 = true ↔
      vic.deliverableLine ≠ none ∧ regs.cpsr &&& cpsrIBit = 0#32 := by
  unfold vicDeliverNext
  split
  · rename_i none
    simp [none]
  · rename_i line some
    split
    · rename_i masked
      exact ⟨fun taken => absurd taken Bool.false_ne_true, fun both => absurd both.2 masked⟩
    · rename_i unmasked
      exact ⟨fun _ => ⟨by simp [some], not_not.mp unmasked⟩, fun _ => rfl⟩

theorem vicDeliverIrq_taken_iff (regs : RegFile) {vic : VicState} (vectorBase : Word)
    (asserted : vic.irqAsserted = true) :
    (vicDeliverIrq regs vic vectorBase).1 = true ↔ regs.cpsr &&& cpsrIBit = 0#32 := by
  unfold vicDeliverIrq
  rw [if_neg (by simp [asserted])]
  split
  · rename_i masked
    exact ⟨fun taken => absurd taken Bool.false_ne_true, fun clear => absurd clear masked⟩
  · rename_i unmasked
    exact ⟨fun _ => not_not.mp unmasked, fun _ => rfl⟩

/-- Core 0 enters an exception between the slices. -/
def Core0.Interrupted (regs : RegFile) (vic : VicState) : Prop :=
  vic.irqAsserted = true ∧ vic.deliverableLine ≠ none ∧ regs.cpsr &&& cpsrIBit = 0#32

def Core1.Interrupted (regs : RegFile) (vic : VicState) : Prop :=
  vic.irqAsserted = true ∧ regs.cpsr &&& cpsrIBit = 0#32

section

variable {sys : LleSystem} {jit : JitRegs} {site : Interception} {vic : VicState}

/-- Without an asserted line Core 0 goes on with the T the hook left. -/
theorem nextSlice_quiet (slice : Slice) (c : Nat) (quiet : vic.irqAsserted = false) :
    ReturnsWith (if site.selectsT then sys.regs.readLr &&& 1#32 else 0#32) sys.regs
      (((Core0.mk .unicorn sys jit false).intercept site).nextSlice slice vic c).sys.regs := by
  have hooked := site.hook_returnsWith sys.regs
  have silent := @Core0.deliver_quiet
    (((Core0.mk .unicorn sys jit false).intercept site).finish slice) vic (by simp [quiet])
  rw [Core0.nextSlice, silent]
  have restarted := hooked.startAt (tBit_eq_zero_or_one (site.hook sys.regs).cpsr)
  rw [hooked.thumb] at restarted
  change ReturnsWith _ _ ((site.hook sys.regs).startAt
    ((site.hook sys.regs).readPc ||| tBit (site.hook sys.regs).cpsr))
  rw [hooked.thumb]
  exact restarted

/-- With a line asserted, Core 0 starts from the hook's registers with PC rewritten, or from
the exception entered there. -/
theorem nextSlice_asserted (slice : Slice) (c : Nat) (asserted : vic.irqAsserted = true) :
    let rewritten := (site.hook sys.regs).writePc (site.hook sys.regs).readPc
    let next := (((Core0.mk .unicorn sys jit false).intercept site).nextSlice slice vic c).sys.regs
    if (vicDeliverNext rewritten vic 0).1 then ∃ address, next = (takeIrq rewritten 0).startAt address
    else next = rewritten.startAt (rewritten.readPc ||| 0#32) := by
  intro rewritten next
  have delivered : ((((Core0.mk .unicorn sys jit false).intercept site).finish slice).deliver vic) =
      _ := if_pos ⟨rfl, rfl, asserted⟩
  have outcome := vicDeliverNext_regs rewritten vic 0
  have reduced : next = (vicDeliverNext rewritten vic 0).2.1.startAt
      ((if (vicDeliverNext rewritten vic 0).1 then (vicDeliverNext rewritten vic 0).2.1.readPc
        else (site.hook sys.regs).readPc) ||| tBit (vicDeliverNext rewritten vic 0).2.1.cpsr) := by
    change (Core0.startSlice _ c).sys.regs = _
    rw [delivered]
    rfl
  split at outcome
  · rename_i taken
    rw [if_pos taken, reduced, outcome]
    exact ⟨_, rfl⟩
  · rename_i refused
    rw [if_neg refused, reduced, outcome, if_neg refused, tBit_rewritten, readPc_rewritten]

/-- Core 0 returns like `bx lr` exactly when no exception comes in between and T is clear in
LR, or was selected and not lost to an asserted line. -/
theorem core0_returnsLikeBx_iff (slice : Slice) (c : Nat) :
    ReturnsLikeBx sys.regs
        (((Core0.mk .unicorn sys jit false).intercept site).nextSlice slice vic c).sys.regs ↔
      ¬ Core0.Interrupted sys.regs vic ∧
        (sys.regs.readLr &&& 1#32 = 0#32 ∨ (site.selectsT = true ∧ vic.irqAsserted = false)) := by
  have hooked := site.hook_returnsWith sys.regs
  cases asserted : vic.irqAsserted with
  | false =>
    have calm : ¬ Core0.Interrupted sys.regs vic := by
      intro interrupted
      exact absurd (asserted.symm.trans interrupted.1) Bool.false_ne_true
    rw [(nextSlice_quiet slice c asserted).likeBx_iff]
    cases site.selectsT with
    | true => simp [calm]
    | false => simp [calm, eq_comm]
  | true =>
    have rewritten := hooked.writePc ((RegFile.readPc_high _).trans hooked.pc)
    have next := @nextSlice_asserted sys jit site vic slice c asserted
    rw [RegFile.readPc_low] at rewritten
    have taken_iff := vicDeliverNext_taken_iff
      ((site.hook sys.regs).writePc (site.hook sys.regs).readPc) vic 0
    rw [rewritten.mask] at taken_iff
    dsimp only at next
    split at next
    · rename_i taken
      obtain ⟨address, next⟩ := next
      have interrupted := taken_iff.mp taken
      rw [next]
      constructor
      · intro returns
        exact absurd returns (not_returnsLikeBx_takeIrq interrupted.2)
      · intro condition
        exact absurd ⟨asserted, interrupted⟩ condition.1
    · rename_i refused
      have calm : ¬ Core0.Interrupted sys.regs vic := by
        intro interrupted
        exact refused (taken_iff.mpr interrupted.2)
      rw [next, (rewritten.startAt (.inl rfl)).likeBx_iff]
      constructor
      · intro clear
        exact ⟨calm, .inl clear.symm⟩
      · rintro ⟨_, clear | ⟨_, quiet⟩⟩
        · exact clear.symm
        · exact absurd quiet.symm Bool.false_ne_true

end

/-- Core 1 starts at the address alone, after the delivery or without one. -/
theorem core1_nextSlice (regs : RegFile) (entry : Word) (action : ScriptAction) (vic : VicState) :
    let hooked := action.hook regs
    let next := (((Core1.mk regs entry false).intercept action).nextSlice vic).regs
    if vic.irqAsserted = true then
      let delivery := vicDeliverIrq (hooked.writePc hooked.readPc) vic 0xffff0000
      next = delivery.2.startAt (if delivery.1 then delivery.2.readPc else hooked.readPc)
    else next = hooked.startAt hooked.readPc := by
  intro hooked next
  split
  · rename_i asserted
    exact congrArg (fun delivery : Bool × Core1 => delivery.2.startSlice.regs)
      (if_pos (And.intro rfl asserted))
  · rename_i quiet
    exact congrArg (fun delivery : Bool × Core1 => delivery.2.startSlice.regs)
      (if_neg (fun both : _ ∧ vic.irqAsserted = true => quiet both.2))

/-- Core 1 restarts without T, so it returns like `bx lr` exactly when no exception comes in
between and T is clear in LR. -/
theorem core1_returnsLikeBx_iff (regs : RegFile) (entry : Word) (action : ScriptAction)
    (vic : VicState) :
    ReturnsLikeBx regs (((Core1.mk regs entry false).intercept action).nextSlice vic).regs ↔
      ¬ Core1.Interrupted regs vic ∧ regs.readLr &&& 1#32 = 0#32 := by
  have hooked := action.hook_returnsWith regs
  have high := (RegFile.readPc_high (action.hook regs)).trans hooked.pc
  have next := core1_nextSlice regs entry action vic
  dsimp only at next
  have refused : ∀ {between : RegFile} {t : Word}, ReturnsWith t regs between →
      ¬ Core1.Interrupted regs vic →
      (ReturnsLikeBx regs (between.startAt (action.hook regs).readPc) ↔
        ¬ Core1.Interrupted regs vic ∧ regs.readLr &&& 1#32 = 0#32) := by
    intro between t returns calm
    have restarted := returns.writePc high
    rw [RegFile.readPc_low] at restarted
    rw [RegFile.startAt, restarted.likeBx_iff, eq_comm]
    exact ⟨fun clear => ⟨calm, clear⟩, fun condition => condition.2⟩
  split at next
  · rename_i asserted
    have rewritten := hooked.writePc high
    have outcome := vicDeliverIrq_regs
      ((action.hook regs).writePc (action.hook regs).readPc) vic 0xffff0000
    have taken_iff := vicDeliverIrq_taken_iff
      ((action.hook regs).writePc (action.hook regs).readPc) 0xffff0000 asserted
    rw [rewritten.mask] at taken_iff
    rw [next]
    split at outcome
    · rename_i taken
      rw [if_pos taken, outcome]
      constructor
      · intro returns
        exact absurd returns (not_returnsLikeBx_takeIrq (taken_iff.mp taken))
      · intro condition
        exact absurd ⟨asserted, taken_iff.mp taken⟩ condition.1
    · rename_i kept
      rw [if_neg kept, outcome]
      exact refused rewritten (fun interrupted => kept (taken_iff.mpr interrupted.2))
  · rename_i quiet
    rw [next]
    exact refused hooked (fun interrupted => quiet interrupted.1)

/-- Every site of both cores, from every state: the intercepted call returns like `bx lr`
exactly when no exception is entered before the next slice and LR names ARM code, or the
site of Core 0 selects the instruction set and no line is asserted there. -/
theorem intercepted_returnsLikeBx_iff (sys : LleSystem) (jit : JitRegs) (site : Interception)
    (slice : Slice) (c : Nat) (regs : RegFile) (entry : Word) (action : ScriptAction)
    (vic vicC1 : VicState) :
    (ReturnsLikeBx sys.regs
        (((Core0.mk .unicorn sys jit false).intercept site).nextSlice slice vic c).sys.regs ↔
      ¬ Core0.Interrupted sys.regs vic ∧
        (sys.regs.readLr &&& 1#32 = 0#32 ∨ (site.selectsT = true ∧ vic.irqAsserted = false))) ∧
    (ReturnsLikeBx regs (((Core1.mk regs entry false).intercept action).nextSlice vicC1).regs ↔
      ¬ Core1.Interrupted regs vicC1 ∧ regs.readLr &&& 1#32 = 0#32) :=
  ⟨core0_returnsLikeBx_iff slice c, core1_returnsLikeBx_iff regs entry action vicC1⟩

/-- A callee entered from Thumb code at 0x1000. -/
def calledFromThumb : RegFile := { RegFile.blank with lr := fun _ => 0x1001, cpsr := 0x30 }

/-- A stub sends its Thumb caller on in ARM state, on either core. -/
theorem stub_drops_thumb :
    ¬ ReturnsLikeBx calledFromThumb
        (((Core0.mk .unicorn { yielding 0x1000 with regs := calledFromThumb } ⟨fun _ => 0, 0⟩
          false).intercept (.script .stub)).nextSlice ⟨[], none, false⟩ VicState.idle 1).sys.regs ∧
      ¬ ReturnsLikeBx calledFromThumb
        (((Core1.mk calledFromThumb 0x2000 false).intercept .stub).nextSlice VicState.idle).regs := by
  constructor
  · intro returns
    exact absurd returns.thumb (by decide +kernel)
  · intro returns
    exact absurd returns.thumb (by decide +kernel)

/-- The recompiler's registers after a return like `bx lr`. The hook runs between the two copies
of the registers, and the next slice goes on from the recompiler's own. -/
structure JitReturnsLikeBx (before after : JitRegs) : Prop where
  pc : after.r 15 = before.r 14 &&& ~~~1#32
  thumb : tBit after.cpsr = before.r 14 &&& 1#32
  status : after.cpsr &&& ~~~0x20#32 = before.cpsr &&& ~~~0x20#32
  general : ∀ index, index ≠ 0 → index ≠ 15 → after.r index = before.r index

theorem ReturnsWith.bankOf_eq {t : Word} {before after : RegFile} (returns : ReturnsWith t before after) :
    bankOf after.cpsr = bankOf before.cpsr := by
  rw [bankOf, bankOf, returns.and_eq rfl]

/-- Reading the registers back keeps what the hook made of them. -/
theorem ReturnsWith.syncFromUnicorn_general {t : Word} {before after : RegFile}
    (returns : ReturnsWith t before after) {index : Fin 16} (result : index ≠ 0) (pc : index ≠ 15) :
    (JitRegs.syncFromUnicorn after).r index = (JitRegs.syncFromUnicorn before).r index := by
  simp only [JitRegs.syncFromUnicorn, RegFile.readSp, RegFile.readLr, returns.sp, returns.lr,
    returns.bankOf_eq]
  split
  · apply returns.general
    intro zero
    exact result (Fin.ext (Fin.mk.inj zero))
  · split
    · rfl
    · split
      · rfl
      · rename_i high sp lr
        omega

/-- On the recompiler, where its registers survive the copy, the condition is the site's
alone. The slice ends at a hook that moved PC; a call that returns to its own first
instruction goes on in the same slice instead. -/
theorem jit_returnsLikeBx_iff {jit : JitRegs} {sys : LleSystem} (lossless : Lossless jit sys.regs)
    (site : Interception) (slice : Slice) (vic : VicState) (c : Nat) :
    JitReturnsLikeBx jit
        (((Core0.mk .dynarmic sys jit false).intercept site).nextSlice slice vic (c + 1)).jit ↔
      (jit.r 14 &&& 1#32 = 0#32 ∨ site.selectsT = true) := by
  obtain ⟨agrees, back⟩ := lossless
  have hooked := site.hook_returnsWith (jit.syncToUnicorn sys.regs)
  rw [agrees.lr] at hooked
  have silent := @Core0.deliver_quiet
    (((Core0.mk .dynarmic sys jit false).intercept site).finish slice) vic
    (fun loud => CoreBackend.noConfusion loud.2.1)
  rw [Core0.nextSlice, silent]
  change JitReturnsLikeBx jit (JitRegs.syncFromUnicorn (site.hook (jit.syncToUnicorn sys.regs))) ↔ _
  constructor
  · intro returns
    have thumb := hooked.thumb.symm.trans returns.thumb
    cases selects : site.selectsT with
    | true => exact .inr rfl
    | false =>
      rw [selects] at thumb
      exact .inl thumb.symm
  · intro condition
    refine ⟨?_, ?_, ?_, ?_⟩
    · exact hooked.pc.trans (by rw [agrees.lr])
    · refine hooked.thumb.trans ?_
      rcases condition with clear | selects
      · rw [clear, ite_self]
      · rw [selects, if_pos rfl]
    · exact hooked.status
    · intro index result pc
      rw [hooked.syncFromUnicorn_general result pc, back]

end ZeeboLle.System

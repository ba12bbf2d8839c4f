import ZeeboLle.Device.Models
import ZeeboLle.Scheduling.Runs

/-! The two models of the graphics core side by side. The fabric's model and the engine's own
agree in everything but the interrupt status: a write pointer that does not move is work for
the one and none for the other. -/
namespace ZeeboLle.Device

open Paging Unicorn Scheduling

/-- The model of the engine's own program. -/
structure VirtualAdreno130 where
  chipId : Word
  revision : Word
  status : Word
  rbBase : Word
  rbCntl : Word
  rbRptr : Word
  rbWptr : Word
  intStatus : Word
  intEnable : Word
  drawCallsProcessed : Word
  regs : Word → Word

namespace VirtualAdreno130

def revisionAdreno130 : Word := 1
def statusGpuIdle : Word := 0x1
def statusRingBusy : Word := 0x2
def intRbDone : Word := 0x1

def initial : VirtualAdreno130 where
  chipId := UnifiedAdreno130.chipIdYamato
  revision := revisionAdreno130
  status := statusGpuIdle
  rbBase := 0
  rbCntl := 0
  rbRptr := 0
  rbWptr := 0
  intStatus := 0
  intEnable := 0
  drawCallsProcessed := 0
  regs := fun _ => 0

def read (gpu : VirtualAdreno130) (off : Word) : Word :=
  if off = 0x0 then gpu.chipId
  else if off = 0x4 then gpu.revision
  else if off = 0x110 then gpu.status
  else if off = 0x100 then gpu.rbBase
  else if off = 0x104 then gpu.rbCntl
  else if off = 0x108 then gpu.rbRptr
  else if off = 0x10c then gpu.rbWptr
  else if off = 0x120 then gpu.intStatus
  else if off = 0x124 then gpu.intEnable
  else gpu.regs off

/-- The packets between the two pointers, the ring wrapping at 64 K. -/
def packets (gpu : VirtualAdreno130) : Word :=
  if gpu.rbWptr ≥ gpu.rbRptr then gpu.rbWptr - gpu.rbRptr else 0x10000 - gpu.rbRptr + gpu.rbWptr

def processRingBuffer (gpu : VirtualAdreno130) : VirtualAdreno130 :=
  if gpu.rbWptr ≠ gpu.rbRptr then
    let gpu := { gpu with status := (gpu.status ||| statusRingBusy) &&& ~~~statusGpuIdle }
    let gpu := { gpu with drawCallsProcessed := gpu.drawCallsProcessed + gpu.packets }
    let gpu := { gpu with rbRptr := gpu.rbWptr }
    let gpu := { gpu with status := (gpu.status &&& ~~~statusRingBusy) ||| statusGpuIdle }
    if gpu.intEnable &&& intRbDone ≠ 0 then { gpu with intStatus := gpu.intStatus ||| intRbDone } else gpu
  else gpu

def write (gpu : VirtualAdreno130) (off value : Word) : VirtualAdreno130 :=
  let gpu := { gpu with regs := Function.update gpu.regs off value }
  if off = 0x100 then { gpu with rbBase := value }
  else if off = 0x104 then { gpu with rbCntl := value }
  else if off = 0x10c then processRingBuffer { gpu with rbWptr := value }
  else if off = 0x124 then { gpu with intEnable := value }
  else if off = 0x128 then { gpu with intStatus := gpu.intStatus &&& ~~~value }
  else gpu

end VirtualAdreno130

namespace Adreno

abbrev RegisterWrite := Word × Word

def unifiedRun (writes : List RegisterWrite) : UnifiedAdreno130 :=
  writes.foldl (fun gpu write => gpu.write write.1 write.2) .initial

def virtualRun (writes : List RegisterWrite) : VirtualAdreno130 :=
  writes.foldl (fun gpu write => gpu.write write.1 write.2) .initial

/-- Every register reads the same, and as many draws were counted. -/
def Agree (unified : UnifiedAdreno130) (virtual : VirtualAdreno130) : Prop :=
  (∀ off, unified.read off = virtual.read off) ∧ unified.draws = virtual.drawCallsProcessed

/-- The models agree from the start and after every write. -/
def AgreeThroughout (writes : List RegisterWrite) : Prop :=
  ∀ before, before <+: writes → Agree (unifiedRun before) (virtualRun before)

/-- A write pointer that does not move, with its interrupt enabled and not yet pending. -/
def IdleKick (gpu : VirtualAdreno130) (write : RegisterWrite) : Prop :=
  write.1 = 0x10c ∧ write.2 = gpu.rbWptr ∧ gpu.intEnable &&& 1 ≠ 0 ∧ gpu.intStatus &&& 1 = 0

variable {unified : UnifiedAdreno130} {virtual : VirtualAdreno130} {writes : List RegisterWrite}

/-- All but the interrupt status; each register of the engine's model with a field of its own
holds what was last written to it. -/
structure Follows (unified : UnifiedAdreno130) (virtual : VirtualAdreno130) : Prop where
  regs : unified.regs = virtual.regs
  chipId : virtual.chipId = UnifiedAdreno130.chipIdYamato
  revision : virtual.revision = 1
  unifiedIdle : unified.status = 1
  virtualIdle : virtual.status = 1
  rbBase : virtual.rbBase = virtual.regs 0x100
  rbCntl : virtual.rbCntl = virtual.regs 0x104
  intEn : virtual.intEnable = virtual.regs 0x124
  intEnable : unified.intEn = virtual.intEnable
  rbRptr : unified.rbRptr = virtual.rbWptr
  rbWptr : unified.rbWptr = virtual.rbWptr
  caughtUp : virtual.rbRptr = virtual.rbWptr
  draws : unified.draws = virtual.drawCallsProcessed

theorem follows_initial : Follows .initial .initial := by
  constructor <;> rfl

/-- The ring is empty again, the draws are counted, and the interrupt fires for a moved pointer. -/
theorem processRingBuffer_eq (gpu : VirtualAdreno130) (idle : gpu.status = 1) :
    gpu.processRingBuffer = { gpu with
      rbRptr := gpu.rbWptr
      drawCallsProcessed := gpu.drawCallsProcessed + gpu.packets
      intStatus :=
        if gpu.rbWptr ≠ gpu.rbRptr ∧ gpu.intEnable &&& 1 ≠ 0 then gpu.intStatus ||| 1
        else gpu.intStatus } := by
  rcases gpu with ⟨chipId, revision, status, rbBase, rbCntl, rbRptr, rbWptr, intStatus, intEnable, draws, regs⟩
  subst idle
  by_cases moved : rbWptr = rbRptr
  · simp [VirtualAdreno130.processRingBuffer, VirtualAdreno130.packets, moved]
  · by_cases enabled : intEnable &&& 1#32 = 0#32
    · simp [VirtualAdreno130.processRingBuffer, moved, enabled, VirtualAdreno130.intRbDone,
        VirtualAdreno130.statusRingBusy, VirtualAdreno130.statusGpuIdle, VirtualAdreno130.packets]
    · simp [VirtualAdreno130.processRingBuffer, moved, enabled, VirtualAdreno130.intRbDone,
        VirtualAdreno130.statusRingBusy, VirtualAdreno130.statusGpuIdle, VirtualAdreno130.packets]

theorem write_wptr (value : Word) (idle : virtual.status = 1) : virtual.write 0x10c value = { virtual with
    regs := Function.update virtual.regs 0x10c value
    rbWptr := value
    rbRptr := value
    drawCallsProcessed := virtual.drawCallsProcessed +
      if value ≥ virtual.rbRptr then value - virtual.rbRptr else 0x10000 - virtual.rbRptr + value
    intStatus :=
      if value ≠ virtual.rbRptr ∧ virtual.intEnable &&& 1 ≠ 0 then virtual.intStatus ||| 1
      else virtual.intStatus } :=
  processRingBuffer_eq { virtual with
    regs := Function.update virtual.regs 0x10c value, rbWptr := value } idle

theorem Follows.write (follows : Follows unified virtual) (off value : Word) :
    Follows (unified.write off value) (virtual.write off value) := by
  by_cases kick : off = 0x10c
  · subst kick
    rw [write_wptr value follows.virtualIdle]
    obtain ⟨regs, chipId, revision, unifiedIdle, virtualIdle, rbBase, rbCntl, intEn, intEnable, rbRptr,
      rbWptr, caughtUp, draws⟩ := follows
    constructor <;> simp_all [UnifiedAdreno130.write]
  · obtain ⟨regs, chipId, revision, unifiedIdle, virtualIdle, rbBase, rbCntl, intEn, intEnable, rbRptr,
      rbWptr, caughtUp, draws⟩ := follows
    unfold UnifiedAdreno130.write VirtualAdreno130.write
    simp only [if_neg kick]
    have base : (0x100 : Word) = off ↔ off = 0x100 := eq_comm
    have cntl : (0x104 : Word) = off ↔ off = 0x104 := eq_comm
    have enable : (0x124 : Word) = off ↔ off = 0x124 := eq_comm
    split_ifs <;> constructor <;> simp_all

theorem follows_run (writes : List RegisterWrite) : Follows (unifiedRun writes) (virtualRun writes) := by
  induction writes using List.reverseRecOn with
  | nil => exact follows_initial
  | append_singleton writes write ih =>
    rw [unifiedRun, virtualRun, List.foldl_concat, List.foldl_concat]
    exact ih.write write.1 write.2

/-- Only the interrupt status can tell the models apart. -/
theorem Follows.read (follows : Follows unified virtual) {off : Word} (other : off ≠ 0x120) :
    unified.read off = virtual.read off := by
  unfold UnifiedAdreno130.read VirtualAdreno130.read
  rw [if_neg other, if_neg other, follows.chipId, follows.revision, follows.unifiedIdle,
    follows.virtualIdle, follows.rbRptr, follows.rbWptr, follows.caughtUp, follows.rbBase, follows.rbCntl,
    follows.intEn, follows.regs]
  split_ifs <;> simp_all

theorem Follows.agree (follows : Follows unified virtual) :
    Agree unified virtual ↔ unified.intStatus = virtual.intStatus := by
  constructor
  · intro agree
    exact agree.1 0x120
  · intro same
    refine ⟨fun off => ?_, follows.draws⟩
    by_cases status : off = 0x120
    · subst status
      exact same
    · exact follows.read status

theorem or_one_eq_self_iff (word : Word) : word ||| 1 = word ↔ word &&& 1 ≠ 0 := by
  have low : word &&& 1 = if word.getLsbD 0 then 1 else 0 := BitVec.and_one_eq_setWidth_ofBool_getLsbD.trans (by
    cases word.getLsbD 0 <;> rfl)
  constructor
  · intro same
    have bit : (word ||| 1).getLsbD 0 = true := by simp
    rw [low, ← same, if_pos bit]
    decide
  · intro pending
    have bit : word.getLsbD 0 = true := by
      by_contra down
      rw [low, if_neg down] at pending
      exact pending rfl
    ext i below
    by_cases first : i = 0
    · subst first
      simpa using bit
    · simp [first]

/-- One write keeps the interrupt status equal unless it is an idle kick. -/
theorem Follows.intStatus_write (follows : Follows unified virtual)
    (same : unified.intStatus = virtual.intStatus) (write : RegisterWrite) :
    (unified.write write.1 write.2).intStatus = (virtual.write write.1 write.2).intStatus ↔
      ¬ IdleKick virtual write := by
  obtain ⟨off, value⟩ := write
  by_cases kick : off = 0x10c
  · subst kick
    rw [write_wptr value follows.virtualIdle]
    simp only [IdleKick, UnifiedAdreno130.write, if_true, follows.intEnable, follows.caughtUp, same, true_and]
    by_cases moved : value = virtual.rbWptr
    · by_cases enabled : virtual.intEnable &&& 1 = 0
      · rw [if_neg (not_not.mpr enabled), if_neg fun fires => fires.2 enabled]
        exact iff_of_true rfl fun idle => idle.2.1 enabled
      · rw [if_pos enabled, if_neg fun fires => fires.1 moved, or_one_eq_self_iff]
        exact ⟨fun pending idle => pending idle.2.2, fun busy clear => busy ⟨moved, enabled, clear⟩⟩
    · simp [moved]
  · have still : ¬ IdleKick virtual (off, value) := fun idle => kick idle.1
    simp only [still, not_false_iff, iff_true]
    unfold UnifiedAdreno130.write VirtualAdreno130.write
    simp only [if_neg kick]
    split_ifs <;> simp_all

/-- The models agree throughout a run exactly if the write pointer is never written with the
value it has while its interrupt is enabled and not pending. -/
theorem agreeThroughout_iff (writes : List RegisterWrite) :
    AgreeThroughout writes ↔
      Throughout (fun before write => ¬ IdleKick (virtualRun before) write) writes := by
  induction writes using List.reverseRecOn with
  | nil =>
    refine ⟨fun _ => throughout_nil, fun _ before initial => ?_⟩
    rw [List.prefix_nil.mp initial]
    exact follows_initial.agree.mpr rfl
  | append_singleton writes write ih =>
    have last : AgreeThroughout (writes ++ [write]) ↔
        AgreeThroughout writes ∧ Agree (unifiedRun (writes ++ [write])) (virtualRun (writes ++ [write])) := by
      unfold AgreeThroughout
      simp only [List.prefix_concat_iff, or_imp, forall_and, forall_eq]
      exact and_comm
    rw [last, throughout_snoc, ← ih]
    refine and_congr_right fun every => ?_
    have same := (follows_run writes).agree.mp (every writes (List.prefix_refl writes))
    rw [(follows_run _).agree, unifiedRun, virtualRun, List.foldl_concat, List.foldl_concat]
    exact (follows_run writes).intStatus_write same write

/-- Enabling the interrupt and writing the pointer the ring starts with. -/
theorem not_agreeThroughout_idle : ¬ AgreeThroughout [(0x124, 1), (0x10c, 0)] := by
  intro every
  have status := (every _ (List.prefix_refl _)).1 0x120
  revert status
  decide

end Adreno

end ZeeboLle.Device

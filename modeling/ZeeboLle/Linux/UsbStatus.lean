import ZeeboLle.Linux.Vic
import ZeeboLle.Scheduling.Runs

/-! The register block of the USB host controller: one array for all registers but the port
status, which has a word of its own. A register is named by its offset from the block; the two
status registers are followed over every interleaving of guest accesses and completions. -/
namespace ZeeboLle.Linux

open Unicorn Scheduling

/-- `off & ~0x3u`. -/
def usbRegister (off : Word) : Word := off &&& ~~~3

theorem usbSlot_lt (off : Word) : ((off &&& 0x1ff) >>> 2).toNat < 128 := by
  have mask : (off &&& 0x1ff).toNat < 2 ^ 9 := by
    rw [BitVec.toNat_and]
    exact Nat.and_lt_two_pow _ (by decide)
  rw [BitVec.toNat_ushiftRight, Nat.shiftRight_eq_div_pow]
  omega

/-- `(off & 0x1ffu) >> 2`. -/
def usbSlot (off : Word) : Fin 128 := ⟨((off &&& 0x1ff) >>> 2).toNat, usbSlot_lt off⟩

def usbOffUsbsts : Word := 0x144
def usbOffUsbintr : Word := 0x148
def usbOffPortsc : Word := 0x184

/-- `g_usb_regs`, the port status with its reset, the second word of pending interrupts and how
often the controller raised its own. -/
structure UsbBlock where
  regs : Fin 128 → Word
  portsc : Word
  portResetPending : Bool
  pending1 : Word
  irqRaised : Nat

def usbFrameIndex (frame : Word) : Word := (frame <<< 3) &&& 0x3fff

namespace UsbBlock

def start : UsbBlock where
  regs _ := 0
  portsc := 0x0800100f
  portResetPending := false
  pending1 := 0
  irqRaised := 0

/-- A pending reset of the port completes. -/
def completeReset (block : UsbBlock) : UsbBlock :=
  if block.portResetPending then
    { block with
      portResetPending := false
      portsc := (block.portsc &&& ~~~0x80#32) ||| 0xc#32 ||| (2#32 <<< 26) }
  else block

def usbRegRead (block : UsbBlock) (frame off : Word) : Word × UsbBlock :=
  let reg := usbRegister off
  if reg = 0x000 ∨ reg = 0x100 then (0x01000040, block)
  else if reg = 0x004 ∨ reg = 0x104 then (0x11, block)
  else if reg = 0x008 ∨ reg = 0x108 then (0x6, block)
  else if reg = 0x10c then (0, block)
  else if reg = 0x14c then (usbFrameIndex frame, block)
  else if reg = usbOffPortsc then (block.completeReset.portsc, block.completeReset)
  else (block.regs (usbSlot off), block)

def onUsbRead (block : UsbBlock) (frame off : Word) : Word × UsbBlock :=
  let (v, block) := block.usbRegRead frame off
  (v, { block with regs := Function.update block.regs (usbSlot off) v })

def onUsbWrite (block : UsbBlock) (off v : Word) : UsbBlock :=
  let v := if usbRegister off = 0x100 ∨ usbRegister off = 0x140 then v &&& ~~~0x2#32 else v
  if usbRegister off = usbOffPortsc then
    let st := block.portsc
    let st := if v &&& 0x02 ≠ 0 then st &&& ~~~0x02#32 else st
    let st := if v &&& 0x08 ≠ 0 then st &&& ~~~0x08#32 else st
    { block with
      portResetPending := block.portResetPending || v &&& 0x80 ≠ 0
      portsc := st }
  else { block with regs := Function.update block.regs (usbSlot off) v }

def usbRaiseIrq (block : UsbBlock) : UsbBlock :=
  let regs := Function.update block.regs (usbSlot usbOffUsbsts)
    (block.regs (usbSlot usbOffUsbsts) ||| 1)
  if regs (usbSlot usbOffUsbintr) &&& 1 ≠ 0 then
    { block with regs, pending1 := block.pending1 ||| (1#32 <<< 15), irqRaised := block.irqRaised + 1 }
  else { block with regs }

end UsbBlock

/-- A guest access to the block, whatever the frame counter shows, or a completion. -/
inductive UsbEvent where
  | read (frame : Word) (off : BitVec 9)
  | write (off : BitVec 9) (v : Word)
  | raise
deriving DecidableEq

namespace UsbEvent

/-- The register an access is to. -/
def register : UsbEvent → Option Word
  | .read _ off => some (usbRegister (off.setWidth 32))
  | .write off _ => some (usbRegister (off.setWidth 32))
  | .raise => none

def apply (block : UsbBlock) : UsbEvent → UsbBlock
  | .read frame off => (block.onUsbRead frame (off.setWidth 32)).2
  | .write off v => block.onUsbWrite (off.setWidth 32) v
  | .raise => block.usbRaiseIrq

/-- A write to a register with a bit set. -/
def sets (reg : Word) (bit : Nat) : UsbEvent → Bool
  | .write off v => usbRegister (off.setWidth 32) = reg && v.getLsbD bit
  | _ => false

/-- A write to a register. -/
def writes (reg : Word) : UsbEvent → Bool
  | .write off _ => usbRegister (off.setWidth 32) = reg
  | _ => false

/-- A read of the port status. -/
def readsPort : UsbEvent → Bool
  | .read _ off => usbRegister (off.setWidth 32) = usbOffPortsc
  | _ => false

end UsbEvent

def UsbBlock.after (events : List UsbEvent) : UsbBlock := events.foldl UsbEvent.apply .start

def UsbBlock.usbsts (block : UsbBlock) : Word := block.regs (usbSlot usbOffUsbsts)

/-- A completion came after the last acknowledgement, or there was none. -/
def Raised (past : List UsbEvent) : Prop :=
  Since (fun event => event = .raise) (UsbEvent.sets usbOffUsbsts 0) past

/-- A port reset was asked for that no read of the port has completed. -/
def ResetPending (past : List UsbEvent) : Prop :=
  Since (UsbEvent.sets usbOffPortsc 7) UsbEvent.readsPort past

/-- What an event does to the change bits of the port, and what it leaves alone. -/
structure PortLaw (past : List UsbEvent) (event : UsbEvent) (before after : UsbBlock) : Prop where
  connect : after.portsc.getLsbD 1 = true ↔
    before.portsc.getLsbD 1 = true ∧ event.sets usbOffPortsc 1 = false
  enable : after.portsc.getLsbD 3 = true ↔ event.sets usbOffPortsc 3 = false ∧
    (before.portsc.getLsbD 3 = true ∨ event.readsPort = true ∧ ResetPending past)
  portElsewhere : event.register ≠ some usbOffPortsc → after.portsc = before.portsc
  stsElsewhere : event.register ≠ some usbOffUsbsts → event ≠ .raise → after.usbsts = before.usbsts

/-- The status bits are cleared by writing ones to them. -/
structure StatusLaw (events : List UsbEvent) : Prop where
  usbsts : ∀ past frame off later, events = past ++ .read frame off :: later →
    usbRegister (off.setWidth 32) = usbOffUsbsts →
      (((UsbBlock.after past).onUsbRead frame (off.setWidth 32)).1.getLsbD 0 = true ↔ Raised past)
  port : ∀ past event later, events = past ++ event :: later →
    PortLaw past event (UsbBlock.after past) (UsbBlock.after (past ++ [event]))
  portRead : ∀ past frame off later, events = past ++ .read frame off :: later →
    usbRegister (off.setWidth 32) = usbOffPortsc →
      ((UsbBlock.after past).onUsbRead frame (off.setWidth 32)).1 =
        (UsbBlock.after (past ++ [.read frame off])).portsc

/-- The last write to the interrupt status, unless a completion came later, stored a zero where
nothing was to be kept. -/
def HarmlessWrite (past : List UsbEvent) : Prop :=
  ∀ before off v after, past = before ++ .write off v :: after →
    usbRegister (off.setWidth 32) = usbOffUsbsts →
      (∀ event ∈ after, event ≠ .raise ∧ event.writes usbOffUsbsts = false) →
        v.getLsbD 0 = false ∧ ¬Raised before

variable {block : UsbBlock} {event : UsbEvent} {events past : List UsbEvent} {frame v : Word}
  {off : BitVec 9}

theorem usbSlot_sts_iff : usbSlot (off.setWidth 32) = usbSlot usbOffUsbsts ↔
    usbRegister (off.setWidth 32) = usbOffUsbsts := by
  revert off
  decide +kernel

namespace UsbBlock

/-- A read of the port completes its reset, any other read changes nothing. -/
theorem usbRegRead_snd (block : UsbBlock) (frame off : Word) :
    (block.usbRegRead frame off).2 =
      if usbRegister off = usbOffPortsc then block.completeReset else block := by
  unfold usbRegRead
  dsimp only
  split_ifs with first second third route index port
  all_goals first | rfl | (simp_all [usbOffPortsc])

theorem usbRegRead_port {off : Word} (port : usbRegister off = usbOffPortsc) :
    (block.usbRegRead frame off).1 = block.completeReset.portsc := by
  rw [usbRegRead, port]
  rfl

theorem usbRegRead_sts {off : Word} (sts : usbRegister off = usbOffUsbsts) :
    (block.usbRegRead frame off).1 = block.regs (usbSlot off) := by
  rw [usbRegRead, sts]
  rfl

theorem completeReset_regs (block : UsbBlock) : block.completeReset.regs = block.regs := by
  unfold completeReset
  split
  · rfl
  · rfl

theorem regs_usbRegRead (block : UsbBlock) (frame off : Word) :
    (block.usbRegRead frame off).2.regs = block.regs := by
  rw [usbRegRead_snd]
  split
  · exact block.completeReset_regs
  · rfl

/-- A read shows the interrupt status and leaves it as it is. -/
theorem usbsts_onUsbRead (block : UsbBlock) (frame : Word) (off : BitVec 9) :
    (block.onUsbRead frame (off.setWidth 32)).2.usbsts = block.usbsts := by
  change Function.update (block.usbRegRead frame (off.setWidth 32)).2.regs (usbSlot (off.setWidth 32))
    (block.usbRegRead frame (off.setWidth 32)).1 (usbSlot usbOffUsbsts) = _
  rw [regs_usbRegRead]
  by_cases own : usbRegister (off.setWidth 32) = usbOffUsbsts
  · rw [usbRegRead_sts own, usbSlot_sts_iff.mpr own, Function.update_self, usbsts]
  · exact Function.update_of_ne (Ne.symm (mt usbSlot_sts_iff.mp own)) _ _

theorem onUsbRead_sts (own : usbRegister (off.setWidth 32) = usbOffUsbsts) :
    (block.onUsbRead frame (off.setWidth 32)).1 = block.usbsts := by
  change (block.usbRegRead frame (off.setWidth 32)).1 = _
  rw [usbRegRead_sts own, usbSlot_sts_iff.mpr own, usbsts]

theorem portsc_onUsbRead (block : UsbBlock) (frame off : Word) :
    (block.onUsbRead frame off).2.portsc =
      if usbRegister off = usbOffPortsc then block.completeReset.portsc else block.portsc := by
  change (block.usbRegRead frame off).2.portsc = _
  rw [usbRegRead_snd, apply_ite UsbBlock.portsc]

theorem portResetPending_onUsbRead (block : UsbBlock) (frame off : Word) :
    (block.onUsbRead frame off).2.portResetPending =
      if usbRegister off = usbOffPortsc then false else block.portResetPending := by
  change (block.usbRegRead frame off).2.portResetPending = _
  rw [usbRegRead_snd, apply_ite UsbBlock.portResetPending]
  congr 1
  unfold completeReset
  split
  · rfl
  · next idle => exact eq_false_of_ne_true idle

theorem usbsts_onUsbWrite (block : UsbBlock) (off : BitVec 9) (v : Word) :
    (block.onUsbWrite (off.setWidth 32) v).usbsts =
      if usbRegister (off.setWidth 32) = usbOffUsbsts then v else block.usbsts := by
  unfold onUsbWrite
  dsimp only
  by_cases own : usbRegister (off.setWidth 32) = usbOffUsbsts
  · rw [if_pos own, own, if_neg (by decide), if_neg (by decide), usbSlot_sts_iff.mpr own]
    exact Function.update_self (usbSlot usbOffUsbsts) v block.regs
  · rw [if_neg own]
    split
    · rfl
    · exact Function.update_of_ne (Ne.symm (mt usbSlot_sts_iff.mp own)) _ _

theorem portsc_plain : ¬(usbOffPortsc = 0x100 ∨ usbOffPortsc = 0x140) := by decide

/-- The change bits of the port are cleared by ones. -/
theorem portsc_onUsbWrite (block : UsbBlock) (off v : Word) {bit : Nat} (change : bit = 1 ∨ bit = 3) :
    (block.onUsbWrite off v).portsc.getLsbD bit =
      (block.portsc.getLsbD bit && !(usbRegister off = usbOffPortsc && v.getLsbD bit)) := by
  have first : v &&& 0x02 ≠ 0 ↔ v.getLsbD 1 = true := and_bit_ne_zero v 1 (by decide)
  have third : v &&& 0x08 ≠ 0 ↔ v.getLsbD 3 = true := and_bit_ne_zero v 3 (by decide)
  have masks : (~~~0x02#32).getLsbD 1 = false ∧ (~~~0x02#32).getLsbD 3 = true ∧
      (~~~0x08#32).getLsbD 1 = true ∧ (~~~0x08#32).getLsbD 3 = false := by decide
  by_cases port : usbRegister off = usbOffPortsc
  · simp only [onUsbWrite, port, if_neg portsc_plain, if_true, first, third]
    rcases change with rfl | rfl
    · cases one : v.getLsbD 1
      all_goals cases v.getLsbD 3
      all_goals simp only [if_true, if_false, Bool.false_eq_true, BitVec.getLsbD_and, masks]
      all_goals simp
    · cases one : v.getLsbD 1
      all_goals cases v.getLsbD 3
      all_goals simp only [if_true, if_false, Bool.false_eq_true, BitVec.getLsbD_and, masks]
      all_goals simp
  · simp [onUsbWrite, port]

theorem portsc_onUsbWrite_elsewhere {off : Word} (elsewhere : usbRegister off ≠ usbOffPortsc) :
    (block.onUsbWrite off v).portsc = block.portsc := by
  simp only [onUsbWrite, if_neg elsewhere]

theorem portResetPending_onUsbWrite (block : UsbBlock) (off v : Word) :
    (block.onUsbWrite off v).portResetPending =
      (block.portResetPending || usbRegister off = usbOffPortsc && v.getLsbD 7) := by
  have reset : v &&& 0x80 ≠ 0 ↔ v.getLsbD 7 = true := and_bit_ne_zero v 7 (by decide)
  by_cases port : usbRegister off = usbOffPortsc
  · simp only [onUsbWrite, port, if_neg portsc_plain, if_true, reset]
    simp
  · simp [onUsbWrite, port]

/-- A completion sets the bit of the interrupt status and leaves the port alone. -/
theorem usbRaiseIrq_eq (block : UsbBlock) :
    block.usbRaiseIrq.usbsts = block.usbsts ||| 1 ∧ block.usbRaiseIrq.portsc = block.portsc ∧
      block.usbRaiseIrq.portResetPending = block.portResetPending := by
  have set : Function.update block.regs (usbSlot usbOffUsbsts) (block.usbsts ||| 1)
      (usbSlot usbOffUsbsts) = block.usbsts ||| 1 := Function.update_self _ _ _
  unfold usbRaiseIrq
  dsimp only
  split
  · exact ⟨set, rfl, rfl⟩
  · exact ⟨set, rfl, rfl⟩

theorem after_snoc (events : List UsbEvent) (event : UsbEvent) :
    after (events ++ [event]) = event.apply (after events) := by
  simp [after]

theorem portResetPending_after (past : List UsbEvent) :
    (after past).portResetPending = true ↔ ResetPending past := by
  induction past using List.reverseRecOn with
  | nil => simp [after, start, ResetPending, not_since_nil]
  | append_singleton past event ih =>
    rw [after_snoc, ResetPending, since_snoc, ← ResetPending, ← ih]
    cases event with
    | read frame off =>
      rw [UsbEvent.apply, portResetPending_onUsbRead]
      by_cases port : usbRegister (off.setWidth 32) = usbOffPortsc
      · simp [UsbEvent.sets, UsbEvent.readsPort, port]
      · simp [UsbEvent.sets, UsbEvent.readsPort, port]
    | write off v =>
      rw [UsbEvent.apply, portResetPending_onUsbWrite]
      simp [UsbEvent.sets, UsbEvent.readsPort, or_comm]
    | raise =>
      rw [UsbEvent.apply, (usbRaiseIrq_eq _).2.2]
      simp [UsbEvent.sets, UsbEvent.readsPort]

/-- What a completed reset leaves of the change bits. -/
theorem completeReset_bits (block : UsbBlock) :
    block.completeReset.portsc.getLsbD 1 = block.portsc.getLsbD 1 ∧
      block.completeReset.portsc.getLsbD 3 =
        (block.portsc.getLsbD 3 || block.portResetPending) := by
  have masks : (~~~0x80#32).getLsbD 1 = true ∧ (0xc#32).getLsbD 1 = false ∧
      (2#32 <<< 26).getLsbD 1 = false ∧ (0xc#32).getLsbD 3 = true := by decide
  unfold completeReset
  split
  · next pending =>
    rw [pending]
    simp only [BitVec.getLsbD_or, BitVec.getLsbD_and, masks, Bool.and_true, Bool.or_false,
      Bool.or_true, Bool.true_or, and_self]
  · next idle =>
    rw [eq_false_of_ne_true idle, Bool.or_false]
    exact ⟨rfl, rfl⟩

/-- Every event treats the port as it should. -/
theorem portLaw_after (past : List UsbEvent) (event : UsbEvent) :
    PortLaw past event (after past) (after (past ++ [event])) := by
  have pending := portResetPending_after past
  rw [after_snoc]
  generalize after past = block at pending
  cases event with
  | read frame off =>
    obtain ⟨connect, enable⟩ := block.completeReset_bits
    refine ⟨?_, ?_, fun elsewhere => ?_, fun _ _ => block.usbsts_onUsbRead frame off⟩
    · rw [UsbEvent.apply, portsc_onUsbRead, apply_ite (BitVec.getLsbD · 1), connect, ite_self]
      simp [UsbEvent.sets]
    · rw [UsbEvent.apply, portsc_onUsbRead, apply_ite (BitVec.getLsbD · 3), enable, ← pending]
      by_cases port : usbRegister (off.setWidth 32) = usbOffPortsc
      · simp [UsbEvent.sets, UsbEvent.readsPort, port]
      · simp [UsbEvent.sets, UsbEvent.readsPort, port]
    · rw [UsbEvent.apply, portsc_onUsbRead, if_neg fun same => elsewhere (congrArg some same)]
  | write off v =>
    refine ⟨?_, ?_, fun elsewhere => ?_, fun elsewhere _ => ?_⟩
    · rw [UsbEvent.apply, portsc_onUsbWrite block _ v (.inl rfl), Bool.and_eq_true,
        Bool.not_eq_true']
      exact Iff.rfl
    · rw [UsbEvent.apply, portsc_onUsbWrite block _ v (.inr rfl), Bool.and_eq_true,
        Bool.not_eq_true', and_comm]
      simp only [UsbEvent.readsPort, Bool.false_eq_true, false_and, or_false]
      exact Iff.rfl
    · exact portsc_onUsbWrite_elsewhere fun same => elsewhere (congrArg some same)
    · rw [UsbEvent.apply, usbsts_onUsbWrite, if_neg fun same => elsewhere (congrArg some same)]
  | raise =>
    obtain ⟨-, portsc, -⟩ := block.usbRaiseIrq_eq
    rw [UsbEvent.apply]
    refine ⟨?_, ?_, fun _ => portsc, fun _ other => absurd rfl other⟩
    · rw [portsc]
      simp [UsbEvent.sets]
    · rw [portsc]
      simp [UsbEvent.sets, UsbEvent.readsPort]

end UsbBlock

theorem harmlessWrite_raise (past : List UsbEvent) : HarmlessWrite (past ++ [.raise]) := by
  intro before off v after split own last
  rcases snoc_eq_iff.mp split with ⟨-, other, -⟩ | ⟨rest, rfl, -⟩
  · cases other
  · exact absurd rfl (last .raise (by simp)).1

theorem harmlessWrite_write (own : usbRegister (off.setWidth 32) = usbOffUsbsts) :
    HarmlessWrite (past ++ [.write off v]) ↔ v.getLsbD 0 = false ∧ ¬Raised past := by
  constructor
  · intro harmless
    exact harmless past off v [] rfl own fun _ member => absurd member List.not_mem_nil
  · rintro kept before other value after split also last
    rcases snoc_eq_iff.mp split with ⟨rfl, same, -⟩ | ⟨rest, rfl, -⟩
    · cases same
      exact kept
    · have written := (last (.write off v) (by simp)).2
      simp [UsbEvent.writes, own] at written

theorem harmlessWrite_other (quiet : event ≠ .raise ∧ event.writes usbOffUsbsts = false) :
    HarmlessWrite (past ++ [event]) ↔ HarmlessWrite past := by
  constructor
  · rintro harmless before off v after rfl own last
    refine harmless before off v (after ++ [event]) (by simp) own fun other member => ?_
    rcases List.mem_append.mp member with early | late
    · exact last other early
    · rwa [List.mem_singleton.mp late]
  · rintro harmless before off v after split own last
    rcases snoc_eq_iff.mp split with ⟨-, rfl, -⟩ | ⟨rest, rfl, found⟩
    · have written := quiet.2
      simp [UsbEvent.writes, own] at written
    · exact harmless before off v rest found own fun other member =>
        last other (List.mem_append_left _ member)

theorem raised_snoc : Raised (past ++ [event]) ↔
    event = .raise ∨ event.sets usbOffUsbsts 0 = false ∧ Raised past := by
  rw [Raised, since_snoc, decide_eq_true_eq, ← Raised]

/-- An event that neither completes nor writes the interrupt status leaves its bit. -/
theorem quiet_event (block : UsbBlock) (quiet : event ≠ .raise ∧ event.writes usbOffUsbsts = false) :
    (event.apply block).usbsts = block.usbsts ∧ event.sets usbOffUsbsts 0 = false := by
  cases event with
  | read frame off => exact ⟨block.usbsts_onUsbRead frame off, rfl⟩
  | write off v =>
    have elsewhere : usbRegister (off.setWidth 32) ≠ usbOffUsbsts := of_decide_eq_false quiet.2
    refine ⟨?_, by simp [UsbEvent.sets, elsewhere]⟩
    rw [UsbEvent.apply, UsbBlock.usbsts_onUsbWrite, if_neg elsewhere]
  | raise => exact absurd rfl quiet.1

/-- The bit shows the completions not yet acknowledged exactly if the last write did no harm. -/
theorem usbsts_after_iff (past : List UsbEvent) :
    ((UsbBlock.after past).usbsts.getLsbD 0 = true ↔ Raised past) ↔ HarmlessWrite past := by
  induction past using List.reverseRecOn with
  | nil =>
    refine iff_of_true (iff_of_false (by decide) not_since_nil) ?_
    intro before off v after split
    simp at split
  | append_singleton past event ih =>
    rw [UsbBlock.after_snoc, raised_snoc]
    by_cases quiet : event ≠ .raise ∧ event.writes usbOffUsbsts = false
    · obtain ⟨same, spared⟩ := quiet_event (UsbBlock.after past) quiet
      rw [same, harmlessWrite_other quiet, ← ih, spared]
      simp [quiet.1]
    · cases event with
      | read frame off => exact absurd ⟨by simp, rfl⟩ quiet
      | write off v =>
        have own : usbRegister (off.setWidth 32) = usbOffUsbsts := by
          by_contra elsewhere
          exact quiet ⟨by simp, decide_eq_false elsewhere⟩
        have bit : (UsbEvent.write off v).sets usbOffUsbsts 0 = v.getLsbD 0 := by
          simp [UsbEvent.sets, own]
        rw [UsbEvent.apply, UsbBlock.usbsts_onUsbWrite, if_pos own, harmlessWrite_write own, bit]
        cases v.getLsbD 0 with
        | true => simp
        | false => simp
      | raise =>
        refine iff_of_true (iff_of_true ?_ (.inl rfl)) (harmlessWrite_raise past)
        rw [UsbEvent.apply, (UsbBlock.usbRaiseIrq_eq _).1, BitVec.getLsbD_or]
        exact Bool.or_true _

/-- The law holds of a run exactly if every read of the interrupt status comes after a write that did
no harm, or after a completion. -/
theorem statusLaw_iff (events : List UsbEvent) : StatusLaw events ↔
    ∀ past frame off later, events = past ++ .read frame off :: later →
      usbRegister (off.setWidth 32) = usbOffUsbsts → HarmlessWrite past := by
  constructor
  · intro law past frame off later split own
    have shown := law.usbsts past frame off later split own
    rw [UsbBlock.onUsbRead_sts own] at shown
    exact (usbsts_after_iff past).mp shown
  · intro harmless
    refine ⟨fun past frame off later split own => ?_, fun past event _ _ => ?_,
      fun past frame off _ _ own => ?_⟩
    · rw [UsbBlock.onUsbRead_sts own]
      exact (usbsts_after_iff past).mpr (harmless past frame off later split own)
    · exact UsbBlock.portLaw_after past event
    · rw [UsbBlock.after_snoc, UsbEvent.apply, UsbBlock.portsc_onUsbRead, if_pos own]
      exact UsbBlock.usbRegRead_port own

/-- A driver that acknowledges the completion it has seen reads it again. -/
theorem not_statusLaw_acknowledged :
    ¬StatusLaw [.raise, .read 0 0x144, .write 0x144 1, .read 0 0x144] := by
  intro law
  have shown := law.usbsts [.raise, .read 0 0x144, .write 0x144 1] 0 0x144 [] rfl (by decide)
  have raised : Raised ([.raise, .read 0 0x144] ++ [.write 0x144 1]) := shown.mp (by decide)
  rcases raised_snoc.mp raised with same | ⟨unset, -⟩
  · cases same
  · exact absurd unset (by decide)

end ZeeboLle.Linux

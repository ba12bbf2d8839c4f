import ZeeboLle.Scheduling.Runs
import ZeeboLle.System.Fabric

/-! The split views of Core 1 over the kernel window. The engine's RAM alternates between
instructions and data: a store also goes to a shadow, a data load first puts the shadow
into RAM, and the next fetch restores the image. Past the part of the window that comes
from the file both views are meant to be the RAM itself. Offsets into the window are
numbers; the hooks take guest addresses. -/
namespace ZeeboLle.System

open Paging Unicorn Scheduling

def rexHeapVaBase : Word := 0xf0000000
def rexKernelFilesz : Nat := 0x1a324
def rexHeapVaSize : Nat := 0x200000

def rexInHeap (addr : Word) : Bool := inWindow rexHeapVaBase 0x200000 addr

def rexOffset (addr : Word) : Nat := (addr - rexHeapVaBase).toNat

/-- `view` in place of `count` bytes. -/
def overlay (base : Nat → Byte) (off count : Nat) (view : Nat → Byte) : Nat → Byte := fun byte =>
  if off ≤ byte ∧ byte < off + count then view byte else base byte

/-- The bytes of an access. -/
def bytesAt (off count : Nat) (view : Nat → Byte) : List Byte :=
  (List.range count).map fun index => view (off + index)

/-- The bytes of a stored value, by offset. -/
def storedAt (off value : Nat) : Nat → Byte := fun byte =>
  BitVec.ofNat 8 (value / 0x100 ^ (byte - off))

/-- The words an access touches. -/
def touchedWords (off size : Nat) : List Nat :=
  (List.range ((off % 4 + size + 3) / 4)).map fun index => off / 4 * 4 + 4 * index

/-- Single data transfers with an immediate or a register offset from the PC. -/
def isPcRelativeLdr (insn : Word) : Bool :=
  let classe := insn &&& 0x0e000000
  let isLdr := classe = 0x04000000 || classe = 0x06000000
  let rnIsPc := (insn >>> 16) &&& 0xf = 15
  let isLoad := (insn >>> 20) &&& 1 ≠ 0
  isLdr && rnIsPc && isLoad

structure RexSplit where
  ram : Nat → Byte
  pristine : Nat → Byte
  shadow : Nat → Byte
  dirty : List Nat

namespace RexSplit

/-- The window as it is when the split is armed. -/
def armed (image : Nat → Byte) : RexSplit := ⟨image, image, image, []⟩

def insnAt (split : RexSplit) (off : Nat) : Word :=
  BitVec.ofNat 32 (leValue (bytesAt off 4 split.pristine))

/-- The read hook takes the instruction at the PC for a PC-relative load. -/
def recognises (split : RexSplit) (pc : Word) : Bool :=
  rexInHeap pc && decide (rexOffset pc + 4 ≤ rexHeapVaSize) &&
    isPcRelativeLdr (split.insnAt (rexOffset pc))

def c1HeapReadHook (split : RexSplit) (pc addr : Word) (size : Nat) : RexSplit :=
  let off := rexOffset addr
  if rexInHeap addr = false ∨ rexHeapVaSize < off + size then split
  else if split.recognises pc then
    { split with ram := overlay split.ram off size split.pristine }
  else if rexKernelFilesz ≤ off then split
  else
    { split with
      ram := overlay split.ram off size split.shadow
      dirty := split.dirty ∪ touchedWords off size }

def c1MemHook (split : RexSplit) (addr : Word) (size value : Nat) : RexSplit :=
  let off := rexOffset addr
  if rexInHeap addr ∧ off < rexKernelFilesz ∧ off + size ≤ rexHeapVaSize then
    { split with
      shadow := overlay split.shadow off size (storedAt off value)
      dirty := split.dirty ∪ touchedWords off size }
  else split

/-- The RAM with the image restored, up to the end of the window. -/
def rexRestoreCode (split : RexSplit) (ram : Nat → Byte) (off size : Nat) : Nat → Byte :=
  if rexHeapVaSize ≤ off then ram
  else overlay ram off (min size (rexHeapVaSize - off)) split.pristine

def c1CodeHook (split : RexSplit) (pc : Word) (size : Nat) : RexSplit :=
  let ram := split.dirty.foldl (fun ram word => split.rexRestoreCode ram word 4) split.ram
  { split with
    ram := if rexInHeap pc then split.rexRestoreCode ram (rexOffset pc) size else ram
    dirty := [] }

end RexSplit

/-- An access inside the window, at any alignment. -/
structure RexAccess where
  addr : Word
  width : Width
  inside : rexOffset addr + width.bytes ≤ rexHeapVaSize

def RexAccess.Covers (access : RexAccess) (byte : Nat) : Prop :=
  rexOffset access.addr ≤ byte ∧ byte < rexOffset access.addr + access.width.bytes

/-- What Core 1 does: a store, a load by the instruction at `pc`, which may address through
the PC, and the fetch of an ARM instruction. Fetches outside the window are there as well. -/
inductive RexEvent where
  | store (access : RexAccess) (value : Nat)
  | load (access : RexAccess) (pc : Word) (relative : Bool)
  | fetch (pc : Word) (aligned : pc.toNat % 4 = 0)

namespace RexSplit

/-- The hook runs before the store. -/
def store (split : RexSplit) (access : RexAccess) (value : Nat) : RexSplit :=
  let off := rexOffset access.addr
  let split := split.c1MemHook access.addr access.width.bytes value
  { split with ram := overlay split.ram off access.width.bytes (storedAt off value) }

def load (split : RexSplit) (access : RexAccess) (pc : Word) : RexSplit :=
  split.c1HeapReadHook pc access.addr access.width.bytes

/-- The bytes a load obtains. -/
def loaded (split : RexSplit) (access : RexAccess) (pc : Word) : List Byte :=
  bytesAt (rexOffset access.addr) access.width.bytes (split.load access pc).ram

def fetch (split : RexSplit) (pc : Word) : RexSplit := split.c1CodeHook pc 4

/-- The bytes of an instruction in the window. -/
def fetched (split : RexSplit) (pc : Word) : List Byte := bytesAt (rexOffset pc) 4 (split.fetch pc).ram

def step (split : RexSplit) : RexEvent → RexSplit
  | .store access value => split.store access value
  | .load access pc _ => split.load access pc
  | .fetch pc _ => split.fetch pc

def run (image : Nat → Byte) (events : List RexEvent) : RexSplit := events.foldl step (armed image)

end RexSplit

/-- The byte stored last at each offset, or the one of the image. -/
def lastStored (image : Nat → Byte) (events : List RexEvent) : Nat → Byte :=
  events.foldl (fun data event =>
    match event with
    | .store access value =>
      let off := rexOffset access.addr
      overlay data off access.width.bytes (storedAt off value)
    | _ => data) image

/-- The image below the end of the file, the data above. -/
def instructionView (image data : Nat → Byte) : Nat → Byte := fun byte =>
  if byte < rexKernelFilesz then image byte else data byte

/-- No load tells the two states apart. -/
def LoadsAlike (before after : RexSplit) : Prop :=
  ∀ access pc, after.loaded access pc = before.loaded access pc

/-- A load or a fetch sees its view of the memory and disturbs no later load. -/
def Sound (image : Nat → Byte) (before : List RexEvent) : RexEvent → Prop
  | .store _ _ => True
  | .load access pc relative =>
    (RexSplit.run image before).loaded access pc =
        bytesAt (rexOffset access.addr) access.width.bytes
          (if relative then instructionView image (lastStored image before)
            else lastStored image before) ∧
      LoadsAlike (RexSplit.run image before) ((RexSplit.run image before).load access pc)
  | .fetch pc _ =>
    (rexInHeap pc = true → (RexSplit.run image before).fetched pc =
        bytesAt (rexOffset pc) 4 (instructionView image (lastStored image before))) ∧
      LoadsAlike (RexSplit.run image before) ((RexSplit.run image before).fetch pc)

/-- The views are coherent over a whole run. -/
def ViewsCoherent (image : Nat → Byte) (events : List RexEvent) : Prop :=
  Throughout (Sound image) events

namespace RexSplit

/-- The bytes the fetch hook restores. -/
def Restores (split : RexSplit) (pc : Word) (byte : Nat) : Prop :=
  (∃ word ∈ split.dirty, word ≤ byte ∧ byte < word + 4) ∨
    rexInHeap pc = true ∧ rexOffset pc ≤ byte ∧ byte < rexOffset pc + 4

/-- What the hook of a load or a fetch puts at or above the end of the file is there
already; and a load it takes for PC-relative against the facts, or the other way round,
finds the image unchanged below. -/
def Harmless (split : RexSplit) : RexEvent → Prop
  | .store _ _ => True
  | .load access pc relative =>
    (∀ byte, rexKernelFilesz ≤ byte → access.Covers byte →
      if split.recognises pc then split.pristine byte = split.ram byte
      else rexOffset access.addr < rexKernelFilesz → split.shadow byte = split.ram byte) ∧
      (split.recognises pc = relative ∨ ∀ byte, byte < rexKernelFilesz → access.Covers byte →
        split.shadow byte = split.pristine byte)
  | .fetch pc _ => ∀ byte, rexKernelFilesz ≤ byte → byte < rexHeapVaSize →
      split.Restores pc byte → split.pristine byte = split.ram byte

end RexSplit

theorem rexInHeap_eq (addr : Word) : rexInHeap addr = decide (rexOffset addr < rexHeapVaSize) := by
  have bound := addr.isLt
  have base : rexHeapVaBase.toNat = 0xf0000000 := by decide
  have limit : (rexHeapVaBase + 0x200000).toNat = 0xf0200000 := by decide
  rw [rexInHeap, inWindow, ← Bool.decide_and, Bool.eq_iff_iff, decide_eq_true_eq, decide_eq_true_eq,
    BitVec.le_def, BitVec.lt_def, limit, rexOffset, BitVec.toNat_sub, base, rexHeapVaSize]
  omega

theorem RexAccess.inHeap (access : RexAccess) : rexInHeap access.addr = true := by
  have inside := access.inside
  have some : 0 < access.width.bytes := by cases access.width <;> decide
  rw [rexInHeap_eq, decide_eq_true_eq]
  omega

theorem rexOffset_add {byte : Nat} (inside : byte < rexHeapVaSize) :
    rexOffset (rexHeapVaBase + BitVec.ofNat 32 byte) = byte := by
  rw [rexHeapVaSize] at inside
  rw [rexOffset, add_sub_cancel_left, BitVec.toNat_ofNat]
  omega

theorem exists_byteAccess {byte : Nat} (inside : byte < rexHeapVaSize) :
    ∃ access : RexAccess, rexOffset access.addr = byte ∧ access.width = .byte := by
  have place := rexOffset_add inside
  exact ⟨⟨rexHeapVaBase + BitVec.ofNat 32 byte, .byte, by rw [place]; exact inside⟩, place, rfl⟩

/-- An instruction that starts in the window ends in it. -/
theorem rexOffset_aligned {pc : Word} (aligned : pc.toNat % 4 = 0) (inside : rexInHeap pc = true) :
    rexOffset pc + 4 ≤ rexHeapVaSize := by
  have base : rexHeapVaBase.toNat = 0xf0000000 := by decide
  have bound := pc.isLt
  rw [rexInHeap_eq, decide_eq_true_eq, rexOffset, BitVec.toNat_sub, base, rexHeapVaSize] at inside
  rw [rexOffset, BitVec.toNat_sub, base, rexHeapVaSize]
  omega

theorem bytesAt_inj {off count : Nat} {left right : Nat → Byte} :
    bytesAt off count left = bytesAt off count right ↔
      ∀ byte, off ≤ byte ∧ byte < off + count → left byte = right byte := by
  rw [bytesAt, bytesAt, List.map_inj_left]
  constructor
  · intro same byte covered
    have place : off + (byte - off) = byte := by omega
    have found := same (byte - off) (List.mem_range.mpr (by omega))
    rwa [place] at found
  · intro same index member
    have below := List.mem_range.mp member
    exact same (off + index) ⟨by omega, by omega⟩

namespace RexSplit

variable {split : RexSplit} {access : RexAccess} {pc : Word}

/-- The view a load takes. -/
def loadView (split : RexSplit) (access : RexAccess) (pc : Word) : Nat → Byte :=
  if split.recognises pc then split.pristine
  else if rexOffset access.addr < rexKernelFilesz then split.shadow
  else split.ram

theorem ram_load (split : RexSplit) (access : RexAccess) (pc : Word) (byte : Nat) :
    (access.Covers byte → (split.load access pc).ram byte = split.loadView access pc byte) ∧
      (¬ access.Covers byte → (split.load access pc).ram byte = split.ram byte) := by
  have guard : ¬ (rexInHeap access.addr = false ∨
      rexHeapVaSize < rexOffset access.addr + access.width.bytes) := by
    rw [access.inHeap]
    have inside := access.inside
    rintro (outside | outside)
    · cases outside
    · omega
  rw [load, c1HeapReadHook, loadView, if_neg guard]
  cases split.recognises pc with
  | true => exact ⟨fun covered => if_pos covered, fun outside => if_neg outside⟩
  | false =>
    by_cases above : rexKernelFilesz ≤ rexOffset access.addr
    · rw [if_neg Bool.false_ne_true, if_pos above, if_neg Bool.false_ne_true,
        if_neg (Nat.not_lt.mpr above)]
      exact ⟨fun _ => rfl, fun _ => rfl⟩
    · rw [if_neg Bool.false_ne_true, if_neg above, if_neg Bool.false_ne_true,
        if_pos (Nat.not_le.mp above)]
      exact ⟨fun covered => if_pos covered, fun outside => if_neg outside⟩

theorem load_copies (split : RexSplit) (access : RexAccess) (pc : Word) :
    (split.load access pc).pristine = split.pristine ∧
      (split.load access pc).shadow = split.shadow := by
  rw [load, c1HeapReadHook]
  split
  · exact ⟨rfl, rfl⟩
  · split
    · exact ⟨rfl, rfl⟩
    · split
      · exact ⟨rfl, rfl⟩
      · exact ⟨rfl, rfl⟩

theorem loaded_eq (split : RexSplit) (access : RexAccess) (pc : Word) : split.loaded access pc =
    bytesAt (rexOffset access.addr) access.width.bytes (split.loadView access pc) :=
  bytesAt_inj.mpr fun byte covered => (split.ram_load access pc byte).1 covered

theorem rexRestoreCode_apply (split : RexSplit) (ram : Nat → Byte) (off size byte : Nat) :
    split.rexRestoreCode ram off size byte =
      if byte < rexHeapVaSize ∧ off ≤ byte ∧ byte < off + size then split.pristine byte
      else ram byte := by
  unfold rexRestoreCode overlay
  split
  · rw [if_neg (by omega)]
  · dsimp only
    by_cases here : byte < rexHeapVaSize ∧ off ≤ byte ∧ byte < off + size
    · rw [if_pos here, if_pos (by omega)]
    · rw [if_neg here, if_neg (by omega)]

theorem restoreAll_apply (split : RexSplit) (words : List Nat) (ram : Nat → Byte) (byte : Nat) :
    words.foldl (fun ram word => split.rexRestoreCode ram word 4) ram byte =
      if byte < rexHeapVaSize ∧ ∃ word ∈ words, word ≤ byte ∧ byte < word + 4 then
        split.pristine byte
      else ram byte := by
  induction words generalizing ram with
  | nil => simp
  | cons word words ih =>
    rw [List.foldl_cons, ih, rexRestoreCode_apply]
    by_cases inside : byte < rexHeapVaSize
    · by_cases later : ∃ word ∈ words, word ≤ byte ∧ byte < word + 4
      · simp [inside, later]
      · by_cases now : word ≤ byte ∧ byte < word + 4
        · simp [inside, now]
        · simp [inside, later, now]
    · simp [inside]

theorem ram_fetch (split : RexSplit) (pc : Word) (byte : Nat) :
    (byte < rexHeapVaSize ∧ split.Restores pc byte → (split.fetch pc).ram byte = split.pristine byte) ∧
      (¬ (byte < rexHeapVaSize ∧ split.Restores pc byte) →
        (split.fetch pc).ram byte = split.ram byte) := by
  rw [fetch, c1CodeHook, Restores]
  dsimp only
  by_cases here : rexInHeap pc = true
  · rw [if_pos here, rexRestoreCode_apply, restoreAll_apply]
    constructor
    · rintro ⟨inside, dirty | ⟨_, now⟩⟩
      · rw [if_pos (And.intro inside dirty), ite_self]
      · rw [if_pos ⟨inside, now⟩]
    · intro kept
      rw [if_neg fun both => kept ⟨both.1, .inr ⟨here, both.2⟩⟩,
        if_neg fun both => kept ⟨both.1, .inl both.2⟩]
  · rw [if_neg here, restoreAll_apply]
    constructor
    · rintro ⟨inside, dirty | ⟨now, _⟩⟩
      · rw [if_pos ⟨inside, dirty⟩]
      · exact absurd now here
    · intro kept
      rw [if_neg fun both => kept ⟨both.1, .inl both.2⟩]

theorem recognises_congr {before after : RexSplit} (same : after.pristine = before.pristine)
    (pc : Word) : after.recognises pc = before.recognises pc := by
  rw [recognises, recognises, insnAt, insnAt, same]

/-- Loads tell two states apart only by the RAM at or above the end of the file. -/
theorem loadsAlike_iff {before after : RexSplit} (pristine : after.pristine = before.pristine)
    (shadow : after.shadow = before.shadow) : LoadsAlike before after ↔
      ∀ byte, rexKernelFilesz ≤ byte → byte < rexHeapVaSize → after.ram byte = before.ram byte := by
  constructor
  · intro same byte above inside
    -- a byte load by an instruction outside the window
    obtain ⟨access, here, one⟩ := exists_byteAccess inside
    have found := same access 0
    have outside : ∀ split : RexSplit, split.recognises 0 = false := fun split => by
      rw [recognises, show rexInHeap 0 = false by decide]
      rfl
    rw [loaded_eq, loaded_eq, bytesAt_inj, loadView, loadView, outside, outside, here, one,
      if_neg Bool.false_ne_true, if_neg Bool.false_ne_true, if_neg (Nat.not_lt.mpr above),
      if_neg (Nat.not_lt.mpr above)] at found
    exact found byte ⟨Nat.le_refl byte, Nat.lt_succ_self byte⟩
  · intro same access pc
    have inside := access.inside
    rw [loaded_eq, loaded_eq, bytesAt_inj, loadView, loadView, recognises_congr pristine, pristine,
      shadow]
    intro byte covered
    split
    · rfl
    · split
      · rfl
      · exact same byte (by omega) (by omega)

theorem loadView_below {byte : Nat} (below : byte < rexKernelFilesz) (covered : access.Covers byte) :
    split.loadView access pc byte =
      if split.recognises pc then split.pristine byte else split.shadow byte := by
  have starts : rexOffset access.addr < rexKernelFilesz := Nat.lt_of_le_of_lt covered.1 below
  rw [loadView, if_pos starts, ite_apply]

theorem loadView_above_iff {byte : Nat} :
    split.loadView access pc byte = split.ram byte ↔
      if split.recognises pc then split.pristine byte = split.ram byte
      else rexOffset access.addr < rexKernelFilesz → split.shadow byte = split.ram byte := by
  rw [loadView]
  split
  · exact Iff.rfl
  · split
    · rename_i starts
      exact ⟨fun same _ => same, fun same => same starts⟩
    · rename_i starts
      exact ⟨fun _ below => absurd below starts, fun _ => rfl⟩

theorem loadsAlike_load_iff : LoadsAlike split (split.load access pc) ↔
    ∀ byte, rexKernelFilesz ≤ byte → access.Covers byte →
      if split.recognises pc then split.pristine byte = split.ram byte
      else rexOffset access.addr < rexKernelFilesz → split.shadow byte = split.ram byte := by
  obtain ⟨pristine, shadow⟩ := split.load_copies access pc
  rw [loadsAlike_iff pristine shadow]
  constructor
  · intro same byte above covered
    have inside := access.inside
    have ends := covered.2
    rw [← loadView_above_iff, ← (split.ram_load access pc byte).1 covered]
    exact same byte above (by omega)
  · intro same byte above inside
    by_cases covered : access.Covers byte
    · rw [(split.ram_load access pc byte).1 covered]
      exact loadView_above_iff.mpr (same byte above covered)
    · rw [(split.ram_load access pc byte).2 covered]

theorem loadsAlike_fetch_iff : LoadsAlike split (split.fetch pc) ↔
    ∀ byte, rexKernelFilesz ≤ byte → byte < rexHeapVaSize →
      split.Restores pc byte → split.pristine byte = split.ram byte := by
  have copies : (split.fetch pc).pristine = split.pristine ∧ (split.fetch pc).shadow = split.shadow :=
    ⟨rfl, rfl⟩
  rw [loadsAlike_iff copies.1 copies.2]
  constructor
  · intro same byte above inside restores
    rw [← same byte above inside, (split.ram_fetch pc byte).1 ⟨inside, restores⟩]
  · intro harmless byte above inside
    by_cases restores : split.Restores pc byte
    · rw [(split.ram_fetch pc byte).1 ⟨inside, restores⟩, harmless byte above inside restores]
    · rw [(split.ram_fetch pc byte).2 fun both => restores both.2]

end RexSplit

open RexSplit

theorem RexSplit.run_snoc (image : Nat → Byte) (events : List RexEvent) (event : RexEvent) :
    run image (events ++ [event]) = (run image events).step event := by
  simp [run]

/-- The shadow holds the data below the end of the file, the RAM above it. -/
structure Tracked (image data : Nat → Byte) (split : RexSplit) : Prop where
  pristine : split.pristine = image
  shadow : ∀ byte, byte < rexKernelFilesz → split.shadow byte = data byte
  ram : ∀ byte, rexKernelFilesz ≤ byte → split.ram byte = data byte

namespace Tracked

variable {image : Nat → Byte} {before : List RexEvent} {access : RexAccess} {pc : Word}

/-- Below the end of the file a load sees its view unless the hook mistakes its kind. -/
theorem seen_below_iff {data : Nat → Byte} {split : RexSplit} (tracked : Tracked image data split)
    (relative : Bool) {byte : Nat} (below : byte < rexKernelFilesz) (covered : access.Covers byte) :
    split.loadView access pc byte = (if relative then instructionView image data else data) byte ↔
      split.recognises pc = relative ∨ split.shadow byte = split.pristine byte := by
  have code : instructionView image data byte = split.pristine byte := by
    rw [instructionView, if_pos below, tracked.pristine]
  rw [loadView_below below covered, ite_apply, code, ← tracked.shadow byte below]
  cases split.recognises pc with
  | true =>
    cases relative with
    | true => simp
    | false => simpa using eq_comm
  | false =>
    cases relative with
    | true => simp
    | false => simp

/-- Above it both views are the RAM. -/
theorem views_above {data : Nat → Byte} {split : RexSplit} (tracked : Tracked image data split)
    (relative : Bool) {byte : Nat} (above : rexKernelFilesz ≤ byte) :
    (if relative then instructionView image data else data) byte = split.ram byte := by
  rw [tracked.ram byte above, ite_apply, instructionView, if_neg (Nat.not_lt.mpr above), ite_self]

theorem load_iff (tracked : Tracked image (lastStored image before) (run image before))
    (relative : Bool) :
    Sound image before (.load access pc relative) ↔
      (run image before).Harmless (.load access pc relative) := by
  rw [Sound, Harmless, loadsAlike_load_iff, and_comm]
  refine and_congr_right fun harmless => ?_
  rw [loaded_eq, bytesAt_inj]
  constructor
  · intro sees
    by_cases same : (run image before).recognises pc = relative
    · exact .inl same
    · refine .inr fun byte below covered => ?_
      exact ((tracked.seen_below_iff relative below covered).mp (sees byte covered)).resolve_left same
  · intro agrees byte covered
    by_cases below : byte < rexKernelFilesz
    · refine (tracked.seen_below_iff relative below covered).mpr ?_
      exact agrees.imp_right fun equal => equal byte below covered
    · have above := Nat.not_lt.mp below
      rw [tracked.views_above relative above]
      exact loadView_above_iff.mpr (harmless byte above covered)

theorem fetch_iff (tracked : Tracked image (lastStored image before) (run image before))
    (aligned : pc.toNat % 4 = 0) :
    Sound image before (.fetch pc aligned) ↔ (run image before).Harmless (.fetch pc aligned) := by
  refine (and_congr_right_iff.mpr fun _ => loadsAlike_fetch_iff).trans (and_iff_right_of_imp ?_)
  intro harmless here
  have ends := rexOffset_aligned aligned here
  refine bytesAt_inj.mpr fun byte covered => ?_
  have inside : byte < rexHeapVaSize := by omega
  have restores : (run image before).Restores pc byte := .inr ⟨here, covered⟩
  rw [((run image before).ram_fetch pc byte).1 ⟨inside, restores⟩, instructionView]
  split
  · rw [tracked.pristine]
  · rename_i above
    rw [harmless byte (Nat.not_lt.mp above) inside restores, tracked.ram byte (Nat.not_lt.mp above)]

theorem sound_iff (tracked : Tracked image (lastStored image before) (run image before))
    (event : RexEvent) : Sound image before event ↔ (run image before).Harmless event := by
  cases event with
  | store access value => exact Iff.rfl
  | load access pc relative => exact tracked.load_iff relative
  | fetch pc aligned => exact tracked.fetch_iff aligned

theorem store {data : Nat → Byte} {split : RexSplit} (tracked : Tracked image data split)
    (access : RexAccess) (value : Nat) :
    Tracked image (overlay data (rexOffset access.addr) access.width.bytes
      (storedAt (rexOffset access.addr) value)) (split.store access value) := by
  have inside := access.inside
  by_cases below : rexOffset access.addr < rexKernelFilesz
  · have hook : split.c1MemHook access.addr access.width.bytes value =
        { split with
          shadow := overlay split.shadow (rexOffset access.addr) access.width.bytes
            (storedAt (rexOffset access.addr) value)
          dirty := split.dirty ∪ touchedWords (rexOffset access.addr) access.width.bytes } :=
      if_pos ⟨access.inHeap, below, inside⟩
    rw [RexSplit.store, hook]
    refine ⟨tracked.pristine, fun byte low => ?_, fun byte high => ?_⟩
    · simp only [overlay, tracked.shadow byte low]
    · simp only [overlay, tracked.ram byte high]
  · have hook : split.c1MemHook access.addr access.width.bytes value = split :=
      if_neg fun guard => below guard.2.1
    rw [RexSplit.store, hook]
    refine ⟨tracked.pristine, fun byte low => ?_, fun byte high => ?_⟩
    · rw [overlay, if_neg (by omega)]
      exact tracked.shadow byte low
    · simp only [overlay, tracked.ram byte high]

/-- A step that does no harm keeps the data where it is. -/
theorem step {data : Nat → Byte} {split : RexSplit} (tracked : Tracked image data split)
    {event : RexEvent} (harmless : split.Harmless event) :
    Tracked image (lastStored data [event]) (split.step event) := by
  cases event with
  | store access value => exact tracked.store access value
  | load access pc relative =>
    obtain ⟨pristine, shadow⟩ := split.load_copies access pc
    refine ⟨pristine.trans tracked.pristine, fun byte low => ?_, fun byte high => ?_⟩
    · exact (congrFun shadow byte).trans (tracked.shadow byte low)
    · refine Eq.trans ?_ (tracked.ram byte high)
      by_cases covered : access.Covers byte
      · exact ((split.ram_load access pc byte).1 covered).trans
          (loadView_above_iff.mpr (harmless.1 byte high covered))
      · exact (split.ram_load access pc byte).2 covered
  | fetch pc aligned =>
    refine ⟨tracked.pristine, tracked.shadow, fun byte high => ?_⟩
    refine Eq.trans ?_ (tracked.ram byte high)
    by_cases restored : byte < rexHeapVaSize ∧ split.Restores pc byte
    · exact ((split.ram_fetch pc byte).1 restored).trans
        (harmless byte high restored.1 restored.2)
    · exact (split.ram_fetch pc byte).2 restored

theorem run {events : List RexEvent}
    (harmless : Throughout (fun before event => (run image before).Harmless event) events) :
    Tracked image (lastStored image events) (RexSplit.run image events) := by
  induction events using List.reverseRecOn with
  | nil => exact ⟨rfl, fun _ _ => rfl, fun _ _ => rfl⟩
  | append_singleton events event ih =>
    obtain ⟨early, last⟩ := throughout_snoc.mp harmless
    rw [run_snoc, lastStored, List.foldl_append]
    exact (ih early).step last

end Tracked

/-- The views are coherent exactly in the runs whose loads and fetches do no harm: the fetch
hook and the branch for literals have no guard at the end of the file, and an access across
it is treated as if it lay below. -/
theorem viewsCoherent_iff (image : Nat → Byte) (events : List RexEvent) :
    ViewsCoherent image events ↔
      Throughout (fun before event => (run image before).Harmless event) events := by
  induction events using List.reverseRecOn with
  | nil => exact iff_of_true throughout_nil throughout_nil
  | append_singleton events event ih =>
    rw [ViewsCoherent, throughout_snoc, throughout_snoc]
    refine (and_congr_left' ih).trans (and_congr_right fun harmless => ?_)
    exact (Tracked.run harmless).sound_iff event

/-- An instruction stored past the end of the file. -/
def storeInstruction : RexEvent := .store ⟨0xf0020000, .word, by decide⟩ 0xe1a00000

/-- Its fetch finds the image. -/
theorem not_viewsCoherent_pastFile :
    ¬ ViewsCoherent (fun _ => 0) [storeInstruction, .fetch 0xf0020000 (by decide)] := by
  intro coherent
  have sound := coherent [storeInstruction] (.fetch 0xf0020000 (by decide)) [] rfl
  have seen := sound.1 (by decide)
  revert seen
  decide +kernel

end ZeeboLle.System

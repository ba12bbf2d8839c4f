import ZeeboLle.Boot.ImageLoad
import ZeeboLle.Paging.KeyedList
import ZeeboLle.System.HostReturn

/-! The graphics bridge. Calls of the guest through its two tables of graphics functions go to the
host's hook and return to the caller. A table is bound slot by slot, as the memory is at that
moment; a function that several slots name belongs to the last of them. A table that is found
through an object of the guest is bound only if every pointer in it is code of the image. -/
namespace ZeeboLle.System

open Boot Paging Unicorn

/-- A slot of the IGL or of the IEGL table. -/
structure Target where
  isIgl : Bool
  slot : Nat

def slotsOf (isIgl : Bool) : Nat := if isIgl then 80 else 28

structure IglGuestBridge where
  fnMap : List (Word × Target)
  codeRanges : List (Word × Word)
  iglVtableVa : Word
  ieglVtableVa : Word
  guestRunning : Bool

/-- A call as the hook gets it; arguments behind the fourth are read from the stack when they are
asked for, and the guest's memory may be read. -/
structure HookCall where
  target : Target
  arg : Nat → Word
  mem : Memory

namespace IglGuestBridge

def start : IglGuestBridge := ⟨[], [], 0, 0, false⟩

/-- A function's address without the Thumb bit. -/
def entryOf (va : Word) : Word := va &&& ~~~1#32

def isCodeVa (codeRanges : List (Word × Word)) (va : Word) : Bool :=
  codeRanges.any fun range => range.1 ≤ entryOf va && entryOf va < range.2

/-- The pointer in a slot of a table. -/
def slotPtr (mem : Memory) (vtableVa : Word) (s : Nat) : Option Word :=
  mem.ucMemRead32 (vtableVa + BitVec.ofNat 32 s * 4).toNat

/-- One round of the loop of `validateVtable`, which counts the pointers to code and all pointers. -/
def validateSlot (codeRanges : List (Word × Word)) (mem : Memory) (vtableVa : Word)
    (counts : Nat × Nat) (s : Nat) : Option (Nat × Nat) := do
  let fn ← slotPtr mem vtableVa s
  if fn = 0 then some counts
  else if isCodeVa codeRanges fn then some (counts.1 + 1, counts.2 + 1)
  else none

/-- The number of pointers to code, or zero for what is no table. -/
def validateVtable (bridge : IglGuestBridge) (mem : Memory) (vtableVa : Word) (slots : Nat) : Nat :=
  if vtableVa = 0 ∨ bridge.codeRanges = [] then 0
  else
    match (List.range slots).foldlM (validateSlot bridge.codeRanges mem vtableVa) (0, 0) with
    | none => 0
    | some (code, nonnull) =>
      if nonnull = 0 then 0
      -- `code / nonnull < 0.75`
      else if 4 * code < 3 * nonnull then 0
      else code

/-- One round of the loop of `bindVtable`. -/
def bindSlot (mem : Memory) (vtableVa : Word) (isIgl : Bool) (fnMap : List (Word × Target)) (s : Nat) :
    List (Word × Target) :=
  match slotPtr mem vtableVa s with
  | none => fnMap
  | some fn => if fn = 0 then fnMap else upsert Prod.fst (entryOf fn, ⟨isIgl, s⟩) fnMap

def bindVtable (bridge : IglGuestBridge) (mem : Memory) (vtableVa : Word) (slots : Nat) (isIgl : Bool) :
    IglGuestBridge :=
  if vtableVa = 0 then bridge
  else { bridge with fnMap := (List.range slots).foldl (bindSlot mem vtableVa isIgl) bridge.fnMap }

def resolveFromObject (bridge : IglGuestBridge) (mem : Memory) (objVa : Word) (isIgl : Bool) :
    Bool × IglGuestBridge :=
  if objVa = 0 then (false, bridge)
  else
    match mem.ucMemRead32 objVa.toNat with
    | none => (false, bridge)
    | some vtbl =>
      if vtbl = 0 then (false, bridge)
      else if bridge.validateVtable mem vtbl (slotsOf isIgl) = 0 then (false, bridge)
      else
        let bridge := bridge.bindVtable mem vtbl (slotsOf isIgl) isIgl
        (true, if isIgl then { bridge with iglVtableVa := vtbl } else { bridge with ieglVtableVa := vtbl })

/-- The end of `load_apps`: the executable segments of the image, if there are any. -/
def loadApps (bridge : IglGuestBridge) (d : List Byte) : IglGuestBridge :=
  match Image.loadApps d with
  | some (some loaded) =>
    if loaded.execRanges = [] then bridge else { bridge with codeRanges := loaded.execRanges }
  | _ => bridge

/-- An argument of the call the guest is making. -/
def argOf (regs : RegFile) (mem : Memory) : Nat → Word
  | 0 => regs.r 0
  | 1 => regs.r 1
  | 2 => regs.r 2
  | 3 => regs.r 3
  | n + 4 => (mem.ucMemRead32 (regs.readSp + BitVec.ofNat 32 n * 4).toNat).getD 0

/-- The call that starts at an instruction. -/
def onCode (bridge : IglGuestBridge) (mem : Memory) (regs : RegFile) (pc : Word) : Option HookCall :=
  if bridge.guestRunning then
    (bridge.fnMap.find? fun bound => bound.1 = entryOf pc).map fun bound => ⟨bound.2, argOf regs mem, mem⟩
  else none

/-- The bridge's place in the code hook of Core 0: the registers with which the caller goes on. The
hook takes a call, and may give it a result, or leaves it to the guest. -/
def codeHook (hook : HookCall → Option (Option Word)) (bridge : IglGuestBridge) (mem : Memory)
    (regs : RegFile) (pc : Word) : Option RegFile := do
  let call ← bridge.onCode mem regs pc
  let ret ← hook call
  return (Interception.iglBridge ret).hook regs

end IglGuestBridge

/-- What is done to the bridge, each time with the guest's memory as it then is. -/
inductive BridgeEvent where
  | loadApps (d : List Byte)
  | bindVtable (mem : Memory) (vtableVa : Word) (isIgl : Bool)
  | resolveFromObject (mem : Memory) (objVa : Word) (isIgl : Bool)
  | setGuestRunning (on : Bool)

namespace IglGuestBridge

def step (bridge : IglGuestBridge) : BridgeEvent → IglGuestBridge
  | .loadApps d => bridge.loadApps d
  | .bindVtable mem vtableVa isIgl => bridge.bindVtable mem vtableVa (slotsOf isIgl) isIgl
  | .resolveFromObject mem objVa isIgl => (bridge.resolveFromObject mem objVa isIgl).2
  | .setGuestRunning on => { bridge with guestRunning := on }

def after (events : List BridgeEvent) : IglGuestBridge := events.foldl step start

/-- The functions a table names, slot by slot. -/
def named (mem : Memory) (vtableVa : Word) (isIgl : Bool) : List (Word × Target) :=
  (List.range (slotsOf isIgl)).filterMap fun s => (slotPtr mem vtableVa s).bind fun fn =>
    if fn = 0 then none else some (entryOf fn, ⟨isIgl, s⟩)

/-- A table: every slot can be read and is null or points to code, and not all are null. -/
def Accepts (codeRanges : List (Word × Word)) (mem : Memory) (vtableVa : Word) (slots : Nat) : Prop :=
  vtableVa ≠ 0 ∧ codeRanges ≠ [] ∧
    (∀ s < slots, (slotPtr mem vtableVa s).any (fun fn => fn = 0 || isCodeVa codeRanges fn) = true) ∧
      ∃ s < slots, (slotPtr mem vtableVa s).any (fun fn => fn ≠ 0) = true

instance (codeRanges : List (Word × Word)) (mem : Memory) (vtableVa : Word) (slots : Nat) :
    Decidable (Accepts codeRanges mem vtableVa slots) := inferInstanceAs (Decidable (_ ∧ _ ∧ _ ∧ _))

/-- The table an object of the guest has, where it is one. -/
def tableOf (codeRanges : List (Word × Word)) (mem : Memory) (objVa : Word) (isIgl : Bool) : Option Word :=
  if objVa = 0 then none
  else (mem.ucMemRead32 objVa.toNat).filter fun vtbl => Accepts codeRanges mem vtbl (slotsOf isIgl)

/-- The executable ranges in force after an event. -/
def rangesAfter (codeRanges : List (Word × Word)) : BridgeEvent → List (Word × Word)
  | .loadApps d =>
    match Image.loadApps d with
    | some (some loaded) => if loaded.execRanges = [] then codeRanges else loaded.execRanges
    | _ => codeRanges
  | _ => codeRanges

/-- The functions an event binds. -/
def bindings (codeRanges : List (Word × Word)) : BridgeEvent → List (Word × Target)
  | .bindVtable mem vtableVa isIgl => if vtableVa = 0 then [] else named mem vtableVa isIgl
  | .resolveFromObject mem objVa isIgl =>
    match tableOf codeRanges mem objVa isIgl with
    | some vtbl => named mem vtbl isIgl
    | none => []
  | _ => []

/-- All the functions some events bind, in order. -/
def recorded (codeRanges : List (Word × Word)) : List BridgeEvent → List (Word × Target)
  | [] => []
  | event :: rest => bindings codeRanges event ++ recorded (rangesAfter codeRanges event) rest

def running? : BridgeEvent → Option Bool
  | .setGuestRunning on => some on
  | _ => none

/-- The guest was last said to be running. -/
def running (events : List BridgeEvent) : Bool := (events.filterMap running?).getLast?.getD false

/-- An address inside an executable segment of an image. -/
def ExecutableAt (d : List Byte) (va : Word) : Prop :=
  ∃ phoff phent phnum i header flg, Image.rd32 d 28 = some phoff ∧ Image.rd16 d 42 = some phent ∧
    Image.rd16 d 44 = some phnum ∧ i < phnum.toNat ∧
      Image.rd32 d (Image.headerOffset phoff phent i) = some Image.ptLoad ∧
        Image.LoadHeader.read d (Image.headerOffset phoff phent i) = some header ∧
          Image.rd32 d (Image.headerOffset phoff phent i + 24) = some flg ∧ flg &&& 1 ≠ 0 ∧
            header.va ≤ va ∧ va < header.va + header.nmem

def isBind : BridgeEvent → Bool
  | .bindVtable _ _ _ => true
  | _ => false

/-- While the guest runs, the hook takes exactly the calls of bound functions, each for the last slot
that named the function and with the arguments of the call, and returns to the caller. An object is
resolved exactly if it has a table. As long as tables come from objects only, every call that is
taken is at an executable address of a loaded image. -/
structure BridgeLaw (events : List BridgeEvent) : Prop where
  calls : ∀ hook mem regs pc, codeHook hook (after events) mem regs pc =
    if running events then
      (latest (fun bound => bound.1 = entryOf pc) (recorded [] events)).bind fun bound =>
        (hook ⟨bound.2, argOf regs mem, mem⟩).map fun ret => (Interception.iglBridge ret).hook regs
    else none
  resolves : ∀ past mem objVa isIgl later, events = past ++ .resolveFromObject mem objVa isIgl :: later →
    ((after past).resolveFromObject mem objVa isIgl).1 =
      (tableOf (past.foldl rangesAfter []) mem objVa isIgl).isSome
  code : (∀ event ∈ events, isBind event = false) → ∀ mem regs pc,
    (after events).onCode mem regs pc ≠ none →
      ∃ d, .loadApps d ∈ events ∧ ExecutableAt d (entryOf pc)

variable {codeRanges : List (Word × Word)} {mem : Memory} {vtableVa : Word} {slots : Nat}
  {bridge : IglGuestBridge} {isIgl : Bool} {objVa : Word}

/-- The loop over the slots finds as many pointers to code as pointers, or something else. -/
theorem foldlM_validateSlot (codeRanges : List (Word × Word)) (mem : Memory) (vtableVa : Word)
    (slots : Nat) :
    ((List.range slots).foldlM (validateSlot codeRanges mem vtableVa) (0, 0) = none ∧
      ¬∀ s < slots, (slotPtr mem vtableVa s).any (fun fn => fn = 0 || isCodeVa codeRanges fn) = true) ∨
    ∃ count, (List.range slots).foldlM (validateSlot codeRanges mem vtableVa) (0, 0) =
        some (count, count) ∧
      (∀ s < slots, (slotPtr mem vtableVa s).any (fun fn => fn = 0 || isCodeVa codeRanges fn) = true) ∧
        (count ≠ 0 ↔ ∃ s < slots, (slotPtr mem vtableVa s).any (fun fn => fn ≠ 0) = true) := by
  induction slots with
  | zero => exact .inr ⟨0, rfl, by simp, by simp⟩
  | succ slots ih =>
    rw [List.range_succ, List.foldlM_append]
    rcases ih with ⟨stopped, bad⟩ | ⟨count, counted, good, some⟩
    · rw [stopped]
      exact .inl ⟨rfl, fun every => bad fun s below => every s (by omega)⟩
    · rw [counted]
      simp only [Option.bind_eq_bind, Option.bind_some, List.foldlM_cons, List.foldlM_nil,
        Nat.forall_lt_succ_right, Nat.exists_lt_succ_right, validateSlot]
      cases read : slotPtr mem vtableVa slots with
      | none => exact .inl ⟨rfl, by simp⟩
      | some fn =>
        simp only [Option.bind_some, Option.any_some]
        by_cases null : fn = 0
        · exact .inr ⟨count, by simp [null], ⟨good, by simp [null]⟩, by simp [null, some]⟩
        · have nonnull : ¬fn = 0#32 := null
          rw [if_neg null]
          cases code : isCodeVa codeRanges fn with
          | true => exact .inr ⟨count + 1, by simp, ⟨good, by simp⟩, by simp [nonnull]⟩
          | false => exact .inl ⟨by simp, by simp [nonnull]⟩

/-- The share of code never decides: a pointer to something else has rejected the table before. -/
theorem validateVtable_ne_zero_iff (bridge : IglGuestBridge) (mem : Memory) (vtableVa : Word)
    (slots : Nat) :
    bridge.validateVtable mem vtableVa slots ≠ 0 ↔ Accepts bridge.codeRanges mem vtableVa slots := by
  unfold validateVtable Accepts
  split
  · next missing => exact iff_of_false (by simp) (by tauto)
  · next known =>
    rcases foldlM_validateSlot bridge.codeRanges mem vtableVa slots with
      ⟨stopped, bad⟩ | ⟨count, counted, good, some⟩
    · rw [stopped]
      exact iff_of_false (by simp) (by tauto)
    · rw [counted]
      have value : (if count = 0 then 0 else if 4 * count < 3 * count then 0 else count) = count := by
        split_ifs <;> omega
      dsimp only
      rw [value, some]
      tauto

theorem foldl_bindSlot (mem : Memory) (vtableVa : Word) (isIgl : Bool) (fnMap : List (Word × Target)) :
    (List.range (slotsOf isIgl)).foldl (bindSlot mem vtableVa isIgl) fnMap =
      upsertAll Prod.fst fnMap (named mem vtableVa isIgl) := by
  rw [upsertAll, named, List.foldl_filterMap]
  congr 1
  funext fnMap s
  unfold bindSlot
  cases slotPtr mem vtableVa s with
  | none => rfl
  | some fn =>
    by_cases null : fn = 0
    · simp [null]
    · have nonnull : ¬fn = 0#32 := null
      simp [nonnull]

/-- What resolving an object does is settled by the table the object has. -/
theorem resolveFromObject_eq (bridge : IglGuestBridge) (mem : Memory) (objVa : Word) (isIgl : Bool) :
    (bridge.resolveFromObject mem objVa isIgl).1 =
        (tableOf bridge.codeRanges mem objVa isIgl).isSome ∧
      (bridge.resolveFromObject mem objVa isIgl).2.fnMap =
        upsertAll Prod.fst bridge.fnMap
          (bindings bridge.codeRanges (.resolveFromObject mem objVa isIgl)) ∧
      (bridge.resolveFromObject mem objVa isIgl).2.codeRanges = bridge.codeRanges ∧
      (bridge.resolveFromObject mem objVa isIgl).2.guestRunning = bridge.guestRunning := by
  have rejected (none : tableOf bridge.codeRanges mem objVa isIgl = none)
      (same : bridge.resolveFromObject mem objVa isIgl = (false, bridge)) :
      (bridge.resolveFromObject mem objVa isIgl).1 =
          (tableOf bridge.codeRanges mem objVa isIgl).isSome ∧
        (bridge.resolveFromObject mem objVa isIgl).2.fnMap =
          upsertAll Prod.fst bridge.fnMap
            (bindings bridge.codeRanges (.resolveFromObject mem objVa isIgl)) ∧
        (bridge.resolveFromObject mem objVa isIgl).2.codeRanges = bridge.codeRanges ∧
        (bridge.resolveFromObject mem objVa isIgl).2.guestRunning = bridge.guestRunning := by
    rw [same, bindings, none]
    exact ⟨rfl, rfl, rfl, rfl⟩
  by_cases absent : objVa = 0
  · exact rejected (if_pos absent) (if_pos absent)
  cases read : mem.ucMemRead32 objVa.toNat with
  | none =>
    refine rejected ?_ ?_
    · rw [tableOf, if_neg absent, read]
      rfl
    · rw [resolveFromObject, if_neg absent, read]
  | some vtbl =>
    have table : tableOf bridge.codeRanges mem objVa isIgl =
        if Accepts bridge.codeRanges mem vtbl (slotsOf isIgl) then some vtbl else none := by
      rw [tableOf, if_neg absent, read, Option.filter_some]
      simp only [decide_eq_true_eq]
    have valid := bridge.validateVtable_ne_zero_iff mem vtbl (slotsOf isIgl)
    by_cases accepted : Accepts bridge.codeRanges mem vtbl (slotsOf isIgl)
    · have resolved : bridge.resolveFromObject mem objVa isIgl =
          (true, if isIgl then { bridge.bindVtable mem vtbl (slotsOf isIgl) isIgl with iglVtableVa := vtbl }
            else { bridge.bindVtable mem vtbl (slotsOf isIgl) isIgl with ieglVtableVa := vtbl }) := by
        rw [resolveFromObject, if_neg absent, read]
        dsimp only
        rw [if_neg accepted.1, if_neg (valid.mpr accepted)]
      have bound : bridge.bindVtable mem vtbl (slotsOf isIgl) isIgl =
          { bridge with fnMap := upsertAll Prod.fst bridge.fnMap (named mem vtbl isIgl) } := by
        rw [bindVtable, if_neg accepted.1, foldl_bindSlot]
      rw [resolved, bound, bindings, table, if_pos accepted]
      cases isIgl with
      | true => exact ⟨rfl, rfl, rfl, rfl⟩
      | false => exact ⟨rfl, rfl, rfl, rfl⟩
    · refine rejected (by rw [table, if_neg accepted]) ?_
      rw [resolveFromObject, if_neg absent, read]
      dsimp only
      split
      · rfl
      · rw [if_pos (of_not_not (mt valid.mp accepted))]

/-- One event binds its functions and sets its ranges. -/
theorem step_eq (bridge : IglGuestBridge) (event : BridgeEvent) :
    (bridge.step event).fnMap = upsertAll Prod.fst bridge.fnMap (bindings bridge.codeRanges event) ∧
      (bridge.step event).codeRanges = rangesAfter bridge.codeRanges event ∧
        (bridge.step event).guestRunning = (running? event).getD bridge.guestRunning := by
  cases event with
  | loadApps d =>
    simp only [step, loadApps, rangesAfter]
    split
    · split
      · exact ⟨rfl, rfl, rfl⟩
      · exact ⟨rfl, rfl, rfl⟩
    · exact ⟨rfl, rfl, rfl⟩
  | bindVtable mem vtableVa isIgl =>
    simp only [step, bindVtable, bindings, rangesAfter]
    split
    · exact ⟨rfl, rfl, rfl⟩
    · exact ⟨foldl_bindSlot mem vtableVa isIgl bridge.fnMap, rfl, rfl⟩
  | resolveFromObject mem objVa isIgl =>
    obtain ⟨_, bound, ranges, on⟩ := bridge.resolveFromObject_eq mem objVa isIgl
    exact ⟨bound, ranges, on⟩
  | setGuestRunning on => exact ⟨rfl, rfl, rfl⟩

theorem foldl_step (events : List BridgeEvent) (bridge : IglGuestBridge) :
    (events.foldl step bridge).fnMap =
        upsertAll Prod.fst bridge.fnMap (recorded bridge.codeRanges events) ∧
      (events.foldl step bridge).codeRanges = events.foldl rangesAfter bridge.codeRanges ∧
        (events.foldl step bridge).guestRunning =
          (events.filterMap running?).getLast?.getD bridge.guestRunning := by
  induction events generalizing bridge with
  | nil => exact ⟨rfl, rfl, rfl⟩
  | cons event events ih =>
    obtain ⟨bound, ranges, on⟩ := bridge.step_eq event
    obtain ⟨allBound, lastRanges, lastOn⟩ := ih (bridge.step event)
    rw [List.foldl_cons, allBound, lastRanges, lastOn, bound, ranges, on, recorded, List.foldl_cons]
    refine ⟨?_, rfl, ?_⟩
    · rw [upsertAll, upsertAll, upsertAll, List.foldl_append]
    · rw [List.filterMap_cons]
      cases running? event with
      | none => rfl
      | some on => cases found : (events.filterMap running?).getLast? <;> simp [List.getLast?_cons, found]

theorem onCode_after (events : List BridgeEvent) (mem : Memory) (regs : RegFile) (pc : Word) :
    (after events).onCode mem regs pc =
      if running events then
        (latest (fun bound => bound.1 = entryOf pc) (recorded [] events)).map
          fun bound => ⟨bound.2, argOf regs mem, mem⟩
      else none := by
  obtain ⟨bound, -, on⟩ := foldl_step events start
  have last := find?_upsertAll Prod.fst [] (recorded [] events) (entryOf pc)
  rw [List.find?_nil, Option.or_none] at last
  rw [onCode, after, bound, on, ← last]
  rfl

/-- What every round of a loop keeps holds at its end. -/
theorem foldlM_kept {σ α : Type} (holds : σ → Prop) {advance : σ → α → Option σ} {items : List α}
    {first last : σ}
    (kept : ∀ state item next, item ∈ items → advance state item = some next → holds state →
      holds next)
    (folded : items.foldlM advance first = some last) (start : holds first) : holds last := by
  induction items generalizing first with
  | nil =>
    obtain rfl := Option.some.inj folded
    exact start
  | cons item items ih =>
    rw [List.foldlM_cons] at folded
    obtain ⟨next, advanced, rest⟩ := Option.bind_eq_some_iff.mp folded
    exact ih (fun state other later inside => kept state other later (List.mem_cons_of_mem _ inside))
      rest (kept first item next List.mem_cons_self advanced start)

theorem mem_execRanges {d : List Byte} {loaded : Image.Loaded} (read : Image.loadApps d = some (some loaded))
    {range : Word × Word} (member : range ∈ loaded.execRanges) {va : Word} (first : range.1 ≤ va)
    (last : va < range.2) : ExecutableAt d va := by
  simp only [Image.loadApps, Option.bind_eq_bind, Option.bind_eq_some_iff] at read
  obtain ⟨magic, -, read⟩ := read
  split at read
  · cases read
  · simp only [Option.bind_eq_some_iff] at read
    obtain ⟨entry, -, phoff, atPhoff, phent, atPhent, phnum, atPhnum, last', folded, same⟩ := read
    obtain rfl := Option.some.inj (Option.some.inj same)
    refine foldlM_kept (fun loaded => ∀ range ∈ loaded.execRanges, range.1 ≤ va →
      va < range.2 → ExecutableAt d va) ?_ folded (by simp) range member first last
    intro state i next inside advanced held range member first last
    simp only [Image.appsHeader, Option.bind_eq_bind, Option.bind_eq_some_iff] at advanced
    obtain ⟨type, atType, advanced⟩ := advanced
    split at advanced
    · obtain rfl := Option.some.inj advanced
      exact held range member first last
    · next load =>
      simp only [Option.bind_eq_some_iff] at advanced
      obtain ⟨header, atHeader, flg, atFlags, advanced⟩ := advanced
      split at advanced
      · obtain rfl := Option.some.inj advanced
        exact held range member first last
      · obtain ⟨source, -, advanced⟩ := Option.bind_eq_some_iff.mp advanced
        obtain rfl := Option.some.inj advanced
        dsimp only at member
        split at member
        · next executable =>
          rcases List.mem_append.mp member with earlier | fresh
          · exact held range earlier first last
          · obtain rfl := List.mem_singleton.mp fresh
            refine ⟨phoff, phent, phnum, i, header, flg, atPhoff, atPhent, atPhnum,
              List.mem_range.mp inside, ?_, atHeader, atFlags, executable.1, first, last⟩
            rw [atType, of_not_not load]
        · exact held range member first last

theorem mem_named {bound : Word × Target} (member : bound ∈ named mem vtableVa isIgl) :
    ∃ s < slotsOf isIgl, ∃ fn, slotPtr mem vtableVa s = some fn ∧ fn ≠ 0 ∧
      bound = (entryOf fn, ⟨isIgl, s⟩) := by
  obtain ⟨s, inside, found⟩ := List.mem_filterMap.mp member
  obtain ⟨fn, read, kept⟩ := Option.bind_eq_some_iff.mp found
  split at kept
  · cases kept
  · next nonnull => exact ⟨s, List.mem_range.mp inside, fn, read, nonnull, (Option.some.inj kept).symm⟩

/-- What an object's table binds is code. -/
theorem code_of_resolved {bound : Word × Target}
    (member : bound ∈ bindings codeRanges (.resolveFromObject mem objVa isIgl)) :
    ∃ range ∈ codeRanges, range.1 ≤ bound.1 ∧ bound.1 < range.2 := by
  rw [bindings] at member
  split at member
  · next vtbl found =>
    obtain ⟨s, below, fn, read, nonnull, rfl⟩ := mem_named member
    rw [tableOf] at found
    split at found
    · cases found
    · have accepted := (Option.filter_eq_some_iff.mp found).2
      rw [decide_eq_true_eq] at accepted
      have code := accepted.2.2.1 s below
      rw [read, Option.any_some, Bool.or_eq_true, decide_eq_true_eq] at code
      obtain ⟨range, listed, inside⟩ := List.any_eq_true.mp (code.resolve_left nonnull)
      rw [Bool.and_eq_true, decide_eq_true_eq, decide_eq_true_eq] at inside
      exact ⟨range, listed, inside.1, inside.2⟩
  · cases member

/-- What is bound through objects lies where the ranges in force say, if they all say so. -/
theorem recorded_holds (codeRanges : List (Word × Word)) (holds : Word → Prop) {events : List BridgeEvent}
    (unbound : ∀ event ∈ events, isBind event = false)
    (inForce : ∀ range ∈ codeRanges, ∀ va, range.1 ≤ va → va < range.2 → holds va)
    (loads : ∀ d, .loadApps d ∈ events → ∀ va, ExecutableAt d va → holds va) :
    ∀ bound ∈ recorded codeRanges events, holds bound.1 := by
  induction events generalizing codeRanges with
  | nil => simp [recorded]
  | cons event events ih =>
    intro bound member
    rcases List.mem_append.mp member with now | later
    · cases event with
      | resolveFromObject mem objVa isIgl =>
        obtain ⟨range, listed, first, last⟩ := code_of_resolved now
        exact inForce range listed _ first last
      | bindVtable mem vtableVa isIgl => cases unbound _ List.mem_cons_self
      | loadApps d => cases now
      | setGuestRunning on => cases now
    · refine ih _ (fun other inside => unbound other (List.mem_cons_of_mem _ inside)) ?_
        (fun d inside => loads d (List.mem_cons_of_mem _ inside)) bound later
      cases event with
      | loadApps d =>
        rw [rangesAfter]
        split
        · next loaded read =>
          split
          · exact inForce
          · exact fun range listed va first last =>
              loads d List.mem_cons_self va (mem_execRanges read listed first last)
        · exact inForce
      | _ => exact inForce

/-- The bridge over any history of tables, images and memories. -/
theorem bridge_law (events : List BridgeEvent) : BridgeLaw events where
  calls hook mem regs pc := by
    rw [codeHook, onCode_after]
    cases running events with
    | false => rfl
    | true =>
      cases latest (fun bound => bound.1 = entryOf pc) (recorded [] events) with
      | none => rfl
      | some bound =>
        simp only [if_true, Option.map_some, Option.bind_eq_bind, Option.bind_some]
        cases hook ⟨bound.2, argOf regs mem, mem⟩ <;> rfl
  resolves past mem objVa isIgl _ _ := by
    rw [((after past).resolveFromObject_eq mem objVa isIgl).1, after, (foldl_step past start).2.1]
    rfl
  code unbound mem regs pc taken := by
    rw [onCode_after] at taken
    split at taken
    · cases found : latest (fun bound => bound.1 = entryOf pc) (recorded [] events) with
      | none =>
        rw [found] at taken
        exact absurd rfl taken
      | some bound =>
        obtain ⟨member, same⟩ := latest_passes found
        have held := recorded_holds []
          (fun va => ∃ d, .loadApps d ∈ events ∧ ExecutableAt d va) unbound (by simp)
          (fun d inside va executable => ⟨d, inside, executable⟩) bound member
        rwa [of_decide_eq_true same] at held
    · exact absurd rfl taken

end IglGuestBridge

end ZeeboLle.System

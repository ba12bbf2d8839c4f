import ZeeboLle.Unicorn.RegFile
import Std.Data.TreeMap.Lemmas

/-! `ThreadTable`: the L4 threads in order of their ids, the thread that runs, and the
saved contexts of the others. -/
namespace ZeeboLle.L4

open Unicorn

structure ThreadInfo where
  tid : Word
  sp : Word
  ip : Word
  flags : Word
  started : Bool
  active : Bool
  spaceId : Word
  userDefHandle : Word
  scheduler : Word
  pager : Word
  ctx : CpuContext
  hasContext : Bool

def ThreadInfo.fresh : ThreadInfo where
  tid := 0
  sp := 0
  ip := 0
  flags := 0
  started := false
  active := false
  spaceId := 0
  userDefHandle := 0
  scheduler := 0
  pager := 0
  ctx := ⟨fun _ => 0, 0, 0, 0, 0⟩
  hasContext := false

/-- No operation creates an entry for the nil thread. -/
structure ThreadTable where
  threads : Std.TreeMap Word ThreadInfo
  currentTid : Word
  nilFree : threads[(0 : Word)]? = none

namespace ThreadTable

def empty : ThreadTable := ⟨∅, 0, by simp⟩

def setCurrentTid (table : ThreadTable) (tid : Word) : ThreadTable :=
  { table with currentTid := tid }

def getThread (table : ThreadTable) (tid : Word) : Option ThreadInfo := table.threads[tid]?

/-- The shape of every update: look the thread up, create it if it is missing, change
it; nothing for the nil thread. -/
def edit (table : ThreadTable) (tid : Word) (change : ThreadInfo → ThreadInfo) : ThreadTable :=
  if nonNil : tid ≠ 0 then
    { table with
      threads := table.threads.insert tid
        (change { (table.getThread tid).getD ThreadInfo.fresh with tid })
      nilFree := by
        rw [Std.TreeMap.getElem?_insert, if_neg fun same => nonNil (Std.LawfulEqCmp.eq_of_compare same)]
        exact table.nilFree }
  else table

def setThreadSpace (table : ThreadTable) (tid spaceId : Word) : ThreadTable :=
  table.edit tid fun thread => { thread with spaceId }

def threadSpace (table : ThreadTable) (tid : Word) : Word :=
  match table.getThread tid with
  | some thread => thread.spaceId
  | none => 0

/-- A nil space specifier leaves the space as it is. -/
def onThreadControl (table : ThreadTable) (dest spaceSpecifier scheduler pager : Word) :
    ThreadTable :=
  table.edit dest fun thread =>
    { thread with
      scheduler
      pager
      spaceId := if spaceSpecifier ≠ 0 then spaceSpecifier else thread.spaceId }

def setUserDefHandle (table : ThreadTable) (tid handle : Word) : ThreadTable :=
  table.edit tid fun thread => { thread with userDefHandle := handle }

def saveContext (table : ThreadTable) (tid : Word) (ctx : CpuContext) : ThreadTable :=
  table.edit tid fun thread => { thread with ctx, hasContext := true, sp := ctx.sp, ip := ctx.pc }

def loadContext (table : ThreadTable) (tid : Word) : Option CpuContext :=
  match table.getThread tid with
  | some thread => if thread.hasContext then some thread.ctx else none
  | none => none

/-- The control bits of `L4_ExchangeRegisters`. -/
def exregsHalt (control : Word) : Bool := control.getLsbD 0
def exregsSp (control : Word) : Bool := control.getLsbD 3
def exregsIp (control : Word) : Bool := control.getLsbD 4
def exregsFlags (control : Word) : Bool := control.getLsbD 5
def exregsUhandle (control : Word) : Bool := control.getLsbD 6
def exregsHaltflag (control : Word) : Bool := control.getLsbD 8
def exregsDeliver (control : Word) : Bool := control.getLsbD 9

def onExchangeRegisters (table : ThreadTable) (dest control newSp newIp flags : Word) : ThreadTable :=
  table.edit dest fun thread =>
    let resume := exregsHaltflag control && !exregsHalt control
    let halt := exregsHaltflag control && exregsHalt control
    { thread with
      sp := if exregsSp control then newSp else thread.sp
      ip := if exregsIp control then newIp else thread.ip
      flags := if exregsFlags control then flags else thread.flags
      started := exregsDeliver control || resume || thread.started
      active := !halt && (exregsDeliver control || resume || thread.active) }

/-- The threads after the current one, then those up to it. -/
def roundRobin (table : ThreadTable) (current : Word) : List (Word × ThreadInfo) :=
  let entries := table.threads.toList
  (entries.filter fun entry => current < entry.1) ++ entries.filter fun entry => ¬ current < entry.1

def pickNextThread (table : ThreadTable) (current : Word) : Word :=
  match (table.roundRobin current).find? fun entry => entry.2.active && entry.1 ≠ current with
  | some entry => entry.1
  | none =>
    match table.getThread current with
    | some self => if self.active then current else 0
    | none => 0

variable {table : ThreadTable} {tid other : Word} {change : ThreadInfo → ThreadInfo}

theorem getThread_edit_self (nonNil : tid ≠ 0) :
    (table.edit tid change).getThread tid =
      some (change { (table.getThread tid).getD ThreadInfo.fresh with tid }) := by
  rw [edit, dif_pos nonNil]
  exact Std.TreeMap.getElem?_insert_self

theorem getThread_edit_other (different : other ≠ tid) :
    (table.edit tid change).getThread other = table.getThread other := by
  unfold edit
  split
  · rw [getThread, Std.TreeMap.getElem?_insert,
      if_neg fun same => different (Std.LawfulEqCmp.eq_of_compare same).symm]
    rfl
  · rfl

@[simp] theorem edit_currentTid (table : ThreadTable) (tid : Word)
    (change : ThreadInfo → ThreadInfo) : (table.edit tid change).currentTid = table.currentTid := by
  unfold edit
  split
  · rfl
  · rfl

theorem ne_zero_of_getThread {thread : ThreadInfo} (present : table.getThread tid = some thread) :
    tid ≠ 0 := by
  intro nil
  rw [nil, getThread, table.nilFree] at present
  cases present

/-- The same thread runs and every thread resumes from the same context. -/
def Undisturbed (before after : ThreadTable) : Prop :=
  after.currentTid = before.currentTid ∧ ∀ tid, after.loadContext tid = before.loadContext tid

theorem Undisturbed.refl (table : ThreadTable) : Undisturbed table table := ⟨rfl, fun _ => rfl⟩

theorem Undisturbed.trans {first second third : ThreadTable} (earlier : Undisturbed first second)
    (later : Undisturbed second third) : Undisturbed first third :=
  ⟨later.1.trans earlier.1, fun tid => (later.2 tid).trans (earlier.2 tid)⟩

/-- An update that leaves saved contexts alone leaves what is loaded alone. -/
theorem undisturbed_edit (table : ThreadTable) (tid : Word)
    (kept : ∀ info, (change info).ctx = info.ctx ∧ (change info).hasContext = info.hasContext) :
    Undisturbed table (table.edit tid change) := by
  refine ⟨edit_currentTid .., fun thread => ?_⟩
  by_cases same : thread = tid
  · subst same
    by_cases nil : thread = 0
    · rw [edit, dif_neg (not_not_intro nil)]
    · rw [loadContext, loadContext, getThread_edit_self nil]
      dsimp only
      rw [(kept _).1, (kept _).2]
      cases table.getThread thread with
      | none => rfl
      | some info => rfl
  · rw [loadContext, loadContext, getThread_edit_other same]

theorem undisturbed_onThreadControl (table : ThreadTable) (dest space scheduler pager : Word) :
    Undisturbed table (table.onThreadControl dest space scheduler pager) :=
  undisturbed_edit table dest (by intro info; exact ⟨rfl, rfl⟩)

theorem undisturbed_onExchangeRegisters (table : ThreadTable) (dest control sp ip flags : Word) :
    Undisturbed table (table.onExchangeRegisters dest control sp ip flags) :=
  undisturbed_edit table dest (by intro info; exact ⟨rfl, rfl⟩)

theorem undisturbed_setUserDefHandle (table : ThreadTable) (tid handle : Word) :
    Undisturbed table (table.setUserDefHandle tid handle) :=
  undisturbed_edit table tid (by intro info; exact ⟨rfl, rfl⟩)

theorem undisturbed_setThreadSpace (table : ThreadTable) (tid space : Word) :
    Undisturbed table (table.setThreadSpace tid space) :=
  undisturbed_edit table tid (by intro info; exact ⟨rfl, rfl⟩)

theorem loadContext_saveContext_self (nonNil : tid ≠ 0) (ctx : CpuContext) :
    (table.saveContext tid ctx).loadContext tid = some ctx := by
  rw [loadContext, saveContext, getThread_edit_self nonNil]
  rfl

theorem loadContext_saveContext_other (different : other ≠ tid) (ctx : CpuContext) :
    (table.saveContext tid ctx).loadContext other = table.loadContext other := by
  rw [loadContext, loadContext, saveContext, getThread_edit_other different]

end ThreadTable

end ZeeboLle.L4

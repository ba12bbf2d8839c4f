import ZeeboLle.L4.ThreadTable
import Mathlib.Data.List.Induction

/-! Where a thread resumes after any sequence of calls on the table. PC and SP live twice,
as fields of the thread and in its saved context; `save_context` writes both copies and
`on_exchange_registers` only the fields, which nobody reads once a context is saved. -/
namespace ZeeboLle.L4

open Unicorn

inductive ThreadCall where
  | setThreadSpace (tid spaceId : Word)
  | onThreadControl (dest spaceSpecifier scheduler pager : Word)
  | saveContext (tid : Word) (ctx : CpuContext)
  | onExchangeRegisters (dest control newSp newIp flags : Word)

/-- The two registers a thread resumes with. -/
inductive ResumeSlot where
  | ip | sp
deriving DecidableEq, Repr

namespace ResumeSlot

def ofThread : ResumeSlot → ThreadInfo → Word
  | .ip, thread => thread.ip
  | .sp, thread => thread.sp

def ofContext : ResumeSlot → CpuContext → Word
  | .ip, ctx => ctx.pc
  | .sp, ctx => ctx.sp

/-- The control bit that names the register. -/
def named : ResumeSlot → Word → Bool
  | .ip, control => ThreadTable.exregsIp control
  | .sp, control => ThreadTable.exregsSp control

def newValue (newSp newIp : Word) : ResumeSlot → Word
  | .ip => newIp
  | .sp => newSp

end ResumeSlot

/-- How a call set a register: to a new value, or with a whole context. -/
inductive Setting where
  | exchanged (value : Word)
  | saved (ctx : CpuContext)

def Setting.value (slot : ResumeSlot) : Setting → Word
  | .exchanged value => value
  | .saved ctx => slot.ofContext ctx

/-- What a call sets the register of a thread to. Calls for the nil thread set nothing. -/
def ThreadCall.sets (slot : ResumeSlot) (tid : Word) : ThreadCall → Option Setting
  | .saveContext dest ctx => if dest = tid ∧ tid ≠ 0 then some (.saved ctx) else none
  | .onExchangeRegisters dest control newSp newIp _ =>
    if dest = tid ∧ tid ≠ 0 ∧ slot.named control = true then
      some (.exchanged (slot.newValue newSp newIp))
    else none
  | _ => none

/-- The last call that set the register. -/
def lastSetting (slot : ResumeSlot) (tid : Word) (calls : List ThreadCall) : Option Setting :=
  calls.foldl (fun last call => (call.sets slot tid).or last) none

/-- The context saved last for a thread, or the one it started with. -/
def lastSaved (tid : Word) (initial : Option CpuContext) (calls : List ThreadCall) :
    Option CpuContext :=
  calls.foldl (fun last call =>
    match call with
    | .saveContext dest ctx => if dest = tid ∧ tid ≠ 0 then some ctx else last
    | _ => last) initial

namespace ThreadTable

variable {table start : ThreadTable} {tid : Word} {slot : ResumeSlot} {calls : List ThreadCall}

def call (table : ThreadTable) : ThreadCall → ThreadTable
  | .setThreadSpace tid spaceId => table.setThreadSpace tid spaceId
  | .onThreadControl dest space scheduler pager => table.onThreadControl dest space scheduler pager
  | .saveContext tid ctx => table.saveContext tid ctx
  | .onExchangeRegisters dest control newSp newIp flags =>
    table.onExchangeRegisters dest control newSp newIp flags

def run (table : ThreadTable) (calls : List ThreadCall) : ThreadTable := calls.foldl call table

/-- The scheduler's choice: the saved context if there is one, else the thread's fields. -/
def resume (table : ThreadTable) (slot : ResumeSlot) (tid : Word) : Option Word :=
  match table.loadContext tid with
  | some ctx => some (slot.ofContext ctx)
  | none => (table.getThread tid).map slot.ofThread

/-- A register exchanged last resumes at its new value; after a saved context the thread
resumes with exactly that context. -/
def ResumesAsSet (start : ThreadTable) (calls : List ThreadCall) (tid : Word) : Prop :=
  ∀ slot,
    (∀ value, lastSetting slot tid calls = some (.exchanged value) →
      (start.run calls).resume slot tid = some value) ∧
    ∀ ctx, lastSetting slot tid calls = some (.saved ctx) →
      (start.run calls).loadContext tid = some ctx

/-- A register exchanged last finds no saved context, or one with that very value. -/
def ExchangesMatch (start : ThreadTable) (calls : List ThreadCall) (tid : Word) : Prop :=
  ∀ slot value ctx, lastSetting slot tid calls = some (.exchanged value) →
    lastSaved tid (start.loadContext tid) calls = some ctx → slot.ofContext ctx = value

/-- Only `save_context` on the thread changes the context that is loaded. -/
theorem loadContext_call (table : ThreadTable) (call : ThreadCall) (tid : Word) :
    (table.call call).loadContext tid = lastSaved tid (table.loadContext tid) [call] := by
  cases call with
  | setThreadSpace dest space => exact (undisturbed_setThreadSpace table dest space).2 tid
  | onThreadControl dest space scheduler pager =>
    exact (undisturbed_onThreadControl table dest space scheduler pager).2 tid
  | onExchangeRegisters dest control newSp newIp flags =>
    exact (undisturbed_onExchangeRegisters table dest control newSp newIp flags).2 tid
  | saveContext dest ctx =>
    change (table.saveContext dest ctx).loadContext tid =
      if dest = tid ∧ tid ≠ 0 then some ctx else table.loadContext tid
    by_cases own : dest = tid
    · subst own
      by_cases nil : dest = 0
      · rw [if_neg (by simp [nil]), saveContext, edit, dif_neg (by simp [nil])]
      · rw [if_pos ⟨rfl, nil⟩, loadContext_saveContext_self nil]
    · rw [if_neg (fun both => own both.1), loadContext_saveContext_other (Ne.symm own)]

/-- The thread is there and its field has the value. -/
def Holds (table : ThreadTable) (slot : ResumeSlot) (tid : Word) (value : Word) : Prop :=
  (table.getThread tid).map slot.ofThread = some value

theorem holds_edit {change : ThreadInfo → ThreadInfo} {value : Word} {dest : Word}
    (kept : dest = tid → ∀ thread, slot.ofThread (change thread) = slot.ofThread thread)
    (held : table.Holds slot tid value) : (table.edit dest change).Holds slot tid value := by
  by_cases own : dest = tid
  · subst own
    cases present : table.getThread dest with
    | none =>
      rw [Holds, present] at held
      cases held
    | some thread =>
      rw [Holds, getThread_edit_self (ne_zero_of_getThread present), present, Option.map_some,
        kept rfl]
      rw [Holds, present] at held
      cases slot with
      | ip => exact held
      | sp => exact held
  · rw [Holds, getThread_edit_other (Ne.symm own)]
    exact held

theorem holds_call_kept {call : ThreadCall} {value : Word} (unset : call.sets slot tid = none)
    (held : table.Holds slot tid value) : (table.call call).Holds slot tid value := by
  have nonNil : tid ≠ 0 := by
    intro nil
    rw [Holds, nil, getThread, table.nilFree] at held
    cases held
  cases call with
  | setThreadSpace dest space =>
    refine holds_edit (fun _ thread => ?_) held
    cases slot with
    | ip => rfl
    | sp => rfl
  | onThreadControl dest space scheduler pager =>
    refine holds_edit (fun _ thread => ?_) held
    cases slot with
    | ip => rfl
    | sp => rfl
  | saveContext dest ctx =>
    refine holds_edit (fun own => ?_) held
    rw [ThreadCall.sets, if_pos ⟨own, nonNil⟩] at unset
    cases unset
  | onExchangeRegisters dest control newSp newIp flags =>
    refine holds_edit (fun own thread => ?_) held
    have unnamed : slot.named control = false := by
      rw [ThreadCall.sets, ite_eq_right_iff] at unset
      by_contra named
      cases unset ⟨own, nonNil, by simpa using named⟩
    cases slot with
    | ip => exact if_neg (by simpa [ResumeSlot.named] using unnamed)
    | sp => exact if_neg (by simpa [ResumeSlot.named] using unnamed)

theorem holds_call_set {call : ThreadCall} {setting : Setting}
    (set : call.sets slot tid = some setting) :
    (table.call call).Holds slot tid (setting.value slot) := by
  cases call with
  | setThreadSpace dest space => cases set
  | onThreadControl dest space scheduler pager => cases set
  | saveContext dest ctx =>
    rw [ThreadCall.sets, Option.ite_none_right_eq_some] at set
    obtain ⟨⟨own, nonNil⟩, same⟩ := set
    subst own
    cases same
    rw [Holds, call, saveContext, getThread_edit_self nonNil]
    cases slot with
    | ip => rfl
    | sp => rfl
  | onExchangeRegisters dest control newSp newIp flags =>
    rw [ThreadCall.sets, Option.ite_none_right_eq_some] at set
    obtain ⟨⟨own, nonNil, named⟩, same⟩ := set
    subst own
    cases same
    rw [Holds, call, onExchangeRegisters, getThread_edit_self nonNil]
    cases slot with
    | ip => exact congrArg some (if_pos named)
    | sp => exact congrArg some (if_pos named)

theorem run_snoc (start : ThreadTable) (calls : List ThreadCall) (call : ThreadCall) :
    start.run (calls ++ [call]) = (start.run calls).call call := by
  simp [run]

theorem lastSetting_snoc (slot : ResumeSlot) (tid : Word) (calls : List ThreadCall)
    (call : ThreadCall) :
    lastSetting slot tid (calls ++ [call]) = (call.sets slot tid).or (lastSetting slot tid calls) := by
  simp [lastSetting]

theorem lastSaved_snoc (tid : Word) (initial : Option CpuContext) (calls : List ThreadCall)
    (call : ThreadCall) :
    lastSaved tid initial (calls ++ [call]) = lastSaved tid (lastSaved tid initial calls) [call] := by
  simp [lastSaved]

theorem loadContext_run (start : ThreadTable) (calls : List ThreadCall) (tid : Word) :
    (start.run calls).loadContext tid = lastSaved tid (start.loadContext tid) calls := by
  induction calls using List.reverseRecOn with
  | nil => rfl
  | append_singleton calls call ih => rw [run_snoc, loadContext_call, ih, ← lastSaved_snoc]

/-- The fields mirror the last call that set them, whichever kind it was. -/
theorem holds_run {setting : Setting} (last : lastSetting slot tid calls = some setting) :
    (start.run calls).Holds slot tid (setting.value slot) := by
  induction calls using List.reverseRecOn with
  | nil => cases last
  | append_singleton calls call ih =>
    rw [lastSetting_snoc] at last
    rw [run_snoc]
    cases set : call.sets slot tid with
    | none =>
      rw [set, Option.none_or] at last
      exact holds_call_kept set (ih last)
    | some newer =>
      rw [set, Option.some_or] at last
      cases last
      exact holds_call_set set

theorem lastSaved_of_setting {ctx : CpuContext} (initial : Option CpuContext)
    (last : lastSetting slot tid calls = some (.saved ctx)) :
    lastSaved tid initial calls = some ctx := by
  induction calls using List.reverseRecOn with
  | nil => cases last
  | append_singleton calls call ih =>
    rw [lastSetting_snoc] at last
    rw [lastSaved_snoc]
    cases call with
    | setThreadSpace dest space => exact ih last
    | onThreadControl dest space scheduler pager => exact ih last
    | saveContext dest other =>
      change (if dest = tid ∧ tid ≠ 0 then some other else _) = some ctx
      rw [ThreadCall.sets] at last
      split at last
      · rename_i own
        cases last
        rw [if_pos own]
      · rename_i foreign
        rw [if_neg foreign]
        exact ih last
    | onExchangeRegisters dest control newSp newIp flags =>
      rw [ThreadCall.sets] at last
      split at last
      · cases last
      · exact ih last

theorem resume_saved {ctx : CpuContext} (saved : table.loadContext tid = some ctx) :
    table.resume slot tid = some (slot.ofContext ctx) := by
  simp [resume, saved]

/-- After any calls a thread resumes as it was last told to exactly when no exchanged
register is hidden by a saved context with another value. -/
theorem resumesAsSet_iff (start : ThreadTable) (calls : List ThreadCall) (tid : Word) :
    start.ResumesAsSet calls tid ↔ start.ExchangesMatch calls tid := by
  constructor
  · intro resumes slot value ctx last saved
    have loaded := (loadContext_run start calls tid).trans saved
    have resumed := (resumes slot).1 value last
    rw [resume_saved loaded] at resumed
    exact Option.some.inj resumed
  · intro unhidden slot
    refine ⟨fun value last => ?_, fun ctx last => ?_⟩
    · cases loaded : (start.run calls).loadContext tid with
      | some ctx =>
        have saved := (loadContext_run start calls tid).symm.trans loaded
        rw [resume_saved loaded, unhidden slot value ctx last saved]
      | none =>
        have held : (start.run calls).Holds slot tid value := holds_run last
        simp only [resume, loaded]
        exact held
    · rw [loadContext_run, lastSaved_of_setting _ last]

/-- Suspended at 0x1000 and then told to go on at 0x2000. -/
def redirected : List ThreadCall :=
  [.saveContext 1 ⟨fun _ => 0, 0, 0, 0x1000, 0x10⟩, .onExchangeRegisters 1 0x10 0 0x2000 0]

/-- The thread goes on at 0x1000. -/
theorem not_resumesAsSet_redirected : ¬ empty.ResumesAsSet redirected 1 := by
  intro resumes
  have resumed := (resumes .ip).1 0x2000 rfl
  rw [resume_saved (loadContext_run empty redirected 1)] at resumed
  revert resumed
  decide

end ThreadTable

end ZeeboLle.L4

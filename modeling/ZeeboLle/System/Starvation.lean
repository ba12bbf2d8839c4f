import ZeeboLle.L4.Schedule
import ZeeboLle.System.Handoff
import Mathlib.Data.List.Perm.Subperm
import Mathlib.Data.List.Nodup

/-! Who gets the processor when threads give it up with `L4_ThreadSwitch`. The pick goes by
activity alone and the entry point is looked at afterwards, so an active thread without one
keeps everybody behind it from running. -/
namespace ZeeboLle.L4.ThreadTable

open Unicorn Scheduling

variable {table : ThreadTable} {tid other current : Word} {ctx : CpuContext}

/-- Active, with an entry point or a saved context. -/
def startable (thread : ThreadInfo) : Bool := thread.active && (thread.ip ≠ 0 || thread.hasContext)

def Startable (table : ThreadTable) (tid : Word) : Prop :=
  ∃ thread, table.getThread tid = some thread ∧ startable thread = true

def startableThreads (table : ThreadTable) : List Word :=
  table.activeThreads.filter fun tid => (table.getThread tid).any startable

/-- Nobody else could run, or the next active thread has an entry point. -/
def NextReady (table : ThreadTable) : Prop :=
  (∀ tid, table.Startable tid → tid = table.currentTid) ∨
    ∃ next thread, table.IsNext table.currentTid next ∧ table.getThread next = some thread ∧
      thread.ip ≠ 0

/-- The thread the current one would switch to. -/
def switchTarget (table : ThreadTable) : Option Word :=
  let next := table.pickNextThread table.currentTid
  if next ≠ 0 ∧ next ≠ table.currentTid ∧ (table.getThread next).any (fun thread => thread.ip ≠ 0) then
    some next
  else none

/-- The table after the current thread gave up the processor. -/
def afterSwitch (table : ThreadTable) (ctx : CpuContext) : ThreadTable :=
  match table.switchTarget with
  | none => table
  | some next => (table.saveContext table.currentTid ctx).setCurrentTid next

theorem Startable.active (ready : table.Startable tid) : table.Active tid := by
  obtain ⟨thread, present, running⟩ := ready
  rw [startable, Bool.and_eq_true] at running
  exact ⟨thread, present, running.1⟩

theorem mem_startableThreads : tid ∈ table.startableThreads ↔ table.Startable tid := by
  rw [startableThreads, List.mem_filter, mem_activeThreads, Option.any_eq_true]
  constructor
  · rintro ⟨_, ready⟩
    exact ready
  · intro ready
    exact ⟨Startable.active ready, ready⟩

theorem startable_of_entry {thread : ThreadInfo} (active : table.Active tid)
    (present : table.getThread tid = some thread) (entry : thread.ip ≠ 0) : table.Startable tid := by
  obtain ⟨same, found, running⟩ := active
  rw [present] at found
  cases found
  refine ⟨thread, present, ?_⟩
  rw [startable, running, Bool.true_and, Bool.or_eq_true, decide_eq_true_eq]
  exact .inl entry

/-- There is one next thread. -/
theorem IsNext.eq_pick {next : Word} (isNext : table.IsNext current next) :
    next = table.pickNextThread current := by
  obtain ⟨active, position⟩ := isNext
  obtain ⟨active', position'⟩ := (pickNextThread_isNext active current).2
  rcases position with ⟨above, least⟩ | ⟨noneAbove, least⟩
  · rcases position' with ⟨above', least'⟩ | ⟨noneAbove', least'⟩
    · exact le_antisymm (least _ active' above') (least' _ active above)
    · exact absurd above (noneAbove' next active)
  · rcases position' with ⟨above', least'⟩ | ⟨noneAbove', least'⟩
    · exact absurd above' (noneAbove _ active')
    · exact le_antisymm (least _ active') (least' _ active)

/-- With another active thread around, the next one is not the current one. -/
theorem pickNextThread_ne (active : table.Active other) (different : other ≠ current) :
    table.pickNextThread current ≠ current := by
  intro same
  obtain ⟨_, position⟩ := (pickNextThread_isNext active current).2
  rw [same] at position
  rcases position with ⟨above, _⟩ | ⟨noneAbove, least⟩
  · exact lt_irrefl current above
  · exact noneAbove other active ((least other active).lt_of_ne different.symm)

theorem switchTarget_eq_some {next : Word} : table.switchTarget = some next ↔
    next = table.pickNextThread table.currentTid ∧ next ≠ table.currentTid ∧
      ∃ thread, table.getThread next = some thread ∧ thread.ip ≠ 0 := by
  simp only [switchTarget, Option.ite_none_right_eq_some, Option.any_eq_true, decide_eq_true_eq,
    Option.some.injEq]
  constructor
  · rintro ⟨⟨_, different, thread, present, entry⟩, rfl⟩
    exact ⟨rfl, different, thread, present, entry⟩
  · rintro ⟨rfl, different, thread, present, entry⟩
    exact ⟨⟨ne_zero_of_getThread present, different, thread, present, entry⟩, rfl⟩

/-- A target can run. -/
theorem startable_of_target {next : Word} (target : table.switchTarget = some next) :
    next ≠ table.currentTid ∧ table.Startable next := by
  obtain ⟨picked, different, thread, present, entry⟩ := switchTarget_eq_some.mp target
  refine ⟨different, startable_of_entry ?_ present entry⟩
  have nonNil := ne_zero_of_getThread present
  rw [picked] at nonNil ⊢
  have someone := (table.pickNextThread_eq_zero table.currentTid).not.mp nonNil
  obtain ⟨tid, active⟩ := not_forall_not.mp someone
  exact (pickNextThread_isNext active table.currentTid).2.1

/-- If somebody else could run, a ready next thread is the target. -/
theorem NextReady.target (ready : table.NextReady) (could : table.Startable other)
    (different : other ≠ table.currentTid) :
    table.switchTarget = some (table.pickNextThread table.currentTid) := by
  rcases ready with alone | ⟨next, thread, isNext, present, entry⟩
  · exact absurd (alone other could) different
  · have picked := isNext.eq_pick
    rw [picked] at present
    exact switchTarget_eq_some.mpr
      ⟨rfl, pickNextThread_ne could.active different, thread, present, entry⟩

/-- The caller hands over to somebody who could run, if there is anybody else. -/
def HandsOver (before after : ThreadTable) : Prop :=
  (∃ tid, before.Startable tid ∧ tid ≠ before.currentTid) →
    after.currentTid ≠ before.currentTid ∧ before.Startable after.currentTid

theorem afterSwitch_target {next : Word} (target : table.switchTarget = some next) :
    table.afterSwitch ctx = (table.saveContext table.currentTid ctx).setCurrentTid next := by
  rw [afterSwitch, target]

theorem afterSwitch_stays (nobody : table.switchTarget = none) : table.afterSwitch ctx = table := by
  rw [afterSwitch, nobody]

theorem handsOver_iff (table : ThreadTable) (ctx : CpuContext) :
    HandsOver table (table.afterSwitch ctx) ↔ table.NextReady := by
  constructor
  · intro hands
    by_cases someone : ∃ tid, table.Startable tid ∧ tid ≠ table.currentTid
    · have moved := (hands someone).1
      cases target : table.switchTarget with
      | none =>
        rw [afterSwitch_stays target] at moved
        exact absurd rfl moved
      | some next =>
        obtain ⟨picked, _, thread, present, entry⟩ := switchTarget_eq_some.mp target
        obtain ⟨tid, could, _⟩ := someone
        refine .inr ⟨next, thread, ?_, present, entry⟩
        rw [picked]
        exact (pickNextThread_isNext could.active table.currentTid).2
    · refine .inl fun tid could => ?_
      by_contra different
      exact someone ⟨tid, could, different⟩
  · rintro ready ⟨tid, could, different⟩
    have target := ready.target could different
    rw [afterSwitch_target target]
    exact startable_of_target target

theorem getThread_saveContext_other (different : tid ≠ other) :
    (table.saveContext other ctx).getThread tid = table.getThread tid :=
  getThread_edit_other different

theorem active_saveContext : (table.saveContext other ctx).Active tid ↔ table.Active tid := by
  by_cases own : tid = other
  · subst own
    by_cases nil : tid = 0
    · rw [saveContext, edit, dif_neg (by simpa using nil)]
    · rw [Active, Active, saveContext, getThread_edit_self nil]
      cases present : table.getThread tid with
      | none => simp [ThreadInfo.fresh]
      | some thread => simp
  · rw [Active, Active, getThread_saveContext_other own]

theorem activeThreads_congr {left right : ThreadTable}
    (same : ∀ tid, left.Active tid ↔ right.Active tid) : left.activeThreads = right.activeThreads := by
  have perm : left.activeThreads.Perm right.activeThreads := by
    rw [List.perm_ext_iff_of_nodup left.activeThreads_nodup right.activeThreads_nodup]
    intro tid
    rw [mem_activeThreads, mem_activeThreads, same]
  exact perm.eq_of_pairwise (fun _ _ _ _ below above => absurd below above.asymm)
    left.activeThreads_ascending right.activeThreads_ascending

theorem activeThreads_afterSwitch (table : ThreadTable) (ctx : CpuContext) :
    (table.afterSwitch ctx).activeThreads = table.activeThreads := by
  cases target : table.switchTarget with
  | none => rw [afterSwitch_stays target]
  | some next =>
    rw [afterSwitch_target target]
    exact activeThreads_congr fun tid => active_saveContext

theorem getThread_afterSwitch (different : tid ≠ table.currentTid) :
    (table.afterSwitch ctx).getThread tid = table.getThread tid := by
  cases target : table.switchTarget with
  | none => rw [afterSwitch_stays target]
  | some next =>
    rw [afterSwitch_target target]
    exact getThread_saveContext_other different

/-- A thread that was saved can run again. -/
theorem Startable.afterSwitch (could : table.Startable tid) (ctx : CpuContext) :
    (table.afterSwitch ctx).Startable tid := by
  by_cases own : tid = table.currentTid
  · subst own
    cases target : table.switchTarget with
    | none =>
      rw [afterSwitch_stays target]
      exact could
    | some next =>
      obtain ⟨thread, present, running⟩ := could
      rw [startable, Bool.and_eq_true] at running
      rw [afterSwitch_target target]
      refine ⟨_, getThread_edit_self (ne_zero_of_getThread present), ?_⟩
      simp [startable, present, running.1]
  · obtain ⟨thread, present, running⟩ := could
    exact ⟨thread, (getThread_afterSwitch own).trans present, running⟩

/-- The table after several switches; the contexts are those saved at each. -/
def afterSwitches (table : ThreadTable) (ctxs : List CpuContext) : ThreadTable :=
  ctxs.foldl afterSwitch table

/-- The processor went once to each of the first `count` threads of the round. -/
structure Advanced (table : ThreadTable) (count : Nat) (after : ThreadTable) : Prop where
  active : after.activeThreads = table.activeThreads
  current : after.currentTid = table.pickNextThread^[count] table.currentTid
  startable : ∀ tid, table.Startable tid → after.Startable tid
  unvisited : ∀ tid, (∀ earlier < count, tid ≠ table.pickNextThread^[earlier] table.currentTid) →
    after.getThread tid = table.getThread tid

theorem Advanced.zero (table : ThreadTable) : table.Advanced 0 table :=
  ⟨rfl, rfl, fun _ could => could, fun _ _ => rfl⟩

theorem Advanced.pick {count : Nat} {after : ThreadTable} (advanced : table.Advanced count after) :
    after.pickNextThread after.currentTid = table.pickNextThread^[count + 1] table.currentTid := by
  rw [pickNextThread_eq, advanced.active, ← pickNextThread_eq, advanced.current,
    Function.iterate_succ_apply']

section

variable {count : Nat} {after : ThreadTable} {first second : Word}

/-- With two threads that could run there is always somebody else to switch to. -/
theorem Advanced.target (advanced : table.Advanced count after) (couldFirst : table.Startable first)
    (couldSecond : table.Startable second) (two : first ≠ second) (ready : after.NextReady) :
    after.switchTarget = some (after.pickNextThread after.currentTid) := by
  by_cases same : first = after.currentTid
  · exact ready.target (advanced.startable second couldSecond) fun also => two (same.trans also.symm)
  · exact ready.target (advanced.startable first couldFirst) same

theorem Advanced.step (advanced : table.Advanced count after) (couldFirst : table.Startable first)
    (couldSecond : table.Startable second) (two : first ≠ second) (ready : after.NextReady)
    (ctx : CpuContext) : table.Advanced (count + 1) (after.afterSwitch ctx) := by
  have target := advanced.target couldFirst couldSecond two ready
  refine ⟨(activeThreads_afterSwitch after ctx).trans advanced.active, ?_, ?_, ?_⟩
  · rw [afterSwitch_target target, ← advanced.pick]
    rfl
  · intro tid could
    exact (advanced.startable tid could).afterSwitch ctx
  · intro tid unvisited
    have away : tid ≠ after.currentTid := by
      rw [advanced.current]
      exact unvisited count (Nat.lt_succ_self count)
    rw [getThread_afterSwitch away,
      advanced.unvisited tid fun earlier bound => unvisited earlier (Nat.lt_succ_of_lt bound)]

end

section

variable {ctxs : List CpuContext} {first second : Word} (couldFirst : table.Startable first)
  (couldSecond : table.Startable second) (two : first ≠ second)
  (ready : ∀ count < ctxs.length, (table.afterSwitches (ctxs.take count)).NextReady)

include couldFirst couldSecond two ready

theorem advanced_run (count : Nat) (bound : count ≤ ctxs.length) :
    table.Advanced count (table.afterSwitches (ctxs.take count)) := by
  induction count with
  | zero => exact .zero table
  | succ count ih =>
    have step := (ih (by omega)).step couldFirst couldSecond two (ready count bound) ctxs[count]
    rw [List.take_succ_eq_append_getElem bound, afterSwitches, List.foldl_append]
    exact step

/-- A thread the round reaches for the first time could run from the start. -/
theorem startable_of_reached {count : Nat} (bound : count < ctxs.length)
    (fresh : ∀ earlier ≤ count, table.pickNextThread^[count + 1] table.currentTid ≠
      table.pickNextThread^[earlier] table.currentTid) :
    table.Startable (table.pickNextThread^[count + 1] table.currentTid) := by
  have advanced := advanced_run couldFirst couldSecond two ready count bound.le
  have target := advanced.target couldFirst couldSecond two (ready count bound)
  obtain ⟨_, _, thread, present, entry⟩ := switchTarget_eq_some.mp target
  have running := (startable_of_target target).2.active
  rw [advanced.pick] at present running
  rw [← mem_activeThreads, advanced.active, mem_activeThreads] at running
  rw [advanced.unvisited _ fun earlier before => fresh earlier before.le] at present
  exact startable_of_entry running present entry

/-- As many switches as threads could run meet exactly those threads. -/
theorem iterate_perm_startable (enough : ctxs.length = table.startableThreads.length) :
    (List.iterate table.pickNextThread (table.pickNextThread table.currentTid) ctxs.length).Perm
      table.startableThreads := by
  have size : ctxs.length ≤ table.activeThreads.length := enough ▸ List.length_filter_le ..
  have met := iterate_eq_take table.activeThreads_ascending
    (fun point => (pickNextThread_isNext couldFirst.active point).1) _ size table.currentTid
  have distinct : (cyclicFrom table.activeThreads table.currentTid).Nodup :=
    (cyclicFrom_perm _ _).nodup_iff.mpr table.activeThreads_nodup
  have once : (List.iterate table.pickNextThread (table.pickNextThread table.currentTid)
      ctxs.length).Nodup := met ▸ distinct.sublist (List.take_sublist ..)
  refine (List.subperm_of_subset once fun tid reached => ?_).perm_of_length_le (by simp [enough])
  obtain ⟨count, bound, rfl⟩ := List.mem_iterate.mp reached
  rw [← Function.iterate_succ_apply]
  by_cases back : table.pickNextThread^[count + 1] table.currentTid = table.currentTid
  · -- The round is back at the caller only if everybody active could run.
    rw [back]
    rw [← Function.iterate_succ_apply, back, met] at reached
    have active : table.currentTid ∈ table.activeThreads :=
      mem_cyclicFrom.mp (List.mem_of_mem_take reached)
    obtain ⟨others, last⟩ := cyclicFrom_self table.activeThreads_ascending active
    have whole : table.activeThreads.length ≤ ctxs.length := by
      rw [← length_cyclicFrom table.activeThreads table.currentTid, last, List.length_append,
        List.length_singleton]
      by_contra short
      rw [last, List.take_append_of_le_length (by omega)] at reached
      rw [last] at distinct
      exact (List.nodup_append.mp distinct).2.2 _ (List.mem_of_mem_take reached) _
        List.mem_cons_self rfl
    have all := List.length_filter_eq_length_iff.mp (Nat.le_antisymm (List.length_filter_le ..)
      (enough ▸ whole))
    exact List.mem_filter.mpr ⟨active, all _ active⟩
  · refine mem_startableThreads.mpr (startable_of_reached couldFirst couldSecond two ready bound ?_)
    intro earlier before same
    cases earlier with
    | zero => exact back same
    | succ earlier =>
      rw [Function.iterate_succ_apply, Function.iterate_succ_apply] at same
      have apart := List.pairwise_iff_getElem.mp once earlier count
        (by rw [List.length_iterate]; omega) (by rwa [List.length_iterate]) (by omega)
      rw [List.getElem_iterate, List.getElem_iterate] at apart
      exact apart same.symm

end

/-- As many switches as threads could run give each of them the processor. -/
theorem met_within {ctxs : List CpuContext}
    (ready : ∀ count < ctxs.length, (table.afterSwitches (ctxs.take count)).NextReady)
    (enough : ctxs.length = table.startableThreads.length) (could : table.Startable tid) :
    ∃ count, 0 < count ∧ count ≤ ctxs.length ∧
      (table.afterSwitches (ctxs.take count)).currentTid = tid := by
  have listed := mem_startableThreads.mpr could
  by_cases more : ∃ second, table.Startable second ∧ tid ≠ second
  · obtain ⟨second, couldSecond, two⟩ := more
    have met := (iterate_perm_startable could couldSecond two ready enough).mem_iff.mpr listed
    obtain ⟨count, bound, reached⟩ := List.mem_iterate.mp met
    refine ⟨count + 1, Nat.succ_pos count, bound, ?_⟩
    rw [(advanced_run could couldSecond two ready (count + 1) bound).current,
      Function.iterate_succ_apply]
    exact reached.symm
  · have only : ∀ other, table.Startable other → other = tid := by
      intro other couldOther
      by_contra different
      exact more ⟨other, couldOther, Ne.symm different⟩
    have positive : 0 < ctxs.length := enough ▸ List.length_pos_of_mem listed
    refine ⟨1, Nat.one_pos, positive, ?_⟩
    obtain ⟨ctx, rest, rfl⟩ := List.exists_cons_of_length_pos positive
    have first : table.NextReady := ready 0 positive
    change (table.afterSwitch ctx).currentTid = tid
    cases target : table.switchTarget with
    | none =>
      rw [afterSwitch_stays target]
      by_contra different
      rw [first.target could (Ne.symm different)] at target
      cases target
    | some next =>
      rw [afterSwitch_target target]
      exact only next (startable_of_target target).2

end ZeeboLle.L4.ThreadTable

namespace ZeeboLle.System

open Paging Unicorn L4

/-- What guest code has made of registers and memory when it traps with
`L4_ThreadSwitch`. -/
structure SwitchTrap where
  regs : RegFile
  ram : Nat → Byte
  host : HostPtr → Byte
  call : regs.readSp &&& 0xff#32 = 0x04#32

namespace LleSystem

variable {sys : LleSystem}

def threadSwitch (sys : LleSystem) (trap : SwitchTrap) : LleSystem :=
  c0IntrHook { sys with
    regs := trap.regs
    mem := { sys.mem with ram := trap.ram, host := trap.host } }

def switches (sys : LleSystem) (traps : List SwitchTrap) : LleSystem := traps.foldl threadSwitch sys

theorem nextThread_target (sys : LleSystem) :
    sys.nextThread.map Prod.fst = sys.threadTable.switchTarget := by
  unfold nextThread ThreadTable.switchTarget
  dsimp only
  by_cases candidate : sys.threadTable.pickNextThread sys.threadTable.currentTid ≠ 0 ∧
      sys.threadTable.pickNextThread sys.threadTable.currentTid ≠ sys.threadTable.currentTid
  · rw [if_pos candidate]
    cases present : sys.threadTable.getThread
        (sys.threadTable.pickNextThread sys.threadTable.currentTid) with
    | none => simp
    | some thread =>
      by_cases entry : thread.ip ≠ 0
      · rw [if_pos ⟨candidate.1, candidate.2, by simpa using entry⟩]
        dsimp only
        rw [if_pos entry]
        rfl
      · rw [if_neg fun all => entry (by simpa using all.2.2)]
        dsimp only
        rw [if_neg entry]
        rfl
  · rw [if_neg candidate, if_neg fun all => candidate ⟨all.1, all.2.1⟩]
    rfl

/-- The trap does to the table what a switch does. -/
theorem threadSwitch_table (sys : LleSystem) (trap : SwitchTrap) :
    (sys.threadSwitch trap).threadTable =
      sys.threadTable.afterSwitch (cpuContextRead trap.regs) := by
  let trapped : LleSystem := { sys with
    regs := trap.regs
    mem := { sys.mem with ram := trap.ram, host := trap.host } }
  have answered : trapped.dispatch (trap.regs.readSp &&& 0xff#32) = trapped.l4ThreadSwitch := by
    rw [trap.call]
    rfl
  have table : (sys.threadSwitch trap).threadTable = trapped.l4ThreadSwitch.sys.threadTable :=
    congrArg (fun answer => answer.sys.threadTable) answered
  have target := trapped.nextThread_target
  rw [table, l4ThreadSwitch]
  cases found : trapped.nextThread with
  | none =>
    rw [found] at target
    exact (ThreadTable.afterSwitch_stays target.symm).symm
  | some entry =>
    rw [found] at target
    obtain ⟨next, thread⟩ := entry
    dsimp only
    rw [handTo_threadTable]
    exact (ThreadTable.afterSwitch_target target.symm).symm

theorem switches_table (sys : LleSystem) (traps : List SwitchTrap) :
    (sys.switches traps).threadTable =
      sys.threadTable.afterSwitches (traps.map fun trap => cpuContextRead trap.regs) := by
  induction traps generalizing sys with
  | nil => rfl
  | cons trap rest ih =>
    rw [switches, List.foldl_cons, ← switches, ih, threadSwitch_table, List.map_cons,
      ThreadTable.afterSwitches, ThreadTable.afterSwitches, List.foldl_cons]

end LleSystem

/-- Every call of the run hands over if anybody else could run, and a run of as many
calls as threads could run gives each of them the processor. -/
def NeverStarved (sys : LleSystem) (traps : List SwitchTrap) : Prop :=
  (∀ before trap after, traps = before ++ trap :: after →
    ThreadTable.HandsOver (sys.switches before).threadTable
      ((sys.switches before).threadSwitch trap).threadTable) ∧
  (traps.length = sys.threadTable.startableThreads.length →
    ∀ tid, sys.threadTable.Startable tid → ∃ count, 0 < count ∧ count ≤ traps.length ∧
      (sys.switches (traps.take count)).threadTable.currentTid = tid)

/-- At every call nobody else could run, or the next active thread has an entry point. -/
def AlwaysNextReady (sys : LleSystem) (traps : List SwitchTrap) : Prop :=
  ∀ before trap after, traps = before ++ trap :: after →
    (sys.switches before).threadTable.NextReady

theorem AlwaysNextReady.take {sys : LleSystem} {traps : List SwitchTrap}
    (ready : AlwaysNextReady sys traps) (count : Nat) (bound : count < traps.length) :
    (sys.switches (traps.take count)).threadTable.NextReady := by
  apply ready (traps.take count) traps[count] (traps.drop (count + 1))
  rw [← List.drop_eq_getElem_cons bound, List.take_append_drop]

/-- Nobody is starved over a run of switches exactly when the next active thread can
always be entered. -/
theorem neverStarved_iff (sys : LleSystem) (traps : List SwitchTrap) :
    NeverStarved sys traps ↔ AlwaysNextReady sys traps := by
  constructor
  · rintro ⟨hands, _⟩ before trap after split
    have step := hands before trap after split
    rw [LleSystem.threadSwitch_table] at step
    exact (ThreadTable.handsOver_iff _ _).mp step
  · intro ready
    refine ⟨fun before trap after split => ?_, fun enough tid could => ?_⟩
    · rw [LleSystem.threadSwitch_table]
      exact (ThreadTable.handsOver_iff _ _).mpr (ready before trap after split)
    · have prepared : ∀ count < (traps.map fun trap => cpuContextRead trap.regs).length,
          (sys.threadTable.afterSwitches
            ((traps.map fun trap => cpuContextRead trap.regs).take count)).NextReady := by
        intro count bound
        rw [← List.map_take, ← LleSystem.switches_table]
        exact ready.take count (by simpa using bound)
      have met := ThreadTable.met_within prepared (by simpa using enough) could
      simp only [← List.map_take, ← LleSystem.switches_table, List.length_map] at met
      exact met

/-- Three threads; the second was resumed without an entry point. -/
def entrylessBetween : ThreadTable :=
  (((ThreadTable.empty.onExchangeRegisters 1 0x118 0x8000 0xb0000100 0).onExchangeRegisters 2 0x100
    0 0 0).onExchangeRegisters 3 0x118 0x9000 0xb0000300 0).setCurrentTid 1

def yieldTrap : SwitchTrap where
  regs := switchTrap 0x1000 0xffffff04
  ram := fun _ => 0
  host := fun _ => 0
  call := by decide

/-- The first thread gives up the processor and keeps it; the third never runs. -/
theorem not_neverStarved_entryless :
    ¬ NeverStarved { yielding 0x1000 with threadTable := entrylessBetween } [yieldTrap] := by
  rintro ⟨hands, _⟩
  have step := hands [] yieldTrap [] rfl
  have nobody : entrylessBetween.switchTarget = none := by decide
  rw [LleSystem.threadSwitch_table] at step
  have moved := (step ⟨3, ⟨_, rfl, by decide⟩, by decide⟩).1
  rw [show (LleSystem.switches { yielding 0x1000 with threadTable := entrylessBetween }
    []).threadTable = entrylessBetween from rfl, ThreadTable.afterSwitch_stays nobody] at moved
  exact moved rfl

end ZeeboLle.System

import ZeeboLle.L4.ThreadTable
import ZeeboLle.Scheduling.Cyclic

/-! `pick_next_thread` as the cyclic order of the active threads. -/
namespace ZeeboLle.L4

open Unicorn Scheduling

instance : LinearOrder Word where
  le_refl := BitVec.le_refl
  le_trans _ _ _ := BitVec.le_trans
  lt_iff_le_not_ge left right := by
    simp only [BitVec.lt_def, BitVec.le_def]
    omega
  le_antisymm _ _ := BitVec.le_antisymm
  le_total := BitVec.le_total
  toDecidableLE := inferInstance
  compare_eq_compareOfLessAndEq _ _ := rfl

namespace ThreadTable

variable {table : ThreadTable} {tid current start : Word} {thread : ThreadInfo}

/-- `get_active_threads`. -/
def activeThreads (table : ThreadTable) : List Word :=
  (table.threads.toList.filter fun entry => entry.2.active).map Prod.fst

/-- The table has the thread and it is active. -/
def Active (table : ThreadTable) (tid : Word) : Prop :=
  ∃ thread, table.getThread tid = some thread ∧ thread.active = true

theorem mem_activeThreads : tid ∈ table.activeThreads ↔ table.Active tid := by
  simp [activeThreads, Active, getThread]

theorem activeThreads_ascending (table : ThreadTable) : table.activeThreads.Pairwise (· < ·) := by
  have ordered := (Std.TreeMap.ordered_keys_toList (t := table.threads)).filter
    fun entry => entry.2.active
  exact List.pairwise_map.mpr (ordered.imp fun below => compare_lt_iff_lt.mp below)

theorem Active.ne_zero (active : table.Active tid) : tid ≠ 0 := by
  obtain ⟨thread, present, _⟩ := active
  exact ne_zero_of_getThread present

theorem activeThreads_eq_nil : table.activeThreads = [] ↔ ∀ tid, ¬ table.Active tid := by
  simp only [List.eq_nil_iff_forall_not_mem, mem_activeThreads]

theorem activeThreads_nodup (table : ThreadTable) : table.activeThreads.Nodup :=
  table.activeThreads_ascending.imp ne_of_lt

/-- The scan meets the active threads in their cyclic order. -/
theorem roundRobin_active (table : ThreadTable) (current : Word) :
    ((table.roundRobin current).filter fun entry => entry.2.active).map Prod.fst =
      cyclicFrom table.activeThreads current := by
  simp only [roundRobin, cyclicFrom, activeThreads, List.filter_append, List.map_append,
    List.filter_filter, List.filter_map, Function.comp_def, Bool.and_comm]

/-- Skipping the current thread is no special case: it comes last in its own round. -/
theorem cyclicFrom_current {rest : List Word}
    (round : cyclicFrom table.activeThreads current = current :: rest) : rest = [] := by
  have present : current ∈ table.activeThreads := by
    rw [← mem_cyclicFrom, round]
    exact List.mem_cons_self
  obtain ⟨others, last⟩ := cyclicFrom_self table.activeThreads_ascending present
  have distinct : (cyclicFrom table.activeThreads current).Nodup :=
    (cyclicFrom_perm _ _).nodup_iff.mpr table.activeThreads_nodup
  rw [last] at round distinct
  cases others with
  | nil => exact (List.cons.inj round).2.symm
  | cons next others =>
    obtain ⟨same, _⟩ := List.cons.inj round
    simp [same] at distinct

/-- With no other to run, the current thread runs on while it is active. -/
theorem currentOrIdle (table : ThreadTable) (current : Word) :
    (match table.getThread current with
      | some self => if self.active then current else 0
      | none => 0) = if current ∈ table.activeThreads then current else 0 := by
  cases present : table.getThread current with
  | none => simp [mem_activeThreads, Active, present]
  | some self => simp [mem_activeThreads, Active, present]

theorem pickNextThread_eq (table : ThreadTable) (current : Word) :
    table.pickNextThread current = (cyclicFrom table.activeThreads current).head?.getD 0 := by
  have scan : ((table.roundRobin current).find? fun entry =>
      entry.2.active && entry.1 ≠ current).map Prod.fst =
        (cyclicFrom table.activeThreads current).find? fun tid => tid ≠ current := by
    rw [← roundRobin_active, List.find?_map, List.find?_filter]
    simp only [Function.comp_apply, Bool.decide_and, Bool.decide_eq_true]
  have self := table.currentOrIdle current
  unfold pickNextThread
  generalize (table.roundRobin current).find? _ = found at scan ⊢
  cases round : cyclicFrom table.activeThreads current with
  | nil =>
    have nobody : current ∉ table.activeThreads := by
      rw [← mem_cyclicFrom, round]
      exact List.not_mem_nil
    rw [round] at scan
    cases found with
    | none => exact self.trans (if_neg nobody)
    | some entry => cases scan
  | cons next rest =>
    rw [round] at scan
    by_cases same : next = current
    · subst same
      have alone := cyclicFrom_current round
      subst alone
      have present : next ∈ table.activeThreads := by
        rw [← mem_cyclicFrom, round]
        exact List.mem_cons_self
      cases found with
      | none => exact self.trans (if_pos present)
      | some entry => simp at scan
    · cases found with
      | none => simp [same] at scan
      | some entry =>
        rw [List.find?_cons_of_pos (by simpa using same)] at scan
        simpa using scan

/-- The next active thread in the cyclic order: the least above the current one, or else
the least. -/
def IsNext (table : ThreadTable) (current tid : Word) : Prop :=
  table.Active tid ∧
    ((current < tid ∧ ∀ other, table.Active other → current < other → tid ≤ other) ∨
      ((∀ other, table.Active other → ¬ current < other) ∧
        ∀ other, table.Active other → tid ≤ other))

/-- The threads met in as many picks as there are active threads. -/
def oneRound (table : ThreadTable) (start : Word) : List Word :=
  List.iterate table.pickNextThread (table.pickNextThread start) table.activeThreads.length

theorem pickNextThread_isNext (someone : table.Active tid) (current : Word) :
    (cyclicFrom table.activeThreads current).head? = some (table.pickNextThread current) ∧
      table.IsNext current (table.pickNextThread current) := by
  have picked := table.pickNextThread_eq current
  cases round : cyclicFrom table.activeThreads current with
  | nil =>
    have present : tid ∈ cyclicFrom table.activeThreads current :=
      mem_cyclicFrom.mpr (mem_activeThreads.mpr someone)
    rw [round] at present
    cases present
  | cons next rest =>
    rw [round] at picked
    have same : table.pickNextThread current = next := picked
    rw [same]
    have first := cyclicFrom_first table.activeThreads_ascending round
    simp only [mem_activeThreads] at first
    exact ⟨rfl, first⟩

theorem pickNextThread_eq_zero (table : ThreadTable) (current : Word) :
    table.pickNextThread current = 0 ↔ ∀ tid, ¬ table.Active tid := by
  constructor
  · intro zero tid active
    exact (pickNextThread_isNext active current).2.1.ne_zero zero
  · intro nobody
    rw [pickNextThread_eq, activeThreads_eq_nil.mpr nobody]
    rfl

/-- The pick is zero only when nobody is active, otherwise the next active thread; one
round of picks from anywhere meets every active thread exactly once. -/
theorem pickNextThread_cyclic (table : ThreadTable) :
    (∀ current, table.pickNextThread current = 0 ↔ ∀ tid, ¬ table.Active tid) ∧
      (∀ current, (∃ tid, table.Active tid) →
        table.IsNext current (table.pickNextThread current)) ∧
      ∀ start, (table.oneRound start).Nodup ∧
        ∀ tid, tid ∈ table.oneRound start ↔ table.Active tid := by
  refine ⟨table.pickNextThread_eq_zero, ?_, ?_⟩
  · rintro current ⟨tid, active⟩
    exact (pickNextThread_isNext active current).2
  · intro start
    have round : (table.oneRound start).Perm table.activeThreads := by
      by_cases nobody : ∀ tid, ¬ table.Active tid
      · rw [oneRound, activeThreads_eq_nil.mpr nobody]
        exact List.Perm.refl _
      · obtain ⟨tid, active⟩ := not_forall_not.mp nobody
        exact iterate_perm table.activeThreads_ascending
          (fun point => (pickNextThread_isNext active point).1) start
    refine ⟨round.nodup_iff.mpr table.activeThreads_nodup, fun tid => ?_⟩
    rw [round.mem_iff, mem_activeThreads]

end ThreadTable

end ZeeboLle.L4

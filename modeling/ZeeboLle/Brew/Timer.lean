import ZeeboLle.Paging.KeyedList
import ZeeboLle.Scheduling.Runs
import ZeeboLle.Unicorn.Memory

/-! The one-shot timers of the shell. A timer is known by its callback and user data; what is
kept of its deadline is the time that remains, taken down by each tick. The law is told in
terms of the calls made so far: when a timer was last armed, and how much time was ticked
since. -/
namespace ZeeboLle.Brew

open Paging Scheduling Unicorn

structure ExpiredTimer where
  callback : Word
  userData : Word
  r0Override : Option Word
deriving DecidableEq

structure TimerEntry where
  remainingMs : Word
  callback : Word
  userData : Word
  r0Override : Option Word
deriving DecidableEq

def TimerEntry.key (timer : TimerEntry) : Word × Word := (timer.callback, timer.userData)

def ExpiredTimer.key (timer : ExpiredTimer) : Word × Word := (timer.callback, timer.userData)

structure BrewTimerQueue where
  timers : List TimerEntry

namespace BrewTimerQueue

/-- An entry of the same callback and user data is rearmed in its place. -/
def schedule (queue : BrewTimerQueue) (ms callback userData : Word) (r0Override : Option Word) :
    BrewTimerQueue :=
  if callback = 0 then queue
  else ⟨upsert TimerEntry.key ⟨ms, callback, userData, r0Override⟩ queue.timers⟩

def cancel (queue : BrewTimerQueue) (callback userData : Word) : Bool × BrewTimerQueue :=
  let kept := queue.timers.filter fun timer =>
    !(timer.callback = callback && timer.userData = userData)
  if kept.length ≠ queue.timers.length then (true, ⟨kept⟩) else (false, queue)

/-- The removal predicate on one entry: reported and dropped, or aged and kept. -/
def tickEntry (elapsedMs : Word) (result : List ExpiredTimer × List TimerEntry)
    (timer : TimerEntry) : List ExpiredTimer × List TimerEntry :=
  if timer.remainingMs ≤ elapsedMs then
    (result.1 ++ [⟨timer.callback, timer.userData, timer.r0Override⟩], result.2)
  else
    (result.1, result.2 ++ [{ timer with remainingMs := timer.remainingMs - elapsedMs }])

def tick (queue : BrewTimerQueue) (elapsedMs : Word) : List ExpiredTimer × BrewTimerQueue :=
  let result := queue.timers.foldl (tickEntry elapsedMs) ([], [])
  (result.1, ⟨result.2⟩)

variable {queue : BrewTimerQueue} {elapsedMs : Word}

def due (elapsedMs : Word) (timer : TimerEntry) : Bool := timer.remainingMs ≤ elapsedMs

def report (timer : TimerEntry) : ExpiredTimer :=
  ⟨timer.callback, timer.userData, timer.r0Override⟩

def age (elapsedMs : Word) (timer : TimerEntry) : TimerEntry :=
  { timer with remainingMs := timer.remainingMs - elapsedMs }

theorem foldl_tickEntry (timers : List TimerEntry) (result : List ExpiredTimer × List TimerEntry) :
    timers.foldl (tickEntry elapsedMs) result =
      (result.1 ++ (timers.filter (due elapsedMs)).map report,
        result.2 ++ (timers.filter (!due elapsedMs ·)).map (age elapsedMs)) := by
  induction timers generalizing result with
  | nil => simp
  | cons timer timers ih =>
    rw [List.foldl_cons, ih]
    by_cases expired : timer.remainingMs ≤ elapsedMs
    · simp [tickEntry, due, report, expired]
    · simp [tickEntry, due, age, expired]

theorem tick_eq (queue : BrewTimerQueue) (elapsedMs : Word) :
    queue.tick elapsedMs = ((queue.timers.filter (due elapsedMs)).map report,
      ⟨(queue.timers.filter (!due elapsedMs ·)).map (age elapsedMs)⟩) := by
  simp [tick, foldl_tickEntry]

theorem cancel_eq (queue : BrewTimerQueue) (callback userData : Word) :
    queue.cancel callback userData =
      (decide ((callback, userData) ∈ queue.timers.map TimerEntry.key),
        ⟨queue.timers.filter (·.key ≠ (callback, userData))⟩) := by
  have same : (fun timer : TimerEntry =>
      !(decide (timer.callback = callback) && decide (timer.userData = userData))) =
      fun timer => decide (timer.key ≠ (callback, userData)) := by
    funext timer
    simp [TimerEntry.key]
  rw [cancel, same]
  by_cases pending : (callback, userData) ∈ queue.timers.map TimerEntry.key
  · obtain ⟨timer, member, own⟩ := List.mem_map.mp pending
    have removed : (queue.timers.filter fun timer =>
        decide (timer.key ≠ (callback, userData))).length ≠ queue.timers.length := by
      intro whole
      have kept := List.length_filter_eq_length_iff.mp whole timer member
      simp [own] at kept
    simp only [removed, ne_eq, not_false_eq_true, if_true, pending, decide_true]
  · have whole : (queue.timers.filter fun timer =>
        decide (timer.key ≠ (callback, userData))) = queue.timers := by
      apply List.filter_eq_self.mpr
      intro timer member
      have other : timer.key ≠ (callback, userData) := fun own =>
        pending (own ▸ List.mem_map_of_mem member)
      simp [other]
    simp only [whole, ne_eq, not_true, if_false, pending, decide_false]

/-- There is at most one in a reachable queue. -/
def entriesOf (queue : BrewTimerQueue) (key : Word × Word) : List TimerEntry :=
  queue.timers.filter (·.key = key)

def Pending (queue : BrewTimerQueue) (key : Word × Word) : Prop :=
  key ∈ queue.timers.map TimerEntry.key

/-- Timers have distinct keys and a callback. -/
structure Valid (queue : BrewTimerQueue) : Prop where
  distinct : (queue.timers.map TimerEntry.key).Nodup
  live : ∀ timer ∈ queue.timers, timer.callback ≠ 0

theorem entriesOf_eq_nil {key : Word × Word} : queue.entriesOf key = [] ↔ ¬queue.Pending key := by
  simp [entriesOf, Pending]

theorem entriesOf_schedule (valid : queue.Valid) {ms callback userData : Word}
    {r0Override : Option Word} (live : callback ≠ 0) :
    (queue.schedule ms callback userData r0Override).entriesOf (callback, userData) =
      [⟨ms, callback, userData, r0Override⟩] := by
  simp only [schedule, live, if_false, entriesOf]
  exact @filter_upsert_self _ _ _ _ ⟨ms, callback, userData, r0Override⟩ _ valid.distinct

theorem entriesOf_schedule_of_ne {ms callback userData : Word} {r0Override : Option Word}
    {key : Word × Word} (other : (callback, userData) ≠ key) :
    (queue.schedule ms callback userData r0Override).entriesOf key = queue.entriesOf key := by
  unfold schedule
  split
  · rfl
  · exact filter_upsert_of_ne other

theorem entriesOf_cancel_of_ne {callback userData : Word} {key : Word × Word}
    (other : (callback, userData) ≠ key) :
    (queue.cancel callback userData).2.entriesOf key = queue.entriesOf key := by
  rw [cancel_eq, entriesOf, List.filter_filter, entriesOf]
  apply List.filter_congr
  intro timer _
  by_cases own : timer.key = key
  · simp [own, other.symm]
  · simp [own]

theorem entriesOf_tick (key : Word × Word) :
    (queue.tick elapsedMs).2.entriesOf key =
      ((queue.entriesOf key).filter (!due elapsedMs ·)).map (age elapsedMs) := by
  rw [tick_eq, entriesOf, entriesOf, List.filter_map, List.filter_filter, List.filter_filter]
  refine congrArg _ (List.filter_congr fun timer _ => ?_)
  exact Bool.and_comm _ _

theorem filter_reports (key : Word × Word) :
    (queue.tick elapsedMs).1.filter (·.key = key) =
      ((queue.entriesOf key).filter (due elapsedMs)).map report := by
  rw [tick_eq, entriesOf, List.filter_map, List.filter_filter, List.filter_filter]
  refine congrArg _ (List.filter_congr fun timer _ => ?_)
  exact Bool.and_comm _ _

variable {first second : Word}

theorem due_add (fits : first.toNat + second.toNat < 2 ^ 32) (timer : TimerEntry) :
    due (first + second) timer = (due first timer || due second (age first timer)) := by
  have sum : (first + second).toNat = first.toNat + second.toNat := by
    rw [BitVec.toNat_add, Nat.mod_eq_of_lt fits]
  by_cases early : timer.remainingMs ≤ first
  · have late : timer.remainingMs ≤ first + second := by
      rw [BitVec.le_def] at early ⊢
      omega
    simp [due, early, late]
  · have left : (timer.remainingMs - first).toNat = timer.remainingMs.toNat - first.toNat := by
      rw [BitVec.le_def] at early
      exact BitVec.toNat_sub_of_le (by rw [BitVec.le_def]; omega)
    have split : timer.remainingMs ≤ first + second ↔ timer.remainingMs - first ≤ second := by
      rw [BitVec.le_def] at early
      rw [BitVec.le_def, BitVec.le_def]
      omega
    rw [due, due, due, decide_eq_false early, Bool.false_or]
    exact decide_eq_decide.mpr split

theorem age_age (timer : TimerEntry) : age second (age first timer) = age (first + second) timer := by
  simp [age, BitVec.sub_sub]

theorem tick_tick (fits : first.toNat + second.toNat < 2 ^ 32) (queue : BrewTimerQueue) :
    List.Perm ((queue.tick first).1 ++ ((queue.tick first).2.tick second).1)
        (queue.tick (first + second)).1 ∧
      ((queue.tick first).2.tick second).2 = (queue.tick (first + second)).2 := by
  have same : report ∘ age first = report := rfl
  simp only [tick_eq, List.filter_map, List.map_map, List.filter_filter, same]
  rw [← List.map_append]
  constructor
  · apply List.Perm.map
    have parts := List.filter_append_perm (due first) (queue.timers.filter (due (first + second)))
    rw [List.filter_filter, List.filter_filter] at parts
    refine List.Perm.trans (List.Perm.of_eq ?_) parts
    congr 1
    · apply List.filter_congr
      intro timer _
      rw [due_add fits]
      cases due first timer <;> simp
    · apply List.filter_congr
      intro timer _
      rw [due_add fits, Function.comp_apply]
      cases due first timer <;> simp
  · refine congrArg BrewTimerQueue.mk ?_
    congr 1
    · funext timer
      exact age_age timer
    · apply List.filter_congr
      intro timer _
      rw [due_add fits, Function.comp_apply]
      cases due first timer <;> simp

end BrewTimerQueue

inductive TimerCall where
  | schedule (ms callback userData : Word) (r0Override : Option Word)
  | cancel (callback userData : Word)
  | tick (elapsedMs : Word)
deriving DecidableEq

namespace TimerCall

/-- The call arms or cancels the timer. -/
def Touches (key : Word × Word) : TimerCall → Prop
  | .schedule _ callback userData _ => (callback, userData) = key
  | .cancel callback userData => (callback, userData) = key
  | .tick _ => False

def elapsed : TimerCall → Nat
  | .tick elapsedMs => elapsedMs.toNat
  | _ => 0

end TimerCall

/-- Time that passed, without wrapping. -/
def elapsedIn (calls : List TimerCall) : Nat := (calls.map TimerCall.elapsed).sum

/-- Not a tick by which a timer armed at the start has run out. -/
def FallsShort (ms : Word) (before : List TimerCall) : TimerCall → Prop
  | .tick elapsedMs => elapsedIn before + elapsedMs.toNat < ms.toNat
  | _ => True

namespace BrewTimerQueue

def step (queue : BrewTimerQueue) : TimerCall → BrewTimerQueue
  | .schedule ms callback userData r0Override => queue.schedule ms callback userData r0Override
  | .cancel callback userData => (queue.cancel callback userData).2
  | .tick elapsedMs => (queue.tick elapsedMs).2

def run (calls : List TimerCall) : BrewTimerQueue := calls.foldl step ⟨[]⟩

theorem run_snoc (calls : List TimerCall) (call : TimerCall) :
    run (calls ++ [call]) = (run calls).step call := by
  simp [run]

variable {queue : BrewTimerQueue} {calls : List TimerCall}

/-- A step drops keys, keeping their order, or adds one at the end. -/
theorem keys_step (queue : BrewTimerQueue) (call : TimerCall) :
    List.Sublist ((queue.step call).timers.map TimerEntry.key) (queue.timers.map TimerEntry.key) ∨
      ∃ ms callback userData r0Override, call = .schedule ms callback userData r0Override ∧
        callback ≠ 0 ∧ ¬queue.Pending (callback, userData) ∧
        (queue.step call).timers.map TimerEntry.key =
          queue.timers.map TimerEntry.key ++ [(callback, userData)] := by
  cases call with
  | schedule ms callback userData r0Override =>
    rw [step, schedule]
    by_cases dead : callback = 0
    · rw [if_pos dead]
      exact .inl (List.Sublist.refl _)
    · rw [if_neg dead, map_key_upsert]
      by_cases pending : (callback, userData) ∈ queue.timers.map TimerEntry.key
      · exact .inl (by simp [TimerEntry.key] at pending ⊢; simp [pending])
      · exact .inr ⟨ms, callback, userData, r0Override, rfl, dead, pending, if_neg pending⟩
  | cancel callback userData =>
    rw [step, cancel_eq]
    exact .inl (List.filter_sublist.map _)
  | tick elapsedMs =>
    rw [step, tick_eq, List.map_map]
    exact .inl (List.filter_sublist.map TimerEntry.key)

theorem Valid.step (valid : queue.Valid) (call : TimerCall) : (queue.step call).Valid := by
  constructor
  · rcases keys_step queue call with fewer | ⟨ms, callback, userData, _, _, _, fresh, keys⟩
    · exact valid.distinct.sublist fewer
    · rw [keys, List.nodup_append]
      refine ⟨valid.distinct, List.nodup_singleton _, ?_⟩
      rintro held member added last rfl
      exact fresh (List.mem_singleton.mp last ▸ member)
  · intro timer member
    have held : timer.key ∈ (queue.step call).timers.map TimerEntry.key := List.mem_map_of_mem member
    rcases keys_step queue call with fewer | ⟨_, callback, userData, _, _, live, _, keys⟩
    · obtain ⟨old, found, same⟩ := List.mem_map.mp (fewer.subset held)
      rw [← show old.callback = timer.callback from congrArg Prod.fst same]
      exact valid.live old found
    · rw [keys, List.mem_append, List.mem_singleton] at held
      rcases held with before | added
      · obtain ⟨old, found, same⟩ := List.mem_map.mp before
        rw [← show old.callback = timer.callback from congrArg Prod.fst same]
        exact valid.live old found
      · rw [show timer.callback = callback from congrArg Prod.fst added]
        exact live

theorem valid_run (calls : List TimerCall) : (run calls).Valid := by
  induction calls using List.reverseRecOn with
  | nil => exact ⟨List.nodup_nil, fun timer member => nomatch member⟩
  | append_singleton calls call ih =>
    rw [run_snoc]
    exact ih.step call

theorem entriesOf_step_untouched {call : TimerCall} {key : Word × Word}
    (untouched : ¬call.Touches key) (idle : ∀ elapsedMs, call ≠ .tick elapsedMs) :
    (queue.step call).entriesOf key = queue.entriesOf key := by
  cases call with
  | schedule ms callback userData r0Override => exact entriesOf_schedule_of_ne untouched
  | cancel callback userData => exact entriesOf_cancel_of_ne untouched
  | tick elapsedMs => exact absurd rfl (idle elapsedMs)

/-- A tick falls short of a timer's time exactly when it falls short of what is left of it. -/
theorem fallsShort_tick_iff {since : List TimerCall} {ms remaining elapsedMs : Word}
    (left : remaining.toNat + elapsedIn since = ms.toNat) :
    FallsShort ms since (.tick elapsedMs) ↔ ¬remaining ≤ elapsedMs := by
  rw [FallsShort, BitVec.le_def]
  omega

/-- What is left of it after such a tick. -/
theorem left_after {since : List TimerCall} {ms remaining elapsedMs : Word}
    (left : remaining.toNat + elapsedIn since = ms.toNat) (short : ¬remaining ≤ elapsedMs) :
    (remaining - elapsedMs).toNat + (elapsedIn since + elapsedMs.toNat) = ms.toNat := by
  rw [BitVec.le_def] at short
  rw [BitVec.toNat_sub_of_le (BitVec.le_def.mpr (Nat.le_of_not_le short))]
  omega

/-- A call that is no tick takes no time and falls short of nothing. -/
theorem fallsShort_idle {since : List TimerCall} {ms : Word} {call : TimerCall}
    (idle : ∀ elapsedMs, call ≠ .tick elapsedMs) : call.elapsed = 0 ∧ FallsShort ms since call := by
  cases call with
  | schedule => exact ⟨rfl, trivial⟩
  | cancel => exact ⟨rfl, trivial⟩
  | tick elapsedMs => exact absurd rfl (idle elapsedMs)

/-- Until it runs out, a timer is pending with what is left of its time; then it is gone. -/
theorem entriesOf_armed {before since : List TimerCall} {ms callback userData : Word}
    {r0Override : Option Word} (live : callback ≠ 0)
    (untouched : ∀ call ∈ since, ¬call.Touches (callback, userData)) :
    (Throughout (FallsShort ms) since ∧ ∃ remaining : Word,
        remaining.toNat + elapsedIn since = ms.toNat ∧
        (run (before ++ .schedule ms callback userData r0Override :: since)).entriesOf
          (callback, userData) = [⟨remaining, callback, userData, r0Override⟩]) ∨
      (¬Throughout (FallsShort ms) since ∧
        (run (before ++ .schedule ms callback userData r0Override :: since)).entriesOf
          (callback, userData) = []) := by
  induction since using List.reverseRecOn with
  | nil =>
    rw [run_snoc]
    exact .inl ⟨throughout_nil, ms, rfl, entriesOf_schedule (valid_run before) live⟩
  | append_singleton since call ih =>
    have earlier := ih fun call member => untouched call (List.mem_append_left _ member)
    have own := untouched call (by simp)
    rw [throughout_snoc, ← List.cons_append, ← List.append_assoc, run_snoc]
    have total : elapsedIn (since ++ [call]) = elapsedIn since + call.elapsed := by simp [elapsedIn]
    rw [total]
    by_cases ticks : ∃ elapsedMs, call = .tick elapsedMs
    · obtain ⟨elapsedMs, rfl⟩ := ticks
      rw [step, entriesOf_tick]
      rcases earlier with ⟨short, remaining, left, entries⟩ | ⟨passed, entries⟩
      · rw [entries, fallsShort_tick_iff left]
        by_cases fires : remaining ≤ elapsedMs
        · exact .inr ⟨fun both => both.2 fires, by simp [due, fires]⟩
        · refine .inl ⟨⟨short, fires⟩, remaining - elapsedMs, ?_, by simp [due, age, fires]⟩
          exact left_after left fires
      · rw [entries]
        exact .inr ⟨fun both => passed both.1, rfl⟩
    · have idle : ∀ elapsedMs, call ≠ .tick elapsedMs := fun elapsedMs same => ticks ⟨_, same⟩
      obtain ⟨still, short⟩ := @fallsShort_idle since ms call idle
      rw [entriesOf_step_untouched own idle, still]
      rcases earlier with ⟨before, rest⟩ | ⟨passed, entries⟩
      · exact .inl ⟨⟨before, short⟩, rest⟩
      · exact .inr ⟨fun both => passed both.1, entries⟩

/-- The last tick of a run reports the timer exactly when it is the first to reach its time. -/
theorem reports_armed {before since : List TimerCall} {ms callback userData elapsedMs : Word}
    {r0Override : Option Word} (live : callback ≠ 0)
    (untouched : ∀ call ∈ since, ¬call.Touches (callback, userData)) :
    let armed := run (before ++ .schedule ms callback userData r0Override :: since)
    let reports := (armed.tick elapsedMs).1.filter (·.key = (callback, userData))
    let reached := Throughout (FallsShort ms) since ∧
      ms.toNat ≤ elapsedIn since + elapsedMs.toNat
    (reached ∧ reports = [⟨callback, userData, r0Override⟩]) ∨ (¬reached ∧ reports = []) := by
  intro armed reports reached
  simp only [reports, armed, filter_reports]
  rcases @entriesOf_armed before since ms callback userData r0Override live untouched with
    ⟨short, remaining, left, entries⟩ | ⟨passed, entries⟩
  · rw [entries]
    by_cases fires : remaining ≤ elapsedMs
    · refine .inl ⟨⟨short, ?_⟩, by simp [due, fires, report]⟩
      rw [BitVec.le_def] at fires
      omega
    · refine .inr ⟨fun both => ?_, by simp [due, fires]⟩
      have enough := both.2
      rw [BitVec.le_def] at fires
      omega
  · rw [entries]
    exact .inr ⟨fun both => passed both.1, rfl⟩

/-- The call at a position made the timer pending, and it has been pending ever since. -/
structure RegisteredAt (calls : List TimerCall) (key : Word × Word) (position : Nat) : Prop where
  inside : position < calls.length
  scheduled : ∃ ms r0Override, calls[position]? = some (.schedule ms key.1 key.2 r0Override)
  fresh : ¬(run (calls.take position)).Pending key
  held : ∀ length, position < length → length ≤ calls.length →
    (run (calls.take length)).Pending key

def RegisteredBefore (calls : List TimerCall) (left right : Word × Word) : Prop :=
  ∃ earlier later, earlier < later ∧ RegisteredAt calls left earlier ∧ RegisteredAt calls right later

theorem RegisteredAt.snoc {call : TimerCall} {key : Word × Word} {position : Nat}
    (registered : RegisteredAt calls key position) (still : (run (calls ++ [call])).Pending key) :
    RegisteredAt (calls ++ [call]) key position where
  inside := by
    rw [List.length_append]
    exact Nat.lt_add_right _ registered.inside
  scheduled := by
    rw [List.getElem?_append_left registered.inside]
    exact registered.scheduled
  fresh := by
    rw [List.take_append_of_le_length (Nat.le_of_lt registered.inside)]
    exact registered.fresh
  held := by
    intro length beyond within
    rw [List.length_append, List.length_singleton] at within
    rcases Nat.lt_or_eq_of_le within with shorter | whole
    · rw [List.take_append_of_le_length (by omega)]
      exact registered.held length beyond (by omega)
    · rw [List.take_of_length_le (by simp [whole])]
      exact still

theorem registeredAt_new {ms callback userData : Word} {r0Override : Option Word}
    (fresh : ¬(run calls).Pending (callback, userData))
    (pending : (run (calls ++ [.schedule ms callback userData r0Override])).Pending
      (callback, userData)) :
    RegisteredAt (calls ++ [.schedule ms callback userData r0Override]) (callback, userData)
      calls.length where
  inside := by simp
  scheduled := ⟨ms, r0Override, by simp⟩
  fresh := by simpa using fresh
  held := by
    intro length beyond within
    rw [List.take_of_length_le (by simp at within ⊢; omega)]
    exact pending

/-- Every pending timer was registered, and the queue is in order of registration. -/
theorem registered_run (calls : List TimerCall) :
    (∀ key, (run calls).Pending key → ∃ position, RegisteredAt calls key position) ∧
      ((run calls).timers.map TimerEntry.key).Pairwise (RegisteredBefore calls) := by
  induction calls using List.reverseRecOn with
  | nil => exact ⟨fun key pending => (List.not_mem_nil pending).elim, List.Pairwise.nil⟩
  | append_singleton calls call ih =>
    obtain ⟨registered, ordered⟩ := ih
    have kept : ∀ {left right}, (run (calls ++ [call])).Pending left →
        (run (calls ++ [call])).Pending right → RegisteredBefore calls left right →
        RegisteredBefore (calls ++ [call]) left right := by
      rintro left right stillLeft stillRight ⟨earlier, later, before, first, second⟩
      exact ⟨earlier, later, before, first.snoc stillLeft, second.snoc stillRight⟩
    rcases keys_step (run calls) call with fewer | ⟨ms, callback, userData, r0, rfl, _, fresh, keys⟩
    · rw [← run_snoc] at fewer
      refine ⟨fun key pending => ?_, ?_⟩
      · obtain ⟨position, since⟩ := registered key (fewer.subset pending)
        exact ⟨position, since.snoc pending⟩
      · refine (ordered.sublist fewer).imp_of_mem ?_
        exact fun left right before => kept left right before
    · rw [← run_snoc] at keys
      have pending : ∀ key, (run (calls ++ [.schedule ms callback userData r0])).Pending key ↔
          (run calls).Pending key ∨ key = (callback, userData) := by
        intro key
        rw [Pending, keys, List.mem_append, List.mem_singleton, Pending]
      have new := registeredAt_new fresh ((pending _).mpr (.inr rfl))
      refine ⟨fun key held => ?_, ?_⟩
      · rcases (pending key).mp held with old | rfl
        · obtain ⟨position, since⟩ := registered key old
          exact ⟨position, since.snoc held⟩
        · exact ⟨calls.length, new⟩
      · rw [keys, List.pairwise_append]
        refine ⟨ordered.imp_of_mem fun left right before => ?_, List.pairwise_singleton _ _, ?_⟩
        · exact kept ((pending _).mpr (.inl left)) ((pending _).mpr (.inl right)) before
        · intro old member added last
          rw [List.mem_singleton.mp last]
          obtain ⟨position, since⟩ := registered old member
          exact ⟨position, calls.length, since.inside, since.snoc ((pending _).mpr (.inl member)), new⟩

theorem keys_reports (queue : BrewTimerQueue) (elapsedMs : Word) :
    List.Sublist ((queue.tick elapsedMs).1.map ExpiredTimer.key)
      (queue.timers.map TimerEntry.key) := by
  rw [tick_eq, List.map_map]
  exact List.filter_sublist.map TimerEntry.key

/-- The law of the timers over all runs: one pending timer for a key and none without a callback;
a timer armed and not touched since is reported by the first tick that reaches its time and by
no other; a tick reports in order of registration; cancelling tells whether the timer was
pending; and a tick may be split. -/
theorem timers_fire_once (calls : List TimerCall) :
    (run calls).Valid ∧
      (∀ before since ms callback userData r0Override elapsedMs,
        calls = before ++ .schedule ms callback userData r0Override :: since → callback ≠ 0 →
        (∀ call ∈ since, ¬call.Touches (callback, userData)) →
        ((run calls).Pending (callback, userData) ↔ Throughout (FallsShort ms) since) ∧
        let reports := ((run calls).tick elapsedMs).1.filter (·.key = (callback, userData))
        let reached := Throughout (FallsShort ms) since ∧
          ms.toNat ≤ elapsedIn since + elapsedMs.toNat
        (reached ∧ reports = [⟨callback, userData, r0Override⟩]) ∨ (¬reached ∧ reports = [])) ∧
      (∀ elapsedMs,
        (∀ timer ∈ ((run calls).tick elapsedMs).1,
          ∃ position, RegisteredAt calls timer.key position) ∧
        (((run calls).tick elapsedMs).1.map ExpiredTimer.key).Pairwise (RegisteredBefore calls)) ∧
      (∀ callback userData,
        ((run calls).cancel callback userData).1 = true ↔
          (run calls).Pending (callback, userData)) ∧
      (∀ first second : Word, first.toNat + second.toNat < 2 ^ 32 →
        List.Perm
          (((run calls).tick first).1 ++ ((run (calls ++ [.tick first])).tick second).1)
          ((run calls).tick (first + second)).1 ∧
        run (calls ++ [.tick first, .tick second]) = run (calls ++ [.tick (first + second)])) := by
  refine ⟨valid_run calls, ?_, ?_, ?_, ?_⟩
  · rintro before since ms callback userData r0Override elapsedMs rfl live untouched
    refine ⟨?_, reports_armed live untouched⟩
    rcases entriesOf_armed live untouched with ⟨short, remaining, _, entries⟩ | ⟨passed, entries⟩
    · refine iff_of_true ?_ short
      by_contra absent
      rw [entriesOf_eq_nil.mpr absent] at entries
      cases entries
    · exact iff_of_false (entriesOf_eq_nil.mp entries) passed
  · intro elapsedMs
    obtain ⟨registered, ordered⟩ := registered_run calls
    have reported := keys_reports (run calls) elapsedMs
    refine ⟨fun timer member => ?_, ordered.sublist reported⟩
    exact registered timer.key (reported.subset (List.mem_map_of_mem member))
  · intro callback userData
    rw [cancel_eq]
    exact decide_eq_true_iff
  · intro first second fits
    have split := tick_tick fits (run calls)
    rw [run_snoc, ← List.singleton_append, ← List.append_assoc, run_snoc, run_snoc, run_snoc]
    exact split

theorem timers_fire_once_after_ten :
    ((run [.schedule 10 1 2 (some 7), .tick 4]).tick 6).1.filter (·.key = (1, 2)) =
      [⟨1, 2, some 7⟩] := by
  have fires := (timers_fire_once [.schedule 10 1 2 (some 7), .tick 4]).2.1 [] [.tick 4] 10 1 2
    (some 7) 6 rfl (by decide) (by simp [TimerCall.Touches])
  have short : Throughout (FallsShort 10) [.tick 4] := by
    rw [← List.nil_append [TimerCall.tick 4], throughout_snoc]
    exact ⟨throughout_nil, by simp [FallsShort, elapsedIn]⟩
  rcases fires.2 with ⟨_, reports⟩ | ⟨early, _⟩
  · exact reports
  · exact absurd ⟨short, by simp [elapsedIn, TimerCall.elapsed]⟩ early

end BrewTimerQueue

end ZeeboLle.Brew

import Mathlib.Data.Finset.SDiff
import Mathlib.Data.Finset.Filter
import ZeeboLle.Paging.KeyedList
import ZeeboLle.Scheduling.Runs

/-! `TraceDeduplicator`: program counters of a trace are shown unless they are among the recent
ones, and a write to their code makes them eligible again. What the window forgets is told by
how many later observations stood in it together. -/
namespace ZeeboLle.Control

open Paging Scheduling

/-- A depth below 1 raises `ValueError`. -/
structure TraceDeduplicator where
  recentDepth : Nat
  positive : 1 ≤ recentDepth
  visited : Finset Int
  recent : List Int
  omitted : Nat
  emitted : Nat

namespace TraceDeduplicator

def create (recentDepth : Nat) (positive : 1 ≤ recentDepth) : TraceDeduplicator where
  recentDepth := recentDepth
  positive := positive
  visited := ∅
  recent := []
  omitted := 0
  emitted := 0

/-- `deque(items, maxlen)`: the newest items. -/
def deque (maxlen : Nat) (items : List Int) : List Int := items.drop (items.length - maxlen)

def observe (dedup : TraceDeduplicator) (pc : Int) : Bool × TraceDeduplicator :=
  let suppress := decide (pc ∈ dedup.visited) && decide (pc ∈ dedup.recent)
  let dedup := { dedup with recent := deque dedup.recentDepth (dedup.recent ++ [pc]) }
  if suppress then (false, { dedup with omitted := dedup.omitted + 1 })
  else (true, { dedup with
    visited := insert pc dedup.visited
    emitted := dedup.emitted + 1 })

/-- The program counters in a range that were shown. -/
def affected (dedup : TraceDeduplicator) (addr size : Int) : Finset Int :=
  let size := if size < 1 then 1 else size
  dedup.visited.filter fun pc => addr ≤ pc ∧ pc < addr + size

def invalidate (dedup : TraceDeduplicator) (addr size : Int) : Finset Int × TraceDeduplicator :=
  let removed := dedup.affected addr size
  if removed = ∅ then (removed, dedup)
  else (removed, { dedup with
    visited := dedup.visited \ removed
    recent := deque dedup.recentDepth (dedup.recent.filter fun pc => pc ∉ removed) })

end TraceDeduplicator

/-- A call on a deduplicator. -/
inductive DedupCall where
  | observe (pc : Int)
  | invalidate (addr size : Int)
deriving DecidableEq, Repr

namespace DedupCall

def isObserve : DedupCall → Bool
  | .observe _ => true
  | .invalidate _ _ => false

/-- The call writes over this program counter, by one byte at least. -/
def covers (pc : Int) : DedupCall → Bool
  | .observe _ => false
  | .invalidate addr size => addr ≤ pc && pc < addr + max size 1

def apply (dedup : TraceDeduplicator) : DedupCall → TraceDeduplicator
  | .observe pc => (dedup.observe pc).2
  | .invalidate addr size => (dedup.invalidate addr size).2

end DedupCall

def observations (calls : List DedupCall) : Nat := calls.countP DedupCall.isObserve

def stand (held : List Int) : DedupCall → List Int
  | .observe pc => held ++ [pc]
  | .invalidate addr size => held.filter fun pc => !(DedupCall.invalidate addr size).covers pc

/-- The observations that no later call wrote over, oldest first. -/
def standing (calls : List DedupCall) : List Int := calls.foldl stand []

/-- The calls since a program counter was last observed, none of which wrote over it. -/
structure Untouched (past : List DedupCall) (pc : Int) (since : List DedupCall) : Prop where
  seen : ∃ before, past = before ++ .observe pc :: since
  last : .observe pc ∉ since
  kept : ∀ call ∈ since, call.covers pc = false

/-- At some moment so many observations stood together. -/
def Crowded (depth : Nat) (since : List DedupCall) : Prop :=
  ∃ upTo, upTo <+: since ∧ depth ≤ (standing upTo).length

namespace TraceDeduplicator

/-- A deduplicator after these calls. -/
def after (depth : Nat) (positive : 1 ≤ depth) (calls : List DedupCall) : TraceDeduplicator :=
  calls.foldl DedupCall.apply (create depth positive)

/-- Exactly the repeats within the last observations are suppressed, every observation is
counted, and what is invalidated is what was emitted. -/
structure Deduplicates (depth : Nat) (positive : 1 ≤ depth) (calls : List DedupCall) : Prop where
  suppressed : ∀ past pc later, calls = past ++ .observe pc :: later →
    (((after depth positive past).observe pc).1 = false ↔
      ∃ since, Untouched past pc since ∧ observations since < depth)
  counted : (after depth positive calls).emitted + (after depth positive calls).omitted =
    observations calls
  returned : ∀ past addr size later, calls = past ++ .invalidate addr size :: later → ∀ pc,
    (pc ∈ ((after depth positive past).invalidate addr size).1 ↔
      (DedupCall.invalidate addr size).covers pc = true ∧
        ∃ before since, past = before ++ .observe pc :: since ∧
          ((after depth positive before).observe pc).1 = true ∧
          ∀ call ∈ since, call.covers pc = false)

end TraceDeduplicator

variable {calls past since : List DedupCall} {call : DedupCall} {pc : Int} {depth : Nat}

@[simp] theorem standing_snoc (calls : List DedupCall) (call : DedupCall) :
    standing (calls ++ [call]) = stand (standing calls) call := by
  simp [standing]

@[simp] theorem observations_snoc (calls : List DedupCall) (call : DedupCall) :
    observations (calls ++ [call]) = observations calls + if call.isObserve then 1 else 0 := by
  simp [observations, List.countP_append, List.countP_singleton]

theorem mem_of_mem_standing (stands : pc ∈ standing calls) : .observe pc ∈ calls := by
  induction calls using List.reverseRecOn with
  | nil => cases stands
  | append_singleton calls call ih =>
    rw [standing_snoc] at stands
    rw [List.mem_append]
    cases call with
    | observe other =>
      rcases List.mem_append.mp stands with old | new
      · exact .inl (ih old)
      · rw [List.mem_singleton.mp new]
        exact .inr List.mem_cons_self
    | invalidate addr size => exact .inl (ih (List.mem_filter.mp stands).1)

theorem length_standing_le (calls : List DedupCall) :
    (standing calls).length ≤ observations calls := by
  induction calls using List.reverseRecOn with
  | nil => exact Nat.zero_le _
  | append_singleton calls call ih =>
    rw [standing_snoc, observations_snoc]
    cases call with
    | observe pc =>
      rw [stand, List.length_append]
      exact Nat.add_le_add_right ih 1
    | invalidate addr size => exact (List.length_filter_le _ _).trans (Nat.le_add_right_of_le ih)

theorem crowded_snoc : Crowded depth (since ++ [call]) ↔
    Crowded depth since ∨ depth ≤ (standing (since ++ [call])).length := by
  constructor
  · rintro ⟨upTo, initial, many⟩
    rcases List.prefix_concat_iff.mp initial with rfl | earlier
    · exact .inr many
    · exact .inl ⟨upTo, earlier, many⟩
  · rintro (⟨upTo, initial, many⟩ | many)
    · exact ⟨upTo, initial.trans (List.prefix_append _ _), many⟩
    · exact ⟨_, List.prefix_rfl, many⟩

/-- Fewer observations than the depth never crowd a program counter out. -/
theorem not_crowded_of_few (few : observations since < depth) : ¬Crowded depth since := by
  rintro ⟨upTo, ⟨rest, rfl⟩, many⟩
  have short := length_standing_le upTo
  have part : observations upTo ≤ observations (upTo ++ rest) := by
    rw [observations, observations, List.countP_append]
    exact Nat.le_add_right _ _
  omega

theorem few_of_not_crowded (room : ¬Crowded depth since) : (standing since).length < depth :=
  not_le.mp fun many => room ⟨since, List.prefix_rfl, many⟩

namespace TraceDeduplicator

variable {dedup : TraceDeduplicator} {positive : 1 ≤ depth}

theorem mem_of_mem_deque {maxlen : Nat} {items : List Int} (member : pc ∈ deque maxlen items) :
    pc ∈ items := List.mem_of_mem_drop member

theorem deque_short {maxlen : Nat} {items : List Int} (short : items.length ≤ maxlen) :
    deque maxlen items = items := by
  rw [deque, Nat.sub_eq_zero_of_le short, List.drop_zero]

theorem length_deque_le (maxlen : Nat) (items : List Int) : (deque maxlen items).length ≤ maxlen := by
  rw [deque, List.length_drop]
  omega

/-- The newest items stay as long as they fit. -/
theorem deque_append {maxlen : Nat} {front back : List Int} (fits : back.length ≤ maxlen) :
    deque maxlen (front ++ back) = deque (maxlen - back.length) front ++ back := by
  have same : (front ++ back).length - maxlen = front.length - (maxlen - back.length) := by
    rw [List.length_append]
    omega
  rw [deque, same, List.drop_append_of_le_length (Nat.sub_le _ _), deque]

theorem deque_full {maxlen : Nat} {front back : List Int} (full : back.length = maxlen) :
    deque maxlen (front ++ back) = back := by
  rw [deque_append full.le, full, Nat.sub_self, deque, Nat.sub_zero, List.drop_length,
    List.nil_append]

/-- What is in the window has been shown, and the window is no longer than its depth. -/
structure Windowed (dedup : TraceDeduplicator) : Prop where
  visited : ∀ pc ∈ dedup.recent, pc ∈ dedup.visited
  short : dedup.recent.length ≤ dedup.recentDepth

theorem recent_observe (dedup : TraceDeduplicator) (pc : Int) :
    (dedup.observe pc).2.recent = deque dedup.recentDepth (dedup.recent ++ [pc]) := by
  unfold observe
  dsimp only
  split
  · rfl
  · rfl

/-- A repeat is suppressed, as everything in the window has been shown. -/
theorem Windowed.observe_false (windowed : dedup.Windowed) :
    (dedup.observe pc).1 = false ↔ pc ∈ dedup.recent := by
  unfold observe
  dsimp only
  split
  · next suppress => simpa using (Bool.and_eq_true_iff.mp suppress).2
  · next shown =>
    have absent : pc ∉ dedup.recent := fun member =>
      shown (by simp [windowed.visited pc member, member])
    simp [absent]

theorem mem_affected {addr size : Int} : pc ∈ dedup.affected addr size ↔
    pc ∈ dedup.visited ∧ (DedupCall.invalidate addr size).covers pc = true := by
  have width : (if size < 1 then 1 else size) = max size 1 := by
    split <;> omega
  rw [affected, width, Finset.mem_filter]
  simp [DedupCall.covers]

theorem invalidate_fst (dedup : TraceDeduplicator) (addr size : Int) :
    (dedup.invalidate addr size).1 = dedup.affected addr size := by
  unfold invalidate
  dsimp only
  split
  · rfl
  · rfl

theorem visited_invalidate (dedup : TraceDeduplicator) (addr size : Int) :
    (dedup.invalidate addr size).2.visited = dedup.visited \ dedup.affected addr size := by
  unfold invalidate
  dsimp only
  split
  · next unaffected => rw [unaffected, Finset.sdiff_empty]
  · rfl

/-- Invalidation takes out of the window what it covers. -/
theorem Windowed.recent_invalidate (windowed : dedup.Windowed) (addr size : Int) :
    (dedup.invalidate addr size).2.recent = stand dedup.recent (.invalidate addr size) := by
  have same : ∀ pc ∈ dedup.recent, decide (pc ∉ dedup.affected addr size) =
      !(DedupCall.invalidate addr size).covers pc := by
    intro pc member
    simp [mem_affected, windowed.visited pc member]
  have filtered : dedup.recent.filter (fun pc => pc ∉ dedup.affected addr size) =
      stand dedup.recent (.invalidate addr size) := List.filter_congr same
  unfold invalidate
  dsimp only
  split
  · next unaffected =>
    rw [← filtered, unaffected]
    simp
  · rw [deque_short ((List.length_filter_le _ _).trans windowed.short)]
    exact filtered

theorem depth_apply (dedup : TraceDeduplicator) (call : DedupCall) :
    (call.apply dedup).recentDepth = dedup.recentDepth := by
  cases call with
  | observe pc =>
    rw [DedupCall.apply, observe]
    split
    · rfl
    · rfl
  | invalidate addr size =>
    rw [DedupCall.apply, invalidate]
    split
    · rfl
    · rfl

theorem visited_observe (dedup : TraceDeduplicator) (pc : Int) :
    (dedup.observe pc).2.visited = insert pc dedup.visited := by
  unfold observe
  dsimp only
  split
  · next suppress =>
    have shown : pc ∈ dedup.visited := by simpa using (Bool.and_eq_true_iff.mp suppress).1
    exact (Finset.insert_eq_of_mem shown).symm
  · rfl

theorem Windowed.apply (windowed : dedup.Windowed) (call : DedupCall) :
    (call.apply dedup).Windowed := by
  cases call with
  | observe pc =>
    constructor
    · intro other member
      rw [DedupCall.apply, recent_observe] at member
      rw [DedupCall.apply, visited_observe, Finset.mem_insert]
      rcases List.mem_append.mp (mem_of_mem_deque member) with old | new
      · exact .inr (windowed.visited other old)
      · exact .inl (List.mem_singleton.mp new)
    · rw [depth_apply, DedupCall.apply, recent_observe]
      exact length_deque_le _ _
  | invalidate addr size =>
    have recent := windowed.recent_invalidate addr size
    constructor
    · intro other member
      rw [DedupCall.apply, recent, stand] at member
      obtain ⟨old, spared⟩ := List.mem_filter.mp member
      rw [DedupCall.apply, visited_invalidate, Finset.mem_sdiff, mem_affected]
      refine ⟨windowed.visited other old, fun gone => ?_⟩
      rw [gone.2] at spared
      cases spared
    · rw [depth_apply, DedupCall.apply, recent]
      exact (List.length_filter_le _ _).trans windowed.short

@[simp] theorem after_snoc (calls : List DedupCall) (call : DedupCall) :
    after depth positive (calls ++ [call]) = call.apply (after depth positive calls) := by
  simp [after]

theorem depth_after (calls : List DedupCall) : (after depth positive calls).recentDepth = depth := by
  induction calls using List.reverseRecOn with
  | nil => rfl
  | append_singleton calls call ih => rw [after_snoc, depth_apply, ih]

theorem windowed_after (calls : List DedupCall) : (after depth positive calls).Windowed := by
  induction calls using List.reverseRecOn with
  | nil => exact ⟨fun _ member => absurd member List.not_mem_nil, Nat.zero_le _⟩
  | append_singleton calls call ih =>
    rw [after_snoc]
    exact ih.apply call

/-- An observation stays in the window, with all that stand behind it, until it is written over
or crowded out; then it is gone until it comes again. -/
theorem recent_after (past : List DedupCall) (last : .observe pc ∉ since) :
    (((∀ call ∈ since, call.covers pc = false) ∧ ¬Crowded depth since) ∧
        ∃ older, (after depth positive (past ++ .observe pc :: since)).recent =
          older ++ pc :: standing since) ∨
      (¬((∀ call ∈ since, call.covers pc = false) ∧ ¬Crowded depth since) ∧
        pc ∉ (after depth positive (past ++ .observe pc :: since)).recent) := by
  induction since using List.reverseRecOn with
  | nil =>
    left
    refine ⟨⟨fun _ member => absurd member List.not_mem_nil, ?_⟩, ?_⟩
    · exact not_crowded_of_few positive
    · rw [after_snoc, DedupCall.apply, recent_observe, depth_after]
      exact ⟨_, deque_append (by simpa using positive)⟩
  | append_singleton since call ih =>
    have earlier : .observe pc ∉ since := fun member => last (List.mem_append_left _ member)
    have run : after depth positive (past ++ .observe pc :: (since ++ [call])) =
        call.apply (after depth positive (past ++ .observe pc :: since)) := by
      rw [← List.cons_append, ← List.append_assoc, after_snoc]
    have kept : (∀ other ∈ since ++ [call], other.covers pc = false) ↔
        (∀ other ∈ since, other.covers pc = false) ∧ call.covers pc = false := by
      simp [or_imp, forall_and]
    rw [run, kept, crowded_snoc, standing_snoc]
    cases call with
    | observe other =>
      have different : pc ≠ other := fun same => last (by simp [same])
      rw [DedupCall.apply, recent_observe, depth_after]
      rcases ih earlier with ⟨⟨spared, room⟩, older, window⟩ | ⟨gone, absent⟩
      · rw [window, stand]
        by_cases many : depth ≤ (standing since ++ [other]).length
        · right
          refine ⟨fun stays => stays.2 (.inr many), fun member => ?_⟩
          have full : (standing since ++ [other]).length = depth := by
            have few := few_of_not_crowded room
            rw [List.length_append, List.length_singleton] at many ⊢
            omega
          have parts : older ++ pc :: standing since ++ [other] =
              older ++ [pc] ++ (standing since ++ [other]) := by simp
          rw [parts, deque_full full] at member
          rcases List.mem_append.mp member with stands | same
          · exact earlier (mem_of_mem_standing stands)
          · exact different (List.mem_singleton.mp same)
        · left
          refine ⟨⟨⟨spared, rfl⟩, not_or.mpr ⟨room, many⟩⟩, ?_⟩
          have fits : (pc :: (standing since ++ [other])).length ≤ depth := by
            rw [List.length_cons]
            omega
          rw [List.append_assoc, List.cons_append, deque_append fits]
          exact ⟨_, rfl⟩
      · right
        refine ⟨fun stays => gone ⟨stays.1.1, fun crowded => stays.2 (.inl crowded)⟩, ?_⟩
        intro member
        rcases List.mem_append.mp (mem_of_mem_deque member) with old | same
        · exact absent old
        · exact different (List.mem_singleton.mp same)
    | invalidate addr size =>
      rw [DedupCall.apply, (windowed_after _).recent_invalidate]
      rcases ih earlier with ⟨⟨spared, room⟩, older, window⟩ | ⟨gone, absent⟩
      · rw [window]
        cases covered : (DedupCall.invalidate addr size).covers pc with
        | false =>
          left
          refine ⟨⟨⟨spared, rfl⟩, not_or.mpr ⟨room, ?_⟩⟩, ?_⟩
          · have few := few_of_not_crowded room
            have fewer := List.length_filter_le
              (fun pc => !(DedupCall.invalidate addr size).covers pc) (standing since)
            rw [stand]
            omega
          · simp only [stand, List.filter_append, List.filter_cons, covered]
            exact ⟨_, rfl⟩
        | true =>
          right
          refine ⟨fun stays => Bool.noConfusion stays.1.2, ?_⟩
          simp [stand, covered]
      · right
        refine ⟨fun stays => gone ⟨stays.1.1, fun crowded => stays.2 (.inl crowded)⟩, ?_⟩
        exact fun member => absent (List.mem_filter.mp member).1

/-- What was shown and not written over since. -/
theorem visited_after (calls : List DedupCall) : pc ∈ (after depth positive calls).visited ↔
    ∃ before since, calls = before ++ .observe pc :: since ∧
      ((after depth positive before).observe pc).1 = true ∧
        ∀ call ∈ since, call.covers pc = false := by
  induction calls using List.reverseRecOn with
  | nil => simp [after, create]
  | append_singleton calls call ih =>
    rw [after_snoc]
    constructor
    · intro shown
      have again (old : pc ∈ (after depth positive calls).visited)
          (spared : call.covers pc = false) :
          ∃ before since, calls ++ [call] = before ++ .observe pc :: since ∧
            ((after depth positive before).observe pc).1 = true ∧
              ∀ call ∈ since, call.covers pc = false := by
        obtain ⟨before, since, rfl, first, kept⟩ := ih.mp old
        refine ⟨before, since ++ [call], by simp, first, ?_⟩
        intro other member
        rcases List.mem_append.mp member with early | late
        · exact kept other early
        · rwa [List.mem_singleton.mp late]
      cases call with
      | observe other =>
        rw [DedupCall.apply, visited_observe, Finset.mem_insert] at shown
        rcases shown with rfl | old
        · cases first : ((after depth positive calls).observe pc).1 with
          | true =>
            exact ⟨calls, [], rfl, first, fun _ member => absurd member List.not_mem_nil⟩
          | false =>
            have repeated := (windowed_after calls).observe_false.mp first
            exact again ((windowed_after calls).visited pc repeated) rfl
        · exact again old rfl
      | invalidate addr size =>
        rw [DedupCall.apply, visited_invalidate, Finset.mem_sdiff, mem_affected, not_and] at shown
        exact again shown.1 (Bool.not_eq_true _ ▸ shown.2 shown.1)
    · rintro ⟨before, since, split, first, kept⟩
      rcases snoc_eq_iff.mp split with ⟨rfl, rfl, rfl⟩ | ⟨rest, rfl, rfl⟩
      · rw [DedupCall.apply, visited_observe]
        exact Finset.mem_insert_self _ _
      · have old := ih.mpr ⟨before, rest, rfl, first, fun call member =>
          kept call (List.mem_append_left _ member)⟩
        have spared := kept call (by simp)
        cases call with
        | observe other =>
          rw [DedupCall.apply, visited_observe]
          exact Finset.mem_insert_of_mem old
        | invalidate addr size =>
          rw [DedupCall.apply, visited_invalidate, Finset.mem_sdiff, mem_affected, spared]
          exact ⟨old, fun gone => Bool.noConfusion gone.2⟩

/-- The calls since the last observation are determined. -/
theorem untouched_unique {other : List DedupCall} (left : Untouched past pc since)
    (right : Untouched past pc other) : since = other := by
  have tail {calls : List DedupCall} (untouched : Untouched past pc calls) :
      past.reverse.takeWhile (fun call => call != .observe pc) = calls.reverse := by
    obtain ⟨before, rfl⟩ := untouched.seen
    have none : ∀ call ∈ calls.reverse, (call != .observe pc) = true := by
      intro call member
      rw [bne_iff_ne]
      rintro rfl
      exact untouched.last (List.mem_reverse.mp member)
    rw [List.reverse_append, List.reverse_cons, List.append_assoc,
      List.takeWhile_append_of_pos none]
    simp
  exact List.reverse_injective ((tail left).symm.trans (tail right))

/-- The window holds what was observed and neither written over nor crowded out. -/
theorem mem_recent_after (calls : List DedupCall) : pc ∈ (after depth positive calls).recent ↔
    ∃ since, Untouched calls pc since ∧ ¬Crowded depth since := by
  constructor
  · intro member
    obtain ⟨front, back, split, -⟩ :=
      (visited_after calls).mp ((windowed_after calls).visited pc member)
    have seen : DedupCall.observe pc ∈ calls := by simp [split]
    obtain ⟨last, found⟩ := exists_latest (fun call => decide (call = DedupCall.observe pc)) seen
      (decide_eq_true rfl)
    obtain ⟨own, before, since, rfl, absent⟩ := latest_eq_some_iff.mp found
    rw [of_decide_eq_true own] at member ⊢
    have last : .observe pc ∉ since := fun again => by simpa using absent _ again
    rcases recent_after before last with ⟨⟨kept, room⟩, -⟩ | ⟨-, gone⟩
    · exact ⟨since, ⟨⟨before, rfl⟩, last, kept⟩, room⟩
    · exact absurd member gone
  · rintro ⟨since, ⟨⟨before, rfl⟩, last, kept⟩, room⟩
    rcases recent_after before last with ⟨-, older, window⟩ | ⟨gone, -⟩
    · rw [window]
      exact List.mem_append_right _ List.mem_cons_self
    · exact absurd ⟨kept, room⟩ gone

theorem counted_after (calls : List DedupCall) :
    (after depth positive calls).emitted + (after depth positive calls).omitted =
      observations calls := by
  induction calls using List.reverseRecOn with
  | nil => rfl
  | append_singleton calls call ih =>
    rw [after_snoc, observations_snoc, ← ih]
    cases call with
    | observe pc =>
      rw [DedupCall.apply, observe]
      split
      · exact (Nat.add_assoc _ _ _).symm
      · exact Nat.add_right_comm _ _ _
    | invalidate addr size =>
      rw [DedupCall.apply, invalidate]
      split
      · rfl
      · rfl

/-- A trace is deduplicated as meant exactly if each program counter that comes again after
`depth` observations or more was crowded out by that many standing together. -/
theorem deduplicates_iff (positive : 1 ≤ depth) (calls : List DedupCall) :
    Deduplicates depth positive calls ↔
      ∀ past pc later, calls = past ++ .observe pc :: later → ∀ since, Untouched past pc since →
        depth ≤ observations since → Crowded depth since := by
  constructor
  · intro dedup past pc later split since untouched far
    by_contra room
    have recent : pc ∈ (after depth positive past).recent :=
      (mem_recent_after past).mpr ⟨since, untouched, room⟩
    have suppressed := (windowed_after past).observe_false.mpr recent
    obtain ⟨other, same, near⟩ := (dedup.suppressed past pc later split).mp suppressed
    rw [untouched_unique untouched same] at far
    omega
  · intro crowds
    refine ⟨fun past pc later split => ?_, counted_after calls, fun past addr size later _ pc => ?_⟩
    · rw [(windowed_after past).observe_false, mem_recent_after]
      constructor
      · rintro ⟨since, untouched, room⟩
        refine ⟨since, untouched, not_le.mp fun far => ?_⟩
        exact room (crowds past pc later split since untouched far)
      · rintro ⟨since, untouched, near⟩
        exact ⟨since, untouched, not_crowded_of_few near⟩
    · rw [invalidate_fst, mem_affected, visited_after, and_comm]

/-- Three observations are too few to go beyond a window of two. -/
theorem deduplicates_three :
    Deduplicates 2 (by decide) [.observe 4, .observe 8, .invalidate 8 4, .observe 4] := by
  apply (deduplicates_iff (by decide) _).mpr
  intro past pc later split since untouched far
  obtain ⟨before, rfl⟩ := untouched.seen
  have total := congrArg observations split
  have three : observations [.observe 4, .observe 8, .invalidate 8 4, .observe 4] = 3 := by decide
  simp only [observations, List.countP_append, List.countP_cons, DedupCall.isObserve, if_true]
    at total three far
  omega

/-- With the newer of two invalidated, the older one is held beyond the depth. -/
theorem not_deduplicates_invalidated :
    ¬Deduplicates 2 (by decide)
      [.observe 4, .observe 8, .invalidate 8 4, .observe 12, .observe 4] := by
  intro dedup
  have suppressed : ((after 2 (by decide)
      [.observe 4, .observe 8, .invalidate 8 4, .observe 12]).observe 4).1 = false := by decide
  have since : Untouched [.observe 4, .observe 8, .invalidate 8 4, .observe 12] 4
      [.observe 8, .invalidate 8 4, .observe 12] := ⟨⟨[], rfl⟩, by decide, by decide⟩
  obtain ⟨other, same, near⟩ := (dedup.suppressed _ 4 [] rfl).mp suppressed
  rw [← untouched_unique since same] at near
  exact absurd near (by decide)

end TraceDeduplicator

end ZeeboLle.Control

import Mathlib.Data.List.Induction

/-! Properties of the events of a run. An event is judged together with the events before it,
so a run that grows at its end is judged by its last event alone. -/
namespace ZeeboLle.Scheduling

variable {ε : Type*} {events before after : List ε} {event other : ε}

/-- Where an event stands in a run with one more event. -/
theorem snoc_eq_iff : events ++ [event] = before ++ other :: after ↔
    (events = before ∧ event = other ∧ after = []) ∨
      ∃ rest, after = rest ++ [event] ∧ events = before ++ other :: rest := by
  constructor
  · intro split
    cases after using List.reverseRecOn with
    | nil =>
      obtain ⟨same, last⟩ := List.append_inj' split rfl
      exact .inl ⟨same, List.singleton_inj.mp last, rfl⟩
    | append_singleton rest final =>
      rw [← List.cons_append, ← List.append_assoc] at split
      obtain ⟨same, last⟩ := List.append_inj' split rfl
      exact .inr ⟨rest, by rw [last], same⟩
  · rintro (⟨rfl, rfl, rfl⟩ | ⟨rest, rfl, rfl⟩)
    · rfl
    · simp

/-- A property of every event of a run and the events before it. -/
def Throughout (property : List ε → ε → Prop) (events : List ε) : Prop :=
  ∀ before event after, events = before ++ event :: after → property before event

theorem throughout_nil {property : List ε → ε → Prop} : Throughout property [] := by
  intro before event after split
  simp at split

theorem throughout_snoc {property : List ε → ε → Prop} :
    Throughout property (events ++ [event]) ↔ Throughout property events ∧ property events event := by
  constructor
  · intro every
    refine ⟨fun before other after split => ?_, every events event [] rfl⟩
    exact every before other (after ++ [event]) (snoc_eq_iff.mpr (.inr ⟨after, rfl, split⟩))
  · rintro ⟨early, last⟩ before other after split
    rcases snoc_eq_iff.mp split with ⟨rfl, rfl, _⟩ | ⟨rest, _, found⟩
    · exact last
    · exact early before other rest found

/-- An event of one kind came, and none of the other kind after it. -/
def Since (starts stops : ε → Bool) (events : List ε) : Prop :=
  ∃ before event after, events = before ++ event :: after ∧ starts event = true ∧
    ∀ later ∈ after, stops later = false

theorem not_since_nil {starts stops : ε → Bool} : ¬Since starts stops [] := by
  rintro ⟨before, event, after, split, -⟩
  simp at split

theorem since_snoc {starts stops : ε → Bool} : Since starts stops (events ++ [event]) ↔
    starts event = true ∨ stops event = false ∧ Since starts stops events := by
  constructor
  · rintro ⟨before, other, after, split, started, still⟩
    rcases snoc_eq_iff.mp split with ⟨-, rfl, -⟩ | ⟨rest, rfl, found⟩
    · exact .inl started
    · have earlier : ∀ later ∈ rest, stops later = false :=
        fun later member => still later (List.mem_append_left _ member)
      exact .inr ⟨still event (by simp), before, other, rest, found, started, earlier⟩
  · rintro (started | ⟨spared, before, other, after, rfl, started, still⟩)
    · exact ⟨events, event, [], rfl, started, fun _ member => absurd member List.not_mem_nil⟩
    · refine ⟨before, other, after ++ [event], by simp, started, fun later member => ?_⟩
      rcases List.mem_append.mp member with early | late
      · exact still later early
      · rwa [List.mem_singleton.mp late]

/-- As `Since`, where an event is of a kind because of the events before it. -/
def HeldSince (starts stops : List ε → ε → Prop) (events : List ε) : Prop :=
  ∃ before event after, events = before ++ event :: after ∧ starts before event ∧
    Throughout (fun between later => ¬stops (before ++ event :: between) later) after

theorem not_heldSince_nil {starts stops : List ε → ε → Prop} : ¬HeldSince starts stops [] := by
  rintro ⟨before, event, after, split, -⟩
  simp at split

theorem heldSince_snoc {starts stops : List ε → ε → Prop} :
    HeldSince starts stops (events ++ [event]) ↔
      starts events event ∨ ¬stops events event ∧ HeldSince starts stops events := by
  constructor
  · rintro ⟨before, other, after, split, started, still⟩
    rcases snoc_eq_iff.mp split with ⟨rfl, rfl, -⟩ | ⟨rest, rfl, rfl⟩
    · exact .inl started
    · obtain ⟨earlier, last⟩ := throughout_snoc.mp still
      exact .inr ⟨last, before, other, rest, rfl, started, earlier⟩
  · rintro (started | ⟨spared, before, other, after, rfl, started, still⟩)
    · exact ⟨events, event, [], rfl, started, throughout_nil⟩
    · exact ⟨before, other, after ++ [event], by simp, started, throughout_snoc.mpr ⟨still, spared⟩⟩

/-- What is held stays so over events that stop it only to start it again. -/
theorem HeldSince.append {starts stops : List ε → ε → Prop} {more : List ε}
    (held : HeldSince starts stops events)
    (renewed : Throughout (fun between later =>
      stops (events ++ between) later → starts (events ++ between) later) more) :
    HeldSince starts stops (events ++ more) := by
  induction more using List.reverseRecOn with
  | nil => rwa [List.append_nil]
  | append_singleton more last ih =>
    obtain ⟨earlier, final⟩ := throughout_snoc.mp renewed
    rw [← List.append_assoc, heldSince_snoc]
    by_cases stopped : stops (events ++ more) last
    · exact .inl (final stopped)
    · exact .inr ⟨stopped, ih earlier⟩

/-- Some event is the one after so many of a kind. -/
theorem exists_nth {kind : ε → Bool} {count : Nat} (enough : count < events.countP kind) :
    ∃ before event after, events = before ++ event :: after ∧ kind event = true ∧
      before.countP kind = count := by
  induction events using List.reverseRecOn with
  | nil => simp at enough
  | append_singleton events last ih =>
    by_cases early : count < events.countP kind
    · obtain ⟨before, event, after, split, found, counted⟩ := ih early
      exact ⟨before, event, after ++ [last], by simp [split], found, counted⟩
    · rw [List.countP_append, List.countP_singleton] at enough
      have found : kind last = true := by
        by_contra other
        rw [if_neg other] at enough
        exact early enough
      rw [if_pos found] at enough
      exact ⟨events, last, [], rfl, found, by omega⟩

/-- A flag that is up before some events and down after them comes down at one of them. -/
theorem exists_fall {σ : Type*} {step : σ → ε → σ} {state : σ} (flag : σ → Bool)
    (up : flag state = true) (down : flag (events.foldl step state) = false) :
    ∃ before event after, events = before ++ event :: after ∧
      flag (before.foldl step state) = true ∧
      flag (step (before.foldl step state) event) = false := by
  induction events using List.reverseRecOn with
  | nil =>
    rw [List.foldl_nil, up] at down
    cases down
  | append_singleton events event ih =>
    cases still : flag (events.foldl step state) with
    | true =>
      rw [List.foldl_append] at down
      exact ⟨events, event, [], rfl, still, down⟩
    | false =>
      obtain ⟨before, earlier, after, split, held, fell⟩ := ih still
      exact ⟨before, earlier, after ++ [event], by simp [split], held, fell⟩

section Counted

variable {σ : Type*} {count : Nat} {start : σ} (holds : Nat → σ → Prop)

/-- What holds at the start and is carried over each round holds at the end. -/
theorem foldl_range_invariant {round : σ → Nat → σ}
    (carried : ∀ i, i < count → ∀ state, holds i state → holds (i + 1) (round state i))
    (initial : holds 0 start) : holds count ((List.range count).foldl round start) := by
  induction count with
  | zero => exact initial
  | succ count ih =>
    rw [List.range_succ, List.foldl_append]
    refine carried count (Nat.lt_succ_self count) _ (ih fun i below => ?_)
    exact carried i (Nat.lt_succ_of_lt below)

/-- As for `foldl_range_invariant`, of a loop whose rounds may fail and do not. -/
theorem foldlM_range_invariant {round : σ → Nat → Option σ}
    (carried : ∀ i, i < count → ∀ state, holds i state →
      ∃ next, round state i = some next ∧ holds (i + 1) next)
    (initial : holds 0 start) :
    ∃ last, (List.range count).foldlM round start = some last ∧ holds count last := by
  induction count with
  | zero => exact ⟨start, rfl, initial⟩
  | succ count ih =>
    obtain ⟨middle, reached, held⟩ := ih fun i below => carried i (Nat.lt_succ_of_lt below)
    obtain ⟨last, finished, after⟩ := carried count (Nat.lt_succ_self count) middle held
    refine ⟨last, ?_, after⟩
    rw [List.range_succ, List.foldlM_append, reached]
    simp [finished]

/-- What a loop leaves at a place that one round alone changes. -/
theorem foldl_range_read {ρ : Type*} {round : σ → Nat → σ} (read : σ → ρ) (wanted : Nat) (change : ρ → ρ)
    (kept : ∀ i, i < count → i ≠ wanted → ∀ state, read (round state i) = read state)
    (changed : ∀ state, read (round state wanted) = change (read state)) :
    read ((List.range count).foldl round start) =
      if wanted < count then change (read start) else read start := by
  induction count with
  | zero => rfl
  | succ count ih =>
    have earlier := ih fun i below => kept i (Nat.lt_succ_of_lt below)
    rw [List.range_succ, List.foldl_append, List.foldl_cons, List.foldl_nil]
    by_cases here : count = wanted
    · rw [here, changed, ← here, earlier, here, if_neg (Nat.lt_irrefl wanted),
        if_pos (Nat.lt_succ_self wanted)]
    · rw [kept count (Nat.lt_succ_self count) here, earlier]
      simp only [show wanted < count + 1 ↔ wanted < count by omega]

end Counted

/-- A fold has a value exactly if every step has, whatever the state. -/
theorem foldlM_ne_none_iff {α β : Type*} {step : β → α → Option β} {Fine : α → Prop}
    (each : ∀ state item, step state item ≠ none ↔ Fine item) (items : List α) (start : β) :
    items.foldlM step start ≠ none ↔ ∀ item ∈ items, Fine item := by
  induction items generalizing start with
  | nil => simp
  | cons item rest ih =>
    rw [List.foldlM_cons, List.forall_mem_cons, ← each start item]
    cases stepped : step start item with
    | none => simp
    | some next => simpa using ih next

end ZeeboLle.Scheduling

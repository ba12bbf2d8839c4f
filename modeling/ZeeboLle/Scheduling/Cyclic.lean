import Mathlib.Data.List.Iterate
import Mathlib.Order.Defs.LinearOrder

/-! A finite set in its cyclic order, as an ascending list. From any point the members
above it come first and the others after them; whoever always goes to the next one meets
every member once in each round. -/
namespace ZeeboLle.Scheduling

variable {α : Type*} [LinearOrder α] {members : List α} {start first : α} {rest : List α}

/-- The members above the point, then those up to it. -/
def cyclicFrom (members : List α) (start : α) : List α :=
  (members.filter fun member => start < member) ++ members.filter fun member => ¬ start < member

theorem mem_cyclicFrom {member : α} : member ∈ cyclicFrom members start ↔ member ∈ members := by
  simp only [cyclicFrom, List.mem_append, List.mem_filter, decide_eq_true_eq]
  constructor
  · rintro (⟨present, _⟩ | ⟨present, _⟩)
    · exact present
    · exact present
  · intro present
    by_cases above : start < member
    · exact .inl ⟨present, above⟩
    · exact .inr ⟨present, above⟩

theorem cyclicFrom_perm (members : List α) (start : α) : (cyclicFrom members start).Perm members := by
  simpa only [cyclicFrom, decide_not] using
    List.filter_append_perm (fun member => decide (start < member)) members

theorem length_cyclicFrom (members : List α) (start : α) :
    (cyclicFrom members start).length = members.length := (cyclicFrom_perm members start).length_eq

private theorem filter_allAbove (above : ∀ member ∈ members, start < member) :
    members.filter (fun member => start < member) = members ∧
      members.filter (fun member => ¬ start < member) = [] := by
  constructor
  · rw [List.filter_eq_self]
    simpa using above
  · rw [List.filter_eq_nil_iff]
    simpa using above

private theorem filter_noneAbove (upTo : ∀ member ∈ members, ¬ start < member) :
    members.filter (fun member => start < member) = [] ∧
      members.filter (fun member => ¬ start < member) = members := by
  constructor
  · rw [List.filter_eq_nil_iff]
    simpa using upTo
  · rw [List.filter_eq_self]
    simpa using upTo

/-- In an ascending list the members up to a point stand before the others. -/
theorem eq_upTo_append_above (ascending : members.Pairwise (· < ·)) (start : α) :
    members = (members.filter fun member => ¬ start < member) ++
      members.filter fun member => start < member := by
  induction members with
  | nil => rfl
  | cons member others ih =>
    obtain ⟨least, ascending⟩ := List.pairwise_cons.mp ascending
    by_cases above : start < member
    · have higher : ∀ other ∈ member :: others, start < other := by
        intro other present
        rcases List.mem_cons.mp present with same | later
        · exact same ▸ above
        · exact above.trans (least other later)
      rw [(filter_allAbove higher).1, (filter_allAbove higher).2, List.nil_append]
    · rw [List.filter_cons_of_pos (by simpa using above), List.filter_cons_of_neg (by simpa using above),
        List.cons_append, ← ih ascending]

/-- The member that comes next goes to the end of the round. -/
theorem cyclicFrom_next (ascending : members.Pairwise (· < ·))
    (round : cyclicFrom members start = first :: rest) :
    cyclicFrom members first = rest ++ [first] := by
  have split := eq_upTo_append_above ascending start
  unfold cyclicFrom at round
  generalize members.filter (fun member => ¬ start < member) = low at split round
  cases above : members.filter (fun member => start < member) with
  | nil =>
    rw [above, List.nil_append] at round
    rw [above, List.append_nil, round] at split
    subst split
    obtain ⟨higher, lower⟩ := filter_allAbove (List.pairwise_cons.mp ascending).1
    rw [cyclicFrom, List.filter_cons_of_neg (by simp), List.filter_cons_of_pos (by simp), higher, lower]
  | cons next high =>
    rw [above, List.cons_append] at round
    obtain ⟨rfl, rfl⟩ := List.cons.inj round
    rw [above] at split
    subst split
    obtain ⟨_, ordered, below⟩ := List.pairwise_append.mp ascending
    obtain ⟨noneLow, allLow⟩ := filter_noneAbove fun member present =>
      (below member present next List.mem_cons_self).asymm
    obtain ⟨allHigh, noneHigh⟩ := filter_allAbove (List.pairwise_cons.mp ordered).1
    rw [cyclicFrom, List.filter_append, List.filter_append, List.filter_cons_of_neg (by simp),
      List.filter_cons_of_pos (by simp), noneLow, allLow, allHigh, noneHigh, List.nil_append,
      List.append_assoc]

/-- A member comes last in its own round. -/
theorem cyclicFrom_self (ascending : members.Pairwise (· < ·)) (present : start ∈ members) :
    ∃ others, cyclicFrom members start = others ++ [start] := by
  have low : start ∈ members.filter fun member => ¬ start < member :=
    List.mem_filter.mpr ⟨present, by simp⟩
  obtain ⟨before, after, split⟩ := List.append_of_mem low
  have ordered : (members.filter fun member => ¬ start < member).Pairwise (· < ·) :=
    ascending.filter _
  rw [split] at ordered
  have above := (List.pairwise_cons.mp (List.pairwise_append.mp ordered).2.1).1
  have nothing : after = [] := by
    rw [List.eq_nil_iff_forall_not_mem]
    intro member later
    have listed : member ∈ members.filter fun member => ¬ start < member := by
      rw [split]
      simp [later]
    exact absurd (above member later) (by simpa using (List.mem_filter.mp listed).2)
  refine ⟨(members.filter fun member => start < member) ++ before, ?_⟩
  rw [cyclicFrom, split, nothing, List.append_assoc]

/-- The first member of a round is the least above the point, or the least of all. -/
theorem cyclicFrom_first (ascending : members.Pairwise (· < ·))
    (round : cyclicFrom members start = first :: rest) :
    first ∈ members ∧
      ((start < first ∧ ∀ member ∈ members, start < member → first ≤ member) ∨
        ((∀ member ∈ members, ¬ start < member) ∧ ∀ member ∈ members, first ≤ member)) := by
  have present : first ∈ members := mem_cyclicFrom.mp (round ▸ List.mem_cons_self)
  refine ⟨present, ?_⟩
  unfold cyclicFrom at round
  cases above : members.filter (fun member => start < member) with
  | nil =>
    have noneAbove : ∀ member ∈ members, ¬ start < member := by
      simpa [List.filter_eq_nil_iff] using above
    rw [above, (filter_noneAbove noneAbove).2, List.nil_append] at round
    subst round
    refine .inr ⟨noneAbove, fun member later => ?_⟩
    rcases List.mem_cons.mp later with same | later
    · exact same.ge
    · exact ((List.pairwise_cons.mp ascending).1 member later).le
  | cons next high =>
    rw [above, List.cons_append] at round
    obtain ⟨rfl, rfl⟩ := List.cons.inj round
    have inside : next ∈ members.filter (fun member => start < member) := above ▸ List.mem_cons_self
    refine .inl ⟨by simpa using (List.mem_filter.mp inside).2, fun member later higher => ?_⟩
    have listed : member ∈ next :: high :=
      above ▸ List.mem_filter.mpr ⟨later, by simpa using higher⟩
    rcases List.mem_cons.mp listed with same | listed
    · exact same.ge
    · have sorted : (next :: high).Pairwise (· < ·) := above ▸ ascending.filter _
      exact ((List.pairwise_cons.mp sorted).1 member listed).le

/-- Going to the next member again and again follows the round. -/
theorem iterate_eq_take (ascending : members.Pairwise (· < ·)) {step : α → α}
    (next : ∀ point, (cyclicFrom members point).head? = some (step point)) (count : Nat)
    (bound : count ≤ members.length) (start : α) :
    List.iterate step (step start) count = (cyclicFrom members start).take count := by
  induction count generalizing start with
  | zero => simp
  | succ count ih =>
    obtain ⟨rest, round⟩ := List.head?_eq_some_iff.mp (next start)
    have room : count ≤ rest.length := by
      have size := length_cyclicFrom members start
      rw [round, List.length_cons] at size
      omega
    rw [List.iterate, ih (by omega), cyclicFrom_next ascending round, round, List.take_succ_cons,
      List.take_append_of_le_length room]

/-- As many moves as there are members meet each of them once, from any point. -/
theorem iterate_perm (ascending : members.Pairwise (· < ·)) {step : α → α}
    (next : ∀ point, (cyclicFrom members point).head? = some (step point)) (start : α) :
    (List.iterate step (step start) members.length).Perm members := by
  rw [iterate_eq_take ascending next _ le_rfl, ← length_cyclicFrom members start, List.take_length]
  exact cyclicFrom_perm members start

end ZeeboLle.Scheduling

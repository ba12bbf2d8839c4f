import Mathlib.Data.List.Nodup
import Mathlib.Data.List.Induction

/-! Lists whose elements carry a key, in order of insertion. Updating replaces the
element of the same key in place; merging keeps the first element of each key. -/
namespace ZeeboLle.Paging

variable {α κ : Type} [DecidableEq κ]

/-- Replace the first element with the key of `item`, or append it. -/
def upsert (key : α → κ) (item : α) : List α → List α
  | [] => [item]
  | head :: rest => if key head = key item then item :: rest else head :: upsert key item rest

theorem mem_upsert {key : α → κ} {item found : α} {items : List α}
    (member : found ∈ upsert key item items) : found = item ∨ found ∈ items := by
  induction items with
  | nil => exact .inl (List.mem_singleton.mp member)
  | cons head rest ih =>
    unfold upsert at member
    split at member
    · rcases List.mem_cons.mp member with same | later
      · exact .inl same
      · exact .inr (List.mem_cons_of_mem head later)
    · rcases List.mem_cons.mp member with same | later
      · exact .inr (List.mem_cons.mpr (.inl same))
      · rcases ih later with same | old
        · exact .inl same
        · exact .inr (List.mem_cons_of_mem head old)

theorem mem_upsert_self (key : α → κ) (item : α) (items : List α) :
    item ∈ upsert key item items := by
  induction items with
  | nil => exact List.mem_singleton.mpr rfl
  | cons head rest ih =>
    unfold upsert
    split
    · exact List.mem_cons_self
    · exact List.mem_cons_of_mem head ih

theorem nodup_upsert {key : α → κ} {item : α} {items : List α} (nodup : (items.map key).Nodup) :
    ((upsert key item items).map key).Nodup := by
  induction items with
  | nil => simp [upsert]
  | cons head rest ih =>
    rw [List.map_cons, List.nodup_cons] at nodup
    obtain ⟨fresh, distinct⟩ := nodup
    unfold upsert
    split
    · rename_i same
      rw [List.map_cons, List.nodup_cons, ← same]
      exact ⟨fresh, distinct⟩
    · rename_i different
      rw [List.map_cons, List.nodup_cons]
      refine ⟨?_, ih distinct⟩
      intro present
      obtain ⟨found, member, same⟩ := List.mem_map.mp present
      rcases mem_upsert member with new | old
      · subst found
        exact different same.symm
      · exact fresh (List.mem_map.mpr ⟨found, old, same⟩)

theorem mem_upsert_of_ne {key : α → κ} {item found : α} {items : List α} (member : found ∈ items)
    (different : key found ≠ key item) : found ∈ upsert key item items := by
  induction items with
  | nil => cases member
  | cons head rest ih =>
    unfold upsert
    rcases List.mem_cons.mp member with same | later
    · subst same
      rw [if_neg different]
      exact List.mem_cons_self
    · split
      · exact List.mem_cons_of_mem item later
      · exact List.mem_cons_of_mem head (ih later)

/-- Where the key is present, updating is a map. -/
theorem upsert_eq_map {key : α → κ} {item : α} {items : List α} (nodup : (items.map key).Nodup)
    (present : key item ∈ items.map key) :
    upsert key item items = items.map fun held => if key held = key item then item else held := by
  induction items with
  | nil => cases present
  | cons head rest ih =>
    rw [List.map_cons, List.nodup_cons] at nodup
    obtain ⟨fresh, distinct⟩ := nodup
    unfold upsert
    rw [List.map_cons]
    split
    · rename_i same
      rw [same] at fresh
      have rest_kept : ∀ held ∈ rest, (if key held = key item then item else held) = id held :=
        fun held member => if_neg fun equal => fresh (List.mem_map.mpr ⟨held, member, equal⟩)
      rw [List.map_congr_left rest_kept, List.map_id]
    · rename_i different
      rw [List.map_cons, List.mem_cons] at present
      rw [ih distinct (present.resolve_left fun equal => different equal.symm)]

theorem filter_upsert_self {key : α → κ} {item : α} {items : List α}
    (nodup : (items.map key).Nodup) :
    (upsert key item items).filter (fun held => key held = key item) = [item] := by
  induction items with
  | nil => simp [upsert]
  | cons head rest ih =>
    rw [List.map_cons, List.nodup_cons] at nodup
    obtain ⟨fresh, distinct⟩ := nodup
    unfold upsert
    split
    · rename_i same
      have none : rest.filter (fun held => key held = key item) = [] := by
        apply List.filter_eq_nil_iff.mpr
        intro held member equal
        rw [same] at fresh
        exact fresh (List.mem_map.mpr ⟨held, member, by simpa using equal⟩)
      simp [none]
    · rename_i different
      simp [different, ih distinct]

theorem filter_upsert_of_ne {key : α → κ} {item : α} {items : List α} {wanted : κ}
    (different : key item ≠ wanted) :
    (upsert key item items).filter (fun held => key held = wanted) =
      items.filter (fun held => key held = wanted) := by
  induction items with
  | nil => simp [upsert, different]
  | cons head rest ih =>
    unfold upsert
    split
    · rename_i same
      simp [same, different]
    · simp [List.filter_cons, ih]

/-- An updated list holds the new element under its key, and the old ones under the others. -/
theorem find?_upsert (key : α → κ) (item : α) (items : List α) (wanted : κ) :
    (upsert key item items).find? (fun held => key held = wanted) =
      if key item = wanted then some item else items.find? fun held => key held = wanted := by
  induction items with
  | nil =>
    rw [upsert, List.find?_singleton]
    simp
  | cons head rest ih =>
    unfold upsert
    by_cases same : key head = key item
    · rw [if_pos same, List.find?_cons, List.find?_cons, same]
      by_cases own : key item = wanted
      · simp [own]
      · simp [own]
    · rw [if_neg same, List.find?_cons, List.find?_cons, ih]
      by_cases own : key item = wanted
      · have other : ¬key head = wanted := fun equal => same (equal.trans own.symm)
        simp [own, other]
      · simp [own]

/-- Updating keeps the keys, or adds the new one at the end. -/
theorem map_key_upsert (key : α → κ) (item : α) (items : List α) :
    (upsert key item items).map key =
      if key item ∈ items.map key then items.map key else items.map key ++ [key item] := by
  induction items with
  | nil => simp [upsert]
  | cons head rest ih =>
    unfold upsert
    by_cases same : key head = key item
    · simp [same]
    · rw [if_neg same, List.map_cons, ih, List.map_cons]
      by_cases later : key item ∈ rest.map key
      · rw [if_pos later, if_pos (List.mem_cons_of_mem _ later)]
      · have absent : key item ∉ key head :: rest.map key := by
          intro present
          rcases List.mem_cons.mp present with equal | found
          · exact same equal.symm
          · exact later found
        rw [if_neg later, if_neg absent, List.cons_append]

/-- The last element that passes a test. -/
def latest (test : α → Bool) (items : List α) : Option α := (items.filter test).getLast?

theorem latest_append (test : α → Bool) (front back : List α) :
    latest test (front ++ back) = (latest test back).or (latest test front) := by
  rw [latest, List.filter_append, List.getLast?_append]
  rfl

theorem latest_snoc (test : α → Bool) (items : List α) (item : α) :
    latest test (items ++ [item]) = if test item then some item else latest test items := by
  cases passes : test item with
  | true => simp [latest, passes]
  | false => simp [latest, passes]

theorem latest_cons (test : α → Bool) (head : α) (rest : List α) :
    latest test (head :: rest) = (latest test rest).or (if test head then some head else none) := by
  rw [← List.singleton_append, latest_append]
  cases passes : test head with
  | true => simp [latest, passes]
  | false => simp [latest, passes]

theorem latest_eq_none_iff {test : α → Bool} {items : List α} :
    latest test items = none ↔ ∀ item ∈ items, test item = false := by
  rw [latest, List.getLast?_filter, List.find?_eq_none]
  simp

theorem latest_passes {test : α → Bool} {items : List α} {last : α}
    (found : latest test items = some last) : last ∈ items ∧ test last = true :=
  List.mem_filter.mp (List.mem_of_getLast? found)

/-- The last element that passes is the one after which none does. -/
theorem latest_eq_some_iff {test : α → Bool} {items : List α} {last : α} :
    latest test items = some last ↔
      test last = true ∧ ∃ before after, items = before ++ last :: after ∧
        ∀ later ∈ after, test later = false := by
  rw [latest, List.getLast?_filter, List.find?_eq_some_iff_append]
  constructor
  · rintro ⟨passes, back, front, split, fails⟩
    rw [List.reverse_eq_iff] at split
    exact ⟨passes, front.reverse, back.reverse, by simpa using split, by simpa using fails⟩
  · rintro ⟨passes, before, after, rfl, fails⟩
    exact ⟨passes, after.reverse, before.reverse, by simp, by simpa using fails⟩

theorem exists_latest (test : α → Bool) {items : List α} {item : α} (member : item ∈ items)
    (passes : test item = true) : ∃ last, latest test items = some last := by
  have nonempty : items.filter test ≠ [] :=
    List.ne_nil_of_mem (List.mem_filter.mpr ⟨member, passes⟩)
  exact ⟨_, List.getLast?_eq_some_getLast nonempty⟩

/-- Update with the elements of `more` in order. -/
def upsertAll (key : α → κ) (items more : List α) : List α :=
  more.foldl (fun held item => upsert key item held) items

theorem upsertAll_snoc (key : α → κ) (items more : List α) (item : α) :
    upsertAll key items (more ++ [item]) = upsert key item (upsertAll key items more) := by
  simp [upsertAll]

theorem nodup_upsertAll (key : α → κ) (more : List α) :
    ((upsertAll key [] more).map key).Nodup := by
  induction more using List.reverseRecOn with
  | nil => exact List.nodup_nil
  | append_singleton front item ih =>
    rw [upsertAll_snoc]
    exact nodup_upsert ih

theorem map_key_upsertAll [BEq κ] [LawfulBEq κ] (key : α → κ) (more : List α) :
    (upsertAll key [] more).map key = (more.map key).eraseDups := by
  induction more using List.reverseRecOn with
  | nil => rfl
  | append_singleton front item ih =>
    rw [upsertAll_snoc, map_key_upsert, ih, List.map_append, List.eraseDups_append,
      List.map_singleton]
    by_cases held : key item ∈ front.map key
    · rw [if_pos (List.mem_eraseDups.mpr held), List.removeAll, List.filter_singleton,
        List.elem_eq_mem, decide_eq_true held]
      exact (List.append_nil _).symm
    · rw [if_neg fun found => held (List.mem_eraseDups.mp found), List.removeAll,
        List.filter_singleton, List.elem_eq_mem, decide_eq_false held]
      rfl

/-- Under each key the last new element is found, or else the old one. -/
theorem find?_upsertAll (key : α → κ) (items more : List α) (wanted : κ) :
    (upsertAll key items more).find? (fun held => key held = wanted) =
      (latest (fun held => key held = wanted) more).or (items.find? fun held => key held = wanted) := by
  induction more using List.reverseRecOn with
  | nil => rfl
  | append_singleton front item ih =>
    rw [upsertAll_snoc, find?_upsert, ih, latest_snoc]
    by_cases own : key item = wanted
    · simp [own]
    · simp [own]

/-- With distinct keys a list is what its keys find in it. -/
theorem filterMap_find? {key : α → κ} {items : List α} (nodup : (items.map key).Nodup) :
    ((items.map key).filterMap fun wanted => items.find? fun held => key held = wanted) = items := by
  rw [List.filterMap_map]
  have own : ∀ item ∈ items, ((fun wanted => items.find? fun held => key held = wanted) ∘ key) item =
      some item := by
    intro item member
    cases found : items.find? fun held => key held = key item with
    | none => exact absurd (List.find?_eq_none.mp found item member) (by simp)
    | some held =>
      have same : key held = key item := by simpa using List.find?_some found
      rw [Function.comp_apply, found,
        List.inj_on_of_nodup_map nodup (List.mem_of_find?_eq_some found) member same]
  rw [List.filterMap_congr own, List.filterMap_some]

/-- Updating from nothing leaves the last element of each key, in the order in which the keys
came first. -/
theorem upsertAll_nil [BEq κ] [LawfulBEq κ] (key : α → κ) (more : List α) :
    upsertAll key [] more =
      (more.map key).eraseDups.filterMap fun wanted => latest (fun held => key held = wanted) more := by
  have whole := filterMap_find? (nodup_upsertAll key more)
  simp only [find?_upsertAll, List.find?_nil, Option.or_none, map_key_upsertAll] at whole
  exact whole.symm

/-- The last element of each key is there in the end. -/
theorem latest_mem_upsertAll {key : α → κ} {items more : List α} {last : α} {wanted : κ}
    (found : latest (fun item => key item = wanted) more = some last) :
    last ∈ upsertAll key items more := by
  induction more using List.reverseRecOn with
  | nil => cases found
  | append_singleton front item ih =>
    rw [upsertAll_snoc]
    rw [latest_snoc] at found
    split at found
    · cases found
      exact mem_upsert_self key last _
    · rename_i other
      have own := (latest_passes found).2
      apply mem_upsert_of_ne (ih found)
      intro same
      exact other (by simpa [← same] using own)

/-- Where all keys are present, each element becomes the last one of its key. -/
theorem upsertAll_eq_map {key : α → κ} {items more : List α} (nodup : (items.map key).Nodup)
    (present : ∀ item ∈ more, key item ∈ items.map key) :
    upsertAll key items more =
      items.map fun held => (latest (fun item => key item = key held) more).getD held := by
  induction more using List.reverseRecOn with
  | nil => simp [upsertAll, latest]
  | append_singleton front item ih =>
    have held := ih fun item member => present item (List.mem_append_left _ member)
    let settled := fun held => (latest (fun item => decide (key item = key held)) front).getD held
    have keeps : ∀ held, key (settled held) = key held := by
      intro held
      cases found : latest (fun item => decide (key item = key held)) front with
      | none => simp [settled, found]
      | some last => simpa [settled, found] using (latest_passes found).2
    have keys : (items.map settled).map key = items.map key := by simp [Function.comp_def, keeps]
    rw [upsertAll_snoc, held, upsert_eq_map (keys ▸ nodup) (keys ▸ present item (by simp)),
      List.map_map]
    apply List.map_congr_left
    intro old _
    rw [Function.comp_apply, keeps, latest_snoc]
    by_cases same : key old = key item
    · simp [same]
    · simp [same, Ne.symm same]

/-- Updating changes nothing exactly when the last element of each key is there already. -/
theorem upsertAll_eq_self_iff {key : α → κ} {items : List α} (nodup : (items.map key).Nodup)
    (more : List α) :
    upsertAll key items more = items ↔
      ∀ wanted last, latest (fun item => key item = wanted) more = some last → last ∈ items := by
  constructor
  · intro same wanted last found
    rw [← same]
    exact latest_mem_upsertAll found
  · intro there
    have present : ∀ item ∈ more, key item ∈ items.map key := by
      intro item member
      obtain ⟨last, found⟩ := exists_latest (fun other => decide (key other = key item)) member
        (by simp)
      exact List.mem_map.mpr ⟨last, there _ _ found, by simpa using (latest_passes found).2⟩
    rw [upsertAll_eq_map nodup present]
    have kept : ∀ held ∈ items,
        (latest (fun item => decide (key item = key held)) more).getD held = id held := by
      intro held member
      cases found : latest (fun item => decide (key item = key held)) more with
      | none => rfl
      | some last =>
        have same : key last = key held := by simpa using (latest_passes found).2
        exact List.inj_on_of_nodup_map nodup (there _ _ found) member same
    rw [List.map_congr_left kept, List.map_id]

/-- Append `item` unless its key is already there. -/
def pushNew (key : α → κ) (items : List α) (item : α) : List α :=
  if items.any fun held => key held = key item then items else items ++ [item]

/-- Append the elements of `more` in order, first key wins. -/
def mergeNew (key : α → κ) (items more : List α) : List α := more.foldl (pushNew key) items

theorem mergeNew_append (key : α → κ) (items left right : List α) :
    mergeNew key items (left ++ right) = mergeNew key (mergeNew key items left) right :=
  List.foldl_append

theorem pushNew_held {key : α → κ} {items : List α} {item : α}
    (held : key item ∈ items.map key) : pushNew key items item = items := by
  obtain ⟨found, member, same⟩ := List.mem_map.mp held
  have any : items.any (fun held => decide (key held = key item)) = true :=
    List.any_eq_true.mpr ⟨found, member, by simpa using same⟩
  simp [pushNew, any]

theorem pushNew_fresh {key : α → κ} {items : List α} {item : α}
    (fresh : key item ∉ items.map key) : pushNew key items item = items ++ [item] := by
  have none : items.any (fun held => decide (key held = key item)) = false := by
    rw [List.any_eq_false]
    intro found member same
    exact fresh (List.mem_map.mpr ⟨found, member, by simpa using same⟩)
  simp [pushNew, none]

theorem mem_mergeNew {key : α → κ} {items more : List α} {found : α}
    (member : found ∈ mergeNew key items more) : found ∈ items ∨ found ∈ more := by
  induction more generalizing items with
  | nil => exact .inl member
  | cons head rest ih =>
    rcases ih member with pushed | later
    · by_cases held : key head ∈ items.map key
      · rw [pushNew_held held] at pushed
        exact .inl pushed
      · rw [pushNew_fresh held, List.mem_append, List.mem_singleton] at pushed
        rcases pushed with old | same
        · exact .inl old
        · exact .inr (by simp [same])
    · exact .inr (List.mem_cons_of_mem head later)

theorem nodup_mergeNew {key : α → κ} {items : List α} (nodup : (items.map key).Nodup)
    (more : List α) : ((mergeNew key items more).map key).Nodup := by
  induction more generalizing items with
  | nil => exact nodup
  | cons head rest ih =>
    apply ih
    by_cases held : key head ∈ items.map key
    · rwa [pushNew_held held]
    · rw [pushNew_fresh held, List.map_append, List.nodup_append]
      refine ⟨nodup, by simp, ?_⟩
      intro left inItems right inSingle same
      rw [List.map_singleton, List.mem_singleton] at inSingle
      subst same inSingle
      exact held inItems

/-- Distinct keys survive a merge into nothing unchanged. -/
theorem mergeNew_nil {key : α → κ} {more : List α} (nodup : (more.map key).Nodup) :
    mergeNew key [] more = more := by
  induction more using List.reverseRecOn with
  | nil => rfl
  | append_singleton front last ih =>
    rw [List.map_append, List.nodup_append] at nodup
    obtain ⟨distinct, _, apart⟩ := nodup
    rw [mergeNew_append, ih distinct]
    apply pushNew_fresh
    intro held
    exact apart _ held _ (by simp) rfl

/-- The first element that passes a test and whose key no earlier element has. -/
def firstFresh (key : α → κ) (test : α → Bool) : List κ → List α → Option α
  | _, [] => none
  | seen, head :: rest =>
    if key head ∈ seen then firstFresh key test seen rest
    else if test head then some head
    else firstFresh key test (seen ++ [key head]) rest

/-- Searching a merged list is searching for a fresh element. -/
theorem find?_mergeNew (key : α → κ) (test : α → Bool) (items more : List α) :
    (mergeNew key items more).find? test =
      (items.find? test).or (firstFresh key test (items.map key) more) := by
  induction more generalizing items with
  | nil => simp [mergeNew, firstFresh]
  | cons head rest ih =>
    rw [mergeNew, List.foldl_cons, ← mergeNew, ih, firstFresh]
    by_cases held : key head ∈ items.map key
    · rw [pushNew_held held, if_pos held]
    · rw [pushNew_fresh held, if_neg held, List.find?_append, Option.or_assoc]
      cases passes : test head with
      | true => simp [passes]
      | false => simp [passes]

/-- Only which keys were seen matters, not how often or in which order. -/
theorem firstFresh_congr {key : α → κ} {test : α → Bool} {left right : List κ}
    (same : ∀ found, found ∈ left ↔ found ∈ right) (items : List α) :
    firstFresh key test left items = firstFresh key test right items := by
  induction items generalizing left right with
  | nil => rfl
  | cons head rest ih =>
    have grown : ∀ found, found ∈ left ++ [key head] ↔ found ∈ right ++ [key head] := by
      intro found
      simp [same]
    simp only [firstFresh, same, ih same, ih grown]

/-- Elements that fail the test only add their keys. -/
theorem firstFresh_append {key : α → κ} {test : α → Bool} {before : List α}
    (fails : ∀ item ∈ before, test item = false) (seen : List κ) (rest : List α) :
    firstFresh key test seen (before ++ rest) =
      firstFresh key test (seen ++ before.map key) rest := by
  induction before generalizing seen with
  | nil => simp
  | cons head tail ih =>
    have failsTail : ∀ item ∈ tail, test item = false :=
      fun item member => fails item (List.mem_cons_of_mem head member)
    have failsHead : test head = false := fails head List.mem_cons_self
    rw [List.cons_append, firstFresh]
    split
    · rename_i held
      rw [ih failsTail]
      apply firstFresh_congr
      intro found
      simp only [List.mem_append, List.map_cons, List.mem_cons]
      constructor
      · rintro (old | new)
        · exact .inl old
        · exact .inr (.inr new)
      · rintro (old | same | new)
        · exact .inl old
        · exact .inl (same ▸ held)
        · exact .inr new
    · rw [if_neg (by simp [failsHead]), ih failsTail]
      simp

end ZeeboLle.Paging

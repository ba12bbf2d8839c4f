import ZeeboLle.L4.SpaceManager
import Mathlib.Data.List.Infix

/-! Lookup against activation. `resolve_host` and `maps` search eight spaces of the
base chain by page coverage; `effective_regions` takes nine and hides a base region
only behind one of equal base address. -/
namespace ZeeboLle.L4.SpaceManager

open Paging Unicorn

/-- The spaces a walk of at most `hops` steps visits. -/
def visited (mgr : SpaceManager) : Nat → Word → List Word
  | 0, _ => []
  | hops + 1, cur =>
    if cur = 0 then []
    else cur :: if mgr.baseOf cur = cur then [] else mgr.visited hops (mgr.baseOf cur)

/-- The regions recorded along a walk, nearest space first. -/
def chainRegions (mgr : SpaceManager) (hops : Nat) (cur : Word) : List Region :=
  (mgr.visited hops cur).flatMap mgr.regionsOf

theorem lookupLoop_eq (mgr : SpaceManager) (baseVa hops : Nat) (cur : Word) :
    mgr.lookupLoop baseVa hops cur =
      (mgr.chainRegions hops cur).find? fun region => region.covers baseVa := by
  induction hops generalizing cur with
  | zero => rfl
  | succ hops ih =>
    rw [lookupLoop, chainRegions, visited]
    split
    · rfl
    · rw [List.flatMap_cons, List.find?_append]
      split
      · rename_i found
        rw [found, Option.some_or]
      · rename_i missed
        rw [missed, Option.none_or]
        dsimp only
        split
        · rfl
        · exact ih _

theorem effectiveLoop_eq (mgr : SpaceManager) (hops : Nat) (cur : Word) (eff : List Region) :
    mgr.effectiveLoop hops cur eff =
      mergeNew (fun region => region.va) eff (mgr.chainRegions hops cur) := by
  induction hops generalizing cur eff with
  | zero => rfl
  | succ hops ih =>
    rw [effectiveLoop, chainRegions, visited]
    split
    · rfl
    · rw [List.flatMap_cons, mergeNew_append]
      dsimp only
      split
      · rfl
      · exact ih _ _

private theorem visited_initial (mgr : SpaceManager) (hops : Nat) (cur : Word) :
    mgr.visited hops cur <+: mgr.visited (hops + 1) cur := by
  induction hops generalizing cur with
  | zero => exact List.nil_prefix
  | succ hops ih =>
    rw [visited, visited]
    split
    · exact List.nil_prefix
    · rw [List.prefix_cons_inj]
      split
      · exact List.nil_prefix
      · exact ih _

/-- What `effective_regions` draws from: the space itself and eight bases. -/
def activeChain (mgr : SpaceManager) (sid : Word) : List Region :=
  mgr.regionsOf sid ++ mgr.chainRegions 8 (mgr.baseOf sid)

/-- What lookup draws from: the space itself and seven bases, nothing for nil. -/
def lookupChain (mgr : SpaceManager) (sid : Word) : List Region := mgr.chainRegions 8 sid

/-- Lookup searches an initial part of what activation draws from. -/
theorem lookupChain_initial (mgr : SpaceManager) (sid : Word) :
    mgr.lookupChain sid <+: mgr.activeChain sid := by
  rw [lookupChain, chainRegions, visited, activeChain]
  split
  · exact List.nil_prefix
  · rw [List.flatMap_cons]
    apply (List.prefix_append_right_inj _).mpr
    split
    · exact List.nil_prefix
    · exact List.IsPrefix.flatMap (mgr.visited_initial 7 _) _

theorem find?_effectiveRegions (mgr : SpaceManager) (sid : Word) (test : Region → Bool) :
    (mgr.effectiveRegions sid).find? test =
      firstFresh (fun region => region.va) test [] (mgr.activeChain sid) := by
  have merged : mgr.effectiveRegions sid =
      mergeNew (fun region => region.va) [] (mgr.activeChain sid) := by
    rw [effectiveRegions, effectiveLoop_eq, activeChain, mergeNew_append,
      mergeNew_nil (mgr.regionsOf_distinct sid)]
  rw [merged, find?_mergeNew]
  rfl

/-- Lookup and activation agree at an address. -/
def LookupAgrees (mgr : SpaceManager) (sid : Word) (va : Nat) : Prop :=
  (mgr.maps sid va = true ↔
    ∃ region ∈ mgr.effectiveRegions sid, region.covers (roundDown va) = true) ∧
  mgr.resolveHost sid va =
    match (mgr.effectiveRegions sid).find? fun region => region.covers (roundDown va) with
    | some region => region.host
    | none => nullptr

/-- How the first covering region of the activation chain has to lie. Within reach of
lookup its base address is new, or the next covering region of a new base has the
same host; out of reach, every covering region is hidden by an equal base. -/
def LookupUnambiguous (mgr : SpaceManager) (sid : Word) (va : Nat) : Prop :=
  let key := fun region : Region => region.va
  let test := fun region : Region => region.covers (roundDown va)
  ∀ before first rest, mgr.activeChain sid = before ++ first :: rest →
    (∀ region ∈ before, test region = false) → test first = true →
    if before.length < (mgr.lookupChain sid).length then
      key first ∉ before.map key ∨
        ∃ next, firstFresh key test (before.map key) rest = some next ∧ next.host = first.host
    else firstFresh key test (before.map key) (first :: rest) = none

/-- Both answers, side by side, as the host of the region found. -/
private theorem lookupAgrees_iff (mgr : SpaceManager) (sid : Word) (va : Nat) :
    mgr.LookupAgrees sid va ↔
      ((mgr.lookupChain sid).find? fun region => region.covers (roundDown va)).map Region.host =
        (firstFresh (fun region => region.va) (fun region => region.covers (roundDown va)) []
          (mgr.activeChain sid)).map Region.host := by
  have some_iff : (∃ region ∈ mgr.effectiveRegions sid, region.covers (roundDown va) = true) ↔
      ((mgr.effectiveRegions sid).find? fun region => region.covers (roundDown va)).isSome = true :=
    List.find?_isSome.symm
  rw [LookupAgrees, some_iff, maps, resolveHost, lookupLoop_eq, find?_effectiveRegions, lookupChain]
  cases (mgr.chainRegions 8 sid).find? fun region => region.covers (roundDown va) with
  | none =>
    cases firstFresh (fun region : Region => region.va)
        (fun region => region.covers (roundDown va)) [] (mgr.activeChain sid) with
    | none => simp
    | some active => simp
  | some found =>
    cases firstFresh (fun region : Region => region.va)
        (fun region => region.covers (roundDown va)) [] (mgr.activeChain sid) with
    | none => simp
    | some active => simp

/-- Searching an initial part finds the first match exactly when it reaches that far. -/
private theorem find?_initial {test : Region → Bool} {part whole before rest : List Region}
    {first : Region} (initial : part <+: whole) (split : whole = before ++ first :: rest)
    (fails : ∀ region ∈ before, test region = false) (passes : test first = true) :
    part.find? test = if before.length < part.length then some first else none := by
  have taken := List.prefix_iff_eq_take.mp initial
  have none : before.find? test = none :=
    List.find?_eq_none.mpr fun region member => by simp [fails region member]
  split
  · rename_i reached
    obtain ⟨more, length⟩ : ∃ more, part.length = before.length + (more + 1) :=
      ⟨part.length - before.length - 1, by omega⟩
    rw [taken, length, split, List.take_length_add_append, List.take_succ_cons, List.find?_append,
      none]
    simp [passes]
  · rename_i short
    rw [taken, split, List.take_append_of_le_length (by omega)]
    exact List.find?_eq_none.mpr fun region member => by
      simp [fails region (List.mem_of_mem_take member)]

/-- Lookup agrees with activation exactly where the first covering region is
unambiguous. -/
theorem lookupAgrees_iff_unambiguous (mgr : SpaceManager) (sid : Word) (va : Nat) :
    mgr.LookupAgrees sid va ↔ mgr.LookupUnambiguous sid va := by
  rw [lookupAgrees_iff]
  constructor
  · intro same before first rest split fails passes
    rw [find?_initial (mgr.lookupChain_initial sid) split fails passes, split,
      firstFresh_append fails, List.nil_append] at same
    split
    · rename_i reached
      rw [if_pos reached, firstFresh] at same
      by_cases hidden : first.va ∈ before.map fun region => region.va
      · right
        rw [if_pos hidden] at same
        obtain ⟨next, found, host⟩ := Option.map_eq_some_iff.mp same.symm
        exact ⟨next, found, host⟩
      · exact .inl hidden
    · rename_i short
      rw [if_neg short] at same
      exact Option.map_eq_none_iff.mp same.symm
  · intro unambiguous
    cases found : (mgr.activeChain sid).find? fun region => region.covers (roundDown va) with
    | none =>
      -- nothing covers the page, so neither walk finds anything
      have fails : ∀ region ∈ mgr.activeChain sid, region.covers (roundDown va) = false :=
        fun region member => by simpa using List.find?_eq_none.mp found region member
      have missed : ((mgr.lookupChain sid).find? fun region => region.covers (roundDown va)) = none :=
        List.find?_eq_none.mpr fun region member => by
          simp [fails region ((mgr.lookupChain_initial sid).subset member)]
      have hidden : firstFresh (fun region : Region => region.va)
          (fun region => region.covers (roundDown va)) [] (mgr.activeChain sid) = none := by
        rw [← List.append_nil (mgr.activeChain sid), firstFresh_append fails]
        rfl
      rw [missed, hidden]
    | some first =>
      obtain ⟨passes, before, rest, split, fails⟩ := List.find?_eq_some_iff_append.mp found
      have fails : ∀ region ∈ before, region.covers (roundDown va) = false :=
        fun region member => by simpa using fails region member
      have lies := unambiguous before first rest split fails passes
      rw [find?_initial (mgr.lookupChain_initial sid) split fails passes, split,
        firstFresh_append fails, List.nil_append]
      split at lies
      · rename_i reached
        rw [if_pos reached, firstFresh]
        by_cases hidden : first.va ∈ before.map fun region => region.va
        · rcases lies with fresh | ⟨next, found, host⟩
          · exact absurd hidden fresh
          · rw [if_pos hidden, found, Option.map_some, Option.map_some, host]
        · rw [if_neg hidden, if_pos passes]
      · rename_i short
        rw [if_neg short, lies]

/-- Space 1 extends space 2 and has recorded a shorter region at the same base. -/
def shorterOwnRegion : SpaceManager :=
  ((empty.record 1 0x1000 0x1000 Prot.all 0x10000).record 2 0x1000 0x2000 Prot.all
    0x20000).linkBase 1 2

/-- Lookup falls through to the base region that activation has hidden. -/
theorem not_lookupAgrees_shorterOwnRegion : ¬ shorterOwnRegion.LookupAgrees 1 0x2000 := by
  intro agrees
  obtain ⟨region, member, covers⟩ := agrees.1.mp (by decide)
  exact absurd covers (by revert region; decide)

end ZeeboLle.L4.SpaceManager

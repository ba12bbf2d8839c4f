import ZeeboLle.Paging.KeyedList
import ZeeboLle.Unicorn.Memory

/-! The table of named system services, with a second index by thread. The two indexes agree
unless a name moves to another thread while its old one keeps its place in the second. -/
namespace ZeeboLle.L4

open Paging Unicorn

structure ServiceDescriptor where
  name : List Byte
  serverTid : Word
  interfaceId : Word
  bufferBase : Word
  bufferSize : Word
  deriving DecidableEq

structure SystemServiceRegistry where
  services : List (List Byte × ServiceDescriptor)
  byTid : List (Word × ServiceDescriptor)

namespace SystemServiceRegistry

def empty : SystemServiceRegistry := ⟨[], []⟩

def registerService (registry : SystemServiceRegistry) (desc : ServiceDescriptor) :
    Bool × SystemServiceRegistry :=
  if desc.name = [] ∨ desc.serverTid = 0 then (false, registry)
  else (true, ⟨upsert Prod.fst (desc.name, desc) registry.services,
    upsert Prod.fst (desc.serverTid, desc) registry.byTid⟩)

def lookupByName (registry : SystemServiceRegistry) (name : List Byte) : Option ServiceDescriptor :=
  (registry.services.find? fun entry => entry.1 = name).map Prod.snd

def lookupByTid (registry : SystemServiceRegistry) (tid : Word) : Option ServiceDescriptor :=
  (registry.byTid.find? fun entry => entry.1 = tid).map Prod.snd

/-- The bytes of "amss". -/
def amss : List Byte := [0x61, 0x6d, 0x73, 0x73]

def isAmssThread (registry : SystemServiceRegistry) (tid : Word) : Bool :=
  match registry.lookupByTid tid with
  | some desc => desc.name = amss
  | none => false

def clear (_ : SystemServiceRegistry) : SystemServiceRegistry := empty

inductive Call where
  | registerService (desc : ServiceDescriptor)
  | clear

def call (registry : SystemServiceRegistry) : Call → SystemServiceRegistry
  | .registerService desc => (registry.registerService desc).2
  | .clear => registry.clear

def run (calls : List Call) : SystemServiceRegistry := calls.foldl call empty

/-- The registrations a call leaves standing. -/
def Call.onto (standing : List ServiceDescriptor) : Call → List ServiceDescriptor
  | .registerService desc =>
    if desc.name = [] ∨ desc.serverTid = 0 then standing else standing ++ [desc]
  | .clear => []

/-- The registrations that took place after the last clear, in order. -/
def registered (calls : List Call) : List ServiceDescriptor := calls.foldl Call.onto []

theorem run_snoc (calls : List Call) (last : Call) : run (calls ++ [last]) = (run calls).call last := by
  simp [run]

theorem registered_snoc (calls : List Call) (last : Call) :
    registered (calls ++ [last]) = last.onto (registered calls) := by
  simp [registered]

/-- One registration, as the two lookups see it. -/
theorem lookup_registerService (registry : SystemServiceRegistry) {desc : ServiceDescriptor}
    (named : ¬(desc.name = [] ∨ desc.serverTid = 0)) (name : List Byte) (tid : Word) :
    ((registry.registerService desc).2.lookupByName name =
        if desc.name = name then some desc else registry.lookupByName name) ∧
      (registry.registerService desc).2.lookupByTid tid =
        if desc.serverTid = tid then some desc else registry.lookupByTid tid := by
  rw [registerService, if_neg named, lookupByName, lookupByTid, find?_upsert, find?_upsert]
  constructor
  · split
    · rfl
    · rfl
  · split
    · rfl
    · rfl

/-- Each index holds the last registration of its key. -/
theorem lookup_run (calls : List Call) (name : List Byte) (tid : Word) :
    (run calls).lookupByName name = latest (fun desc => desc.name = name) (registered calls) ∧
      (run calls).lookupByTid tid = latest (fun desc => desc.serverTid = tid) (registered calls) := by
  induction calls using List.reverseRecOn with
  | nil => exact ⟨rfl, rfl⟩
  | append_singleton calls last ih =>
    rw [run_snoc, registered_snoc]
    cases last with
    | clear => exact ⟨rfl, rfl⟩
    | registerService desc =>
      rw [call, Call.onto]
      by_cases refused : desc.name = [] ∨ desc.serverTid = 0
      · rw [registerService, if_pos refused, if_pos refused]
        exact ih
      · obtain ⟨byName, byTid⟩ := lookup_registerService (run calls) refused name tid
        rw [if_neg refused, byName, byTid, latest_snoc, latest_snoc, ih.1, ih.2]
        simp

/-- What the index by thread says about the one by name. -/
structure Agree (registry : SystemServiceRegistry) : Prop where
  present : ∀ tid, registry.lookupByTid tid ≠ none ↔
    ∃ name desc, registry.lookupByName name = some desc ∧ desc.serverTid = tid
  same : ∀ tid desc, registry.lookupByTid tid = some desc → registry.lookupByName desc.name = some desc
  isAmss : ∀ tid, registry.isAmssThread tid = true →
    ∃ desc, registry.lookupByName amss = some desc ∧ desc.serverTid = tid

/-- A registration whose name is registered again for another thread is followed by another one of
its own thread. -/
def NoneStale (standing : List ServiceDescriptor) : Prop :=
  ∀ before old after, standing = before ++ old :: after →
    (∃ moved ∈ after, moved.name = old.name ∧ moved.serverTid ≠ old.serverTid) →
    ∃ later ∈ after, later.serverTid = old.serverTid

/-- The last registration of each thread is the last one of its name. -/
theorem noneStale_iff (standing : List ServiceDescriptor) :
    NoneStale standing ↔ ∀ tid desc,
      latest (fun desc => desc.serverTid = tid) standing = some desc →
      latest (fun other => other.name = desc.name) standing = some desc := by
  constructor
  · intro fresh tid desc found
    obtain ⟨own, before, after, split, fails⟩ := latest_eq_some_iff.mp found
    apply latest_eq_some_iff.mpr
    refine ⟨by simp, before, after, split, fun later member => ?_⟩
    rw [decide_eq_true_eq] at own
    by_contra moved
    rw [Bool.not_eq_false, decide_eq_true_eq] at moved
    have apart := of_decide_eq_false (fails later member)
    obtain ⟨again, place, thread⟩ := fresh before desc after split ⟨later, member, moved, own ▸ apart⟩
    exact of_decide_eq_false (fails again place) (thread.trans own)
  · rintro same before old after rfl ⟨moved, member, name, apart⟩
    by_contra none
    push Not at none
    have last : latest (fun desc => desc.serverTid = old.serverTid) (before ++ old :: after) = some old :=
      latest_eq_some_iff.mpr ⟨by simp, before, after, rfl, fun later place => by simpa using none later place⟩
    have current := same _ old last
    -- the name's last registration comes after this one, so this one would come again
    obtain ⟨newer, found⟩ := exists_latest (fun other : ServiceDescriptor => decide (other.name = old.name))
      member (decide_eq_true name)
    rw [← List.singleton_append, latest_append, latest_append, found] at current
    obtain rfl : newer = old := by simpa using current
    exact none newer (latest_passes found).1 rfl

theorem indexes_agree_iff (calls : List Call) : (run calls).Agree ↔ NoneStale (registered calls) := by
  rw [noneStale_iff]
  constructor
  · intro agree tid desc found
    rw [← (lookup_run calls desc.name tid).1]
    exact agree.same tid desc ((lookup_run calls [] tid).2.trans found)
  · intro current
    have same : ∀ tid desc, (run calls).lookupByTid tid = some desc →
        (run calls).lookupByName desc.name = some desc ∧ desc.serverTid = tid := by
      intro tid desc found
      rw [(lookup_run calls [] tid).2] at found
      rw [(lookup_run calls desc.name tid).1]
      exact ⟨current tid desc found, by simpa using (latest_passes found).2⟩
    refine ⟨fun tid => ⟨fun some => ?_, ?_⟩, fun tid desc found => (same tid desc found).1, fun tid amss => ?_⟩
    · obtain ⟨desc, found⟩ := Option.ne_none_iff_exists'.mp some
      exact ⟨desc.name, desc, same tid desc found⟩
    · rintro ⟨name, desc, found, thread⟩ none
      rw [(lookup_run calls name tid).1] at found
      rw [(lookup_run calls name tid).2] at none
      obtain ⟨last, exists_last⟩ := exists_latest (fun desc => decide (desc.serverTid = tid))
        (latest_passes found).1 (by simpa using thread)
      exact Option.some_ne_none _ (exists_last.symm.trans none)
    · cases found : (run calls).lookupByTid tid with
      | none => simp [isAmssThread, found] at amss
      | some desc =>
        simp only [isAmssThread, found, decide_eq_true_eq] at amss
        exact ⟨desc, amss ▸ same tid desc found⟩

/-- The service is moved from thread 1 to thread 2, and thread 1 still counts as its thread. -/
theorem indexes_disagree :
    ¬(run [.registerService ⟨amss, 1, 3, 0, 0⟩, .registerService ⟨amss, 2, 3, 0, 0⟩]).Agree := by
  intro agree
  obtain ⟨desc, current, thread⟩ := agree.isAmss 1 (by decide)
  have second : (run [.registerService ⟨amss, 1, 3, 0, 0⟩,
      .registerService ⟨amss, 2, 3, 0, 0⟩]).lookupByName amss = some ⟨amss, 2, 3, 0, 0⟩ := by decide
  obtain rfl := Option.some.inj (second.symm.trans current)
  exact absurd thread (by decide)

end SystemServiceRegistry

end ZeeboLle.L4

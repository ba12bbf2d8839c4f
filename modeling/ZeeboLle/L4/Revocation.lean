import ZeeboLle.L4.MapControlInvariant
import ZeeboLle.L4.Shadow

/-! Revocation across the engine, the lookup table and the address-space switch: which
pages a guest has been denied, and when each path leaves them denied. -/
namespace ZeeboLle.L4

open Paging Unicorn

/-- The guest can read a page through the engine. -/
def readable (pages : PageTable Prot Backing) (page : Nat) : Bool :=
  (pages.prot page).any Prot.read

/-- What the lookup table holds for a page; nothing when there is no table. -/
def MapState.entry (state : MapState) (page : Nat) : HostPtr :=
  match state.lut with
  | none => nullptr
  | some lut => lut.entries page

/-- A page is denied on both paths. -/
def MapState.Denies (state : MapState) (page : Nat) : Prop :=
  readable state.mem.pages page = false ∧ state.entry page = nullptr

/-- The pages the guest has been denied, after one more item. A granting item takes
back the denial when it is applied; the modify bit makes a revocation binding. -/
def noteItem (control : MapControl) (item : MapItem) (revoked : Nat → Bool) (page : Nat) : Bool :=
  if item.fpage.Covers page then
    if item.fpage.rwx = 0 then control.isModify || revoked page
    else control.isQuery && revoked page
  else revoked page

/-- A revocation that the code carries through: none of its pages is in the table,
its range is wholly mapped or has no readable page, and it would not be entered in
the table as a fresh pool mapping. -/
def RevokesCleanly (pool : Option PhysPool) (state : MapState) (item : MapItem) : Prop :=
  (∀ page, item.fpage.Covers page → state.entry page = nullptr) ∧
    ∀ extent, item.fpage.isOrdinary = true → item.fpage.extent = some extent →
      (state.mem.pages.full extent.span = true ∨
        ∀ page ∈ extent.span, readable state.mem.pages page = false) ∧
      ∀ inner, pool = some inner → state.lut.isSome = true →
        inner.backs item extent = true → state.mem.pages.free extent.span = false

variable {pool : Option PhysPool} {state next : MapState} {item : MapItem} {page : Nat}

theorem readable_congr {left right : PageTable Prot Backing} (same : left page = right page) :
    readable left page = readable right page := by
  rw [readable, readable, PageTable.prot, PageTable.prot, same]

/-- An item leaves the table alone outside the pages it covers. -/
theorem ItemEffect.entry_outside (effect : ItemEffect pool item state next)
    (uncovered : ¬ item.fpage.Covers page) : next.entry page = state.entry page := by
  cases effect with
  | ignored => rfl
  | refused => rfl
  | revoked => rfl
  | anonymous => rfl
  | reprotected => rfl
  | aliased extent inner given ordinary range backed free =>
    have outside := (Fpage.covers_iff_mem ordinary range page).not.mp uncovered
    cases table : state.lut with
    | none => simp [MapState.entry, table]
    | some lut => simp [MapState.entry, table, VtlbLut.map_entries range, outside]

/-- A clean revocation denies every page it covers. -/
theorem ItemEffect.denies (effect : ItemEffect pool item state next)
    (none : item.fpage.rwx = 0) (clean : RevokesCleanly pool state item)
    (covers : item.fpage.Covers page) : next.Denies page := by
  have absent := clean.1 page covers
  have prot := (fpageToUcProt_eq_none_iff item.fpage).mpr none
  cases effect with
  | ignored kind =>
    rcases kind with nil | ⟨whole, grant⟩
    · simp [Fpage.Covers, nil] at covers
    · exact absurd none grant
  | revoked whole nonNil _ =>
    have inside : page ∈ (⟨0, 0x100000⟩ : Span) := by simpa [Span.mem_iff] using covers.2.1
    refine ⟨?_, absent⟩
    cases held : state.mem.pages page with
    | none => simp [readable, PageTable.prot, PageTable.protect_of_mem inside, held]
    | some old => simp [readable, PageTable.prot, PageTable.protect_of_mem inside, held, Prot.none]
  | anonymous extent ordinary range unbacked free =>
    have inside := (Fpage.covers_iff_mem ordinary range page).mp covers
    exact ⟨by simp [readable, PageTable.prot, inside, prot, Prot.none], absent⟩
  | reprotected extent ordinary range full =>
    have inside := (Fpage.covers_iff_mem ordinary range page).mp covers
    refine ⟨?_, absent⟩
    cases held : state.mem.pages page with
    | none => simp [readable, PageTable.prot, PageTable.protect_of_mem inside, held]
    | some old =>
      simp [readable, PageTable.prot, PageTable.protect_of_mem inside, held, prot, Prot.none]
  | refused extent ordinary range taken hole =>
    have inside := (Fpage.covers_iff_mem ordinary range page).mp covers
    rcases (clean.2 extent ordinary range).1 with full | dark
    · exact Bool.noConfusion (full.symm.trans hole)
    · exact ⟨dark page inside, absent⟩
  | aliased extent inner given ordinary range backed free =>
    have inside := (Fpage.covers_iff_mem ordinary range page).mp covers
    refine ⟨by simp [readable, PageTable.prot, inside, Memory.hostPages, prot, Prot.none], ?_⟩
    cases table : state.lut with
    | none => simp [MapState.entry]
    | some lut =>
      have taken := (clean.2 extent ordinary range).2 inner given (by simp [table]) backed
      exact Bool.noConfusion (free.symm.trans taken)

/-- No revoked page is in the table, and no denied page is readable in the engine. -/
structure Obeyed (state : MapState) (revoked denied : Nat → Bool) : Prop where
  absent : ∀ page, revoked page = true → state.entry page = nullptr
  dark : ∀ page, denied page = true → readable state.mem.pages page = false

/-- Revoking items are applied, and cleanly so; a mere query is harmless. -/
def CarriesThrough (control : MapControl) (pool : Option PhysPool) (state : MapState)
    (item : MapItem) : Prop :=
  item.fpage.rwx = 0 →
    if control.isQuery then control.isModify = false else RevokesCleanly pool state item

/-- After an applied item a page is revoked by it, or was before and is not covered. -/
private theorem noteItem_applied {control : MapControl} {revoked : Nat → Bool}
    (apply_ : control.isQuery = false) (noted : noteItem control item revoked page = true) :
    item.fpage.Covers page ∧ item.fpage.rwx = 0 ∨ ¬ item.fpage.Covers page ∧ revoked page = true := by
  unfold noteItem at noted
  split at noted
  · rename_i covers
    split at noted
    · rename_i none
      exact .inl ⟨covers, none⟩
    · simp [apply_] at noted
  · rename_i uncovered
    exact .inr ⟨uncovered, noted⟩

/-- A harmless query revokes nothing. -/
private theorem noteItem_query {control : MapControl} {revoked : Nat → Bool}
    (query : control.isQuery = true) (harmless : item.fpage.rwx = 0 → control.isModify = false)
    (noted : noteItem control item revoked page = true) : revoked page = true := by
  unfold noteItem at noted
  split at noted
  · split at noted
    · rename_i none
      simpa [harmless none] using noted
    · simpa [query] using noted
  · exact noted

theorem Obeyed.applied {control : MapControl} {revoked denied : Nat → Bool}
    (obeyed : Obeyed state revoked denied) (apply_ : control.isQuery = false)
    (clean : CarriesThrough control pool state item) :
    Obeyed (applyItem pool state item) (noteItem control item revoked)
      (noteItem control item denied) := by
  have effect := applyItem_effect pool state item
  have revokes : item.fpage.rwx = 0 → RevokesCleanly pool state item := by
    intro none
    simpa [apply_] using clean none
  constructor
  · intro page noted
    rcases noteItem_applied apply_ noted with ⟨covers, none⟩ | ⟨uncovered, before⟩
    · exact (effect.denies none (revokes none) covers).2
    · exact (effect.entry_outside uncovered).trans (obeyed.absent page before)
  · intro page noted
    rcases noteItem_applied apply_ noted with ⟨covers, none⟩ | ⟨uncovered, before⟩
    · exact (effect.denies none (revokes none) covers).1
    · exact (readable_congr (effect.outside uncovered)).trans (obeyed.dark page before)

theorem Obeyed.query {control : MapControl} {revoked denied : Nat → Bool}
    (obeyed : Obeyed state revoked denied) (query : control.isQuery = true)
    (clean : CarriesThrough control pool state item) :
    Obeyed state (noteItem control item revoked) (noteItem control item denied) := by
  have harmless : item.fpage.rwx = 0 → control.isModify = false := by
    intro none
    simpa [query] using clean none
  constructor
  · intro page noted
    exact obeyed.absent page (noteItem_query query harmless noted)
  · intro page noted
    exact obeyed.dark page (noteItem_query query harmless noted)

/-- The denied pages after `count` turns of a call. -/
def revokedAfter (mem : Memory) (utcb : Word) (control : MapControl) (pool : Option PhysPool)
    (lut : Option VtlbLut) (revoked : Nat → Bool) : Nat → Nat → Bool
  | 0 => revoked
  | count + 1 =>
    noteItem control (itemAt (mapControlLoop mem utcb control pool lut count).mem utcb count)
      (revokedAfter mem utcb control pool lut revoked count)

/-- Every item of a call that revokes is carried through at its turn. -/
def CallCarriesThrough (mem : Memory) (utcb : Word) (control : MapControl) (pool : Option PhysPool)
    (lut : Option VtlbLut) : Prop :=
  ∀ turn < control.items,
    let reached := mapControlLoop mem utcb control pool lut turn
    CarriesThrough control pool ⟨reached.mem, reached.lut⟩ (itemAt reached.mem utcb turn)

theorem Obeyed.loop {mem : Memory} {utcb : Word} {control : MapControl} {lut : Option VtlbLut}
    {revoked denied : Nat → Bool} (obeyed : Obeyed ⟨mem, lut⟩ revoked denied) (count : Nat)
    (clean : ∀ turn < count,
      let reached := mapControlLoop mem utcb control pool lut turn
      CarriesThrough control pool ⟨reached.mem, reached.lut⟩ (itemAt reached.mem utcb turn)) :
    Obeyed ⟨(mapControlLoop mem utcb control pool lut count).mem,
        (mapControlLoop mem utcb control pool lut count).lut⟩
      (revokedAfter mem utcb control pool lut revoked count)
      (revokedAfter mem utcb control pool lut denied count) := by
  induction count with
  | zero => exact obeyed
  | succ count ih =>
    have before := ih fun turn bound => clean turn (Nat.lt_succ_of_lt bound)
    have here := clean count (Nat.lt_succ_self count)
    rw [mapControlLoop_succ, revokedAfter, revokedAfter]
    cases query : control.isQuery with
    | true =>
      rw [mapControlStep_query query]
      exact before.query query here
    | false =>
      rw [mapControlStep_apply query]
      exact before.applied query here

namespace Bindings

variable {bindings : Bindings} {region : Region} {target : List Region}

/-- The cache never holds the null pointer. -/
def Proper (bindings : Bindings) : Prop := ∀ va, bindings.mappedHost va ≠ some nullptr

/-- Restoring what a base shadows would not make the page readable. -/
def ShadowDark (bindings : Bindings) (page va : Nat) : Prop :=
  ∀ shadow, bindings.shadowed va = some shadow → page ∈ shadow.span →
    (bindProt shadow.prot).read = false

instance (bindings : Bindings) (page va : Nat) : Decidable (bindings.ShadowDark page va) :=
  match found : bindings.shadowed va with
  | none => isTrue fun _ held => by cases found.symm.trans held
  | some shadow =>
    decidable_of_iff (page ∈ shadow.span → (bindProt shadow.prot).read = false)
      ⟨fun dark other held => Option.some.inj (found.symm.trans held) ▸ dark,
        fun dark => dark shadow found⟩

private theorem restoreShadow_dark {va : Nat} (dark : readable bindings.mem.pages page = false)
    (shadows : bindings.ShadowDark page va) :
    readable (bindings.restoreShadow va).mem.pages page = false := by
  unfold restoreShadow
  split
  · exact dark
  · rename_i shadow found
    dsimp only
    unfold Memory.ucMemMap
    split
    · by_cases inside : page ∈ pageSpan shadow.va shadow.size
      · simpa [readable, PageTable.prot, inside] using shadows shadow found inside
      · simpa [readable, PageTable.prot, inside] using dark
    · exact dark

theorem leaveRegion_dark (dark : readable bindings.mem.pages page = false)
    (shadows : bindings.ShadowDark page region.va) :
    readable (bindings.leaveRegion target region).mem.pages page = false := by
  unfold leaveRegion
  split
  · exact dark
  · refine restoreShadow_dark ?_ fun shadow found => shadows shadow found
    dsimp only
    unfold Memory.ucMemUnmap
    split
    · by_cases inside : page ∈ pageSpan region.va region.size
      · simp [readable, PageTable.prot, inside]
      · simpa [readable, PageTable.prot, inside] using dark
    · exact dark

/-- Leaving a region only forgets. -/
private theorem leaveRegion_forgets (bindings : Bindings) (target : List Region) (region : Region)
    (va : Nat) :
    ((bindings.leaveRegion target region).mappedHost va = none ∨
      (bindings.leaveRegion target region).mappedHost va = bindings.mappedHost va) ∧
    ((bindings.leaveRegion target region).shadowed va = none ∨
      (bindings.leaveRegion target region).shadowed va = bindings.shadowed va) := by
  unfold leaveRegion restoreShadow
  split
  · exact ⟨.inr rfl, .inr rfl⟩
  · by_cases same : va = region.va
    · subst same
      cases found : bindings.shadowed region.va with
      | none => exact ⟨.inl (Function.update_self ..), .inl found⟩
      | some shadow => exact ⟨.inl (Function.update_self ..), .inl (Function.update_self ..)⟩
    · cases bindings.shadowed region.va with
      | none => exact ⟨.inr (Function.update_of_ne same ..), .inr rfl⟩
      | some shadow =>
        exact ⟨.inr (Function.update_of_ne same ..), .inr (Function.update_of_ne same ..)⟩

theorem Proper.leaveRegions (target prior : List Region) (proper : bindings.Proper) :
    (prior.foldl (leaveRegion target) bindings).Proper := by
  induction prior generalizing bindings with
  | nil => exact proper
  | cons region rest ih =>
    apply ih
    intro va null
    rcases (bindings.leaveRegion_forgets target region va).1 with gone | same
    · rw [gone] at null
      cases null
    · exact proper va (same ▸ null)

theorem leaveRegions_dark (target prior : List Region)
    (dark : readable bindings.mem.pages page = false)
    (shadows : ∀ region ∈ prior, bindings.ShadowDark page region.va) :
    readable (prior.foldl (leaveRegion target) bindings).mem.pages page = false := by
  induction prior generalizing bindings with
  | nil => exact dark
  | cons region rest ih =>
    refine ih (leaveRegion_dark dark (shadows region List.mem_cons_self)) ?_
    intro later member shadow found
    rcases (bindings.leaveRegion_forgets target region later.va).2 with gone | same
    · rw [gone] at found
      cases found
    · exact shadows later (List.mem_cons_of_mem _ member) shadow (same ▸ found)

/-- Leaving a wholly mapped region takes its pages away, if what its base shadows would
not make them readable again. -/
private theorem leaveRegion_clears (left : kept target region = false)
    (full : bindings.mem.pages.full region.span = true) (inside : page ∈ region.span)
    (shadows : bindings.ShadowDark page region.va) :
    readable (bindings.leaveRegion target region).mem.pages page = false := by
  have removed : bindings.mem.ucMemUnmap region.va region.size =
      (.ok, { bindings.mem with pages := bindings.mem.pages.remove region.span }) :=
    Memory.ucMemUnmap_full full
  rw [kept] at left
  unfold leaveRegion
  rw [if_neg (by simp [left]), removed]
  exact restoreShadow_dark (by simp [readable, PageTable.prot, inside])
    fun shadow found => shadows shadow found

/-- The page lies in a region that the switch takes away: it is wholly mapped, the
target does not keep it, and no other region of the space being left overlaps it. -/
def Cleared (bindings : Bindings) (target prior : List Region) (page : Nat) : Prop :=
  ∃ region ∈ prior, page ∈ region.span ∧ kept target region = false ∧
    bindings.mem.pages.full region.span = true ∧
    ∀ other ∈ prior, other ≠ region → other.span.Disjoint region.span

instance (bindings : Bindings) (target prior : List Region) (page : Nat) :
    Decidable (bindings.Cleared target prior page) :=
  inferInstanceAs (Decidable (∃ region ∈ prior, _ ∧ _ ∧ _ ∧ ∀ other ∈ prior, _ → _))

/-- After the first pass a page is dark if it was before or lies in a region taken away. -/
theorem leaveRegions_clears (target prior : List Region) (cleared : bindings.Cleared target prior page)
    (shadows : ∀ region ∈ prior, bindings.ShadowDark page region.va) :
    readable (prior.foldl (leaveRegion target) bindings).mem.pages page = false := by
  obtain ⟨region, member, inside, left, full, separate⟩ := cleared
  induction prior generalizing bindings with
  | nil => cases member
  | cons first rest ih =>
    have remaining : ∀ later ∈ rest, (bindings.leaveRegion target first).ShadowDark page later.va := by
      intro later inRest shadow found
      rcases (bindings.leaveRegion_forgets target first later.va).2 with gone | same
      · rw [gone] at found
        cases found
      · exact shadows later (List.mem_cons_of_mem _ inRest) shadow (same ▸ found)
    by_cases here : first = region
    · subst here
      exact leaveRegions_dark target rest
        (leaveRegion_clears left full inside (shadows first List.mem_cons_self)) remaining
    · have inRest : region ∈ rest := (List.mem_cons.mp member).resolve_left fun same => here same.symm
      have apart := separate first List.mem_cons_self here
      have still : (bindings.leaveRegion target first).mem.pages.full region.span = true := by
        rw [PageTable.full_iff] at full ⊢
        intro inner within
        rw [leaveRegion_outside target (full inner within) fun inFirst => apart inner inFirst within]
        exact full inner within
      exact ih remaining inRest still fun other later => separate other (List.mem_cons_of_mem _ later)

/-- Entering a region would not make the page readable. -/
def EnterDark (page : Nat) (region : Region) : Prop :=
  page ∈ region.span → region.host = nullptr ∨ (bindProt region.prot).read = false

instance (page : Nat) (region : Region) : Decidable (EnterDark page region) :=
  inferInstanceAs (Decidable (_ → _ ∨ _))

theorem Proper.enterRegion (proper : bindings.Proper) (region : Region) :
    (bindings.enterRegion region).2.Proper := by
  have hosts : region.host ≠ nullptr →
      ∀ va, Function.update bindings.mappedHost region.va (some region.host) va ≠ some nullptr := by
    intro backed va null
    by_cases same : va = region.va
    · rw [same, Function.update_self] at null
      exact backed (Option.some.inj null)
    · rw [Function.update_of_ne same] at null
      exact proper va null
  have effect := bindings.enterRegion_effect region
  generalize bindings.enterRegion region = result at effect ⊢
  obtain ⟨err, after⟩ := result
  cases effect with
  | reaffirmed => exact proper
  | stale => exact proper
  | unbacked => exact proper
  | blocked => exact proper
  | fresh different backed free => exact hosts backed
  | rebound different backed full => exact hosts backed

theorem Proper.enterRegions (target : List Region) (err : UcErr) (proper : bindings.Proper) :
    (target.foldl enterStep (err, bindings)).2.Proper := by
  induction target generalizing bindings err with
  | nil => exact proper
  | cons region rest ih => exact ih _ (proper.enterRegion region)

theorem Proper.enterRegion_dark (proper : bindings.Proper)
    (dark : readable bindings.mem.pages page = false) (enters : EnterDark page region) :
    readable (bindings.enterRegion region).2.mem.pages page = false := by
  have effect := bindings.enterRegion_effect region
  generalize bindings.enterRegion region = result at effect ⊢
  obtain ⟨err, after⟩ := result
  by_cases inside : page ∈ region.span
  · cases effect with
    | stale => exact dark
    | unbacked => exact dark
    | blocked => exact dark
    | reaffirmed same full =>
      rcases enters inside with null | unreadable
      · exact absurd (null ▸ same) (proper region.va)
      · cases held : bindings.mem.pages page with
        | none => simp [readable, PageTable.prot, PageTable.protect_of_mem inside, held]
        | some old => simp [readable, PageTable.prot, PageTable.protect_of_mem inside, held, unreadable]
    | fresh different backed free =>
      rcases enters inside with null | unreadable
      · exact absurd null backed
      · simp [readable, PageTable.prot, inside, Memory.hostPages, unreadable]
    | rebound different backed full =>
      rcases enters inside with null | unreadable
      · exact absurd null backed
      · simp [readable, PageTable.prot, inside, Memory.hostPages, unreadable]
  · cases effect with
    | stale => exact dark
    | unbacked => exact dark
    | blocked => exact dark
    | reaffirmed => simpa [readable, PageTable.prot, inside] using dark
    | fresh => simpa [readable, PageTable.prot, inside] using dark
    | rebound => simpa [readable, PageTable.prot, inside] using dark

theorem Proper.enterRegions_dark (target : List Region) (err : UcErr) (proper : bindings.Proper)
    (dark : readable bindings.mem.pages page = false)
    (enters : ∀ region ∈ target, EnterDark page region) :
    readable (target.foldl enterStep (err, bindings)).2.mem.pages page = false := by
  induction target generalizing bindings err with
  | nil => exact dark
  | cons region rest ih =>
    exact ih _ (proper.enterRegion region)
      (proper.enterRegion_dark dark (enters region List.mem_cons_self))
      fun later member => enters later (List.mem_cons_of_mem _ member)

end Bindings

/-- The manager records a page without any protection in a space. -/
def recordedNone (mgr : SpaceManager) (sid : Word) (page : Nat) : Bool :=
  (mgr.regionsOf sid).any fun region => page ∈ region.span && region.prot = Prot.none

/-- An engine with its manager and one space's lookup table. A page stays revoked until
a later item grants it; the engine owes its denial until the next switch, and from then
on in spaces that record the page without protection. -/
structure Guarded where
  world : World
  lut : Option VtlbLut
  revoked : Nat → Bool
  denied : Nat → Bool

/-- A call, a change of memory contents between calls, or an operation of the manager. -/
inductive GuardedEvent where
  | call (utcb : Word) (control : MapControl)
  | contents (ram : Nat → Byte) (host : HostPtr → Byte)
  | space (op : SpaceOp)

namespace Guarded

def mapState (guarded : Guarded) : MapState := ⟨guarded.world.mem, guarded.lut⟩

/-- A switch revokes and grants nothing; it decides for which revoked pages the engine
owes the denial. -/
def step (pool : Option PhysPool) (guarded : Guarded) : GuardedEvent → Guarded
  | .call utcb control =>
    let result := (handleMapControl guarded.world.mem utcb control pool guarded.lut).2
    { world := { guarded.world with mem := result.mem }
      lut := result.lut
      revoked := revokedAfter guarded.world.mem utcb control pool guarded.lut guarded.revoked
        control.items
      denied := revokedAfter guarded.world.mem utcb control pool guarded.lut guarded.denied
        control.items }
  | .contents ram host =>
    { guarded with world := { guarded.world with mem := { guarded.world.mem with ram, host } } }
  | .space op =>
    { guarded with
      world := guarded.world.step op
      denied :=
        match op.target guarded.world.mgr with
        | none => guarded.denied
        | some sid => fun page => guarded.revoked page && recordedNone guarded.world.mgr sid page }

def run (pool : Option PhysPool) (guarded : Guarded) (events : List GuardedEvent) : Guarded :=
  events.foldl (step pool) guarded

/-- Over a revoked page that the target records without protection the switch binds no
readable region and restores no readable range, and it takes the page away if another
space has it readable. -/
def SealedSwitch (guarded : Guarded) (sid : Word) : Prop :=
  let mgr := guarded.world.mgr
  ∀ page, guarded.revoked page = true → recordedNone mgr sid page = true →
    (∀ region ∈ mgr.effectiveRegions sid, Bindings.EnterDark page region) ∧
    (mgr.activatedOnce = true → ∀ prior ∈ mgr.effectiveRegions mgr.activeSid,
      guarded.world.bindings.ShadowDark page prior.va) ∧
    (readable guarded.world.mem.pages page = true → mgr.activatedOnce = true ∧
      guarded.world.bindings.Cleared (mgr.effectiveRegions sid)
        (mgr.effectiveRegions mgr.activeSid) page)

/-- What one event has to respect. -/
def Respects (pool : Option PhysPool) (guarded : Guarded) : GuardedEvent → Prop
  | .call utcb control => CallCarriesThrough guarded.world.mem utcb control pool guarded.lut
  | .contents _ _ => True
  | .space op => ∀ sid, op.target guarded.world.mgr = some sid → guarded.SealedSwitch sid

def RunRespects (pool : Option PhysPool) : Guarded → List GuardedEvent → Prop
  | _, [] => True
  | guarded, event :: rest => guarded.Respects pool event ∧ RunRespects pool (guarded.step pool event) rest

/-- The invariant of a run. -/
structure Sealed (guarded : Guarded) : Prop where
  obeyed : Obeyed guarded.mapState guarded.revoked guarded.denied
  proper : guarded.world.bindings.Proper

end Guarded

namespace SpaceManager

variable {mgr : SpaceManager} {mem : Memory} {sid : Word}

theorem rebind_proper (proper : Bindings.Proper ⟨mem, mgr.mappedHost, mgr.shadowed⟩) :
    (mgr.rebind mem sid).2.Proper := by
  unfold rebind
  dsimp only
  split
  · exact (proper.leaveRegions _ _).enterRegions _ _
  · exact proper.enterRegions _ _

/-- A page is dark after a rebinding that neither binds nor restores a readable range
over it, and takes it away if it was readable. -/
theorem rebind_dark (proper : Bindings.Proper ⟨mem, mgr.mappedHost, mgr.shadowed⟩)
    (enters : ∀ region ∈ mgr.effectiveRegions sid, Bindings.EnterDark page region)
    (shadows : mgr.activatedOnce = true → ∀ prior ∈ mgr.effectiveRegions mgr.activeSid,
      Bindings.ShadowDark ⟨mem, mgr.mappedHost, mgr.shadowed⟩ page prior.va)
    (cleared : readable mem.pages page = true → mgr.activatedOnce = true ∧
      Bindings.Cleared ⟨mem, mgr.mappedHost, mgr.shadowed⟩ (mgr.effectiveRegions sid)
        (mgr.effectiveRegions mgr.activeSid) page) :
    readable (mgr.rebind mem sid).2.mem.pages page = false := by
  unfold rebind
  dsimp only
  cases dark : readable mem.pages page with
  | true =>
    obtain ⟨once, taken⟩ := cleared dark
    rw [if_pos once]
    exact (proper.leaveRegions _ _).enterRegions_dark _ _
      (Bindings.leaveRegions_clears _ _ taken (shadows once)) enters
  | false =>
    split
    · rename_i once
      exact (proper.leaveRegions _ _).enterRegions_dark _ _
        (Bindings.leaveRegions_dark _ _ dark (shadows once)) enters
    · exact proper.enterRegions_dark _ _ dark enters

end SpaceManager

namespace Guarded

variable {guarded : Guarded}

theorem Sealed.step (held : guarded.Sealed) (event : GuardedEvent)
    (respects : guarded.Respects pool event) : (guarded.step pool event).Sealed := by
  cases event with
  | call utcb control => exact ⟨held.obeyed.loop control.items respects, held.proper⟩
  | contents ram host => exact ⟨⟨held.obeyed.absent, held.obeyed.dark⟩, held.proper⟩
  | space op =>
    cases switch : op.target guarded.world.mgr with
    | none =>
      have idled := World.step_idle switch
      refine ⟨⟨held.obeyed.absent, fun page denied => ?_⟩, idled.bindings.symm ▸ held.proper⟩
      simp only [Guarded.step, switch] at denied
      exact (congrArg (fun mem => readable mem.pages page) idled.mem).trans
        (held.obeyed.dark page denied)
    | some sid =>
      have switched := World.step_switch switch
      refine ⟨⟨held.obeyed.absent, fun page denied => ?_⟩,
        switched.bindings.symm ▸ SpaceManager.rebind_proper held.proper⟩
      simp only [Guarded.step, switch, Bool.and_eq_true] at denied
      obtain ⟨enters, shadows, cleared⟩ := respects sid switch page denied.1 denied.2
      exact (congrArg (fun mem => readable mem.pages page) switched.mem).trans
        (SpaceManager.rebind_dark held.proper enters shadows cleared)

theorem Sealed.run (held : guarded.Sealed) (events : List GuardedEvent)
    (respects : guarded.RunRespects pool events) : (guarded.run pool events).Sealed := by
  induction events generalizing guarded with
  | nil => exact held
  | cons event rest ih => exact ih (held.step event respects.1) respects.2

theorem RunRespects.left {done rest : List GuardedEvent}
    (respects : guarded.RunRespects pool (done ++ rest)) : guarded.RunRespects pool done := by
  induction done generalizing guarded with
  | nil => trivial
  | cons event tail ih => exact ⟨respects.1, ih respects.2⟩

/-- A run starts with a fresh manager and nothing revoked. -/
def start (mem : Memory) (lut : Option VtlbLut) : Guarded :=
  ⟨World.start mem, lut, fun _ => false, fun _ => false⟩

end Guarded

/-- No revoked page can be read through the table; and none through the engine, before
any later switch as well as after each switch to a space that records the page without
protection. -/
def RevocationHolds (pool : Option PhysPool) (mem : Memory) (lut : Option VtlbLut)
    (events : List GuardedEvent) : Prop :=
  ∀ done rest, events = done ++ rest →
    let reached := (Guarded.start mem lut).run pool done
    ∀ page < 0x100000,
      (reached.revoked page = true →
        ∀ table, reached.lut = some table → table.translate (page * 0x1000) = nullptr) ∧
      (reached.denied page = true → readable reached.world.mem.pages page = false)

/-- Revocation holds in every run whose calls carry their revocations through and whose
switches are sealed. -/
theorem revocationHolds_of_respects (pool : Option PhysPool) (mem : Memory) (lut : Option VtlbLut)
    (events : List GuardedEvent)
    (respects : (Guarded.start mem lut).RunRespects pool events) :
    RevocationHolds pool mem lut events := by
  intro done rest split reached page bound
  subst split
  have start : (Guarded.start mem lut).Sealed :=
    ⟨⟨fun _ never => Bool.noConfusion never, fun _ never => Bool.noConfusion never⟩,
      fun _ null => by cases null⟩
  have obeyed := (start.run done respects.left).obeyed
  refine ⟨fun revoked table given => ?_, obeyed.dark page⟩
  have entry : table.entries page = nullptr := by
    have same : reached.mapState.entry page = table.entries page := by
      simp [MapState.entry, Guarded.mapState, given]
    exact same.symm.trans (obeyed.absent page revoked)
  have index : page * 0x1000 % 0x100000000 / 0x1000 = page := by omega
  simp [VtlbLut.translate, index, entry]

/-- A UTCB at 0x1000 whose first item revokes the page at 0x5000. -/
def revokingUtcb : Memory where
  pages := fun page => if page = 1 then some ⟨Prot.all, .ram⟩ else none
  ram := fun byte => if byte = 0x1044 then 0xc0 else if byte = 0x1045 then 0x50 else 0
  host := fun _ => 0

/-- The page is revoked while space 2 has it bound, and recorded in space 1 without
protection or buffer; then both spaces are activated by turns. -/
def revokeAndReturn : List GuardedEvent :=
  [.space (.record 2 0x5000 0x1000 Prot.all 0x20000), .space (.activate 2),
    .call 0x1000 ⟨0x80000000⟩, .space (.record 1 0x5000 0x1000 Prot.none nullptr),
    .space (.activate 1), .space (.activate 2), .space (.activate 1)]

/-- Only the page at 0x5000 is recorded in these spaces. -/
private theorem recordedNone_page {mgr : SpaceManager} {sid : Word} {page : Nat}
    (spans : ∀ region ∈ mgr.regionsOf sid, region.span = ⟨5, 1⟩)
    (recorded : recordedNone mgr sid page = true) : page = 5 := by
  obtain ⟨region, member, found⟩ := List.any_eq_true.mp recorded
  have inside : page ∈ (⟨5, 1⟩ : Span) := by
    rw [← spans region member]
    simp only [Bool.and_eq_true, decide_eq_true_eq] at found
    exact found.1
  obtain ⟨lower, upper⟩ := Span.mem_iff.mp inside
  dsimp only at lower upper
  omega

theorem revocationHolds_revokeAndReturn :
    ((Guarded.start revokingUtcb (some VtlbLut.empty)).run none revokeAndReturn).denied 5 = true ∧
      RevocationHolds none revokingUtcb (some VtlbLut.empty) revokeAndReturn := by
  refine ⟨by decide, revocationHolds_of_respects none revokingUtcb (some VtlbLut.empty)
    revokeAndReturn ⟨?_, ?_, ?_, ?_, ?_, ?_, ?_, trivial⟩⟩
  · intro sid switch
    cases switch
  · intro sid switch page revoked
    cases revoked
  · intro turn bound reached none
    have first : turn = 0 := Nat.lt_one_iff.mp bound
    subst first
    refine ⟨fun page _ => rfl, fun extent ordinary range => ⟨.inl ?_, fun inner given => ?_⟩⟩
    · have item : itemAt reached.mem 0x1000 0 = ⟨⟨0⟩, ⟨0x50c0⟩⟩ := by decide
      have asked : (⟨0x50c0⟩ : Fpage).extent = some ⟨0x5000, 0x1000, rfl, rfl, by decide⟩ := by
        decide +kernel
      rw [item] at range
      have same := Option.some.inj (range.symm.trans asked)
      subst same
      decide
    · cases given
  · intro sid switch
    cases switch
  · intro sid switch page revoked recorded
    have target : sid = 1 := (Option.some.inj switch).symm
    subst target
    have here := recordedNone_page (by decide) recorded
    subst here
    decide
  · intro sid switch page revoked recorded
    have target : sid = 2 := (Option.some.inj switch).symm
    subst target
    have here := recordedNone_page (by decide) recorded
    subst here
    exact absurd recorded (by decide)
  · intro sid switch page revoked recorded
    have target : sid = 1 := (Option.some.inj switch).symm
    subst target
    have here := recordedNone_page (by decide) recorded
    subst here
    decide

/-- A UTCB at 0x1000 with two items: grant the pool page at 0x5000, then revoke it. -/
def grantThenRevoke : Memory where
  pages := fun page => if page = 1 then some ⟨Prot.all, .ram⟩ else none
  ram := fun byte =>
    if byte = 0x1042 then 0x10 else if byte = 0x1044 then 0xc7 else if byte = 0x1045 then 0x50
    else if byte = 0x104c then 0xc0 else if byte = 0x104d then 0x50 else 0
  host := fun _ => 0

/-- The engine mapping is revoked, the table entry is not. -/
theorem not_revocationHolds_grantThenRevoke :
    ¬ RevocationHolds (some ⟨0x100000, 0x1000, 0x7000⟩) grantThenRevoke (some VtlbLut.empty)
      [.call 0x1000 ⟨0x80000001⟩] := by
  intro holds
  have denied := (holds [.call 0x1000 ⟨0x80000001⟩] [] rfl 5 (by decide)).1 (by decide)
  have translated : (((Guarded.start grantThenRevoke (some VtlbLut.empty)).run
      (some ⟨0x100000, 0x1000, 0x7000⟩) [.call 0x1000 ⟨0x80000001⟩]).lut.map
        fun table => table.translate 0x5000) = some 0x7000 := by decide
  obtain ⟨table, given, value⟩ := Option.map_eq_some_iff.mp translated
  exact absurd (value.symm.trans (denied table given)) (by decide)

end ZeeboLle.L4

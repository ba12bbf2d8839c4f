import ZeeboLle.L4.Activation

/-! Static mappings under the switch. A static page is bound to a region of the active
space or to no buffer at all: when the region is left its range comes back as engine
RAM, because it was shadowed under the same base and with the same size. -/
namespace ZeeboLle.L4

open Paging Unicorn

/-- The region lies over a page that was mapped before any space was activated. -/
def Region.Touches (region : Region) (static : PageTable Prot Backing) : Prop :=
  static.free region.span = false

instance (region : Region) (static : PageTable Prot Backing) : Decidable (region.Touches static) :=
  inferInstanceAs (Decidable (_ = _))

theorem Region.touches_iff {region : Region} {static : PageTable Prot Backing} :
    region.Touches static ↔ ∃ page ∈ region.span, (static page).isSome = true := by
  rw [Touches, ← Bool.not_eq_true, PageTable.free_iff]
  constructor
  · intro taken
    by_contra none
    apply taken
    intro page member
    by_contra some
    exact none ⟨page, member, Option.ne_none_iff_isSome.mp some⟩
  · rintro ⟨page, member, mapped⟩ free
    simp [free page member] at mapped

theorem Region.SameRange.touches {left right : Region} {static : PageTable Prot Backing}
    (same : left.SameRange right) (touches : left.Touches static) : right.Touches static := by
  rwa [Touches, ← same.span]

/-- A region over a static page overlaps no other region of the list. -/
def SeparateOver (static : PageTable Prot Backing) (regions : List Region) : Prop :=
  ∀ left ∈ regions, left.Touches static → ∀ right ∈ regions, left ≠ right →
    left.span.Disjoint right.span

instance (static : PageTable Prot Backing) (regions : List Region) :
    Decidable (SeparateOver static regions) :=
  inferInstanceAs (Decidable (∀ left ∈ regions, _ → ∀ right ∈ regions, _ → _))

namespace Bindings

variable {bindings : Bindings} {static : PageTable Prot Backing} {region : Region}
  {live target : List Region} {page : Nat}

/-- The page lies in engine RAM, as restored ranges do, or on what it was mapped to at
the start. -/
def Own (bindings : Bindings) (static : PageTable Prot Backing) (page : Nat) : Prop :=
  bindings.mem.pages.backing page = some .ram ∨
    bindings.mem.pages.backing page = static.backing page

/-- The whole region is bound to its buffer, and the cache says so. -/
structure Holds (bindings : Bindings) (region : Region) : Prop where
  held : bindings.mappedHost region.va = some region.host
  backed : ∀ page ∈ region.span,
    bindings.mem.pages.backing page = some (.host (region.hostAt page))

/-- No region over the page lies wholly over static pages. -/
def Loose (static : PageTable Prot Backing) (live : List Region) (page : Nat) : Prop :=
  ∀ region ∈ live, page ∈ region.span → static.full region.span = false

/-- Every static page belongs to a live region, or is its own where no live region lies
wholly over static pages. -/
def Placed (bindings : Bindings) (static : PageTable Prot Backing) (live : List Region) : Prop :=
  ∀ page, (static page).isSome = true →
    (bindings.Own static page ∧ Loose static live page) ∨
      ∃ region ∈ live, page ∈ region.span ∧ bindings.Holds region

/-- Live regions over static pages have the range of a region or are clear of it. -/
def Apart (static : PageTable Prot Backing) (region : Region) (live : List Region) : Prop :=
  ∀ old ∈ live, old.Touches static → old.SameRange region ∨ old.span.Disjoint region.span

/-- The range of a region is shadowed under its base, with its size. -/
def Shadows (bindings : Bindings) (region : Region) : Prop :=
  ∃ shadow, bindings.shadowed region.va = some shadow ∧ shadow.SameRange region

/-- Neither table knows a base address. -/
def Unknown (bindings : Bindings) (va : Nat) : Prop :=
  bindings.mappedHost va = none ∧ bindings.shadowed va = none

private theorem isSome_of_backing {pages : PageTable Prot Backing} {backing : Backing}
    (held : pages.backing page = some backing) : (pages page).isSome = true := by
  obtain ⟨found, present, _⟩ := Option.map_eq_some_iff.mp held
  exact Option.isSome_iff_exists.mpr ⟨found, present⟩

theorem Own.mapped (own : bindings.Own static page) (mapped : (static page).isSome = true) :
    (bindings.mem.pages page).isSome = true := by
  rcases own with ram | same
  · exact isSome_of_backing ram
  · obtain ⟨old, present⟩ := Option.isSome_iff_exists.mp mapped
    rw [PageTable.backing, PageTable.backing, present] at same
    exact isSome_of_backing same

theorem Holds.full (holds : bindings.Holds region) :
    bindings.mem.pages.full region.span = true :=
  PageTable.full_iff.mpr fun page inside => isSome_of_backing (holds.backed page inside)

theorem Placed.mapped (placed : bindings.Placed static live)
    (mapped : (static page).isSome = true) : (bindings.mem.pages page).isSome = true := by
  rcases placed page mapped with ⟨own, _⟩ | ⟨region, _, inside, holds⟩
  · exact own.mapped mapped
  · exact isSome_of_backing (holds.backed page inside)

theorem Loose.mono {other : List Region} (loose : Loose static live page)
    (within : ∀ region ∈ other, page ∈ region.span → region ∈ live) : Loose static other page :=
  fun region member inside => loose region (within region member inside) inside

/-- A range with a hole never lies wholly over static pages. -/
theorem Placed.full (placed : bindings.Placed static live)
    (hole : bindings.mem.pages.full region.span = false) : static.full region.span = false := by
  by_contra whole
  have all := PageTable.full_iff.mp (Bool.not_eq_false _ ▸ whole)
  have full := PageTable.full_iff.mpr fun page inside => placed.mapped (all page inside)
  exact Bool.noConfusion (full.symm.trans hole)

/-- Only regions over static pages matter. -/
theorem Placed.congr {other : List Region} (placed : bindings.Placed static live)
    (same : ∀ region, region.Touches static → (region ∈ live ↔ region ∈ other)) :
    bindings.Placed static other := by
  intro page mapped
  rcases placed page mapped with ⟨own, loose⟩ | ⟨region, member, inside, holds⟩
  · refine .inl ⟨own, loose.mono fun region member inside => ?_⟩
    exact (same region (Region.touches_iff.mpr ⟨page, inside, mapped⟩)).mpr member
  · have touches := Region.touches_iff.mpr ⟨page, inside, mapped⟩
    exact .inr ⟨region, (same region touches).mp member, inside, holds⟩

theorem Apart.mono {other : List Region} (apart : Apart static region live)
    (within : ∀ old ∈ other, old ∈ live) : Apart static region other :=
  fun old member => apart old (within old member)

/-- A change elsewhere leaves an own page its own. -/
theorem Own.congr {after : Bindings} (own : bindings.Own static page)
    (same : after.mem.pages.backing page = bindings.mem.pages.backing page) :
    after.Own static page := by
  rw [Own, same]
  exact own

/-- A change off the region and its base leaves it bound. -/
theorem Holds.congr {after : Bindings} (holds : bindings.Holds region)
    (held : after.mappedHost region.va = bindings.mappedHost region.va)
    (same : ∀ page ∈ region.span,
      after.mem.pages.backing page = bindings.mem.pages.backing page) : after.Holds region where
  held := held.trans holds.held
  backed := fun page inside => (same page inside).trans (holds.backed page inside)

/-- Whether the target keeps a region of the space being left. -/
def kept (target : List Region) (region : Region) : Bool :=
  target.any fun wanted => wanted.coincides region

/-- A region that is left disappears from both tables. -/
theorem leaveRegion_unknown (bindings : Bindings) (left : kept target region = false) :
    (bindings.leaveRegion target region).Unknown region.va := by
  rw [kept] at left
  unfold Unknown leaveRegion restoreShadow
  rw [if_neg (by simp [left])]
  cases shadowed : bindings.shadowed region.va with
  | none => exact ⟨Function.update_self .., shadowed⟩
  | some shadow => exact ⟨Function.update_self .., Function.update_self ..⟩

theorem leaveRegion_other (bindings : Bindings) (target : List Region) {va : Nat} (other : va ≠ region.va) :
    (bindings.leaveRegion target region).mappedHost va = bindings.mappedHost va ∧
      (bindings.leaveRegion target region).shadowed va = bindings.shadowed va := by
  unfold leaveRegion restoreShadow
  split
  · exact ⟨rfl, rfl⟩
  · cases bindings.shadowed region.va with
    | none => exact ⟨Function.update_of_ne other .., rfl⟩
    | some shadow => exact ⟨Function.update_of_ne other .., Function.update_of_ne other ..⟩

theorem leaveRegion_kept (keep : kept target region = true) :
    bindings.leaveRegion target region = bindings := if_pos keep

private theorem restoreShadow_mapped {va : Nat} (mapped : (bindings.mem.pages page).isSome = true) :
    (bindings.restoreShadow va).mem.pages page = bindings.mem.pages page := by
  unfold restoreShadow
  split
  · rfl
  · rename_i shadow _
    dsimp only
    cases free : bindings.mem.pages.free (pageSpan shadow.va shadow.size) with
    | true =>
      have outside : page ∉ pageSpan shadow.va shadow.size := by
        intro inside
        simp [PageTable.free_iff.mp free page inside] at mapped
      rw [Memory.ucMemMap_free free]
      dsimp only
      exact PageTable.install_of_not_mem outside
    | false => rw [Memory.ucMemMap_taken free]

/-- Leaving a region does nothing to mapped pages outside its range. -/
theorem leaveRegion_outside (target : List Region) (mapped : (bindings.mem.pages page).isSome = true)
    (outside : page ∉ region.span) :
    (bindings.leaveRegion target region).mem.pages page = bindings.mem.pages page := by
  have unmapped : (bindings.mem.ucMemUnmap region.va region.size).2.pages page =
      bindings.mem.pages page := by
    unfold Memory.ucMemUnmap
    split
    · exact PageTable.remove_of_not_mem outside
    · rfl
  unfold leaveRegion
  split
  · rfl
  · exact (restoreShadow_mapped (by exact unmapped ▸ mapped)).trans unmapped

/-- A range with a hole cannot be unmapped, so leaving it keeps what is mapped there. -/
theorem leaveRegion_hole (target : List Region) (mapped : (bindings.mem.pages page).isSome = true)
    (hole : bindings.mem.pages.full region.span = false) :
    (bindings.leaveRegion target region).mem.pages page = bindings.mem.pages page := by
  have refused : bindings.mem.ucMemUnmap region.va region.size = (.nomem, bindings.mem) :=
    Memory.ucMemUnmap_hole hole
  unfold leaveRegion
  split
  · rfl
  · rw [refused]
    exact restoreShadow_mapped mapped

/-- A shadowed range that is left comes back whole, as engine RAM. -/
theorem leaveRegion_restores (left : kept target region = false)
    (full : bindings.mem.pages.full region.span = true) (shadows : bindings.Shadows region)
    (inside : page ∈ region.span) :
    (bindings.leaveRegion target region).mem.pages.backing page = some .ram := by
  obtain ⟨shadow, found, range⟩ := shadows
  have span : pageSpan shadow.va shadow.size = region.span := range.span
  have removed : bindings.mem.ucMemUnmap region.va region.size =
      (.ok, { bindings.mem with pages := bindings.mem.pages.remove region.span }) :=
    Memory.ucMemUnmap_full full
  have free : (bindings.mem.pages.remove region.span).free
      (pageSpan shadow.va shadow.size) = true := span ▸ PageTable.free_remove _ _
  rw [kept] at left
  simp only [leaveRegion, left, Bool.false_eq_true, if_false, restoreShadow, found]
  rw [removed, Memory.ucMemMap_free free]
  dsimp only
  rw [PageTable.backing, PageTable.install_of_mem (span ▸ inside)]
  rfl

/-- Leaving a region keeps every static page in place, if the region is shadowed
wherever it lies over one. -/
theorem Placed.leaveRegion (target : List Region) (placed : bindings.Placed static live)
    (apart : Apart static region live) (shadowed : region.Touches static → bindings.Shadows region) :
    (bindings.leaveRegion target region).Placed static
      (if kept target region then live else dropVa live region.va) := by
  cases left : kept target region with
  | true =>
    rw [leaveRegion_kept left, if_pos rfl]
    exact placed
  | false =>
    rw [if_neg Bool.false_ne_true]
    intro page mapped
    have present := placed.mapped mapped
    rcases placed page mapped with ⟨own, loose⟩ | ⟨old, member, within, holds⟩
    · refine .inl ⟨?_, loose.mono fun old member _ => (mem_dropVa.mp member).1⟩
      by_cases inside : page ∈ region.span
      · cases full : bindings.mem.pages.full region.span with
        | true =>
          have touches := Region.touches_iff.mpr ⟨page, inside, mapped⟩
          exact .inl (leaveRegion_restores left full (shadowed touches) inside)
        | false => exact own.congr (congrArg _ (leaveRegion_hole target present full))
      · exact own.congr (congrArg _ (leaveRegion_outside target present inside))
    · have touches := Region.touches_iff.mpr ⟨page, within, mapped⟩
      rcases apart old member touches with range | clear
      · -- the page goes with its region and comes back on its own
        have full : bindings.mem.pages.full region.span = true := range.span ▸ holds.full
        refine .inl ⟨.inl (leaveRegion_restores left full (shadowed (range.touches touches))
          (range.span ▸ within)), fun other remains hit => ?_⟩
        obtain ⟨inLive, different⟩ := mem_dropVa.mp remains
        rcases apart other inLive (Region.touches_iff.mpr ⟨page, hit, mapped⟩) with again | clear
        · exact absurd again.1 different
        · exact absurd (range.span ▸ within) (clear page hit)
      · have other : old.va ≠ region.va := fun same =>
          clear _ old.first_mem (same ▸ region.first_mem)
        refine .inr ⟨old, mem_dropVa.mpr ⟨member, other⟩, within,
          holds.congr (bindings.leaveRegion_other target other).1 fun inner inOld => ?_⟩
        exact congrArg _ (leaveRegion_outside target
          (isSome_of_backing (holds.backed inner inOld)) (clear inner inOld))

/-- After the first pass regions that were left are unknown and the other table entries
are as before. -/
theorem leaveRegions_tables (bindings : Bindings) (target : List Region) {prior : List Region}
    (distinct : (prior.map fun region => region.va).Nodup) :
    let after := prior.foldl (leaveRegion target) bindings
    (∀ region ∈ prior, kept target region = false → after.Unknown region.va) ∧
      ∀ va, (∀ region ∈ prior, kept target region = false → region.va ≠ va) →
        after.mappedHost va = bindings.mappedHost va ∧ after.shadowed va = bindings.shadowed va := by
  induction prior generalizing bindings with
  | nil => exact ⟨by simp, fun _ _ => ⟨rfl, rfl⟩⟩
  | cons region rest ih =>
    rw [List.map_cons, List.nodup_cons] at distinct
    obtain ⟨fresh, distinct⟩ := distinct
    have others : ∀ later ∈ rest, later.va ≠ region.va := fun later member same =>
      fresh (List.mem_map.mpr ⟨later, member, same⟩)
    obtain ⟨gone, same⟩ := ih (bindings.leaveRegion target region) distinct
    constructor
    · intro other member left
      rcases List.mem_cons.mp member with first | later
      · subst first
        have unchanged := same other.va fun later inRest _ => others later inRest
        have unknown := bindings.leaveRegion_unknown left
        exact ⟨unchanged.1.trans unknown.1, unchanged.2.trans unknown.2⟩
      · exact gone other later left
    · intro va unaffected
      obtain ⟨hosts, shadows⟩ := same va fun later member =>
        unaffected later (List.mem_cons_of_mem _ member)
      cases keep : kept target region with
      | true =>
        rw [leaveRegion_kept keep] at hosts shadows
        rw [List.foldl_cons, leaveRegion_kept keep]
        exact ⟨hosts, shadows⟩
      | false =>
        have other := bindings.leaveRegion_other target
          (unaffected region List.mem_cons_self keep).symm
        exact ⟨hosts.trans other.1, shadows.trans other.2⟩

/-- After the first pass the static pages are in place, and the regions still live are
those whose base is no region left, or only regions the target keeps. -/
theorem Placed.leaveRegions (target prior : List Region) (placed : bindings.Placed static live)
    (apart : ∀ region ∈ prior, Apart static region live)
    (distinct : (prior.map fun region => region.va).Nodup)
    (shadowed : ∀ region ∈ prior, region.Touches static → bindings.Shadows region) :
    ∃ still, (prior.foldl (Bindings.leaveRegion target) bindings).Placed static still ∧
      ∀ old, old ∈ still ↔
        old ∈ live ∧ ∀ region ∈ prior, region.va = old.va → kept target region = true := by
  induction prior generalizing bindings live with
  | nil => exact ⟨live, placed, fun old => by simp⟩
  | cons region rest ih =>
    rw [List.map_cons, List.nodup_cons] at distinct
    obtain ⟨fresh, distinct⟩ := distinct
    have next := placed.leaveRegion target (apart region List.mem_cons_self)
      (shadowed region List.mem_cons_self)
    have remaining : ∀ later ∈ rest, later.Touches static →
        (bindings.leaveRegion target region).Shadows later := by
      intro later member touches
      obtain ⟨shadow, found, range⟩ := shadowed later (List.mem_cons_of_mem _ member) touches
      have other : later.va ≠ region.va := fun same =>
        fresh (List.mem_map.mpr ⟨later, member, same⟩)
      exact ⟨shadow, (bindings.leaveRegion_other target other).2.trans found, range⟩
    have within : ∀ old, old ∈ (if kept target region then live else dropVa live region.va) ↔
        old ∈ live ∧ (region.va = old.va → kept target region = true) := by
      intro old
      cases keep : kept target region with
      | true => simp
      | false => simp [mem_dropVa, eq_comm]
    obtain ⟨still, final, origin⟩ := ih next
      (fun later member => (apart later (List.mem_cons_of_mem _ member)).mono
        fun old inStill => ((within old).mp inStill).1) distinct remaining
    refine ⟨still, final, fun old => ?_⟩
    rw [origin, within, List.forall_mem_cons, and_assoc]

private theorem shadowedFor_other {va : Nat} (other : va ≠ region.va) :
    bindings.shadowedFor region va = bindings.shadowed va := by
  unfold shadowedFor recordShadow
  split
  · cases bindings.shadowed region.va with
    | none => exact Function.update_of_ne other ..
    | some shadow => rfl
  · rfl

/-- Entering a region only touches the table entries of its base. -/
theorem enterRegion_other (bindings : Bindings) {va : Nat} (other : va ≠ region.va) :
    (bindings.enterRegion region).2.mappedHost va = bindings.mappedHost va ∧
      (bindings.enterRegion region).2.shadowed va = bindings.shadowed va := by
  have effect := bindings.enterRegion_effect region
  generalize bindings.enterRegion region = result at effect ⊢
  obtain ⟨err, after⟩ := result
  cases effect with
  | reaffirmed => exact ⟨rfl, rfl⟩
  | stale => exact ⟨rfl, rfl⟩
  | unbacked => exact ⟨rfl, rfl⟩
  | blocked => exact ⟨rfl, shadowedFor_other other⟩
  | fresh => exact ⟨Function.update_of_ne other .., rfl⟩
  | rebound => exact ⟨Function.update_of_ne other .., shadowedFor_other other⟩

/-- Entering a region leaves what backs the pages outside its range. -/
theorem enterRegion_outside (bindings : Bindings) (outside : page ∉ region.span) :
    (bindings.enterRegion region).2.mem.pages.backing page = bindings.mem.pages.backing page := by
  have effect := bindings.enterRegion_effect region
  generalize bindings.enterRegion region = result at effect ⊢
  obtain ⟨err, after⟩ := result
  cases effect with
  | reaffirmed => exact PageTable.backing_protect ..
  | stale => rfl
  | unbacked => rfl
  | blocked => rfl
  | fresh => simp [PageTable.backing, outside]
  | rebound => simp [PageTable.backing, outside]

private theorem backing_hostPages (pages : PageTable Prot Backing) (inside : page ∈ region.span)
    (prot : Prot) :
    (pages.install region.span (Memory.hostPages region.va prot region.host)).backing page =
      some (.host (region.hostAt page)) := by
  simp [PageTable.backing, inside, Memory.hostPages, Region.hostAt]

/-- A region is bound by entering it, or the pages keep their backing: then either its
buffer was cached already or the range has a hole. -/
theorem enterRegion_holds (bindings : Bindings) (buffer : region.host ≠ nullptr) :
    (bindings.enterRegion region).2.Holds region ∨
      (∀ page, (bindings.enterRegion region).2.mem.pages.backing page =
        bindings.mem.pages.backing page) ∧
      (bindings.enterRegion region).2.mappedHost = bindings.mappedHost ∧
      (bindings.mappedHost region.va = some region.host ∨
        bindings.mem.pages.full region.span = false) := by
  have effect := bindings.enterRegion_effect region
  generalize bindings.enterRegion region = result at effect ⊢
  obtain ⟨err, after⟩ := result
  cases effect with
  | reaffirmed same full => exact .inr ⟨fun page => PageTable.backing_protect .., rfl, .inl same⟩
  | stale same hole => exact .inr ⟨fun _ => rfl, rfl, .inl same⟩
  | unbacked different null => exact absurd null buffer
  | blocked different backed taken hole => exact .inr ⟨fun _ => rfl, rfl, .inr hole⟩
  | fresh => exact .inl ⟨Function.update_self .., fun page inside => backing_hostPages _ inside _⟩
  | rebound => exact .inl ⟨Function.update_self .., fun page inside => backing_hostPages _ inside _⟩

/-- Two regions of one range and one buffer are bound alike. -/
theorem Holds.sameRange {other : Region} (holds : bindings.Holds other)
    (range : other.SameRange region) (host : other.host = region.host) : bindings.Holds region := by
  refine ⟨by rw [← range.1, ← host, holds.held], fun page inside => ?_⟩
  have backed := holds.backed page (range.span ▸ inside)
  rwa [Region.hostAt, host, range.1] at backed

/-- A base is unknown, or shadowed with the size of the region at hand and bound with it. -/
def Ready (bindings : Bindings) (live : List Region) (region : Region) : Prop :=
  bindings.Unknown region.va ∨ bindings.Shadows region ∧ ∃ old ∈ live, old.SameRange region

/-- Entering a region keeps every static page in place. -/
theorem Placed.enterRegion (placed : bindings.Placed static live)
    (apart : Apart static region live) (buffer : region.Touches static → region.host ≠ nullptr)
    (ready : region.Touches static → bindings.Ready live region) :
    (bindings.enterRegion region).2.Placed static (region :: dropVa live region.va) := by
  intro page mapped
  by_cases inside : page ∈ region.span
  · have touches := Region.touches_iff.mpr ⟨page, inside, mapped⟩
    rcases bindings.enterRegion_holds (buffer touches) with holds | ⟨same, hosts, reason⟩
    · exact .inr ⟨region, List.mem_cons_self, inside, holds⟩
    · rcases placed page mapped with ⟨own, loose⟩ | ⟨old, member, within, holds⟩
      · refine .inl ⟨own.congr (same page), fun other member hit => ?_⟩
        rcases List.mem_cons.mp member with first | older
        · subst first
          rcases reason with cached | hole
          · rcases ready touches with unknown | ⟨_, old, inLive, range⟩
            · rw [unknown.1] at cached
              cases cached
            · exact range.span ▸ loose old inLive (range.span ▸ hit)
          · exact placed.full hole
        · exact loose other (mem_dropVa.mp older).1 hit
      · rcases apart old member (Region.touches_iff.mpr ⟨page, within, mapped⟩) with range | clear
        · rcases reason with cached | hole
          · have host : old.host = region.host := by
              have known := holds.held
              rw [range.1, cached] at known
              exact (Option.some.inj known).symm
            refine .inr ⟨region, List.mem_cons_self, inside,
              (holds.sameRange range host).congr (congrFun hosts _) fun inner _ => same inner⟩
          · exact Bool.noConfusion ((range.span ▸ holds.full).symm.trans hole)
        · exact absurd inside (clear page within)
  · rcases placed page mapped with ⟨own, loose⟩ | ⟨old, member, within, holds⟩
    · refine .inl ⟨own.congr (bindings.enterRegion_outside inside), fun other member hit => ?_⟩
      rcases List.mem_cons.mp member with first | older
      · exact absurd (first ▸ hit) inside
      · exact loose other (mem_dropVa.mp older).1 hit
    · rcases apart old member (Region.touches_iff.mpr ⟨page, within, mapped⟩) with range | clear
      · exact absurd (range.span ▸ within) inside
      · have other : old.va ≠ region.va := fun same =>
          clear _ old.first_mem (same ▸ region.first_mem)
        exact .inr ⟨old, List.mem_cons_of_mem _ (mem_dropVa.mpr ⟨member, other⟩), within,
          holds.congr (bindings.enterRegion_other other).1 fun inner inOld =>
            bindings.enterRegion_outside (clear inner inOld)⟩

private theorem shadows_shadowedFor (ready : bindings.Ready live region) :
    ∃ shadow, bindings.shadowedFor region region.va = some shadow ∧ shadow.SameRange region := by
  unfold shadowedFor recordShadow
  rcases ready with ⟨unheld, unshadowed⟩ | ⟨⟨shadow, found, range⟩, _⟩
  · rw [unheld, unshadowed]
    exact ⟨_, Function.update_self .., rfl, rfl⟩
  · refine ⟨shadow, ?_, range⟩
    split
    · rw [found]
      exact found
    · exact found

/-- A backed region over a static page is shadowed once it is entered. -/
theorem Ready.enterRegion (ready : bindings.Ready live region) (placed : bindings.Placed static live)
    (touches : region.Touches static) (buffer : region.host ≠ nullptr) :
    (bindings.enterRegion region).2.Shadows region := by
  have known : bindings.mappedHost region.va = some region.host → bindings.Shadows region := by
    intro same
    rcases ready with ⟨unheld, _⟩ | ⟨shadows, _⟩
    · rw [unheld] at same
      cases same
    · exact shadows
  have effect := bindings.enterRegion_effect region
  generalize bindings.enterRegion region = result at effect ⊢
  obtain ⟨err, after⟩ := result
  cases effect with
  | reaffirmed same full => exact known same
  | stale same hole => exact known same
  | unbacked different null => exact absurd null buffer
  | fresh different backed free =>
    obtain ⟨page, inside, mapped⟩ := Region.touches_iff.mp touches
    have held := placed.mapped mapped
    rw [PageTable.free_iff.mp free page inside] at held
    cases held
  | rebound => exact shadows_shadowedFor ready
  | blocked => exact shadows_shadowedFor ready

/-- After the second pass the static pages are in place, every region over one is
shadowed, and only bases of the target became known. -/
theorem Placed.enterRegions (target : List Region) (placed : bindings.Placed static live) (err : UcErr)
    (distinct : (target.map fun region => region.va).Nodup) (separate : SeparateOver static target)
    (apart : ∀ region ∈ target, Apart static region live)
    (buffers : ∀ region ∈ target, region.Touches static → region.host ≠ nullptr)
    (ready : ∀ region ∈ target, region.Touches static → bindings.Ready live region) :
    let after := (target.foldl enterStep (err, bindings)).2
    (∃ final, after.Placed static final ∧ ∀ region, region ∈ final ↔ region ∈ target ∨
        region ∈ live ∧ ∀ wanted ∈ target, wanted.va ≠ region.va) ∧
      (∀ region ∈ target, region.Touches static → after.Shadows region) ∧
      ∀ va, (∀ region ∈ target, region.va ≠ va) →
        after.mappedHost va = bindings.mappedHost va ∧ after.shadowed va = bindings.shadowed va := by
  induction target generalizing bindings err live with
  | nil =>
    exact ⟨⟨live, placed, fun region => by simp⟩, by simp, fun _ _ => ⟨rfl, rfl⟩⟩
  | cons region rest ih =>
    rw [List.map_cons, List.nodup_cons] at distinct
    obtain ⟨fresh, distinct⟩ := distinct
    have others : ∀ later ∈ rest, later.va ≠ region.va := fun later member same =>
      fresh (List.mem_map.mpr ⟨later, member, same⟩)
    have next := placed.enterRegion (apart region List.mem_cons_self)
      (buffers region List.mem_cons_self) (ready region List.mem_cons_self)
    have remaining : ∀ later ∈ rest, later.Touches static →
        (bindings.enterRegion region).2.Ready (region :: dropVa live region.va) later := by
      intro later member touches
      have other := bindings.enterRegion_other (others later member)
      rcases ready later (List.mem_cons_of_mem _ member) touches with
        unknown | ⟨⟨shadow, found, range⟩, old, inLive, same⟩
      · exact .inl ⟨other.1.trans unknown.1, other.2.trans unknown.2⟩
      · have remains := mem_dropVa.mpr ⟨inLive, fun base => others later member (same.1.symm.trans base)⟩
        exact .inr ⟨⟨shadow, other.2.trans found, range⟩, old, List.mem_cons_of_mem _ remains, same⟩
    have clear : ∀ later ∈ rest, Apart static later (region :: dropVa live region.va) := by
      intro later member old inLive touches
      rcases List.mem_cons.mp inLive with first | older
      · subst first
        exact .inr (separate old List.mem_cons_self touches later (List.mem_cons_of_mem _ member)
          fun same => others later member (congrArg (·.va) same).symm)
      · exact apart later (List.mem_cons_of_mem _ member) old (mem_dropVa.mp older).1 touches
    have step : enterStep (err, bindings) region =
        (if err = .ok then (bindings.enterRegion region).1 else err,
          (bindings.enterRegion region).2) := rfl
    rw [List.foldl_cons, step]
    obtain ⟨⟨final, placedFinal, origin⟩, shadows, same⟩ := ih next
      (if err = .ok then (bindings.enterRegion region).1 else err) distinct
      (fun left inLeft touches right inRight => separate left (List.mem_cons_of_mem _ inLeft) touches
        right (List.mem_cons_of_mem _ inRight))
      clear (fun later member => buffers later (List.mem_cons_of_mem _ member)) remaining
    refine ⟨⟨final, placedFinal, fun other => ?_⟩, ?_, ?_⟩
    · rw [origin, List.mem_cons, List.mem_cons, mem_dropVa, List.forall_mem_cons]
      constructor
      · rintro (later | ⟨first | ⟨inLive, different⟩, absent⟩)
        · exact .inl (.inr later)
        · exact .inl (.inl first)
        · exact .inr ⟨inLive, different.symm, absent⟩
      · rintro ((first | later) | ⟨inLive, different, absent⟩)
        · exact .inr ⟨.inl first, fun wanted inRest => first ▸ others wanted inRest⟩
        · exact .inl later
        · exact .inr ⟨.inr ⟨inLive, different.symm⟩, absent⟩
    · intro other member touches
      rcases List.mem_cons.mp member with first | later
      · subst first
        obtain ⟨shadow, found, range⟩ := (ready other List.mem_cons_self touches).enterRegion placed
          touches (buffers other List.mem_cons_self touches)
        exact ⟨shadow, (same other.va others).2.trans found, range⟩
      · exact shadows other later touches
    · intro va unaffected
      obtain ⟨hosts, shadowed⟩ := same va fun later member =>
        unaffected later (List.mem_cons_of_mem _ member)
      have other := bindings.enterRegion_other (unaffected region List.mem_cons_self).symm
      exact ⟨hosts.trans other.1, shadowed.trans other.2⟩

end Bindings

/-- A switch that cannot lose a static page. In either space the regions over static
pages overlap no other region, and those of the target have buffers; every base the
previous switch bound is still one of the space being left, and over static pages that
space still has the ranges bound then and no others. -/
def ShelteredSwitch (static : PageTable Prot Backing) (world : World) (sid : Word) : Prop :=
  SeparateOver static (world.mgr.effectiveRegions sid) ∧
    (∀ region ∈ world.mgr.effectiveRegions sid, region.Touches static → region.host ≠ nullptr) ∧
    (world.mgr.activatedOnce = true →
      SeparateOver static (world.mgr.effectiveRegions world.mgr.activeSid) ∧
      (∀ old ∈ world.bound, ∃ region ∈ world.mgr.effectiveRegions world.mgr.activeSid,
        region.va = old.va ∧ (old.Touches static → region.size = old.size)) ∧
      ∀ region ∈ world.mgr.effectiveRegions world.mgr.activeSid, region.Touches static →
        ∃ old ∈ world.bound, old.SameRange region)

instance (static : PageTable Prot Backing) (world : World) (sid : Word) :
    Decidable (ShelteredSwitch static world sid) :=
  inferInstanceAs (Decidable (_ ∧ (∀ region ∈ _, _ → _) ∧
    (_ → _ ∧ (∀ old ∈ world.bound, ∃ region ∈ _, _ ∧ (_ → _)) ∧
      ∀ region ∈ _, _ → ∃ old ∈ world.bound, _)))

/-- What the latest switch bound over static pages is still effective, buffer included. -/
def StillEffective (static : PageTable Prot Backing) (world : World) : Prop :=
  ∀ old ∈ world.bound, old.Touches static →
    ∃ region ∈ world.mgr.effectiveRegions world.mgr.activeSid, region.coincides old = true

instance (static : PageTable Prot Backing) (world : World) : Decidable (StillEffective static world) :=
  inferInstanceAs (Decidable (∀ old ∈ world.bound, _ → ∃ region ∈ _, _))

/-- The calls that ask for a space to be active. -/
def SpaceOp.activates : SpaceOp → Bool
  | .activate _ | .drainActivate => true
  | .record .. | .linkBase .. | .queueActivate _ => false

/-- An operation either switches, and cannot lose a static page, or finds the active
space as it was bound if it asks for a space at all. -/
def Sheltering (static : PageTable Prot Backing) (world : World) (op : SpaceOp) : Prop :=
  world.OnSwitch (ShelteredSwitch static) op ∧
    (op.target world.mgr = none → op.activates = true → StillEffective static world)

instance (static : PageTable Prot Backing) (world : World) (op : SpaceOp) :
    Decidable (Sheltering static world op) :=
  inferInstanceAs (Decidable (_ ∧ (_ → _ → _)))

/-- Static pages are in place, the tables know only bases the latest switch bound, and
what it bound over static pages is shadowed. -/
structure Sheltered (static : PageTable Prot Backing) (world : World) : Prop where
  placed : world.bindings.Placed static world.bound
  known : ∀ va, (∀ region ∈ world.bound, region.va ≠ va) → world.bindings.Unknown va
  shadows : ∀ region ∈ world.bound, region.Touches static → world.bindings.Shadows region
  unbound : world.mgr.activatedOnce = false → world.bound = []

variable {static : PageTable Prot Backing} {world : World} {op : SpaceOp} {sid : Word}

theorem Sheltered.start (mem : Memory) : Sheltered mem.pages (World.start mem) where
  placed := fun _ _ => .inl ⟨.inr rfl, fun region member => by cases member⟩
  known := fun _ _ => ⟨rfl, rfl⟩
  shadows := fun region member => by cases member
  unbound := fun _ => rfl

/-- What the space being left still has over static pages is what was bound there. -/
private theorem apart_bound
    (separate : SeparateOver static (world.mgr.effectiveRegions world.mgr.activeSid))
    (bases : ∀ old ∈ world.bound, ∃ region ∈ world.mgr.effectiveRegions world.mgr.activeSid,
      region.va = old.va ∧ (old.Touches static → region.size = old.size)) :
    ∀ region ∈ world.mgr.effectiveRegions world.mgr.activeSid,
      Bindings.Apart static region world.bound := by
  intro region member old inBound touches
  obtain ⟨still, inStill, base, size⟩ := bases old inBound
  have range : old.SameRange still := ⟨base.symm, (size touches).symm⟩
  by_cases same : still = region
  · exact .inl (same ▸ range)
  · exact .inr (range.span ▸ separate still inStill (range.touches touches) region member same)

/-- After the first pass what is live over static pages has the range of a region of the
target, and a base the tables still know is one of the target, bound and shadowed with
its size if it lies over a static page. -/
private theorem Sheltered.left (sheltered : Sheltered static world)
    (safe : ShelteredSwitch static world sid) :
    let target := world.mgr.effectiveRegions sid
    let left := if world.mgr.activatedOnce then
        (world.mgr.effectiveRegions world.mgr.activeSid).foldl (Bindings.leaveRegion target)
          world.bindings
      else world.bindings
    ∃ still, left.Placed static still ∧
      (∀ old ∈ still, old.Touches static → ∃ wanted ∈ target, old.SameRange wanted) ∧
      ∀ va, left.Unknown va ∨ ∃ wanted ∈ target, wanted.va = va ∧
        (wanted.Touches static → left.Shadows wanted ∧ ∃ old ∈ still, old.SameRange wanted) := by
  intro target left
  cases once : world.mgr.activatedOnce with
  | false =>
    have idle : left = world.bindings := by simp [left, once]
    have none := sheltered.unbound once
    rw [idle]
    refine ⟨[], none ▸ sheltered.placed, fun old member => (List.not_mem_nil member).elim,
      fun va => .inl (sheltered.known va ?_)⟩
    rw [none]
    intro region member
    cases member
  | true =>
    have gone : left = (world.mgr.effectiveRegions world.mgr.activeSid).foldl
        (Bindings.leaveRegion target) world.bindings := by simp [left, once]
    obtain ⟨separate, bases, sizes⟩ := safe.2.2 once
    have shadowed : ∀ region ∈ world.mgr.effectiveRegions world.mgr.activeSid,
        region.Touches static → world.bindings.Shadows region := by
      intro region member touches
      obtain ⟨old, inBound, range⟩ := sizes region member touches
      have back : region.SameRange old := ⟨range.1.symm, range.2.symm⟩
      obtain ⟨shadow, found, same⟩ := sheltered.shadows old inBound (back.touches touches)
      exact ⟨shadow, range.1 ▸ found, same.1.trans range.1, same.2.trans range.2⟩
    have distinct := world.mgr.effectiveRegions_distinct world.mgr.activeSid
    obtain ⟨still, placed, origin⟩ := sheltered.placed.leaveRegions target _
      (apart_bound separate bases) distinct shadowed
    obtain ⟨unknown, unchanged⟩ := world.bindings.leaveRegions_tables target distinct
    have wanted : ∀ region, Bindings.kept target region = true →
        ∃ goal ∈ target, region.SameRange goal := by
      intro region keep
      obtain ⟨goal, member, coincides⟩ := List.any_eq_true.mp keep
      simp only [Region.coincides, Bool.and_eq_true, beq_iff_eq] at coincides
      exact ⟨goal, member, coincides.1.1.symm, coincides.1.2.symm⟩
    rw [gone]
    refine ⟨still, placed, fun old member touches => ?_, fun va => ?_⟩
    · obtain ⟨inBound, keep⟩ := (origin old).mp member
      obtain ⟨region, inActive, base, size⟩ := bases old inBound
      obtain ⟨goal, inTarget, range⟩ := wanted region (keep region inActive base)
      exact ⟨goal, inTarget, base.symm.trans range.1, (size touches).symm.trans range.2⟩
    · by_cases leaving : ∃ region ∈ world.mgr.effectiveRegions world.mgr.activeSid,
          Bindings.kept target region = false ∧ region.va = va
      · obtain ⟨region, member, dropped, same⟩ := leaving
        exact .inl (same ▸ unknown region member dropped)
      · have same := unchanged va fun region member dropped base =>
          leaving ⟨region, member, dropped, base⟩
        by_cases bound : ∃ old ∈ world.bound, old.va = va
        · obtain ⟨old, inBound, base⟩ := bound
          obtain ⟨region, member, here, _⟩ := bases old inBound
          have keep : Bindings.kept target region = true := by
            by_contra dropped
            exact leaving ⟨region, member, by simpa using dropped, here.trans base⟩
          obtain ⟨goal, inTarget, range⟩ := wanted region keep
          have goalBase : goal.va = va := range.1.symm.trans (here.trans base)
          refine .inr ⟨goal, inTarget, goalBase, fun touches => ?_⟩
          have back : goal.SameRange region := ⟨range.1.symm, range.2.symm⟩
          obtain ⟨shadow, found, within⟩ := shadowed region member (back.touches touches)
          rw [here.trans base] at found
          refine ⟨⟨shadow, goalBase ▸ same.2.trans found, within.1.trans range.1,
            within.2.trans range.2⟩, ?_⟩
          obtain ⟨last, inLast, exactly⟩ := sizes region member (back.touches touches)
          refine ⟨last, (origin last).mpr ⟨inLast, fun other inActive base => ?_⟩,
            exactly.1.trans range.1, exactly.2.trans range.2⟩
          have one := SpaceManager.effectiveRegions_eq_of_va inActive member (base.trans exactly.1)
          exact one ▸ keep
        · have unheld := sheltered.known va fun old inBound base => bound ⟨old, inBound, base⟩
          exact .inl ⟨same.1.trans unheld.1, same.2.trans unheld.2⟩

theorem Sheltered.rebind (sheltered : Sheltered static world)
    (safe : ShelteredSwitch static world sid) :
    let after := (world.mgr.rebind world.mem sid).2
    after.Placed static (world.mgr.effectiveRegions sid) ∧
      (∀ va, (∀ region ∈ world.mgr.effectiveRegions sid, region.va ≠ va) → after.Unknown va) ∧
      ∀ region ∈ world.mgr.effectiveRegions sid, region.Touches static → after.Shadows region := by
  intro after
  obtain ⟨still, placed, wanted, known⟩ := sheltered.left safe
  obtain ⟨⟨final, placedFinal, origin⟩, shadows, unchanged⟩ :=
    placed.enterRegions (world.mgr.effectiveRegions sid) .ok
      (world.mgr.effectiveRegions_distinct sid) safe.1 (by
        intro region member old inStill touches
        obtain ⟨goal, inGoal, range⟩ := wanted old inStill touches
        by_cases same : goal = region
        · exact .inl (same ▸ range)
        · exact .inr (range.span ▸ safe.1 goal inGoal (range.touches touches) region member same))
      safe.2.1 (by
        intro region member touches
        rcases known region.va with unknown | ⟨goal, inGoal, base, shadowed⟩
        · exact .inl unknown
        · have same := SpaceManager.effectiveRegions_eq_of_va inGoal member base
          exact .inr (same ▸ shadowed (same ▸ touches)))
  refine ⟨placedFinal.congr fun region touches => ⟨fun member => ?_, fun member => ?_⟩,
    fun va absent => ?_, shadows⟩
  · rcases (origin region).mp member with here | ⟨old, nowhere⟩
    · exact here
    · obtain ⟨goal, inGoal, range⟩ := wanted region old touches
      exact absurd range.1.symm (nowhere goal inGoal)
  · exact (origin region).mpr (.inl member)
  · have same := unchanged va absent
    rcases known va with unknown | ⟨goal, inGoal, base, _⟩
    · exact ⟨same.1.trans unknown.1, same.2.trans unknown.2⟩
    · exact absurd base (absent goal inGoal)

theorem Sheltered.step (sheltered : Sheltered static world)
    (safe : world.OnSwitch (ShelteredSwitch static) op) : Sheltered static (world.step op) := by
  cases switch : op.target world.mgr with
  | none =>
    have idled := World.step_idle switch
    refine ⟨?_, ?_, ?_, fun never => ?_⟩
    · rw [idled.bindings, idled.bound]
      exact sheltered.placed
    · rw [idled.bindings, idled.bound]
      exact sheltered.known
    · rw [idled.bindings, idled.bound]
      exact sheltered.shadows
    · rw [idled.bound]
      exact sheltered.unbound (idled.binding.activatedOnce ▸ never)
  | some sid =>
    have switched := World.step_switch switch
    obtain ⟨placed, known, shadows⟩ := sheltered.rebind (safe sid switch)
    refine ⟨?_, ?_, ?_, fun never => ?_⟩
    · rw [switched.bindings, switched.bound]
      exact placed
    · rw [switched.bindings, switched.bound]
      exact known
    · rw [switched.bindings, switched.bound]
      exact shadows
    · exact Bool.noConfusion (never.symm.trans switched.activatedOnce)

/-- A page is backed as an effective region of the active space has it. Where the latest
switch found no region that lies wholly over static pages, it may also be backed by RAM
the engine restored it with or by what it was mapped to at the start. -/
def World.Backs (world : World) (static : PageTable Prot Backing) (page : Nat) : Prop :=
  (∃ region ∈ world.mgr.effectiveRegions world.mgr.activeSid, page ∈ region.span ∧
      world.mem.pages.backing page = some (.host (region.hostAt page))) ∨
    (∀ region ∈ world.bound, page ∈ region.span → static.full region.span = false) ∧
      (world.mem.pages.backing page = some .ram ∨
        world.mem.pages.backing page = static.backing page)

/-- Every static page is mapped after every operation of a run, and backed as it should
be after every call that asks for a space. -/
def NoHole (mem : Memory) (ops : List SpaceOp) : Prop :=
  ∀ done op rest, ops = done ++ op :: rest →
    let after := ((World.start mem).run done).step op
    ∀ page, (mem.pages page).isSome = true →
      (after.mem.pages page).isSome = true ∧ (op.activates = true → after.Backs mem.pages page)

/-- A call for a space that does not switch leaves the recorded regions and the links. -/
private theorem effectiveRegions_step (asks : op.activates = true) (sid : Word) :
    (world.step op).mgr.effectiveRegions sid = world.mgr.effectiveRegions sid := by
  cases op with
  | activate asked =>
    exact SpaceManager.effectiveRegions_congr (world.mgr.activate_spaces world.mem asked)
      (world.mgr.activate_baseLinks world.mem asked) sid
  | drainActivate =>
    exact SpaceManager.effectiveRegions_congr (world.mgr.drainActivate_spaces world.mem)
      (world.mgr.drainActivate_baseLinks world.mem) sid
  | record => cases asks
  | linkBase => cases asks
  | queueActivate => cases asks

/-- Static pages in place are backed as they should be while the active space has the
regions that were bound over them. -/
private theorem Sheltered.backs {page : Nat} (sheltered : Sheltered static world)
    (effective : StillEffective static world) (mapped : (static page).isSome = true) :
    world.Backs static page := by
  rcases sheltered.placed page mapped with ⟨own, loose⟩ | ⟨old, inBound, inside, holds⟩
  · exact .inr ⟨loose, own⟩
  · obtain ⟨region, member, coincides⟩ :=
      effective old inBound (Region.touches_iff.mpr ⟨page, inside, mapped⟩)
    simp only [Region.coincides, Bool.and_eq_true, beq_iff_eq] at coincides
    have range : old.SameRange region := ⟨coincides.1.1.symm, coincides.1.2.symm⟩
    have same := holds.sameRange range coincides.2.symm
    have within : page ∈ region.span := range.span ▸ inside
    exact .inl ⟨region, member, within, same.backed page within⟩

/-- In every run whose switches are sheltered, and whose other calls for a space find its
regions as they were bound, no static page is ever lost. -/
theorem noHole_of_sheltered (mem : Memory) (ops : List SpaceOp)
    (safe : World.Meets (Sheltering mem.pages) (World.start mem) ops) : NoHole mem ops := by
  intro done op rest split after page mapped
  subst split
  obtain ⟨safeDone, here, _⟩ := World.meets_append.mp safe
  have before : Sheltered mem.pages ((World.start mem).run done) :=
    World.run_invariant (fun world op held allowed => held.step allowed.1) (Sheltered.start mem) safeDone
  have sheltered : Sheltered mem.pages after := before.step here.1
  refine ⟨sheltered.placed.mapped mapped, fun asks => sheltered.backs ?_ mapped⟩
  cases switch : op.target ((World.start mem).run done).mgr with
  | none =>
    have idled := World.step_idle switch
    intro old inBound touches
    rw [idled.bound] at inBound
    rw [effectiveRegions_step asks, idled.binding.activeSid]
    exact here.2 switch asks old inBound touches
  | some sid =>
    have switched := World.step_switch switch
    intro old inBound touches
    rw [switched.bound] at inBound
    rw [effectiveRegions_step asks, switched.activeSid]
    exact ⟨old, inBound, by simp [Region.coincides]⟩

/-- One static page at 0x1000. -/
def staticPage : Memory :=
  { Memory.blank with pages := fun page => if page = 1 then some ⟨Prot.all, .ram⟩ else none }

/-- Two spaces bind buffers of different sizes over the static page. -/
def rebindStatic : List SpaceOp :=
  [.record 1 0x1000 0x1000 Prot.all 0x10000, .record 2 0x0 0x3000 Prot.all 0x20000,
    .activate 1, .activate 2, .activate 1]

theorem noHole_rebindStatic :
    World.Meets (Sheltering staticPage.pages) (World.start staticPage) rebindStatic ∧
      NoHole staticPage rebindStatic :=
  ⟨by decide, noHole_of_sheltered staticPage rebindStatic (by decide)⟩

/-- The active space records a region over the static page after it was activated. -/
def lateRecord : List SpaceOp :=
  [.record 1 0x9000 0x1000 Prot.all 0x10000, .activate 1, .record 1 0x1000 0x1000 Prot.all 0x20000,
    .record 2 0xa000 0x1000 Prot.all 0x30000]

/-- Leaving the space unmaps the static page, which nothing had shadowed. -/
theorem not_noHole_lateRecord : ¬ NoHole staticPage (lateRecord ++ [.activate 2]) := by
  intro kept
  have mapped := (kept lateRecord (.activate 2) [] rfl 1 (by decide)).1
  exact absurd mapped (by decide)

end ZeeboLle.L4

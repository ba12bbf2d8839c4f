import ZeeboLle.L4.SpaceManager

/-! Address-space switches. Between switches the engine holds exactly the regions
the latest switch bound; a switch keeps that as long as those regions are still
effective in the space being left and no two effective regions overlap. -/
namespace ZeeboLle.L4

open Paging Unicorn

/-- No two regions of a list overlap. -/
def Separate (regions : List Region) : Prop :=
  ∀ left ∈ regions, ∀ right ∈ regions, left ≠ right → left.span.Disjoint right.span

instance (regions : List Region) : Decidable (Separate regions) :=
  inferInstanceAs (Decidable (∀ left ∈ regions, ∀ right ∈ regions, _ → _))

/-- Same range, whatever the buffer. -/
def Region.SameRange (left right : Region) : Prop := left.va = right.va ∧ left.size = right.size

instance (left right : Region) : Decidable (left.SameRange right) :=
  inferInstanceAs (Decidable (_ ∧ _))

theorem Region.SameRange.span {left right : Region} (same : left.SameRange right) :
    left.span = right.span := by
  rw [Region.span, Region.span, Extent.span, Extent.span, same.1, same.2]

theorem Region.first_mem (region : Region) : region.va / 0x1000 ∈ region.span :=
  region.toExtent.first_mem

theorem Separate.eq_of_va {regions : List Region} {left right : Region}
    (separate : Separate regions) (inLeft : left ∈ regions) (inRight : right ∈ regions)
    (same : left.va = right.va) : left = right := by
  by_contra different
  have apart := separate left inLeft right inRight different _ left.first_mem
  exact apart (same ▸ right.first_mem)

namespace Bindings

variable {bindings : Bindings} {live : List Region} {region : Region}

/-- The engine maps exactly the live regions, each onto its host, and the caches
say so. -/
structure Tracks (bindings : Bindings) (live : List Region) : Prop where
  separate : Separate live
  backed : ∀ region ∈ live, ∀ page ∈ region.span,
    bindings.mem.pages.backing page = some (.host (region.hostAt page))
  vacant : ∀ page, (∀ region ∈ live, page ∉ region.span) → bindings.mem.pages page = none
  held : ∀ region ∈ live, bindings.mappedHost region.va = some region.host
  unheld : ∀ va, (∀ region ∈ live, region.va ≠ va) → bindings.mappedHost va = none
  unshadowed : ∀ va, bindings.shadowed va = none

/-- A region occupies the range of a live one or is clear of all of them. -/
def Fits (region : Region) (live : List Region) : Prop :=
  (∃ old ∈ live, old.SameRange region) ∨
    ∀ old ∈ live, old.va ≠ region.va ∧ old.span.Disjoint region.span

/-- The live regions other than the one at a base address. -/
def dropVa (live : List Region) (va : Nat) : List Region := live.filter fun region => region.va ≠ va

theorem mem_dropVa {va : Nat} : region ∈ dropVa live va ↔ region ∈ live ∧ region.va ≠ va := by
  simp [dropVa]

theorem Tracks.full {old : Region} (tracks : bindings.Tracks live) (member : old ∈ live)
    (same : old.SameRange region) : bindings.mem.pages.full region.span = true := by
  rw [PageTable.full_iff, ← same.span]
  intro page inside
  obtain ⟨found, present, _⟩ := Option.map_eq_some_iff.mp (tracks.backed old member page inside)
  exact Option.isSome_iff_exists.mpr ⟨found, present⟩

theorem Tracks.free (tracks : bindings.Tracks live)
    (clear : ∀ old ∈ live, old.span.Disjoint region.span) :
    bindings.mem.pages.free region.span = true := by
  rw [PageTable.free_iff]
  intro page inside
  exact tracks.vacant page fun old member inOld => clear old member page inOld inside

/-- A region clear of all live ones is not mapped. -/
theorem Tracks.not_full (tracks : bindings.Tracks live)
    (clear : ∀ old ∈ live, old.va ≠ region.va ∧ old.span.Disjoint region.span) :
    bindings.mem.pages.full region.span = false := by
  by_contra full
  rw [Bool.not_eq_false] at full
  have taken := PageTable.free_eq_false_of_full region.toExtent.count_pos full
  have free : bindings.mem.pages.free region.span = true :=
    tracks.free fun old member => (clear old member).2
  exact Bool.noConfusion (taken.symm.trans free)

/-- The cache of hosts once an entry is dropped. -/
theorem Tracks.dropHeld (tracks : bindings.Tracks live) (base : Nat) :
    (∀ old ∈ dropVa live base,
      Function.update bindings.mappedHost base none old.va = some old.host) ∧
      ∀ va, (∀ old ∈ dropVa live base, old.va ≠ va) →
        Function.update bindings.mappedHost base none va = none := by
  constructor
  · intro old member
    obtain ⟨inLive, different⟩ := mem_dropVa.mp member
    rw [Function.update_of_ne different]
    exact tracks.held old inLive
  · intro va none
    by_cases same : va = base
    · rw [same, Function.update_self]
    · rw [Function.update_of_ne same]
      exact tracks.unheld va fun old member equal =>
        none old (mem_dropVa.mpr ⟨member, fun here => same (equal.symm.trans here)⟩) equal

/-- Only what is live matters, not the order. -/
theorem Tracks.congr {other : List Region} (tracks : bindings.Tracks live)
    (same : ∀ region, region ∈ other ↔ region ∈ live) : bindings.Tracks other where
  separate := fun left inLeft right inRight different =>
    tracks.separate left ((same left).mp inLeft) right ((same right).mp inRight) different
  backed := fun region member => tracks.backed region ((same region).mp member)
  vacant := fun page outside =>
    tracks.vacant page fun region member => outside region ((same region).mpr member)
  held := fun region member => tracks.held region ((same region).mp member)
  unheld := fun va other => tracks.unheld va fun region member => other region ((same region).mpr member)
  unshadowed := tracks.unshadowed

theorem Fits.dropVa {va : Nat} (fits : Fits region live) (different : region.va ≠ va) :
    Fits region (dropVa live va) := by
  rcases fits with ⟨old, member, same⟩ | clear
  · exact .inl ⟨old, mem_dropVa.mpr ⟨member, fun equal => different (same.1.symm.trans equal)⟩, same⟩
  · exact .inr fun old member => clear old (mem_dropVa.mp member).1

/-- Leaving a region that is not kept removes the live region of its base, if any. -/
theorem Tracks.leaveRegion (target : List Region) (tracks : bindings.Tracks live)
    (fits : Fits region live) :
    (bindings.leaveRegion target region).Tracks
      (if target.any fun wanted => wanted.coincides region then live else dropVa live region.va) := by
  unfold Bindings.leaveRegion
  split
  · exact tracks
  · have unshadowed := tracks.unshadowed region.va
    simp only [restoreShadow, unshadowed]
    have separate : Separate (Bindings.dropVa live region.va) := fun left inLeft right inRight =>
      tracks.separate left (mem_dropVa.mp inLeft).1 right (mem_dropVa.mp inRight).1
    obtain ⟨held, unheld⟩ := tracks.dropHeld region.va
    rcases fits with ⟨old, member, same⟩ | clear
    · -- the live region of this range goes, and nothing else does
      have removed : bindings.mem.ucMemUnmap region.va region.size =
          (.ok, { bindings.mem with pages := bindings.mem.pages.remove region.span }) :=
        Memory.ucMemUnmap_full (tracks.full member same)
      rw [removed]
      refine ⟨separate, ?_, ?_, held, unheld, tracks.unshadowed⟩
      · intro other inOther page inside
        obtain ⟨inLive, different⟩ := mem_dropVa.mp inOther
        have apart := tracks.separate other inLive old member
          (fun equal => different (equal ▸ same.1)) page inside
        have outside : page ∉ region.span := same.span ▸ apart
        have kept := tracks.backed other inLive page inside
        simpa [PageTable.backing, outside] using kept
      · intro page outside
        by_cases inside : page ∈ region.span
        · exact PageTable.remove_of_mem inside
        · dsimp only
          rw [PageTable.remove_of_not_mem inside]
          apply tracks.vacant
          intro other inLive inOther
          refine outside other (mem_dropVa.mpr ⟨inLive, ?_⟩) inOther
          intro equal
          have identical := tracks.separate.eq_of_va inLive member (equal.trans same.1.symm)
          exact inside (same.span ▸ identical ▸ inOther)
    · -- nothing is mapped there, so the engine refuses
      have refused : bindings.mem.ucMemUnmap region.va region.size = (.nomem, bindings.mem) :=
        Memory.ucMemUnmap_hole (tracks.not_full clear)
      have all : ∀ old, old ∈ Bindings.dropVa live region.va ↔ old ∈ live := fun old =>
        ⟨fun member => (mem_dropVa.mp member).1,
          fun member => mem_dropVa.mpr ⟨member, (clear old member).1⟩⟩
      rw [refused]
      have same := tracks.congr all
      exact ⟨separate, same.backed, same.vacant, held, unheld, tracks.unshadowed⟩

/-- After the first pass what is live was live before, and every region that shares
its base is one the target keeps. -/
theorem Tracks.leaveRegions (target prior : List Region)
    (tracks : bindings.Tracks live) (fits : ∀ region ∈ prior, Fits region live)
    (distinct : (prior.map fun region => region.va).Nodup) :
    ∃ kept, (prior.foldl (Bindings.leaveRegion target) bindings).Tracks kept ∧
      ∀ old ∈ kept, old ∈ live ∧ ∀ region ∈ prior, region.va = old.va →
        (target.any fun wanted => wanted.coincides region) = true := by
  induction prior generalizing bindings live with
  | nil => exact ⟨live, tracks, fun old member => ⟨member, by simp⟩⟩
  | cons region rest ih =>
    rw [List.map_cons, List.nodup_cons] at distinct
    obtain ⟨fresh, distinct⟩ := distinct
    have next := tracks.leaveRegion target (fits region List.mem_cons_self)
    cases keep : target.any fun wanted => wanted.coincides region with
    | true =>
      rw [if_pos keep] at next
      obtain ⟨kept, final, origin⟩ :=
        ih next (fun later member => fits later (List.mem_cons_of_mem _ member)) distinct
      refine ⟨kept, final, fun old member => ⟨(origin old member).1, ?_⟩⟩
      intro other inPrior same
      rcases List.mem_cons.mp inPrior with first | later
      · exact first ▸ keep
      · exact (origin old member).2 other later same
    | false =>
      rw [if_neg (by simp [keep])] at next
      have remaining : ∀ later ∈ rest, Fits later (Bindings.dropVa live region.va) := by
        intro later member
        apply (fits later (List.mem_cons_of_mem _ member)).dropVa
        intro same
        exact fresh (List.mem_map.mpr ⟨later, member, same⟩)
      obtain ⟨kept, final, origin⟩ := ih next remaining distinct
      refine ⟨kept, final, fun old member => ?_⟩
      obtain ⟨inLive, different⟩ := mem_dropVa.mp (origin old member).1
      refine ⟨inLive, fun other inPrior same => ?_⟩
      rcases List.mem_cons.mp inPrior with first | later
      · exact absurd (first ▸ same).symm different
      · exact (origin old member).2 other later same

/-- Both ways of binding a range leave it alone as far as other ranges go. -/
private theorem bound_outside {pages : PageTable Prot Backing} {page : Nat}
    (outside : page ∉ region.span) (fresh : Nat → Page Prot Backing) :
    (pages.remove region.span).install region.span fresh page = pages page := by
  simp [outside]

/-- What entering a fitting region has to leave behind. -/
private theorem Tracks.entered {pages : PageTable Prot Backing} (tracks : bindings.Tracks live)
    (fits : Fits region live) (shadowed : Nat → Option Region)
    (unshadowed : ∀ va, shadowed va = none)
    (inside : ∀ page ∈ region.span, pages.backing page = some (.host (region.hostAt page)))
    (outside : ∀ page, page ∉ region.span → pages page = bindings.mem.pages page)
    (mappedHost : Nat → Option HostPtr)
    (hosts : mappedHost = Function.update bindings.mappedHost region.va (some region.host)) :
    Tracks ⟨{ bindings.mem with pages }, mappedHost, shadowed⟩ (region :: dropVa live region.va) := by
  have apart : ∀ old ∈ dropVa live region.va, old.span.Disjoint region.span := by
    intro old member
    obtain ⟨inLive, different⟩ := mem_dropVa.mp member
    rcases fits with ⟨same, inSame, range⟩ | clear
    · rw [← range.span]
      exact tracks.separate old inLive same inSame fun equal => different (equal ▸ range.1)
    · exact (clear old inLive).2
  refine ⟨?_, ?_, ?_, ?_, ?_, unshadowed⟩
  · intro left inLeft right inRight different
    rcases List.mem_cons.mp inLeft with first | oldLeft
    · rcases List.mem_cons.mp inRight with second | oldRight
      · exact absurd (first.trans second.symm) different
      · exact first ▸ (apart right oldRight).symm
    · rcases List.mem_cons.mp inRight with second | oldRight
      · exact second ▸ apart left oldLeft
      · exact tracks.separate left (mem_dropVa.mp oldLeft).1 right (mem_dropVa.mp oldRight).1 different
  · intro other member page within
    rcases List.mem_cons.mp member with first | old
    · subst first
      exact inside page within
    · have clear : page ∉ region.span := apart other old page within
      have kept := tracks.backed other (mem_dropVa.mp old).1 page within
      rwa [PageTable.backing, ← outside page clear] at kept
  · intro page none
    have clear : page ∉ region.span := none region List.mem_cons_self
    dsimp only
    rw [outside page clear]
    apply tracks.vacant
    intro old inLive within
    by_cases same : old.va = region.va
    · rcases fits with ⟨other, inOther, range⟩ | apartAll
      · have identical := tracks.separate.eq_of_va inLive inOther (same.trans range.1.symm)
        exact clear (range.span ▸ identical ▸ within)
      · exact (apartAll old inLive).1 same
    · exact none old (List.mem_cons_of_mem _ (mem_dropVa.mpr ⟨inLive, same⟩)) within
  · intro other member
    subst hosts
    rcases List.mem_cons.mp member with first | old
    · subst first
      exact Function.update_self ..
    · obtain ⟨inLive, different⟩ := mem_dropVa.mp old
      exact (Function.update_of_ne different ..).trans (tracks.held other inLive)
  · intro va none
    subst hosts
    have different : va ≠ region.va := fun equal => none region List.mem_cons_self equal.symm
    refine (Function.update_of_ne different ..).trans (tracks.unheld va fun old inLive same => ?_)
    exact none old (List.mem_cons_of_mem _ (mem_dropVa.mpr
      ⟨inLive, fun base => different (same.symm.trans base)⟩)) same

/-- A fitting region whose base is held is live already, with that buffer. -/
theorem Tracks.match_of_held (tracks : bindings.Tracks live) (fits : Fits region live) {host : HostPtr}
    (held : bindings.mappedHost region.va = some host) :
    ∃ old ∈ live, old.SameRange region ∧ old.host = host := by
  rcases fits with ⟨old, member, range⟩ | clear
  · have known := tracks.held old member
    rw [range.1, held] at known
    exact ⟨old, member, range, (Option.some.inj known).symm⟩
  · rw [tracks.unheld region.va fun old member => (clear old member).1] at held
    cases held

/-- A fitting region with a buffer is always bound, and nothing else changes. -/
theorem Tracks.enterRegion (tracks : bindings.Tracks live) (fits : Fits region live)
    (buffer : region.host ≠ nullptr) :
    (bindings.enterRegion region).1 = .ok ∧
      (bindings.enterRegion region).2.Tracks (region :: dropVa live region.va) := by
  have installed : ∀ (pages : PageTable Prot Backing), ∀ page ∈ region.span,
      (pages.install region.span (Memory.hostPages region.va (bindProt region.prot)
        region.host)).backing page = some (.host (region.hostAt page)) := by
    intro pages page inside
    simp [PageTable.backing, inside, Memory.hostPages, Region.hostAt]
  have full_or_free : bindings.mem.pages.full region.span = true ∨
      bindings.mem.pages.free region.span = true := by
    rcases fits with ⟨old, member, same⟩ | clear
    · exact .inl (tracks.full member same)
    · exact .inr (tracks.free fun old member => (clear old member).2)
  have effect := bindings.enterRegion_effect region
  generalize bindings.enterRegion region = result at effect ⊢
  obtain ⟨err, after⟩ := result
  cases effect with
  | reaffirmed same full =>
    obtain ⟨old, member, range, host⟩ := tracks.match_of_held fits same
    refine ⟨rfl, tracks.entered fits _ tracks.unshadowed ?_ ?_ _ ?_⟩
    · intro page inside
      have backed := tracks.backed old member page (range.span ▸ inside)
      rwa [Region.hostAt, host, range.1, ← PageTable.backing_protect _ region.span
        (bindProt region.prot)] at backed
    · intro page outside
      exact PageTable.protect_of_not_mem outside
    · rw [← same, Function.update_eq_self]
  | stale same hole =>
    obtain ⟨old, member, range, _⟩ := tracks.match_of_held fits same
    exact Bool.noConfusion ((tracks.full member range).symm.trans hole)
  | unbacked different null => exact absurd null buffer
  | fresh different backed free =>
    refine ⟨rfl, tracks.entered fits _ tracks.unshadowed (installed _) ?_ _ rfl⟩
    intro page outside
    exact PageTable.install_of_not_mem outside
  | rebound different backed full =>
    have held : (bindings.mappedHost region.va).isNone = false := by
      rcases fits with ⟨old, member, range⟩ | clear
      · rw [← range.1, tracks.held old member]
        rfl
      · exact Bool.noConfusion (full.symm.trans (tracks.not_full clear))
    have shadowed : bindings.shadowedFor region = bindings.shadowed := by
      simp [shadowedFor, held]
    rw [shadowed]
    refine ⟨rfl, tracks.entered fits _ tracks.unshadowed (installed _) ?_ _ rfl⟩
    intro page outside
    exact bound_outside outside _
  | blocked different backed taken hole =>
    rcases full_or_free with full | free
    · exact Bool.noConfusion (full.symm.trans hole)
    · exact Bool.noConfusion (free.symm.trans taken)

/-- The second pass succeeds and binds the regions it goes through, next to what is
live already. -/
theorem Tracks.enterRegions (target : List Region) (tracks : bindings.Tracks live)
    (separate : Separate target) (distinct : (target.map fun region => region.va).Nodup)
    (buffers : ∀ region ∈ target, region.host ≠ nullptr)
    (fits : ∀ region ∈ target, Fits region live) :
    (target.foldl enterStep (.ok, bindings)).1 = .ok ∧
      ∃ final, (target.foldl enterStep (.ok, bindings)).2.Tracks final ∧
        ∀ region, region ∈ final ↔
          region ∈ target ∨ region ∈ live ∧ ∀ wanted ∈ target, wanted.va ≠ region.va := by
  induction target generalizing bindings live with
  | nil => exact ⟨rfl, live, tracks, fun region => by simp⟩
  | cons first rest ih =>
    rw [List.map_cons, List.nodup_cons] at distinct
    obtain ⟨fresh, distinct⟩ := distinct
    obtain ⟨ok, next⟩ := tracks.enterRegion (fits first List.mem_cons_self)
      (buffers first List.mem_cons_self)
    have others : ∀ later ∈ rest, later.va ≠ first.va := fun later member same =>
      fresh (List.mem_map.mpr ⟨later, member, same⟩)
    have step : enterStep (.ok, bindings) first = (.ok, (bindings.enterRegion first).2) := by
      simp [enterStep, ok]
    rw [List.foldl_cons, step]
    have remaining : ∀ later ∈ rest, Fits later (first :: Bindings.dropVa live first.va) := by
      intro later member
      have different := others later member
      rcases (fits later (List.mem_cons_of_mem _ member)).dropVa different with ⟨old, inOld, range⟩ | clear
      · exact .inl ⟨old, List.mem_cons_of_mem _ inOld, range⟩
      · refine .inr fun old inOld => ?_
        rcases List.mem_cons.mp inOld with same | older
        · subst same
          refine ⟨different.symm, separate old List.mem_cons_self later
            (List.mem_cons_of_mem _ member) fun equal => different (congrArg (·.va) equal).symm⟩
        · exact clear old older
    obtain ⟨done, final, tracksFinal, members⟩ := ih next
      (fun left inLeft right inRight => separate left (List.mem_cons_of_mem _ inLeft) right
        (List.mem_cons_of_mem _ inRight)) distinct
      (fun region member => buffers region (List.mem_cons_of_mem _ member)) remaining
    refine ⟨done, final, tracksFinal, fun region => ?_⟩
    rw [members region]
    simp only [List.mem_cons, mem_dropVa]
    constructor
    · rintro (late | ⟨same | ⟨old, different⟩, absent⟩)
      · exact .inl (.inr late)
      · exact .inl (.inl same)
      · refine .inr ⟨old, ?_⟩
        rintro wanted (here | later)
        · exact here ▸ different.symm
        · exact absent wanted later
    · rintro ((same | late) | ⟨old, absent⟩)
      · exact .inr ⟨.inl same, fun wanted later => same ▸ others wanted later⟩
      · exact .inl late
      · exact .inr ⟨.inr ⟨old, (absent first (.inl rfl)).symm⟩, fun wanted later =>
          absent wanted (.inr later)⟩

end Bindings

/-- The recorded region has a buffer behind it. -/
def SpaceOp.Backed : SpaceOp → Prop
  | .record _ _ _ _ host => host ≠ nullptr
  | _ => True

instance : (op : SpaceOp) → Decidable op.Backed
  | .record _ _ _ _ host => inferInstanceAs (Decidable (host ≠ nullptr))
  | .linkBase .. | .queueActivate _ | .drainActivate | .activate _ => isTrue trivial

/-- No two effective regions of either space overlap, and every region the previous
switch bound is still effective, with its size, in the space being left. -/
def CleanSwitch (world : World) (sid : Word) : Prop :=
  Separate (world.mgr.effectiveRegions sid) ∧
    (world.mgr.activatedOnce = true →
      Separate (world.mgr.effectiveRegions world.mgr.activeSid) ∧
      ∀ old ∈ world.bound,
        ∃ region ∈ world.mgr.effectiveRegions world.mgr.activeSid, old.SameRange region)

instance (world : World) (sid : Word) : Decidable (CleanSwitch world sid) :=
  inferInstanceAs (Decidable (_ ∧ (_ → _ ∧ ∀ old ∈ world.bound, ∃ region ∈ _, _)))

/-- The engine holds what the latest switch bound, and every recorded region has a
buffer. -/
structure Settled (world : World) : Prop where
  tracks : world.bindings.Tracks world.bound
  unbound : world.mgr.activatedOnce = false → world.bound = []
  buffers : ∀ sid, ∀ region ∈ world.mgr.regionsOf sid, region.host ≠ nullptr

variable {world : World} {op : SpaceOp} {sid : Word}

theorem Settled.start {mem : Memory} (empty : ∀ page, mem.pages page = none) :
    Settled (World.start mem) where
  tracks := {
    separate := fun left inLeft => by cases inLeft
    backed := fun region member => by cases member
    vacant := fun page _ => empty page
    held := fun region member => by cases member
    unheld := fun _ _ => rfl
    unshadowed := fun _ => rfl }
  unbound := fun _ => rfl
  buffers := fun sid region member => by cases member

/-- What is live after the first pass lies where the target wants it. -/
private theorem Settled.left (settled : Settled world) (clean : CleanSwitch world sid) :
    ∃ kept, (if world.mgr.activatedOnce then
        (world.mgr.effectiveRegions world.mgr.activeSid).foldl
          (Bindings.leaveRegion (world.mgr.effectiveRegions sid)) world.bindings
        else world.bindings).Tracks kept ∧
      ∀ old ∈ kept, ∃ wanted ∈ world.mgr.effectiveRegions sid, old.SameRange wanted := by
  cases once : world.mgr.activatedOnce with
  | false =>
    refine ⟨world.bound, settled.tracks, ?_⟩
    rw [settled.unbound once]
    intro old member
    cases member
  | true =>
    obtain ⟨separate, kept⟩ := clean.2 once
    -- every effective region of the old space was bound as it is, or is clear of all that was
    have fits : ∀ region ∈ world.mgr.effectiveRegions world.mgr.activeSid,
        Bindings.Fits region world.bound := by
      intro region member
      by_cases matched : ∃ old ∈ world.bound, old.SameRange region
      · exact .inl matched
      · refine .inr fun old inBound => ?_
        obtain ⟨still, inStill, range⟩ := kept old inBound
        have different : still ≠ region := fun same => matched ⟨old, inBound, same ▸ range⟩
        have apart := separate still inStill region member different
        refine ⟨fun base => different ?_, range.span ▸ apart⟩
        exact SpaceManager.effectiveRegions_eq_of_va inStill member (range.1.symm.trans base)
    obtain ⟨live, tracks, origin⟩ := settled.tracks.leaveRegions
      (world.mgr.effectiveRegions sid) _ fits (world.mgr.effectiveRegions_distinct _)
    refine ⟨live, tracks, fun old member => ?_⟩
    obtain ⟨still, inStill, range⟩ := kept old (origin old member).1
    have keep := (origin old member).2 still inStill range.1.symm
    obtain ⟨wanted, inWanted, coincides⟩ := List.any_eq_true.mp keep
    simp only [Region.coincides, Bool.and_eq_true, beq_iff_eq] at coincides
    exact ⟨wanted, inWanted, range.1.trans coincides.1.1.symm, range.2.trans coincides.1.2.symm⟩

/-- A clean switch succeeds and leaves the engine with the effective regions of its
target. -/
theorem Settled.rebind (settled : Settled world) (clean : CleanSwitch world sid) :
    (world.mgr.rebind world.mem sid).1 = .ok ∧
      (world.mgr.rebind world.mem sid).2.Tracks (world.mgr.effectiveRegions sid) := by
  obtain ⟨kept, tracks, wanted⟩ := settled.left clean
  have separate := clean.1
  have buffers : ∀ region ∈ world.mgr.effectiveRegions sid, region.host ≠ nullptr := by
    intro region member
    obtain ⟨owner, recorded⟩ := SpaceManager.exists_mem_regionsOf member
    exact settled.buffers owner region recorded
  have fits : ∀ region ∈ world.mgr.effectiveRegions sid, Bindings.Fits region kept := by
    intro region member
    by_cases matched : ∃ old ∈ kept, old.SameRange region
    · exact .inl matched
    · refine .inr fun old inKept => ?_
      obtain ⟨goal, inGoal, range⟩ := wanted old inKept
      have different : goal ≠ region := fun same => matched ⟨old, inKept, same ▸ range⟩
      refine ⟨fun base => different ?_, range.span ▸ separate goal inGoal region member different⟩
      exact SpaceManager.effectiveRegions_eq_of_va inGoal member (range.1.symm.trans base)
  obtain ⟨ok, final, tracksFinal, members⟩ := tracks.enterRegions (world.mgr.effectiveRegions sid)
    separate (world.mgr.effectiveRegions_distinct sid) buffers fits
  refine ⟨ok, tracksFinal.congr fun region => ?_⟩
  rw [members region]
  constructor
  · exact .inl
  · rintro (here | ⟨old, absent⟩)
    · exact here
    · obtain ⟨goal, inGoal, range⟩ := wanted region old
      exact absurd range.1.symm (absent goal inGoal)

theorem Settled.step (settled : Settled world) (backed : op.Backed) (clean : world.OnSwitch CleanSwitch op) :
    Settled (world.step op) := by
  have buffers : ∀ sid, ∀ region ∈ (world.step op).mgr.regionsOf sid, region.host ≠ nullptr := by
    intro sid region member
    rcases World.mem_regionsOf_step member with old | ⟨va, size, recorded, _⟩
    · exact settled.buffers sid region old
    · subst recorded
      exact backed
  cases switch : op.target world.mgr with
  | none =>
    have idled := World.step_idle switch
    refine ⟨?_, fun never => ?_, buffers⟩
    · rw [idled.bindings, idled.bound]
      exact settled.tracks
    · rw [idled.bound]
      exact settled.unbound (idled.binding.activatedOnce ▸ never)
  | some sid =>
    have switched := World.step_switch switch
    refine ⟨?_, fun never => ?_, buffers⟩
    · rw [switched.bindings, switched.bound]
      exact (settled.rebind (clean sid switch)).2
    · exact Bool.noConfusion (never.symm.trans switched.activatedOnce)

/-- What a switch to a space has to achieve: every page of an effective region is
backed by the first region covering it, and no other page is backed by a buffer
bound for another space. -/
def SwitchCorrect (world : World) (sid : Word) : Prop :=
  (∀ page region,
    (world.mgr.effectiveRegions sid).find? (fun region => page ∈ region.span) = some region →
    world.mem.pages.backing page = some (.host (region.hostAt page))) ∧
  ∀ page, (∀ region ∈ world.mgr.effectiveRegions sid, page ∉ region.span) →
    ∀ other regions, (other, regions) ∈ world.switchLog → other ≠ sid →
    ∀ region ∈ regions, ∀ inside ∈ region.span,
      world.mem.pages.backing page ≠ some (.host (region.hostAt inside))

/-- Every switch of a run that reports success is correct. -/
def SwitchesCorrect (mem : Memory) (ops : List SpaceOp) : Prop :=
  ∀ done op rest, ops = done ++ op :: rest →
    let before := (World.start mem).run done
    ∀ sid, op.target before.mgr = some sid → (before.effect op).1 = .ok →
      SwitchCorrect (before.step op) sid

/-- In every run over backed regions from an empty engine whose switches are clean,
every switch is correct. -/
theorem switchesCorrect_of_clean (mem : Memory) (ops : List SpaceOp)
    (empty : ∀ page, mem.pages page = none) (backed : ∀ op ∈ ops, op.Backed)
    (clean : World.Meets (World.OnSwitch CleanSwitch) (World.start mem) ops) : SwitchesCorrect mem ops := by
  intro done op rest split before sid switch _
  subst split
  obtain ⟨cleanDone, cleanRest⟩ := World.meets_append.mp clean
  have settled : Settled before := by
    refine World.run_invariant ?_ (Settled.start empty)
      (cleanDone.and_forall fun op member => backed op (List.mem_append_left _ member))
    intro world op settled allowed
    exact settled.step allowed.1 allowed.2
  have switched := World.step_switch switch
  obtain ⟨_, tracks⟩ := settled.rebind (cleanRest.1 sid switch)
  have regions : (before.step op).mgr.effectiveRegions sid = before.mgr.effectiveRegions sid :=
    SpaceManager.effectiveRegions_congr switched.spaces switched.baseLinks sid
  constructor
  · intro page region found
    rw [regions] at found
    have inside : page ∈ region.span := by simpa using List.find?_some found
    rw [switched.mem]
    exact tracks.backed region (List.mem_of_find?_eq_some found) page inside
  · intro page outside other log _ _ region _ inside _ same
    rw [regions] at outside
    rw [switched.mem, PageTable.backing, tracks.vacant page outside] at same
    cases same

/-- Two spaces with different buffers behind the same address. -/
def twoSpaces : List SpaceOp :=
  [.record 1 0x1000 0x1000 Prot.all 0x10000, .record 2 0x1000 0x1000 Prot.all 0x20000,
    .activate 1, .queueActivate 2, .drainActivate]

theorem switchesCorrect_twoSpaces :
    World.Meets (World.OnSwitch CleanSwitch) (World.start Memory.blank) twoSpaces ∧
      SwitchesCorrect Memory.blank twoSpaces :=
  ⟨by decide, switchesCorrect_of_clean Memory.blank twoSpaces (fun _ => rfl) (by decide) (by decide)⟩

/-- The active space records its region again, one page longer, before it is left. -/
def grownWhileActive : List SpaceOp :=
  [.record 1 0x1000 0x1000 Prot.all 0x10000, .record 2 0x8000 0x1000 Prot.all 0x20000,
    .activate 1, .record 1 0x1000 0x2000 Prot.all 0x10000]

/-- What activating space 1 had bound. -/
def firstBound : Region := ⟨⟨0x1000, 0x1000, rfl, rfl, by decide⟩, Prot.all, 0x10000⟩

/-- The longer range is not wholly mapped, so it is never unmapped: the page of space 1
stays behind in space 2. -/
theorem not_switchesCorrect_grownWhileActive :
    (∀ op ∈ grownWhileActive ++ [.activate 2], op.Backed) ∧
      ¬ SwitchesCorrect Memory.blank (grownWhileActive ++ [.activate 2]) := by
  refine ⟨by decide, fun correct => ?_⟩
  have isolated := (correct grownWhileActive (.activate 2) [] rfl 2 (by decide) (by decide)).2
  exact isolated 1 (by decide) 1 [firstBound] (by decide) (by decide) firstBound List.mem_cons_self 1
    (by decide) (by decide)

end ZeeboLle.L4

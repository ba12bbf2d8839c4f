import ZeeboLle.L4.MapControl
import Mathlib.Data.Nat.Init

/-! What every `L4_MapControl` keeps: the lookup table agrees with the engine, the
message registers are echoed unchanged, and the last item to take effect on a page
decides its protection. -/
namespace ZeeboLle.L4

open Paging Unicorn

variable {pool : Option PhysPool} {state next : MapState} {item : MapItem} {page : Nat}

/-- An item leaves every page it does not cover alone. -/
theorem ItemEffect.outside (effect : ItemEffect pool item state next)
    (uncovered : ¬ item.fpage.Covers page) : next.mem.pages page = state.mem.pages page := by
  cases effect with
  | ignored => rfl
  | refused => rfl
  | revoked whole nonNil none =>
    have beyond : page ∉ (⟨0, 0x100000⟩ : Span) := by
      intro member
      exact uncovered ⟨nonNil, by simpa [Span.mem_iff] using member, .inl whole⟩
    simp [beyond]
  | anonymous extent ordinary range unbacked free =>
    simp [(Fpage.covers_iff_mem ordinary range page).not.mp uncovered]
  | aliased extent inner given ordinary range backed free =>
    simp [(Fpage.covers_iff_mem ordinary range page).not.mp uncovered]
  | reprotected extent ordinary range full =>
    simp [(Fpage.covers_iff_mem ordinary range page).not.mp uncovered]

/-- No item ever unmaps a page. -/
theorem ItemEffect.mapped (effect : ItemEffect pool item state next)
    (held : (state.mem.pages page).isSome = true) : (next.mem.pages page).isSome = true := by
  cases effect with
  | ignored => exact held
  | refused => exact held
  | revoked => simpa using held
  | anonymous =>
    dsimp only
    exact PageTable.isSome_install held
  | aliased =>
    dsimp only
    exact PageTable.isSome_install held
  | reprotected => simpa using held

/-- No item changes a byte that was readable before. -/
theorem ItemEffect.extends (effect : ItemEffect pool item state next) :
    next.mem.Extends state.mem := by
  cases effect with
  | ignored => exact Memory.Extends.refl _
  | refused => exact Memory.Extends.refl _
  | revoked => exact Memory.protect_extends _ _ _
  | reprotected => exact Memory.protect_extends _ _ _
  | anonymous extent ordinary range unbacked free =>
    have fresh := Memory.ucMemMap_extends state.mem extent.va extent.size (fpageToUcProt item.fpage)
    rwa [Memory.ucMemMap_free free] at fresh
  | aliased extent inner given ordinary range backed free =>
    have nonNull : inner.hostOf item.phys.physBase ≠ nullptr := by
      simp only [PhysPool.backs, Bool.and_eq_true, decide_eq_true_eq] at backed
      exact backed.1.2
    have fresh := Memory.ucMemMapPtr_extends state.mem extent.va extent.size
      (fpageToUcProt item.fpage) (inner.hostOf item.phys.physBase)
    rwa [Memory.ucMemMapPtr_free nonNull free] at fresh

/-- When a flexpage takes effect: a whole-space page only as a revocation, any
other one when its pages are all mapped or all unmapped. -/
def Fpage.TakesEffect (fpage : Fpage) (pages : PageTable Prot Backing) : Prop :=
  (fpage.isWholeSpace = true ∧ fpage.rwx = 0) ∨
    fpage.isWholeSpace = false ∧ ((∀ page, fpage.Covers page → (pages page).isSome = true) ∨
      (∀ page, fpage.Covers page → pages page = none))

/-- An item that takes effect gives its protection to every page it covers that
is mapped, and an ordinary one maps the others. -/
theorem ItemEffect.prot (effect : ItemEffect pool item state next)
    (takes : item.fpage.TakesEffect state.mem.pages) (covers : item.fpage.Covers page)
    (present : item.fpage.isOrdinary = true ∨ (state.mem.pages page).isSome = true) :
    next.mem.pages.prot page = some (fpageToUcProt item.fpage) := by
  cases effect with
  | ignored kind =>
    rcases kind with nil | ⟨whole, grant⟩
    · simp [Fpage.Covers, nil] at covers
    · rcases takes with ⟨_, none⟩ | ⟨proper, _⟩
      · exact absurd none grant
      · simp [whole] at proper
  | revoked whole nonNil none =>
    have inside : page ∈ (⟨0, 0x100000⟩ : Span) := by simpa [Span.mem_iff] using covers.2.1
    have held : (state.mem.pages page).isSome = true := by
      rcases present with ordinary | held
      · simp [Fpage.isOrdinary, whole] at ordinary
      · exact held
    obtain ⟨old, found⟩ := Option.isSome_iff_exists.mp held
    simp [PageTable.prot, PageTable.protect_of_mem inside, found,
      (fpageToUcProt_eq_none_iff _).mpr none]
  | anonymous extent ordinary range unbacked free =>
    simp [PageTable.prot, (Fpage.covers_iff_mem ordinary range page).mp covers]
  | aliased extent inner given ordinary range backed free =>
    simp [PageTable.prot, (Fpage.covers_iff_mem ordinary range page).mp covers, Memory.hostPages]
  | reprotected extent ordinary range full =>
    have member := (Fpage.covers_iff_mem ordinary range page).mp covers
    obtain ⟨old, found⟩ := Option.isSome_iff_exists.mp (PageTable.full_iff.mp full page member)
    simp [PageTable.prot, PageTable.protect_of_mem member, found]
  | refused extent ordinary range taken hole =>
    exfalso
    have same := Fpage.covers_iff_mem ordinary range
    rcases takes with ⟨whole, _⟩ | ⟨_, full | free⟩
    · simp [Fpage.isOrdinary, whole] at ordinary
    · simp [PageTable.full_iff.mpr fun page member => full page ((same page).mpr member)] at hole
    · simp [PageTable.free_iff.mpr fun page member => free page ((same page).mpr member)] at taken

/-- Entering a range in the table reaches its pages below 4 GiB and no others. -/
theorem VtlbLut.map_entries {fpage : Fpage} {extent : Extent} (range : fpage.extent = some extent)
    (lut : VtlbLut) (host : HostPtr) (page : Nat) :
    (lut.map extent.va extent.size host).entries page =
      if page ∈ extent.span ∧ page < 0x100000 then
        host + (page - extent.va / 0x1000) * 0x1000
      else lut.entries page := by
  have base := clampRange_va range
  have whole := extent.whole
  -- the loop bound of the table is the span itself, cut at the top of the space
  have bounds : (extent.va % 0x100000000 / 0x1000 ≤ page ∧
      page < extent.va % 0x100000000 / 0x1000 + (extent.size + 0xfff) / 0x1000 ∧
      page < 0x100000) ↔ page ∈ extent.span ∧ page < 0x100000 := by
    simp only [Extent.span, pageSpan, Span.mem_iff]
    omega
  have first : extent.va % 0x100000000 / 0x1000 = extent.va / 0x1000 := by omega
  simp only [VtlbLut.map, bounds]
  rw [first]

/-- Whenever the table translates a page, the engine backs that page with the very
host pointer. -/
def Coherent (state : MapState) : Prop :=
  ∀ lut, state.lut = some lut → ∀ page, lut.entries page ≠ nullptr →
    state.mem.pages.backing page = some (.host (lut.entries page))

/-- Inside a span that is about to be mapped the table has no entries. -/
private theorem Coherent.vacant {lut : VtlbLut} {span : Span} (coherent : Coherent state)
    (table : state.lut = some lut) (free : state.mem.pages.free span = true)
    (entry : lut.entries page ≠ nullptr) : page ∉ span := by
  intro member
  have backing := coherent lut table page entry
  simp [PageTable.backing, PageTable.free_iff.mp free page member] at backing

theorem ItemEffect.coherent (effect : ItemEffect pool item state next)
    (coherent : Coherent state) : Coherent next := by
  cases effect with
  | ignored => exact coherent
  | refused => exact coherent
  | revoked =>
    intro lut table page entry
    simpa using coherent lut table page entry
  | reprotected =>
    intro lut table page entry
    simpa using coherent lut table page entry
  | anonymous extent ordinary range unbacked free =>
    intro lut table page entry
    have outside := coherent.vacant table free entry
    simpa [PageTable.backing, outside] using coherent lut table page entry
  | aliased extent inner given ordinary range backed free =>
    intro lut table page entry
    obtain ⟨old, held, same⟩ := Option.map_eq_some_iff.mp table
    subst same
    rw [VtlbLut.map_entries range] at entry ⊢
    by_cases inside : page ∈ extent.span ∧ page < 0x100000
    · simp [PageTable.backing, inside, Memory.hostPages]
    · rw [if_neg inside] at entry ⊢
      have outside := coherent.vacant held free entry
      simpa [PageTable.backing, outside] using coherent old held page entry

/-- What happens to one space's memory and table: a system call, or the guest (or
a device) changing memory contents in between. -/
inductive MapEvent where
  | call (utcb : Word) (control : MapControl)
  | contents (ram : Nat → Byte) (host : HostPtr → Byte)

def MapState.step (pool : Option PhysPool) (state : MapState) : MapEvent → MapState
  | .call utcb control =>
    let result := (handleMapControl state.mem utcb control pool state.lut).2
    ⟨result.mem, result.lut⟩
  | .contents ram host => { state with mem := { state.mem with ram, host } }

def MapState.run (pool : Option PhysPool) (state : MapState) (events : List MapEvent) : MapState :=
  events.foldl (MapState.step pool) state

theorem MapState.step_coherent (coherent : Coherent state) (event : MapEvent) :
    Coherent (state.step pool event) := by
  cases event with
  | contents ram host => exact coherent
  | call utcb control =>
    exact mapControlLoop_invariant coherent
      (fun state item held => (applyItem_effect pool state item).coherent held) _

theorem MapState.run_coherent (coherent : Coherent state) (events : List MapEvent) :
    Coherent (state.run pool events) := by
  induction events generalizing state with
  | nil => exact coherent
  | cons event rest ih => exact ih (step_coherent coherent event)

/-- Interpreter and recompiler see the same RAM: over any run of calls from an
empty table, a translated page is backed in the engine by exactly the translation. -/
theorem translate_eq_backing (pool : PhysPool) (mem : Memory) (events : List MapEvent) :
    let reached := MapState.run (some pool) ⟨mem, some VtlbLut.empty⟩ events
    ∀ lut, reached.lut = some lut → ∀ page < 0x100000, ∀ host,
      lut.translate (page * 0x1000) = host → host ≠ nullptr →
        reached.mem.pages.backing page = some (.host host) := by
  intro reached lut table page bound host translated nonNull
  have coherent : Coherent reached := by
    apply MapState.run_coherent
    intro lut same page entry
    have same := Option.some.inj same
    subst same
    exact absurd rfl entry
  have index : page * 0x1000 % 0x100000000 / 0x1000 = page := by omega
  have offset : page * 0x1000 % 0x1000 = 0 := by omega
  simp only [VtlbLut.translate, index, offset, Nat.add_zero] at translated
  split at translated
  · rename_i entry
    subst host
    exact coherent lut table page entry
  · exact absurd translated.symm nonNull

variable {mem : Memory} {utcb : Word} {control : MapControl} {lut : Option VtlbLut}

/-- The decoded items are those of the turns, in order. -/
theorem mapControlLoop_items (count : Nat) :
    (mapControlLoop mem utcb control pool lut count).items =
      (List.range count).map fun turn =>
        itemAt (mapControlLoop mem utcb control pool lut turn).mem utcb turn := by
  induction count with
  | zero => rfl
  | succ count ih =>
    have items : (mapControlLoop mem utcb control pool lut (count + 1)).items =
        (mapControlLoop mem utcb control pool lut count).items ++
          [itemAt (mapControlLoop mem utcb control pool lut count).mem utcb count] := by
      rw [mapControlLoop_succ]
      cases query : control.isQuery with
      | true => rw [mapControlStep_query query]
      | false => rw [mapControlStep_apply query]
    rw [items, ih, List.range_succ, List.map_append, List.map_singleton]

private theorem items_getElem {count turn : Nat} {item : MapItem}
    (found : (mapControlLoop mem utcb control pool lut count).items[turn]? = some item) :
    turn < count ∧
      item = itemAt (mapControlLoop mem utcb control pool lut turn).mem utcb turn := by
  rw [mapControlLoop_items, List.getElem?_map] at found
  obtain ⟨index, inRange, same⟩ := Option.map_eq_some_iff.mp found
  obtain ⟨bound, value⟩ := List.getElem?_eq_some_iff.mp inRange
  rw [List.getElem_range] at value
  subst value
  exact ⟨by simpa using bound, same.symm⟩

/-- One turn of a call without the query bit is one item's effect. -/
theorem turn_effect (mem : Memory) (utcb : Word) (pool : Option PhysPool)
    (lut : Option VtlbLut) (apply_ : control.isQuery = false) (turn : Nat) :
    ItemEffect pool (itemAt (mapControlLoop mem utcb control pool lut turn).mem utcb turn)
      ⟨(mapControlLoop mem utcb control pool lut turn).mem,
        (mapControlLoop mem utcb control pool lut turn).lut⟩
      ⟨(mapControlLoop mem utcb control pool lut (turn + 1)).mem,
        (mapControlLoop mem utcb control pool lut (turn + 1)).lut⟩ := by
  rw [mapControlLoop_succ, mapControlStep_apply apply_]
  exact applyItem_effect pool _ _

/-- A page no item of the turns from `start` to `stop` covers is left alone by them. -/
private theorem turns_outside (mem : Memory) (utcb : Word) (pool : Option PhysPool)
    (lut : Option VtlbLut) (apply_ : control.isQuery = false) {start stop : Nat} (ordered : start ≤ stop)
    (uncovered : ∀ turn, start ≤ turn → turn < stop →
      ¬ (itemAt (mapControlLoop mem utcb control pool lut turn).mem utcb turn).fpage.Covers page) :
    (mapControlLoop mem utcb control pool lut stop).mem.pages page =
      (mapControlLoop mem utcb control pool lut start).mem.pages page := by
  induction stop, ordered using Nat.le_induction with
  | base => rfl
  | succ stop ordered ih =>
    have last := (turn_effect mem utcb pool lut apply_ stop).outside
      (uncovered stop ordered (Nat.lt_succ_self stop))
    exact last.trans (ih fun turn lower upper => uncovered turn lower (by omega))

theorem turns_mapped (apply_ : control.isQuery = false) {start stop : Nat}
    (ordered : start ≤ stop)
    (held : ((mapControlLoop mem utcb control pool lut start).mem.pages page).isSome = true) :
    ((mapControlLoop mem utcb control pool lut stop).mem.pages page).isSome = true := by
  induction stop, ordered using Nat.le_induction with
  | base => exact held
  | succ stop ordered ih => exact (turn_effect mem utcb pool lut apply_ stop).mapped ih

/-- Every byte readable before a call reads the same after it. -/
theorem handleMapControl_extends (mem : Memory) (utcb : Word) (control : MapControl)
    (pool : Option PhysPool) (lut : Option VtlbLut) :
    (handleMapControl mem utcb control pool lut).2.mem.Extends mem :=
  mapControlLoop_invariant (motive := fun state => state.mem.Extends mem)
    (Memory.Extends.refl mem)
    (fun state item held => (applyItem_effect pool state item).extends.trans held) _

/-- What the call promises if the modify bit alone decides whether it acts: the
protection of the last covering item on every page of every proper item. -/
def MapControlPost (mem : Memory) (utcb : Word) (control : MapControl) (pool : Option PhysPool)
    (lut : Option VtlbLut) : Prop :=
  let result := handleMapControl mem utcb control pool lut
  (control.isModify = false → result.2.mem.pages = mem.pages) ∧
    (control.isModify = true → result.1 ≠ 0 →
      ∀ (first : Nat) (asked : MapItem), result.2.items[first]? = some asked →
      asked.fpage.isOrdinary = true → ∀ page, asked.fpage.Covers page →
      ∀ (turn : Nat) (last : MapItem), result.2.items[turn]? = some last → last.fpage.Covers page →
      (∀ (later : Nat) (item : MapItem), turn < later → result.2.items[later]? = some item →
        ¬ item.fpage.Covers page) →
      result.2.mem.pages.prot page = some (fpageToUcProt last.fpage)) ∧
    ∀ index word, mem.ucMemRead32 (mrAddress utcb index) = some word →
      result.2.mem.ucMemRead32 (mrAddress utcb index) = some word

/-- A UTCB at 0x1000 whose first item asks for one rwx page at 0x5000. -/
def askedUtcb : Memory where
  pages := fun page => if page = 1 then some ⟨Prot.all, .ram⟩ else none
  ram := fun byte => if byte = 0x1044 then 0xc7 else if byte = 0x1045 then 0x50 else 0
  host := fun _ => 0

/-- With both bits set the call reports success and maps nothing. -/
theorem not_mapControlPost_modify_query :
    ¬ MapControlPost askedUtcb 0x1000 ⟨0xc0000000⟩ none none := by
  intro post
  have granted := post.2.1 (by decide) (by decide) 0 ⟨⟨0⟩, ⟨0x50c7⟩⟩ (by decide) (by decide) 5
    (by decide) 0 ⟨⟨0⟩, ⟨0x50c7⟩⟩ (by decide) (by decide) (by
      intro later item beyond found
      have bound := (items_getElem found).1
      exact absurd bound (by simp [MapControl.items, MapControl.count, MapControl.highestItem]; omega))
  exact absurd granted (by decide)

/-- What the call does by design. A query changes nothing. Without the query bit a
modifying call succeeds, and a page of a proper item that took effect has the
protection of the last item covering it, when that one took effect too. The
message registers are as they were in every case. -/
theorem handleMapControl_post (mem : Memory) (utcb : Word) (control : MapControl)
    (pool : Option PhysPool) (lut : Option VtlbLut) :
    let result := handleMapControl mem utcb control pool lut
    let pagesAt := fun turn => (mapControlLoop mem utcb control pool lut turn).mem.pages
    (control.isQuery = true → result.2.mem.pages = mem.pages) ∧
    (control.isModify = true → control.isQuery = false → result.1 ≠ 0 ∧
      ∀ (first : Nat) (asked : MapItem), result.2.items[first]? = some asked →
      asked.fpage.isOrdinary = true → asked.fpage.TakesEffect (pagesAt first) →
      ∀ page, asked.fpage.Covers page →
      ∀ (turn : Nat) (last : MapItem), result.2.items[turn]? = some last → last.fpage.Covers page →
      last.fpage.TakesEffect (pagesAt turn) →
      (∀ (later : Nat) (item : MapItem), turn < later → result.2.items[later]? = some item →
        ¬ item.fpage.Covers page) →
      result.2.mem.pages.prot page = some (fpageToUcProt last.fpage)) ∧
    ∀ index word, mem.ucMemRead32 (mrAddress utcb index) = some word →
      result.2.mem.ucMemRead32 (mrAddress utcb index) = some word := by
  refine ⟨fun query => congrArg Memory.pages (mapControlLoop_query query mem lut _).1, ?_, ?_⟩
  · intro _ apply_
    refine ⟨by simp [handleMapControl], ?_⟩
    intro first asked foundAsked ordinary takesAsked page coversAsked turn last foundLast coversLast
      takesLast final
    obtain ⟨firstBound, askedIs⟩ := items_getElem foundAsked
    obtain ⟨turnBound, lastIs⟩ := items_getElem foundLast
    -- the asked item is not after the last one covering the page
    have ordered : first ≤ turn := by
      by_contra beyond
      exact final first asked (by omega) foundAsked coversAsked
    have settled : (mapControlLoop mem utcb control pool lut (turn + 1)).mem.pages.prot page =
        some (fpageToUcProt last.fpage) := by
      subst askedIs lastIs
      apply (turn_effect mem utcb pool lut apply_ turn).prot takesLast coversLast
      rcases Nat.eq_or_lt_of_le ordered with same | before
      · subst same
        exact .inl ordinary
      · right
        have mapped := (turn_effect mem utcb pool lut apply_ first).prot takesAsked coversAsked (.inl ordinary)
        have held : ((mapControlLoop mem utcb control pool lut (first + 1)).mem.pages page).isSome =
            true := by
          obtain ⟨found, present, _⟩ := Option.map_eq_some_iff.mp mapped
          exact Option.isSome_iff_exists.mpr ⟨found, present⟩
        exact turns_mapped apply_ before held
    have untouched := turns_outside mem utcb pool lut apply_ (Nat.succ_le_of_lt turnBound) (by
        intro later lower upper
        apply final later _ lower
        rw [show (handleMapControl mem utcb control pool lut).2.items =
          (mapControlLoop mem utcb control pool lut control.items).items from rfl,
          mapControlLoop_items, List.getElem?_map, List.getElem?_range upper]
        rfl)
    exact (congrArg (Option.map Page.prot) untouched).trans settled
  · intro index word held
    exact (handleMapControl_extends mem utcb control pool lut).read32 held

end ZeeboLle.L4

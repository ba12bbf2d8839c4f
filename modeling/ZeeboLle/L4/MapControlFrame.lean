import ZeeboLle.L4.MapControlInvariant
import ZeeboLle.Paging.KeyedList

/-! When an `L4_MapControl` leaves the engine as it is. An item either maps free pages,
which no later item undoes, or sets the protection of mapped pages, which the next item on
the same page overrides. So a call keeps every page exactly when it is a query, or when no
item finds its range free and the last item to act on each page asks for what is there. -/
namespace ZeeboLle.L4

open Paging Unicorn

/-- The item sets the protection of the mapped pages it covers. -/
def Fpage.acts (fpage : Fpage) (pages : PageTable Prot Backing) : Bool :=
  if fpage.isNil then false
  else if fpage.isWholeSpace then fpage.rwx == 0
  else
    match fpage.extent with
    | none => false
    | some extent => pages.full extent.span

/-- The item maps its range. -/
def Fpage.grows (fpage : Fpage) (pages : PageTable Prot Backing) : Bool :=
  fpage.isOrdinary &&
    match fpage.extent with
    | none => false
    | some extent => pages.free extent.span

/-- The last item to set the protection of a page. -/
def lastActing (pages : PageTable Prot Backing) (items : List MapItem) (page : Nat) :
    Option MapItem :=
  latest (fun item => item.fpage.acts pages && decide (item.fpage.Covers page)) items

/-- No item maps anything, and each page already has the protection it ends up with. -/
def Redundant (pages : PageTable Prot Backing) (items : List MapItem) : Prop :=
  (∀ item ∈ items, item.fpage.grows pages = false) ∧
    ∀ page found last, pages page = some found → lastActing pages items page = some last →
      fpageToUcProt last.fpage = found.prot

/-- The items of a call, as memory has them before it. -/
def askedItems (mem : Memory) (utcb : Word) (count : Nat) : List MapItem :=
  (List.range count).map (itemAt mem utcb)

/-- The same pages are mapped to the same memory. -/
def SameBacking (left right : PageTable Prot Backing) : Prop :=
  ∀ page, left.backing page = right.backing page

variable {left right pages : PageTable Prot Backing} {fpage : Fpage} {page : Nat}

theorem SameBacking.isSome (same : SameBacking left right) (page : Nat) :
    (left page).isSome = (right page).isSome := by
  have mapped := congrArg Option.isSome (same page)
  simpa [PageTable.backing] using mapped

theorem SameBacking.free (same : SameBacking left right) (span : Span) :
    left.free span = right.free span := by
  have agree : ∀ page, (left page).isNone = (right page).isNone := fun page => by
    rw [← Option.not_isSome, ← Option.not_isSome, same.isSome]
  simp only [PageTable.free, agree]

theorem SameBacking.full (same : SameBacking left right) (span : Span) :
    left.full span = right.full span := by
  simp only [PageTable.full, same.isSome]

theorem SameBacking.acts (same : SameBacking left right) (fpage : Fpage) :
    fpage.acts left = fpage.acts right := by
  simp only [Fpage.acts, same.full]

theorem SameBacking.grows (same : SameBacking left right) (fpage : Fpage) :
    fpage.grows left = fpage.grows right := by
  simp only [Fpage.grows, same.free]

/-- Message registers are read through the backing alone. -/
theorem SameBacking.itemAt {mem : Memory} (same : SameBacking pages mem.pages) (utcb : Word)
    (turn : Nat) : itemAt { mem with pages } utcb turn = itemAt mem utcb turn := by
  have bytes : ∀ address, ({ mem with pages } : Memory).loadByte address = mem.loadByte address :=
    fun address => Memory.loadByte_congr (same _) rfl rfl
  simp only [L4.itemAt, readMr, Memory.ucMemRead32, bytes]

/-- Every mapped page with the protection of the last item to act on it. -/
def settle (pages : PageTable Prot Backing) (items : List MapItem) : PageTable Prot Backing :=
  fun page => (pages page).map fun old =>
    { old with prot := ((lastActing pages items page).map fun last =>
        fpageToUcProt last.fpage).getD old.prot }

theorem settle_sameBacking (pages : PageTable Prot Backing) (items : List MapItem) :
    SameBacking (settle pages items) pages := by
  intro page
  simp [PageTable.backing, settle, Function.comp_def]

theorem settle_nil (pages : PageTable Prot Backing) : settle pages [] = pages := by
  ext1 page
  simp [settle, lastActing, latest]

theorem settle_eq_self_iff {items : List MapItem}
    (still : ∀ item ∈ items, item.fpage.grows pages = false) :
    settle pages items = pages ↔ Redundant pages items := by
  constructor
  · intro same
    refine ⟨still, ?_⟩
    intro page found last mapped acting
    have kept := congrFun same page
    simp only [settle, mapped, acting, Option.map_some, Option.getD_some, Option.some.injEq] at kept
    exact congrArg Page.prot kept
  · intro redundant
    ext1 page
    cases mapped : pages page with
    | none => simp [settle, mapped]
    | some found =>
      cases acting : lastActing pages items page with
      | none => simp [settle, mapped, acting]
      | some last => simp [settle, mapped, acting, redundant.2 page found last mapped acting]

/-- The table after an item that maps nothing. -/
def Fpage.reprotect (fpage : Fpage) (pages : PageTable Prot Backing) : PageTable Prot Backing :=
  fun page =>
    if fpage.acts pages = true ∧ fpage.Covers page then
      (pages page).map fun old => { old with prot := fpageToUcProt fpage }
    else pages page

theorem reprotect_settle (pages : PageTable Prot Backing) (items : List MapItem) (item : MapItem) :
    item.fpage.reprotect (settle pages items) = settle pages (items ++ [item]) := by
  ext1 page
  rw [Fpage.reprotect, (settle_sameBacking pages items).acts]
  by_cases acting : item.fpage.acts pages = true ∧ item.fpage.Covers page
  · rw [if_pos acting]
    simp [settle, lastActing, latest_snoc, acting, Function.comp_def]
  · have passes : (item.fpage.acts pages && decide (item.fpage.Covers page)) = false := by
      rwa [Bool.eq_false_iff, ne_eq, Bool.and_eq_true, decide_eq_true_iff]
    rw [if_neg acting]
    simp [settle, lastActing, latest_snoc, passes]

variable {pool : Option PhysPool} {item : MapItem} {state next : MapState}

theorem Fpage.acts_of_extent {extent : Extent} (ordinary : fpage.isOrdinary = true)
    (range : fpage.extent = some extent) : fpage.acts pages = pages.full extent.span := by
  simp only [Fpage.isOrdinary, Bool.and_eq_true, Bool.not_eq_true'] at ordinary
  simp [Fpage.acts, ordinary.1, ordinary.2, range]

theorem Fpage.grows_of_extent {extent : Extent} (ordinary : fpage.isOrdinary = true)
    (range : fpage.extent = some extent) : fpage.grows pages = pages.free extent.span := by
  simp [Fpage.grows, ordinary, range]

/-- An item that maps nothing only sets protections, and leaves the table alone. -/
theorem ItemEffect.still (effect : ItemEffect pool item state next)
    (still : item.fpage.grows state.mem.pages = false) :
    next = ⟨{ state.mem with pages := item.fpage.reprotect state.mem.pages }, state.lut⟩ := by
  have idle (inactive : item.fpage.acts state.mem.pages = false) :
      item.fpage.reprotect state.mem.pages = state.mem.pages := by
    ext1 page
    simp [Fpage.reprotect, inactive]
  cases effect with
  | ignored kind =>
    rw [idle]
    rcases kind with nil | ⟨whole, grant⟩
    · simp [Fpage.acts, nil]
    · simp [Fpage.acts, whole, grant]
  | refused extent ordinary range taken hole =>
    rw [idle ((Fpage.acts_of_extent ordinary range).trans hole)]
  | anonymous extent ordinary range unbacked free =>
    rw [Fpage.grows_of_extent ordinary range, free] at still
    cases still
  | aliased extent inner given ordinary range backed free =>
    rw [Fpage.grows_of_extent ordinary range, free] at still
    cases still
  | revoked whole nonNil none =>
    have pages : state.mem.pages.protect ⟨0, 0x100000⟩ Prot.none =
        item.fpage.reprotect state.mem.pages := by
      ext1 page
      simp [PageTable.protect, Fpage.reprotect, Fpage.acts, Fpage.Covers, nonNil, whole, none,
        Span.mem_iff, (fpageToUcProt_eq_none_iff _).mpr none]
    rw [pages]
  | reprotected extent ordinary range full =>
    have pages : state.mem.pages.protect extent.span (fpageToUcProt item.fpage) =
        item.fpage.reprotect state.mem.pages := by
      ext1 page
      simp [PageTable.protect, Fpage.reprotect, Fpage.acts_of_extent ordinary range, full,
        Fpage.covers_iff_mem ordinary range]
    rw [pages]

/-- An item that finds its range free maps some page that was not mapped. -/
theorem ItemEffect.grown (effect : ItemEffect pool item state next)
    (grows : item.fpage.grows state.mem.pages = true) :
    ∃ page, state.mem.pages page = none ∧ (next.mem.pages page).isSome = true := by
  cases effect with
  | ignored kind =>
    rcases kind with nil | ⟨whole, _⟩
    · simp [Fpage.grows, Fpage.isOrdinary, nil] at grows
    · simp [Fpage.grows, Fpage.isOrdinary, whole] at grows
  | revoked whole => simp [Fpage.grows, Fpage.isOrdinary, whole] at grows
  | refused extent ordinary range taken =>
    rw [Fpage.grows_of_extent ordinary range, taken] at grows
    cases grows
  | reprotected extent ordinary range full =>
    rw [Fpage.grows_of_extent ordinary range,
      PageTable.free_eq_false_of_full extent.count_pos full] at grows
    cases grows
  | anonymous extent ordinary range unbacked free =>
    exact ⟨_, PageTable.free_iff.mp free _ extent.first_mem, by simp [extent.first_mem]⟩
  | aliased extent inner given ordinary range backed free =>
    exact ⟨_, PageTable.free_iff.mp free _ extent.first_mem, by simp [extent.first_mem]⟩

variable {mem : Memory} {utcb : Word} {control : MapControl} {lut : Option VtlbLut} {count : Nat}

theorem askedItems_succ (mem : Memory) (utcb : Word) (count : Nat) :
    askedItems mem utcb (count + 1) = askedItems mem utcb count ++ [itemAt mem utcb count] := by
  simp [askedItems, List.range_succ]

theorem SameBacking.askedItems (same : SameBacking pages mem.pages) (utcb : Word) (count : Nat) :
    askedItems { mem with pages } utcb count = askedItems mem utcb count := by
  simp only [L4.askedItems, List.map_inj_left]
  intro turn _
  exact same.itemAt utcb turn

theorem mem_askedItems {turn : Nat} (bound : turn < count) :
    itemAt mem utcb turn ∈ askedItems mem utcb count :=
  List.mem_map.mpr ⟨turn, List.mem_range.mpr bound, rfl⟩

/-- As long as no item finds its range free, every turn reads the items as they were and
only sets protections. -/
theorem mapControlLoop_still (apply_ : control.isQuery = false) (pool : Option PhysPool)
    (lut : Option VtlbLut)
    (still : ∀ item ∈ askedItems mem utcb count, item.fpage.grows mem.pages = false) :
    mapControlLoop mem utcb control pool lut count =
      ⟨{ mem with pages := settle mem.pages (askedItems mem utcb count) }, lut,
        askedItems mem utcb count⟩ := by
  induction count with
  | zero =>
    rw [show askedItems mem utcb 0 = [] from rfl, settle_nil]
    rfl
  | succ count ih =>
    have before := ih fun item member => still item (by
      rw [askedItems_succ]
      exact List.mem_append_left _ member)
    have same := settle_sameBacking mem.pages (askedItems mem utcb count)
    have quiet := still _ (mem_askedItems (Nat.lt_succ_self count))
    have effect := applyItem_effect pool
      ⟨{ mem with pages := settle mem.pages (askedItems mem utcb count) }, lut⟩
      (itemAt mem utcb count)
    rw [mapControlLoop_succ, before, mapControlStep_apply apply_]
    dsimp only
    rw [same.itemAt, effect.still ((same.grows _).trans quiet), askedItems_succ, ← reprotect_settle]

/-- Once an item has found its range free, some page is mapped that was not. -/
theorem mapControlLoop_grows (apply_ : control.isQuery = false) (pool : Option PhysPool)
    (lut : Option VtlbLut)
    (grown : ∃ item ∈ askedItems mem utcb count, item.fpage.grows mem.pages = true) :
    ∃ page, mem.pages page = none ∧
      ((mapControlLoop mem utcb control pool lut count).mem.pages page).isSome = true := by
  induction count with
  | zero =>
    obtain ⟨item, member, _⟩ := grown
    cases member
  | succ count ih =>
    by_cases earlier : ∃ item ∈ askedItems mem utcb count, item.fpage.grows mem.pages = true
    · obtain ⟨page, missing, mapped⟩ := ih earlier
      exact ⟨page, missing, turns_mapped apply_ (Nat.le_succ count) mapped⟩
    · have still : ∀ item ∈ askedItems mem utcb count, item.fpage.grows mem.pages = false := by
        intro item member
        exact Bool.eq_false_iff.mpr fun grows => earlier ⟨item, member, grows⟩
      have own : (itemAt mem utcb count).fpage.grows mem.pages = true := by
        obtain ⟨item, member, grows⟩ := grown
        rw [askedItems_succ, List.mem_append, List.mem_singleton] at member
        rcases member with old | new
        · exact absurd ⟨item, old, grows⟩ earlier
        · exact new ▸ grows
      have same := settle_sameBacking mem.pages (askedItems mem utcb count)
      have effect := turn_effect mem utcb pool lut apply_ count
      rw [mapControlLoop_still apply_ pool lut still] at effect
      dsimp only at effect
      rw [same.itemAt] at effect
      obtain ⟨page, missing, mapped⟩ := effect.grown ((same.grows _).trans own)
      have absent := same.isSome page
      dsimp only at missing
      rw [missing] at absent
      exact ⟨page, Option.not_isSome_iff_eq_none.mp (by simp [← absent]), mapped⟩

/-- The call is a query or asks for nothing that is not there. -/
def KeepsPages (mem : Memory) (utcb : Word) (control : MapControl) : Prop :=
  control.isQuery = true ∨ Redundant mem.pages (askedItems mem utcb control.items)

theorem settle_settle (pages : PageTable Prot Backing) (items : List MapItem) :
    settle (settle pages items) items = settle pages items := by
  have same := settle_sameBacking pages items
  have acting : ∀ page, lastActing (settle pages items) items page = lastActing pages items page := by
    intro page
    simp only [lastActing, same.acts]
  ext1 page
  cases mapped : pages page with
  | none => simp [settle, mapped]
  | some found =>
    cases last : lastActing pages items page with
    | none => rw [settle, acting, last]; simp
    | some item => rw [settle, acting, last]; simp [settle, mapped, last]

/-- No call unmaps a page. -/
theorem handleMapControl_mapped (mem : Memory) (utcb : Word) (control : MapControl)
    (pool : Option PhysPool) (lut : Option VtlbLut) (mapped : (mem.pages page).isSome = true) :
    ((handleMapControl mem utcb control pool lut).2.mem.pages page).isSome = true :=
  mapControlLoop_invariant (motive := fun state => (state.mem.pages page).isSome = true) mapped
    (fun state item held => (applyItem_effect pool state item).mapped held) _

/-- A call either keeps what is mapped, reads the items as they were and settles the
protections, or maps something new. -/
theorem handleMapControl_outcome (apply_ : control.isQuery = false) (mem : Memory) (utcb : Word)
    (pool : Option PhysPool) (lut : Option VtlbLut) :
    (∀ item ∈ askedItems mem utcb control.items, item.fpage.grows mem.pages = false) ∧
        (handleMapControl mem utcb control pool lut).2 =
          ⟨{ mem with pages := settle mem.pages (askedItems mem utcb control.items) }, lut,
            askedItems mem utcb control.items⟩ ∨
      ¬ Redundant mem.pages (askedItems mem utcb control.items) ∧
        ∃ page, mem.pages page = none ∧
          ((handleMapControl mem utcb control pool lut).2.mem.pages page).isSome = true := by
  by_cases grown : ∃ item ∈ askedItems mem utcb control.items, item.fpage.grows mem.pages = true
  · refine .inr ⟨?_, mapControlLoop_grows apply_ pool lut grown⟩
    intro redundant
    obtain ⟨item, member, grows⟩ := grown
    exact absurd (redundant.1 item member) (by simp [grows])
  · have still : ∀ item ∈ askedItems mem utcb control.items,
        item.fpage.grows mem.pages = false := by
      intro item member
      exact Bool.eq_false_iff.mpr fun grows => grown ⟨item, member, grows⟩
    exact .inl ⟨still, mapControlLoop_still apply_ pool lut still⟩

private theorem pages_ne (missing : left page = none) (mapped : (right page).isSome = true) :
    right ≠ left := by
  intro same
  rw [same, missing] at mapped
  cases mapped

theorem onePass_pages_iff (pool : Option PhysPool) (lut : Option VtlbLut) :
    (handleMapControl mem utcb control pool lut).2.mem.pages = mem.pages ↔
      KeepsPages mem utcb control := by
  unfold KeepsPages
  cases query : control.isQuery with
  | true => simp [handleMapControl, (mapControlLoop_query query _ _ _).1]
  | false =>
    rw [or_iff_right Bool.false_ne_true]
    rcases handleMapControl_outcome query mem utcb pool lut with ⟨still, settled⟩ | ⟨news, page, missing, mapped⟩
    · rw [settled]
      exact settle_eq_self_iff still
    · exact iff_of_false (pages_ne missing mapped) news

/-- Both passes of a call over the engine, with the pool and then without. -/
theorem twoPasses_pages_iff (first second : Option PhysPool) (lut other : Option VtlbLut) :
    (handleMapControl (handleMapControl mem utcb control first lut).2.mem utcb control second
      other).2.mem.pages = mem.pages ↔ KeepsPages mem utcb control := by
  unfold KeepsPages
  cases query : control.isQuery with
  | true => simp [handleMapControl, (mapControlLoop_query query _ _ _).1]
  | false =>
    rw [or_iff_right Bool.false_ne_true]
    rcases handleMapControl_outcome query mem utcb first lut with ⟨still, settled⟩ | ⟨news, page, missing, mapped⟩
    · -- the second pass reads the same items and settles what is settled
      have same := settle_sameBacking mem.pages (askedItems mem utcb control.items)
      have quiet : ∀ item ∈ askedItems { mem with
          pages := settle mem.pages (askedItems mem utcb control.items) } utcb control.items,
          item.fpage.grows (settle mem.pages (askedItems mem utcb control.items)) = false := by
        intro item member
        rw [same.askedItems] at member
        exact (same.grows _).trans (still item member)
      rw [settled, handleMapControl, mapControlLoop_still query second other quiet, same.askedItems,
        settle_settle]
      exact settle_eq_self_iff still
    · exact iff_of_false (pages_ne missing (handleMapControl_mapped _ _ _ _ _ mapped)) news

/-- Without a pool the lookup table is never written. -/
theorem handleMapControl_lut (mem : Memory) (utcb : Word) (control : MapControl)
    (lut : Option VtlbLut) : (handleMapControl mem utcb control none lut).2.lut = lut := by
  refine mapControlLoop_invariant (motive := fun state => state.lut = lut) rfl ?_ _
  intro state item held
  have effect := applyItem_effect none state item
  generalize applyItem none state item = next at effect ⊢
  cases effect with
  | aliased extent inner given => cases given
  | _ => exact held

/-- A call that keeps the pages keeps the table and decodes the items as they were. -/
theorem handleMapControl_kept (kept : KeepsPages mem utcb control) (pool : Option PhysPool)
    (lut : Option VtlbLut) :
    (handleMapControl mem utcb control pool lut).2.lut = lut ∧
      (handleMapControl mem utcb control pool lut).2.items = askedItems mem utcb control.items := by
  cases query : control.isQuery with
  | true =>
    refine ⟨(mapControlLoop_query query _ _ _).2, ?_⟩
    refine (mapControlLoop_items control.items).trans ?_
    simp only [(mapControlLoop_query query _ _ _).1]
    rfl
  | false =>
    have redundant := kept.resolve_left (by simp [query])
    rcases handleMapControl_outcome query mem utcb pool lut with ⟨_, settled⟩ | ⟨news, _⟩
    · rw [settled]
      exact ⟨rfl, rfl⟩
    · exact absurd redundant news

end ZeeboLle.L4

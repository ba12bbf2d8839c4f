import ZeeboLle.L4.MapItem

/-! `handle_map_control` and the functions it dispatches to: anonymous mapping,
pool-aliased mapping with its lookup table, and whole-space revocation. Logging
and the empty-page probe have no effect on the modelled state. -/
namespace ZeeboLle.L4

open Paging Unicorn

/-- The direct lookup table, from page number to host pointer. -/
structure VtlbLut where
  entries : Nat → HostPtr

namespace VtlbLut

def empty : VtlbLut := ⟨fun _ => nullptr⟩

def map (lut : VtlbLut) (va size : Nat) (hostPtr : HostPtr) : VtlbLut where
  entries page :=
    let first := va % 0x100000000 / 0x1000
    let pages := (size + 0xfff) / 0x1000
    if first ≤ page ∧ page < first + pages ∧ page < 0x100000 then
      hostPtr + (page - first) * 0x1000
    else lut.entries page

def translate (lut : VtlbLut) (va : Nat) : HostPtr :=
  let base := lut.entries (va % 0x100000000 / 0x1000)
  if base ≠ nullptr then base + va % 0x1000 else nullptr

end VtlbLut

/-- A contiguous physical pool and the host memory that holds it. -/
structure PhysPool where
  physBase : Nat
  size : Nat
  host : HostPtr
deriving DecidableEq, Repr

namespace PhysPool

def contains (pool : PhysPool) (phys len : Nat) : Bool :=
  pool.host ≠ nullptr && phys ≥ pool.physBase && phys + len ≤ pool.physBase + pool.size

def hostOf (pool : PhysPool) (phys : Nat) : HostPtr :=
  if pool.host = nullptr ∨ phys < pool.physBase ∨ phys ≥ pool.physBase + pool.size then nullptr
  else pool.host + (phys - pool.physBase)

/-- The pool backs every byte of the range an item asks for. -/
def backs (pool : PhysPool) (item : MapItem) (extent : Extent) : Bool :=
  pool.host ≠ nullptr && item.phys.physBase ≠ 0 && pool.hostOf item.phys.physBase ≠ nullptr &&
    pool.contains item.phys.physBase extent.size

end PhysPool

def mapOne (mem : Memory) (item : MapItem) : UcErr × Memory :=
  if item.fpage.isNil || item.fpage.sizeBytes == 0 then (.ok, mem)
  else if item.fpage.isWholeSpace then (.ok, mem)
  else
    match item.fpage.extent with
    | none => (.ok, mem)
    | some extent =>
      let prot := fpageToUcProt item.fpage
      let revoke := prot == Prot.none
      match mem.ucMemMap extent.va extent.size (if revoke then Prot.readOnly else prot) with
      | (.ok, fresh) =>
        -- mapped readable only to satisfy the engine, then revoked
        if revoke then (.ok, (fresh.ucMemProtect extent.va extent.size Prot.none).2)
        else (.ok, fresh)
      | (err, mem) =>
        if err == .map || err == .nomem then
          match mem.ucMemProtect extent.va extent.size (if revoke then Prot.none else prot) with
          | (.ok, mem) => (.ok, mem)
          | (_, mem) => (err, mem)
        else (err, mem)

/-- The table is updated only when the engine adopted the host pointer. -/
def mapOneAliased (mem : Memory) (item : MapItem) (pool : PhysPool) (lut : Option VtlbLut) :
    UcErr × Memory × Option VtlbLut :=
  if item.fpage.isNil || item.fpage.sizeBytes == 0 then (.ok, mem, lut)
  else if item.fpage.isWholeSpace then (.ok, mem, lut)
  else
    match item.fpage.extent with
    | none => (.ok, mem, lut)
    | some extent =>
      let phys := item.phys.physBase
      let hostPtr := pool.hostOf phys
      if hostPtr = nullptr ∨ pool.contains phys extent.size = false then (.arg, mem, lut)
      else
        let prot := fpageToUcProt item.fpage
        let revoke := prot == Prot.none
        match mem.ucMemMapPtr extent.va extent.size (if revoke then Prot.readOnly else prot)
            hostPtr with
        | (.ok, fresh) =>
          let mem := if revoke then (fresh.ucMemProtect extent.va extent.size Prot.none).2 else fresh
          (.ok, mem, lut.map fun lut => lut.map extent.va extent.size hostPtr)
        | (.map, mem) =>
          let (err, mem) :=
            mem.ucMemProtect extent.va extent.size (if revoke then Prot.none else prot)
          (err, mem, lut)
        | (err, mem) => (err, mem, lut)

/-- Every mapped region is fully mapped, so protecting region by region reaches
every mapped page of the 32-bit space. -/
def revokeWholeSpace (mem : Memory) (fpage : Fpage) : UcErr × Memory :=
  if fpage.isWholeSpace = false then (.arg, mem)
  else if fpage.rwx ≠ 0 then (.ok, mem)
  else (.ok, { mem with pages := mem.pages.protect ⟨0, 0x100000⟩ Prot.none })

/-- What one call reads and changes. -/
structure MapState where
  mem : Memory
  lut : Option VtlbLut

/-- The part of the dispatcher's loop after the query test. -/
def applyItem (pool : Option PhysPool) (state : MapState) (item : MapItem) : MapState :=
  if item.fpage.isNil then state
  else if item.fpage.isWholeSpace then
    if item.fpage.rwx == 0 then { state with mem := (revokeWholeSpace state.mem item.fpage).2 }
    else state
  else
    match pool with
    | none => { state with mem := (mapOne state.mem item).2 }
    | some pool =>
      if pool.host ≠ nullptr ∧ item.phys.physBase ≠ 0 then
        match mapOneAliased state.mem item pool state.lut with
        | (.arg, mem, lut) => ⟨(mapOne mem item).2, lut⟩
        | (_, mem, lut) => ⟨mem, lut⟩
      else { state with mem := (mapOne state.mem item).2 }

/-- Guest address of message register `index` of a UTCB, in 32-bit arithmetic. -/
def mrAddress (utcb : Word) (index : Nat) : Nat := (utcb + 64 + BitVec.ofNat 32 (index * 4)).toNat

/-- A message register reads as zero where the UTCB is not mapped. -/
def readMr (mem : Memory) (utcb : Word) (index : Nat) : Word :=
  (mem.ucMemRead32 (mrAddress utcb index)).getD 0

def writeMr (mem : Memory) (utcb : Word) (index : Nat) (value : Word) : Memory :=
  (mem.ucMemWrite32 (mrAddress utcb index) value).2

structure MapControlResult where
  mem : Memory
  lut : Option VtlbLut
  items : List MapItem

def mapControlStep (control : MapControl) (pool : Option PhysPool) (utcb : Word)
    (state : MapControlResult) (index : Nat) : MapControlResult :=
  let mrPhys := readMr state.mem utcb (index * 2)
  let mrFpage := readMr state.mem utcb (index * 2 + 1)
  let item := decodeItem mrPhys mrFpage
  let items := state.items ++ [item]
  let mem := writeMr (writeMr state.mem utcb (index * 2) mrPhys) utcb (index * 2 + 1) mrFpage
  if control.isQuery then ⟨mem, state.lut, items⟩
  else
    let next := applyItem pool ⟨mem, state.lut⟩ item
    ⟨next.mem, next.lut, items⟩

/-- `IPC_NUM_MR / 2` items at most. -/
def MapControl.items (control : MapControl) : Nat := min control.count 16

/-- The state after the first `count` turns of the dispatcher's loop. -/
def mapControlLoop (mem : Memory) (utcb : Word) (control : MapControl) (pool : Option PhysPool)
    (lut : Option VtlbLut) (count : Nat) : MapControlResult :=
  (List.range count).foldl (mapControlStep control pool utcb) ⟨mem, lut, []⟩

/-- Returns 1 together with the new state and the decoded items, in every case. -/
def handleMapControl (mem : Memory) (utcb : Word) (control : MapControl) (pool : Option PhysPool)
    (lut : Option VtlbLut) : Word × MapControlResult :=
  (1, mapControlLoop mem utcb control pool lut control.items)

/-- Every effect an item can have, with the condition under which it has it. -/
inductive ItemEffect (pool : Option PhysPool) (item : MapItem) (before : MapState) :
    MapState → Prop where
  | ignored (kind : item.fpage.isNil = true ∨ item.fpage.isWholeSpace = true ∧ item.fpage.rwx ≠ 0) :
      ItemEffect pool item before before
  | revoked (whole : item.fpage.isWholeSpace = true) (nonNil : item.fpage.isNil = false)
      (none : item.fpage.rwx = 0) :
      ItemEffect pool item before
        { before with
          mem := { before.mem with pages := before.mem.pages.protect ⟨0, 0x100000⟩ Prot.none } }
  | anonymous (extent : Extent) (ordinary : item.fpage.isOrdinary = true)
      (range : item.fpage.extent = some extent)
      (unbacked : ∀ inner, pool = some inner → inner.backs item extent = false)
      (free : before.mem.pages.free extent.span = true) :
      ItemEffect pool item before
        { before with
          mem := { before.mem with
            pages := before.mem.pages.install extent.span fun _ => ⟨fpageToUcProt item.fpage, .ram⟩
            ram := fun byte => if byte / 0x1000 ∈ extent.span then 0 else before.mem.ram byte } }
  | aliased (extent : Extent) (inner : PhysPool) (given : pool = some inner)
      (ordinary : item.fpage.isOrdinary = true) (range : item.fpage.extent = some extent)
      (backed : inner.backs item extent = true)
      (free : before.mem.pages.free extent.span = true) :
      ItemEffect pool item before
        { mem := { before.mem with
            pages := before.mem.pages.install extent.span
              (Memory.hostPages extent.va (fpageToUcProt item.fpage)
                (inner.hostOf item.phys.physBase)) }
          lut := before.lut.map fun lut =>
            lut.map extent.va extent.size (inner.hostOf item.phys.physBase) }
  | reprotected (extent : Extent) (ordinary : item.fpage.isOrdinary = true)
      (range : item.fpage.extent = some extent)
      (full : before.mem.pages.full extent.span = true) :
      ItemEffect pool item before
        { before with
          mem := { before.mem with
            pages := before.mem.pages.protect extent.span (fpageToUcProt item.fpage) } }
  | refused (extent : Extent) (ordinary : item.fpage.isOrdinary = true)
      (range : item.fpage.extent = some extent)
      (taken : before.mem.pages.free extent.span = false)
      (hole : before.mem.pages.full extent.span = false) :
      ItemEffect pool item before before

variable {mem : Memory} {item : MapItem} {extent : Extent} {pool : PhysPool} {lut : Option VtlbLut}

/-- Mapping readable and then protecting leaves the fresh pages with the final
protection. -/
private theorem protect_install {table : PageTable Prot Backing} {span : Span}
    {fresh : Nat → Page Prot Backing} {prot : Prot} :
    (table.install span fresh).protect span prot =
      table.install span fun page => { fresh page with prot } := by
  ext1 page
  by_cases member : page ∈ span
  · simp [PageTable.protect_of_mem member, member]
  · simp [member]

private theorem full_install {table : PageTable Prot Backing} {span : Span}
    {fresh : Nat → Page Prot Backing} : (table.install span fresh).full span = true :=
  PageTable.full_iff.mpr fun _ member => by simp [member]

private theorem ordinary_kinds (ordinary : item.fpage.isOrdinary = true) :
    item.fpage.isNil = false ∧ item.fpage.isWholeSpace = false := by
  simpa [Fpage.isOrdinary] using ordinary

private theorem ordinary_guard (ordinary : item.fpage.isOrdinary = true) :
    (item.fpage.isNil || item.fpage.sizeBytes == 0) = false := by
  have positive := item.fpage.sizeBytes_pos
  have different : item.fpage.sizeBytes ≠ 0 := by omega
  simp [(ordinary_kinds ordinary).1, different]

private theorem mapOne_free (ordinary : item.fpage.isOrdinary = true)
    (range : item.fpage.extent = some extent) (free : mem.pages.free extent.span = true) :
    (mapOne mem item).2 = { mem with
      pages := mem.pages.install extent.span fun _ => ⟨fpageToUcProt item.fpage, .ram⟩
      ram := fun byte => if byte / 0x1000 ∈ extent.span then 0 else mem.ram byte } := by
  simp only [mapOne, ordinary_guard ordinary, (ordinary_kinds ordinary).2, range,
    Memory.ucMemMap_free free, Bool.false_eq_true, if_false]
  by_cases revoke : fpageToUcProt item.fpage = Prot.none
  · simp only [revoke, BEq.rfl, if_true]
    rw [Memory.ucMemProtect_full full_install]
    exact congrArg (fun pages => ({ mem with pages, ram := _ } : Memory)) protect_install
  · simp only [beq_eq_false_iff_ne.mpr revoke, Bool.false_eq_true, if_false]
    rfl

private theorem mapOne_full (ordinary : item.fpage.isOrdinary = true)
    (range : item.fpage.extent = some extent) (full : mem.pages.full extent.span = true) :
    (mapOne mem item).2 =
      { mem with pages := mem.pages.protect extent.span (fpageToUcProt item.fpage) } := by
  simp only [mapOne, ordinary_guard ordinary, (ordinary_kinds ordinary).2, range,
    Memory.ucMemMap_taken (PageTable.free_eq_false_of_full extent.count_pos full), Memory.ucMemProtect_full full,
    Bool.false_eq_true, if_false, BEq.rfl, Bool.true_or, if_true]
  by_cases revoke : fpageToUcProt item.fpage = Prot.none
  · simp [revoke, Extent.span]
  · simp [revoke, Extent.span]

private theorem mapOne_refused (ordinary : item.fpage.isOrdinary = true)
    (range : item.fpage.extent = some extent) (taken : mem.pages.free extent.span = false)
    (hole : mem.pages.full extent.span = false) : (mapOne mem item).2 = mem := by
  simp only [mapOne, ordinary_guard ordinary, (ordinary_kinds ordinary).2, range,
    Memory.ucMemMap_taken taken, Memory.ucMemProtect_hole hole, Bool.false_eq_true, if_false,
    BEq.rfl, Bool.true_or, if_true]

private theorem mapOne_effect {pool : Option PhysPool} (state : MapState)
    (ordinary : item.fpage.isOrdinary = true) (range : item.fpage.extent = some extent)
    (unbacked : ∀ inner, pool = some inner → inner.backs item extent = false) :
    ItemEffect pool item state { state with mem := (mapOne state.mem item).2 } := by
  cases free : state.mem.pages.free extent.span with
  | true =>
    rw [mapOne_free ordinary range free]
    exact .anonymous extent ordinary range unbacked free
  | false =>
    cases full : state.mem.pages.full extent.span with
    | true =>
      rw [mapOne_full ordinary range full]
      exact .reprotected extent ordinary range full
    | false =>
      rw [mapOne_refused ordinary range free full]
      exact .refused extent ordinary range free full

/-- The aliased path refuses items outside the pool without touching anything. -/
private theorem mapOneAliased_outside (ordinary : item.fpage.isOrdinary = true)
    (range : item.fpage.extent = some extent)
    (outside : pool.hostOf item.phys.physBase = nullptr ∨
      pool.contains item.phys.physBase extent.size = false) :
    mapOneAliased mem item pool lut = (.arg, mem, lut) := by
  simp only [mapOneAliased, ordinary_guard ordinary, (ordinary_kinds ordinary).2, range,
    Bool.false_eq_true, if_false, if_pos outside]

private theorem backs_inside (backed : pool.backs item extent = true) :
    ¬ (pool.hostOf item.phys.physBase = nullptr ∨
      pool.contains item.phys.physBase extent.size = false) := by
  simp only [PhysPool.backs, Bool.and_eq_true, decide_eq_true_eq] at backed
  rintro (null | outside)
  · exact backed.1.2 null
  · simp [outside] at backed

theorem mapOneAliased_free (ordinary : item.fpage.isOrdinary = true)
    (range : item.fpage.extent = some extent)
    (inside : ¬ (pool.hostOf item.phys.physBase = nullptr ∨
      pool.contains item.phys.physBase extent.size = false))
    (free : mem.pages.free extent.span = true) :
    mapOneAliased mem item pool lut = (.ok, { mem with
      pages := mem.pages.install extent.span (Memory.hostPages extent.va
        (fpageToUcProt item.fpage) (pool.hostOf item.phys.physBase)) },
      lut.map fun lut => lut.map extent.va extent.size (pool.hostOf item.phys.physBase)) := by
  have backed : pool.hostOf item.phys.physBase ≠ nullptr := fun null => inside (.inl null)
  simp only [mapOneAliased, ordinary_guard ordinary, (ordinary_kinds ordinary).2, range,
    Bool.false_eq_true, if_false, if_neg inside, Memory.ucMemMapPtr_free backed free]
  by_cases revoke : fpageToUcProt item.fpage = Prot.none
  · simp only [revoke, BEq.rfl, if_true]
    rw [Memory.ucMemProtect_full full_install]
    exact congrArg (fun pages => (UcErr.ok, ({ mem with pages } : Memory), _)) protect_install
  · simp only [beq_eq_false_iff_ne.mpr revoke, Bool.false_eq_true, if_false]
    rfl

private theorem mapOneAliased_full (ordinary : item.fpage.isOrdinary = true)
    (range : item.fpage.extent = some extent)
    (inside : ¬ (pool.hostOf item.phys.physBase = nullptr ∨
      pool.contains item.phys.physBase extent.size = false))
    (full : mem.pages.full extent.span = true) :
    mapOneAliased mem item pool lut = (.ok,
      { mem with pages := mem.pages.protect extent.span (fpageToUcProt item.fpage) }, lut) := by
  have backed : pool.hostOf item.phys.physBase ≠ nullptr := fun null => inside (.inl null)
  simp only [mapOneAliased, ordinary_guard ordinary, (ordinary_kinds ordinary).2, range,
    Bool.false_eq_true, if_false, if_neg inside,
    Memory.ucMemMapPtr_taken backed (PageTable.free_eq_false_of_full extent.count_pos full), Memory.ucMemProtect_full full]
  by_cases revoke : fpageToUcProt item.fpage = Prot.none
  · simp [revoke, Extent.span]
  · simp [revoke, Extent.span]

private theorem mapOneAliased_refused (ordinary : item.fpage.isOrdinary = true)
    (range : item.fpage.extent = some extent)
    (inside : ¬ (pool.hostOf item.phys.physBase = nullptr ∨
      pool.contains item.phys.physBase extent.size = false))
    (taken : mem.pages.free extent.span = false) (hole : mem.pages.full extent.span = false) :
    mapOneAliased mem item pool lut = (.nomem, mem, lut) := by
  have backed : pool.hostOf item.phys.physBase ≠ nullptr := fun null => inside (.inl null)
  simp only [mapOneAliased, ordinary_guard ordinary, (ordinary_kinds ordinary).2, range,
    Bool.false_eq_true, if_false, if_neg inside, Memory.ucMemMapPtr_taken backed taken,
    Memory.ucMemProtect_hole hole]

/-- The aliased branch, with its fallback to an anonymous mapping. -/
private theorem aliasedItem_effect (state : MapState) (ordinary : item.fpage.isOrdinary = true)
    (range : item.fpage.extent = some extent)
    (usable : pool.host ≠ nullptr ∧ item.phys.physBase ≠ 0) :
    ItemEffect (some pool) item state
      (match mapOneAliased state.mem item pool state.lut with
        | (.arg, mem, lut) => ⟨(mapOne mem item).2, lut⟩
        | (_, mem, lut) => ⟨mem, lut⟩) := by
  by_cases outside : pool.hostOf item.phys.physBase = nullptr ∨
      pool.contains item.phys.physBase extent.size = false
  · rw [mapOneAliased_outside ordinary range outside]
    apply mapOne_effect state ordinary range
    intro inner same
    have same := Option.some.inj same
    subst inner
    by_contra backed
    exact backs_inside (by simpa using backed) outside
  · have backed : pool.backs item extent = true := by
      rw [not_or, Bool.not_eq_false] at outside
      simp [PhysPool.backs, usable.1, usable.2, outside.1, outside.2]
    cases free : state.mem.pages.free extent.span with
    | true =>
      rw [mapOneAliased_free ordinary range outside free]
      exact .aliased extent pool rfl ordinary range backed free
    | false =>
      cases full : state.mem.pages.full extent.span with
      | true =>
        rw [mapOneAliased_full ordinary range outside full]
        exact .reprotected extent ordinary range full
      | false =>
        rw [mapOneAliased_refused ordinary range outside free full]
        exact .refused extent ordinary range free full

/-- The whole case analysis of the dispatcher, once. -/
theorem applyItem_effect (pool : Option PhysPool) (state : MapState) (item : MapItem) :
    ItemEffect pool item state (applyItem pool state item) := by
  unfold applyItem
  split
  · rename_i nil
    exact .ignored (.inl nil)
  · rename_i nonNil
    have nonNil : item.fpage.isNil = false := by simpa using nonNil
    split
    · rename_i whole
      split
      · rename_i none
        have none : item.fpage.rwx = 0 := by simpa using none
        simpa [revokeWholeSpace, whole, none] using ItemEffect.revoked whole nonNil none
      · rename_i grant
        exact .ignored (.inr ⟨whole, by simpa using grant⟩)
    · rename_i proper
      have ordinary : item.fpage.isOrdinary = true := by
        simpa [Fpage.isOrdinary, nonNil] using proper
      obtain ⟨extent, range⟩ := item.fpage.exists_extent
      cases pool with
      | none => exact mapOne_effect state ordinary range (by simp)
      | some pool =>
        dsimp only
        split
        · rename_i usable
          exact aliasedItem_effect state ordinary range usable
        · rename_i unusable
          apply mapOne_effect state ordinary range
          intro inner same
          have same := Option.some.inj same
          subst inner
          by_contra backed
          simp only [PhysPool.backs, Bool.not_eq_false, Bool.and_eq_true, decide_eq_true_eq] at backed
          exact unusable ⟨backed.1.1.1, backed.1.1.2⟩

/-- The echo of a message register writes back what was read, so it leaves memory
as it is, mapped or not. -/
theorem writeMr_readMr (mem : Memory) (utcb : Word) (index : Nat) :
    writeMr mem utcb index (readMr mem utcb index) = mem := by
  unfold writeMr readMr
  cases held : mem.ucMemRead32 (mrAddress utcb index) with
  | none => rw [Memory.ucMemWrite32_unmapped held]
  | some word => rw [Option.getD_some, Memory.ucMemWrite32_self held]

/-- The item a turn of the loop decodes. -/
def itemAt (mem : Memory) (utcb : Word) (index : Nat) : MapItem :=
  decodeItem (readMr mem utcb (index * 2)) (readMr mem utcb (index * 2 + 1))

variable {control : MapControl} {utcb : Word} {pool : Option PhysPool}

theorem mapControlStep_query (query : control.isQuery = true) (state : MapControlResult)
    (index : Nat) :
    mapControlStep control pool utcb state index =
      ⟨state.mem, state.lut, state.items ++ [itemAt state.mem utcb index]⟩ := by
  simp [mapControlStep, writeMr_readMr, query, itemAt]

theorem mapControlStep_apply (apply_ : control.isQuery = false) (state : MapControlResult)
    (index : Nat) :
    mapControlStep control pool utcb state index =
      ⟨(applyItem pool ⟨state.mem, state.lut⟩ (itemAt state.mem utcb index)).mem,
        (applyItem pool ⟨state.mem, state.lut⟩ (itemAt state.mem utcb index)).lut,
        state.items ++ [itemAt state.mem utcb index]⟩ := by
  simp [mapControlStep, writeMr_readMr, apply_, itemAt]

theorem mapControlLoop_succ (mem : Memory) (lut : Option VtlbLut) (count : Nat) :
    mapControlLoop mem utcb control pool lut (count + 1) =
      mapControlStep control pool utcb (mapControlLoop mem utcb control pool lut count) count := by
  simp [mapControlLoop, List.range_succ]

/-- With the query bit set the loop only decodes. -/
theorem mapControlLoop_query (query : control.isQuery = true) (mem : Memory)
    (lut : Option VtlbLut) (count : Nat) :
    (mapControlLoop mem utcb control pool lut count).mem = mem ∧
      (mapControlLoop mem utcb control pool lut count).lut = lut := by
  induction count with
  | zero => exact ⟨rfl, rfl⟩
  | succ count ih =>
    rw [mapControlLoop_succ, mapControlStep_query query]
    exact ih

/-- A property of memory and table that every applied item keeps holds after any
number of turns. -/
theorem mapControlLoop_invariant {motive : MapState → Prop} {lut : Option VtlbLut}
    (start : motive ⟨mem, lut⟩)
    (keeps : ∀ state item, motive state → motive (applyItem pool state item)) (count : Nat) :
    motive ⟨(mapControlLoop mem utcb control pool lut count).mem,
      (mapControlLoop mem utcb control pool lut count).lut⟩ := by
  induction count with
  | zero => exact start
  | succ count ih =>
    rw [mapControlLoop_succ]
    cases query : control.isQuery with
    | true => rw [mapControlStep_query query]; exact ih
    | false => rw [mapControlStep_apply query]; exact keeps _ _ ih

end ZeeboLle.L4

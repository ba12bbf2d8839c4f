import ZeeboLle.Brew.ModuleEntry
import ZeeboLle.L4.Vtlb
import ZeeboLle.Unicorn.View

/-! The loader puts a module into guest memory, mirrors it in the lookup table when the table
has all of it, and clears the two words below. Mapping fails on taken pages only, so that no
attempt to map ends an injection. -/
namespace ZeeboLle.Brew

open Paging Unicorn L4

structure AppletModule where
  hostPath : String := ""
  loadVa : Word := 0
  size : Word := 0
  clsid : Word := 0
  entryVa : Word := 0
  entryKind : BrewLoader.EntryKind := .none
  injected : Bool := false
  loaded : Bool := false
  prefixReady : Bool := false
  reservedLoVa : Word := 0
  reservedHiVa : Word := 0
deriving DecidableEq

structure BrewLoader where
  uc : Option Memory
  lut : Option VtlbLut
  mod : AppletModule

/-- Map the pages from an address on that are not mapped yet. -/
def mapPages (mem : Memory) (page : Nat) : Nat → Bool × Memory
  | 0 => (true, mem)
  | count + 1 =>
    match mem.ucMemMap page 0x1000 .all with
    | (.ok, mem) => mapPages mem (page + 0x1000) count
    | (.map, mem) => mapPages mem (page + 0x1000) count
    | (_, mem) => (false, mem)

/-- Map every page that covers a range. -/
def mapRange (mem : Memory) (first last : Nat) : Bool × Memory :=
  mapPages mem (first / 0x1000 * 0x1000) ((last + 0xfff) / 0x1000 - first / 0x1000)

namespace BrewLoader

def prepareElf2modPrefix (loader : BrewLoader) (loadVa lo hi : Word) : Bool × BrewLoader :=
  match loader.uc with
  | none => (false, loader)
  | some mem =>
    if loadVa < 8 then (false, loader)
    else
      match mapRange mem (loadVa - 8).toNat loadVa.toNat with
      | (false, mem) => (false, { loader with uc := some mem })
      | (true, mem) =>
        match mem.ucMemWrite (loadVa - 8).toNat (wordBytes lo) with
        | (.ok, mem) =>
          match mem.ucMemWrite (loadVa - 4).toNat (wordBytes hi) with
          | (.ok, mem) =>
            let loader := { loader with uc := some mem }
            if loader.mod.injected ∧ loader.mod.loadVa = loadVa then
              let mod := { loader.mod with
                prefixReady := true, reservedLoVa := loadVa - 8, reservedHiVa := loadVa - 4 }
              (true, { loader with mod })
            else (true, loader)
          | (_, mem) => (false, { loader with uc := some mem })
        | (_, mem) => (false, { loader with uc := some mem })

/-- Every page of the payload is in the table. -/
def covered (lut : VtlbLut) (loadVa size : Nat) : Bool :=
  (List.range ((loadVa + size - 1) / 0x1000 + 1 - loadVa / 0x1000)).all fun page =>
    lut.entries ((loadVa / 0x1000 + page) * 0x1000 % 0x100000000 / 0x1000) ≠ nullptr

/-- The payload in the memory behind the table, if all of it is there. -/
def mirror (lut : Option VtlbLut) (mem : Memory) (loadVa : Nat) (d : List Byte) : Memory :=
  match lut with
  | none => mem
  | some lut =>
    if covered lut loadVa d.length then { mem with host := (lut.write mem.host loadVa d).2 } else mem

/-- The module that is noted once its payload is there. -/
def injectedModule (d : List Byte) (loadVa clsid : Word) (origin : String) : AppletModule where
  hostPath := origin
  loadVa
  size := BitVec.ofNat 32 d.length
  clsid
  injected := true
  entryVa := (resolveModEntry d loadVa).2
  entryKind := (resolveModEntry d loadVa).1

def injectBytes (loader : BrewLoader) (d : List Byte) (loadVa clsid : Word) (origin : String) :
    Bool × BrewLoader :=
  match loader.uc with
  | none => (false, loader)
  | some mem =>
    if d = [] then (false, loader)
    else if d.length > 0xffffffff ∨ loadVa.toNat + d.length > 0x100000000 then (false, loader)
    else
      match mapRange mem loadVa.toNat (loadVa.toNat + d.length) with
      | (false, mem) => (false, { loader with uc := some mem })
      | (true, mem) =>
        match mem.ucMemWrite loadVa.toNat d with
        | (.ok, mem) =>
          let loader := { loader with
            uc := some (mirror loader.lut mem loadVa.toNat d)
            mod := injectedModule d loadVa clsid origin }
          (true, (loader.prepareElf2modPrefix loadVa 0 0).2)
        | (_, mem) => (false, { loader with uc := some mem })

end BrewLoader

/-- Nothing that was mapped has moved, and what is mapped since is engine memory that reads
as zero. -/
structure Grown (before after : Memory) : Prop where
  host : after.host = before.host
  byteAt : after.byteAt = before.byteAt
  kept : ∀ address cell, before.cell address = some cell → after.cell address = some cell
  fresh : ∀ address cell, after.cell address = some cell →
    before.cell address = some cell ∨ cell = .ram address

variable {mem before middle after : Memory}

theorem Grown.refl (mem : Memory) : Grown mem mem :=
  ⟨rfl, rfl, fun _ _ found => found, fun _ _ found => .inl found⟩

theorem Grown.trans (first : Grown before middle) (second : Grown middle after) : Grown before after where
  host := second.host.trans first.host
  byteAt := second.byteAt.trans first.byteAt
  kept address cell found := second.kept address cell (first.kept address cell found)
  fresh address cell found := by
    rcases second.fresh address cell found with old | new
    · exact first.fresh address cell old
    · exact .inr new

theorem Grown.mapPage (mem : Memory) (address : Nat) : Grown mem (mem.mapPage address).2 := by
  cases page : mem.pages (address / 0x1000) with
  | some taken =>
    rw [Memory.mapPage_taken (by rw [page]; rfl)]
    exact Grown.refl mem
  | none =>
    refine ⟨by rw [Memory.mapPage_missing page], funext (Memory.byteAt_mapPage mem address), ?_, ?_⟩
    · intro byte cell found
      rw [Memory.cell_mapPage page, if_neg]
      · exact found
      · rintro ⟨same, _⟩
        have mapped := (Memory.isSome_cell.mp (by rw [found]; rfl)).2
        rw [same, page] at mapped
        cases mapped
    · intro byte cell found
      rw [Memory.cell_mapPage page] at found
      split at found
      · exact .inr (Option.some.inj found).symm
      · exact .inl found

/-- Mapping a page fails at most because it is taken. -/
theorem mapPages_succ (mem : Memory) (page count : Nat) :
    mapPages mem (page * 0x1000) (count + 1) =
      mapPages (mem.mapPage (page * 0x1000)).2 ((page + 1) * 0x1000) count := by
  have here : page * 0x1000 / 0x1000 = page := Nat.mul_div_cancel _ (by decide)
  have next : page * 0x1000 + 0x1000 = (page + 1) * 0x1000 := by omega
  rw [mapPages, Memory.mapPage, here, next]
  cases free : mem.pages.free (pageSpan (page * 0x1000) 0x1000) with
  | true => rw [Memory.ucMemMap_free free]
  | false => rw [Memory.ucMemMap_taken free]

theorem mapPage_mapped (mem : Memory) (page : Nat) {address : Nat} (low : address < 0x100000000)
    (here : address / 0x1000 = page) :
    ((mem.mapPage (page * 0x1000)).2.cell address).isSome = true := by
  have same : page * 0x1000 / 0x1000 = page := Nat.mul_div_cancel _ (by decide)
  cases missing : mem.pages page with
  | none =>
    rw [Memory.cell_mapPage (by rw [same, missing]), if_pos ⟨by rw [same, here], low⟩]
    rfl
  | some taken =>
    rw [Memory.mapPage_taken (by rw [same, missing]; rfl)]
    exact Memory.isSome_cell.mpr ⟨low, by rw [here, missing]; rfl⟩

/-- Mapping never fails, and the pages are mapped in the end. -/
theorem mapPages_grown (mem : Memory) (page count : Nat) :
    ∃ after, mapPages mem (page * 0x1000) count = (true, after) ∧ Grown mem after ∧
      ∀ address, address < 0x100000000 → page ≤ address / 0x1000 → address / 0x1000 < page + count →
        (after.cell address).isSome = true := by
  induction count generalizing mem page with
  | zero => exact ⟨mem, rfl, Grown.refl mem, fun address _ above below => by omega⟩
  | succ count ih =>
    obtain ⟨after, mapped, more, inside⟩ := ih (mem.mapPage (page * 0x1000)).2 (page + 1)
    refine ⟨after, ?_, (Grown.mapPage mem _).trans more, ?_⟩
    · rw [mapPages_succ, mapped]
    · intro address low above below
      by_cases here : address / 0x1000 = page
      · obtain ⟨cell, found⟩ := Option.isSome_iff_exists.mp (mapPage_mapped mem page low here)
        rw [more.kept address cell found]
        rfl
      · exact inside address low (by omega) (by omega)

theorem mapRange_grown (mem : Memory) (first last : Nat) (fits : last ≤ 0x100000000) :
    ∃ after, mapRange mem first last = (true, after) ∧ Grown mem after ∧
      ∀ index, first + index < last → (after.cell (first + index)).isSome = true := by
  obtain ⟨after, mapped, grown, inside⟩ :=
    mapPages_grown mem (first / 0x1000) ((last + 0xfff) / 0x1000 - first / 0x1000)
  exact ⟨after, mapped, grown, fun index below =>
    inside _ (by omega) (by omega) (by omega)⟩

/-- No two addresses of the engine share a byte, no two of the table do, and neither shares
one with the other. -/
structure Separate (mem : Memory) (lut : VtlbLut) : Prop where
  engine : ∀ address other cell, mem.cell address = some cell → mem.cell other = some cell →
    address = other
  table : ∀ address other cell, address < 0x100000000 → other < 0x100000000 →
    lut.find address = some cell → lut.find other = some cell → address = other
  apart : ∀ address other cell, mem.cell address = some cell → lut.find other ≠ some cell

/-- The byte the table shows at an address; zero where it has none. -/
def tableByte (lut : VtlbLut) (mem : Memory) : Nat → Byte := shown lut.find mem.contents 0

theorem find_host {lut : VtlbLut} {address : Nat} {cell : Cell} (found : lut.find address = some cell) :
    ∃ ptr, cell = .host ptr := by
  unfold VtlbLut.find at found
  split at found
  · cases found
  · exact ⟨_, (Option.some.inj found).symm⟩

variable {lut : VtlbLut}

theorem Grown.separate (grown : Grown before after) (separate : Separate before lut) :
    Separate after lut where
  engine address other cell here there := by
    rcases grown.fresh address cell here with old | rfl
    · rcases grown.fresh other cell there with also | rfl
      · exact separate.engine address other cell old also
      · exact (Memory.cell_ram here).symm
    · exact Memory.cell_ram there
  table := separate.table
  apart address other cell here there := by
    rcases grown.fresh address cell here with old | rfl
    · exact separate.apart address other cell old there
    · obtain ⟨ptr, other⟩ := find_host there
      cases other

theorem Grown.tableByte (grown : Grown before after) : tableByte lut after = tableByte lut before := by
  funext address
  unfold Brew.tableByte shown
  cases found : lut.find address with
  | none => rfl
  | some cell =>
    obtain ⟨ptr, rfl⟩ := find_host found
    simp [Memory.contents, grown.host]

theorem Separate.congr (separate : Separate mem lut) (same : after.cell = mem.cell) :
    Separate after lut := by
  constructor
  · rw [same]
    exact separate.engine
  · exact separate.table
  · rw [same]
    exact separate.apart

variable {start : Nat} {bytes : List Byte}

/-- A write of the engine shows where it was made, and in the engine only. -/
theorem ucMemWrite_views (start : Nat) (bytes : List Byte) (separate : Separate mem lut)
    (backed : ∀ index, index < bytes.length → (mem.cell (start + index)).isSome = true) :
    ∃ after, mem.ucMemWrite start bytes = (.ok, after) ∧ after.cell = mem.cell ∧
      after.byteAt = patch mem.byteAt start bytes ∧ tableByte lut after = tableByte lut mem := by
  refine ⟨_, if_pos (Memory.backed_iff.mpr backed), Memory.cell_withContents _ _, ?_, ?_⟩
  · funext address
    rw [Memory.byteAt_withContents, Memory.byteAt_eq_shown]
    cases found : mem.cell address with
    | none =>
      have outside : address < start ∨ start + bytes.length ≤ address := by
        by_contra inside
        have mapped := backed (address - start) (by omega)
        rw [show start + (address - start) = address by omega, found] at mapped
        cases mapped
      rw [patch_apart outside, shown, shown, found]
      rfl
    | some cell =>
      rw [shown_of_found found]
      exact writeAll_reach backed found (shown_of_found found)
        fun index below same => separate.engine _ _ _ same found
  · funext address
    unfold tableByte
    rw [Memory.contents_withContents]
    cases found : lut.find address with
    | none => rw [shown, shown, found]; rfl
    | some cell =>
      rw [shown_of_found found, shown_of_found found]
      exact writeAll_reach_outside fun index _ same => separate.apart _ _ _ same found

/-- A write through the table shows where it was made, and in the table only. -/
theorem lut_write_views (separate : Separate mem lut) (fits : start + bytes.length ≤ 0x100000000)
    (covers : ∀ index, index < bytes.length → (lut.find (start + index)).isSome = true) :
    let after : Memory := { mem with host := (lut.write mem.host start bytes).2 }
    after.cell = mem.cell ∧ after.byteAt = mem.byteAt ∧
      ∀ address, address < 0x100000000 →
        tableByte lut after address = patch (tableByte lut mem) start bytes address := by
  intro after
  have whole : after = mem.withContents
      (writeAll mem.contents ((lut.cells start bytes.length).zip bytes)) := lut.write_eq mem start bytes
  refine ⟨rfl, ?_, ?_⟩
  · funext address
    rw [whole, Memory.byteAt_withContents, Memory.byteAt_eq_shown]
    cases found : mem.cell address with
    | none => rw [shown, shown, found]; rfl
    | some cell =>
      rw [shown_of_found found, shown_of_found found]
      exact writeAll_reach_outside fun index _ same => separate.apart _ _ _ found same
  · intro address low
    unfold tableByte
    rw [whole, Memory.contents_withContents]
    cases found : lut.find address with
    | none =>
      have outside : address < start ∨ start + bytes.length ≤ address := by
        by_contra inside
        have mapped := covers (address - start) (by omega)
        rw [show start + (address - start) = address by omega, found] at mapped
        cases mapped
      rw [patch_apart outside, shown, shown, found]
      rfl
    | some cell =>
      rw [shown_of_found found]
      exact writeAll_reach covers found (shown_of_found found)
        fun index below same => separate.table _ _ _ (by omega) low same found

theorem lut_read_shown {count : Nat}
    (covers : ∀ index, index < count → (lut.find (start + index)).isSome = true) :
    lut.read mem.host start count = (true, segment (tableByte lut mem) start count) := by
  have whole : (lut.cells start count).length = count := reach_full_iff.mpr covers
  rw [VtlbLut.read_eq, VtlbLut.covers_iff.mpr covers, whole, Nat.sub_self, List.replicate_zero,
    List.append_nil]
  exact congrArg _ (reach_map_shown covers)

theorem isSome_find {address : Nat} :
    (lut.find address).isSome = true ↔ lut.entries (address % 0x100000000 / 0x1000) ≠ nullptr := by
  unfold VtlbLut.find VtlbLut.translate
  by_cases missing : lut.entries (address % 0x100000000 / 0x1000) = nullptr
  · simp [missing]
  · have positive : 0 < lut.entries (address % 0x100000000 / 0x1000) + address % 0x1000 :=
      Nat.add_pos_left (Nat.pos_of_ne_zero missing) _
    dsimp only
    rw [if_pos missing, if_neg (Nat.ne_of_gt positive)]
    exact iff_of_true rfl missing

/-- The pages of a payload are in the table exactly when its bytes are. -/
theorem covered_iff {size : Nat} (filled : 0 < size) (fits : start + size ≤ 0x100000000) :
    BrewLoader.covered lut start size = true ↔
      ∀ index, index < size → (lut.find (start + index)).isSome = true := by
  unfold BrewLoader.covered
  rw [List.all_eq_true]
  simp only [isSome_find, List.mem_range, decide_eq_true_eq]
  constructor
  · intro pages index below
    have page := pages ((start + index) / 0x1000 - start / 0x1000) (by omega)
    have same : (start / 0x1000 + ((start + index) / 0x1000 - start / 0x1000)) * 0x1000 %
        0x100000000 / 0x1000 = (start + index) % 0x100000000 / 0x1000 := by omega
    rwa [same] at page
  · intro bytes page below
    -- the first byte of the page that is in the payload
    have byte := bytes ((start / 0x1000 + page) * 0x1000 - start) (by omega)
    have same : (start + ((start / 0x1000 + page) * 0x1000 - start)) % 0x100000000 / 0x1000 =
        (start / 0x1000 + page) * 0x1000 % 0x100000000 / 0x1000 := by omega
    rwa [same] at byte

/-- The two words below a module are written in the engine, and nowhere else. -/
theorem prepareElf2modPrefix_views (loader : BrewLoader) (loadVa lo hi : Word)
    (bound : loader.uc = some mem) (separate : Separate mem lut) (room : 8 ≤ loadVa.toNat) :
    ∃ after, (loader.prepareElf2modPrefix loadVa lo hi).2.uc = some after ∧
      after.byteAt = patch mem.byteAt (loadVa.toNat - 8) (wordBytes lo ++ wordBytes hi) ∧
      tableByte lut after = tableByte lut mem ∧
      (∀ address cell, mem.cell address = some cell → after.cell address = some cell) ∧
      ∀ index, index < 8 → (after.cell (loadVa.toNat - 8 + index)).isSome = true := by
  have small := loadVa.isLt
  have below8 : ¬loadVa < 8 := by
    rw [BitVec.lt_def]
    exact Nat.not_lt.mpr room
  have first : (loadVa - 8).toNat = loadVa.toNat - 8 := BitVec.toNat_sub_of_le (BitVec.le_def.mpr room)
  have second : (loadVa - 4).toNat = loadVa.toNat - 8 + 4 := by
    rw [BitVec.toNat_sub_of_le (BitVec.le_def.mpr (Nat.le_trans (by decide) room))]
    change loadVa.toNat - 4 = _
    omega
  obtain ⟨grownMem, mapped, grown, inside⟩ := mapRange_grown mem (loadVa.toNat - 8)
    loadVa.toNat (Nat.le_of_lt small)
  obtain ⟨low, wroteLow, lowCell, lowView, lowTable⟩ :=
    ucMemWrite_views (loadVa.toNat - 8) (wordBytes lo) (grown.separate separate)
      fun index below => inside index (by rw [length_wordBytes] at below; omega)
  obtain ⟨high, wroteHigh, highCell, highView, highTable⟩ :=
    ucMemWrite_views (loadVa.toNat - 8 + 4) (wordBytes hi)
      ((grown.separate separate).congr lowCell) fun index below => by
        rw [lowCell, Nat.add_assoc]
        exact inside (4 + index) (by rw [length_wordBytes] at below; omega)
  have cells : high.cell = grownMem.cell := highCell.trans lowCell
  refine ⟨high, ?_, ?_, ?_, ?_, ?_⟩
  · unfold BrewLoader.prepareElf2modPrefix
    rw [bound]
    dsimp only
    rw [if_neg below8, first, mapped]
    dsimp only
    rw [wroteLow]
    dsimp only
    rw [second, wroteHigh]
    dsimp only
    split <;> rfl
  · rw [highView, lowView, grown.byteAt, ← patch_append, length_wordBytes]
  · rw [highTable, lowTable, grown.tableByte]
  · intro address cell found
    rw [cells]
    exact grown.kept address cell found
  · intro index below
    rw [cells]
    exact inside index (by omega)

/-- The table a loader writes to; without one, a table that maps nothing. -/
def BrewLoader.table (loader : BrewLoader) : VtlbLut := loader.lut.getD .empty

/-- The table has the whole payload. -/
def Covers (lut : VtlbLut) (start size : Nat) : Prop :=
  ∀ index, index < size → (lut.find (start + index)).isSome = true

theorem find_empty (address : Nat) : VtlbLut.empty.find address = none := rfl

/-- The mirror shows a payload that the table has as a whole, and changes nothing otherwise. -/
theorem mirror_views (loader : BrewLoader) (separate : Separate mem loader.table) (filled : bytes ≠ [])
    (fits : start + bytes.length ≤ 0x100000000) :
    (BrewLoader.mirror loader.lut mem start bytes).cell = mem.cell ∧
      (BrewLoader.mirror loader.lut mem start bytes).byteAt = mem.byteAt ∧
      (Covers loader.table start bytes.length → ∀ address, address < 0x100000000 →
        tableByte loader.table (BrewLoader.mirror loader.lut mem start bytes) address =
          patch (tableByte loader.table mem) start bytes address) ∧
      (¬Covers loader.table start bytes.length →
        BrewLoader.mirror loader.lut mem start bytes = mem) := by
  have positive : 0 < bytes.length := List.length_pos_iff.mpr filled
  unfold BrewLoader.table at separate ⊢
  cases held : loader.lut with
  | none =>
    refine ⟨rfl, rfl, fun covers => ?_, fun _ => rfl⟩
    have first := covers 0 positive
    rw [Option.getD_none, find_empty] at first
    cases first
  | some lut =>
    rw [held, Option.getD_some] at separate
    rw [Option.getD_some, Covers, ← covered_iff positive fits]
    unfold BrewLoader.mirror
    dsimp only
    cases covered : BrewLoader.covered lut start bytes.length with
    | false =>
      refine ⟨rfl, rfl, fun covers => ?_, fun _ => rfl⟩
      cases covers
    | true =>
      obtain ⟨cell, engine, shows⟩ := lut_write_views separate fits ((covered_iff positive fits).mp covered)
      rw [if_pos rfl]
      exact ⟨cell, engine, fun _ => shows, fun uncovered => absurd rfl uncovered⟩

/-- Where the reserved words begin, if there is room for them. -/
def reservedStart (loadVa : Nat) : Nat := if 8 ≤ loadVa then loadVa - 8 else loadVa

/-- What an injection does to the two views. -/
structure Injected (before after : Memory) (lut : VtlbLut) (loadVa : Nat) (d : List Byte) : Prop where
  payload : after.ucMemRead loadVa d.length = some d
  reserved : 8 ≤ loadVa → after.ucMemRead (loadVa - 8) 8 = some (List.replicate 8 0)
  mirrored : Covers lut loadVa d.length → lut.read after.host loadVa d.length = (true, d)
  unmirrored : ¬Covers lut loadVa d.length → ∀ address, loadVa ≤ address →
    address < loadVa + d.length → tableByte lut after address = tableByte lut before address
  engine : ∀ address, address < reservedStart loadVa ∨ loadVa + d.length ≤ address →
    after.byteAt address = before.byteAt address
  table : ∀ address, address < 0x100000000 →
    address < reservedStart loadVa ∨ loadVa + d.length ≤ address →
      tableByte lut after address = tableByte lut before address
  mapped : ∀ address, (before.cell address).isSome = true → (after.cell address).isSome = true

/-- What an injection asks of its arguments. -/
def BrewLoader.Accepts (loader : BrewLoader) (d : List Byte) (loadVa : Word) : Prop :=
  loader.uc.isSome = true ∧ d ≠ [] ∧ d.length ≤ 0xffffffff ∧ loadVa.toNat + d.length ≤ 0x100000000

/-- What is not accepted changes nothing. -/
theorem injectBytes_refused (loader : BrewLoader) {d : List Byte} {loadVa : Word} (clsid : Word)
    (origin : String) (refused : ¬loader.Accepts d loadVa) :
    loader.injectBytes d loadVa clsid origin = (false, loader) := by
  unfold BrewLoader.injectBytes
  split
  · rfl
  · rename_i mem bound
    split
    · rfl
    · rename_i filled
      rw [if_pos]
      by_contra fits
      push Not at fits
      exact refused ⟨by rw [bound]; rfl, filled, fits.1, fits.2⟩

/-- What is accepted is injected: the pages are mapped, the payload is written and mirrored, and
then comes the prefix. -/
theorem injectBytes_accepted (loader : BrewLoader) {d : List Byte} {loadVa : Word} (clsid : Word)
    (origin : String) (bound : loader.uc = some mem) (filled : d ≠ [])
    (fits : d.length ≤ 0xffffffff ∧ loadVa.toNat + d.length ≤ 0x100000000) :
    ∃ mapped written, Grown mem mapped ∧ mapped.ucMemWrite loadVa.toNat d = (.ok, written) ∧
      (∀ index, index < d.length → (mapped.cell (loadVa.toNat + index)).isSome = true) ∧
      loader.injectBytes d loadVa clsid origin = (true, (BrewLoader.prepareElf2modPrefix
        { loader with
          uc := some (BrewLoader.mirror loader.lut written loadVa.toNat d)
          mod := BrewLoader.injectedModule d loadVa clsid origin } loadVa 0 0).2) := by
  obtain ⟨mapped, ranged, grown, inside⟩ := mapRange_grown mem loadVa.toNat _ fits.2
  have backed : ∀ index, index < d.length → (mapped.cell (loadVa.toNat + index)).isSome = true :=
    fun index below => inside index (Nat.add_lt_add_left below _)
  have wrote : mapped.ucMemWrite loadVa.toNat d = (.ok, (mapped.ucMemWrite loadVa.toNat d).2) := by
    rw [Memory.ucMemWrite, if_pos (Memory.backed_iff.mpr backed)]
  refine ⟨mapped, (mapped.ucMemWrite loadVa.toNat d).2, grown, wrote, backed, ?_⟩
  unfold BrewLoader.injectBytes
  rw [bound]
  dsimp only
  rw [if_neg filled, if_neg (by omega), ranged]
  dsimp only
  rw [wrote]

/-- The prefix leaves everything from the module on and everything in the table. -/
theorem prefix_views (loader : BrewLoader) (loadVa : Word) (bound : loader.uc = some mem)
    (separate : Separate mem lut) :
    ∃ after, (loader.prepareElf2modPrefix loadVa 0 0).2.uc = some after ∧
      (8 ≤ loadVa.toNat → after.ucMemRead (loadVa.toNat - 8) 8 = some (List.replicate 8 0)) ∧
      (∀ address, address < reservedStart loadVa.toNat ∨ loadVa.toNat ≤ address →
        after.byteAt address = mem.byteAt address) ∧
      tableByte lut after = tableByte lut mem ∧
      ∀ address cell, mem.cell address = some cell → after.cell address = some cell := by
  by_cases room : 8 ≤ loadVa.toNat
  · obtain ⟨after, held, engine, table, kept, inside⟩ :=
      prepareElf2modPrefix_views loader loadVa 0 0 bound separate room
    refine ⟨after, held, fun _ => ?_, fun address outside => ?_, table, kept⟩
    · rw [Memory.ucMemRead_mapped inside, engine]
      exact congrArg some (segment_patch _ _ (wordBytes 0 ++ wordBytes 0))
    · rw [engine]
      apply patch_apart
      rw [reservedStart, if_pos room] at outside
      rw [List.length_append, length_wordBytes]
      omega
  · have low : loadVa < 8 := BitVec.lt_def.mpr (Nat.lt_of_not_le room)
    refine ⟨mem, ?_, fun above => absurd above room, fun _ _ => rfl, rfl, fun _ _ found => found⟩
    unfold BrewLoader.prepareElf2modPrefix
    rw [bound]
    dsimp only
    rw [if_pos low]
    exact bound

/-- A failed injection leaves the module alone. A successful one shows the payload and the two
words below it in the engine, and the payload in the table when the table has all of it; nothing
else changes in either view, and a table that has only part of the payload not at all. -/
theorem injectBytes_views (loader : BrewLoader) (d : List Byte) (loadVa clsid : Word)
    (origin : String) :
    ((loader.injectBytes d loadVa clsid origin).1 = false →
      (loader.injectBytes d loadVa clsid origin).2.mod = loader.mod) ∧
      ∀ mem, loader.uc = some mem → Separate mem loader.table →
        (loader.injectBytes d loadVa clsid origin).1 = true →
        ∃ after, (loader.injectBytes d loadVa clsid origin).2.uc = some after ∧
          Injected mem after loader.table loadVa.toNat d := by
  by_cases accepts : loader.Accepts d loadVa
  · obtain ⟨held, filled, small, fits⟩ := accepts
    obtain ⟨mem, bound⟩ := Option.isSome_iff_exists.mp held
    obtain ⟨mapped, written, grown, wrote, backed, same⟩ :=
      injectBytes_accepted loader clsid origin bound filled ⟨small, fits⟩
    rw [same]
    refine ⟨fun failed => absurd failed Bool.noConfusion, fun other also separate _ => ?_⟩
    obtain rfl : mem = other := Option.some.inj (bound.symm.trans also)
    have apart := grown.separate separate
    obtain ⟨stored, storedEq, storedCell, storedEngine, storedTable⟩ := ucMemWrite_views _ _ apart backed
    obtain rfl : written = stored := (Prod.mk.inj (wrote.symm.trans storedEq)).2
    have apartStored := apart.congr storedCell
    obtain ⟨mirrorCell, mirrorEngine, covered, uncovered⟩ :=
      mirror_views loader apartStored filled fits
    obtain ⟨after, afterHeld, zeros, engine, table, kept⟩ :=
      prefix_views { loader with
        uc := some (BrewLoader.mirror loader.lut written loadVa.toNat d)
        mod := BrewLoader.injectedModule d loadVa clsid origin } loadVa rfl
        (apartStored.congr mirrorCell)
    have shows : ∀ address, address < reservedStart loadVa.toNat ∨ loadVa.toNat ≤ address →
        after.byteAt address = patch mem.byteAt loadVa.toNat d address := by
      intro address outside
      rw [engine address outside, mirrorEngine, storedEngine, grown.byteAt]
    have still : ∀ address cell, mapped.cell address = some cell → after.cell address = some cell :=
      fun address cell found => kept address cell (by rw [mirrorCell, storedCell, found])
    refine ⟨after, afterHeld, ⟨?payload, zeros, ?mirrored, ?unmirrored, ?engine, ?table, ?mapped⟩⟩
    case payload =>
      rw [Memory.ucMemRead_mapped]
      · rw [segment_congr fun index below => shows _ (.inr (Nat.le_add_right _ _)), segment_patch]
      · intro index below
        obtain ⟨cell, found⟩ := Option.isSome_iff_exists.mp (backed index below)
        rw [still _ _ found]
        rfl
    case mirrored =>
      intro covers
      rw [lut_read_shown covers, table, segment_congr fun index below =>
        covered covers _ (by omega), segment_patch]
    case unmirrored =>
      intro partly address above below
      rw [table, uncovered partly, storedTable, grown.tableByte]
    case engine =>
      intro address outside
      have apartFrom : address < reservedStart loadVa.toNat ∨ loadVa.toNat ≤ address := by omega
      rw [shows address apartFrom, patch_apart]
      unfold reservedStart at outside
      split at outside <;> omega
    case table =>
      intro address low outside
      have beside : address < loadVa.toNat ∨ loadVa.toNat + d.length ≤ address := by
        unfold reservedStart at outside
        split at outside <;> omega
      rw [table, ← grown.tableByte, ← storedTable]
      by_cases covers : Covers loader.table loadVa.toNat d.length
      · rw [covered covers address low, patch_apart beside]
      · rw [uncovered covers]
    case mapped =>
      intro address found
      obtain ⟨cell, held⟩ := Option.isSome_iff_exists.mp found
      rw [still address cell (grown.kept address cell held)]
      rfl
  · rw [injectBytes_refused loader clsid origin accepts]
    refine ⟨fun _ => rfl, fun mem _ _ done => ?_⟩
    cases done

/-- A table with one page, at the host address 4096. -/
def onePage : VtlbLut := ⟨fun page => if page = 2 then 0x1000 else nullptr⟩

theorem cell_blank (address : Nat) : Memory.blank.cell address = none := by
  unfold Memory.cell
  split <;> rfl

theorem separate_onePage : Separate Memory.blank onePage where
  engine address other cell found := by
    rw [cell_blank] at found
    cases found
  table address other cell low also here there := by
    have page : ∀ {place : Nat}, place < 0x100000000 → onePage.find place = some cell →
        place / 0x1000 = 2 ∧ cell = .host (0x1000 + place % 0x1000) := by
      intro place small found
      have mapped : (onePage.find place).isSome = true := by rw [found]; rfl
      rw [isSome_find, Nat.mod_eq_of_lt small] at mapped
      have second : place / 0x1000 = 2 := by
        by_contra different
        exact mapped (if_neg different)
      refine ⟨second, ?_⟩
      have value : onePage.find place = some (.host (0x1000 + place % 0x1000)) := by
        unfold VtlbLut.find VtlbLut.translate
        rw [Nat.mod_eq_of_lt small, second]
        exact if_neg (Nat.ne_of_gt (Nat.add_pos_left (by decide) _))
      exact Option.some.inj (found.symm.trans value)
    obtain ⟨first, same⟩ := page low here
    obtain ⟨second, equal⟩ := page also there
    have offsets : address % 0x1000 = other % 0x1000 :=
      Nat.add_left_cancel (Cell.host.inj (same.symm.trans equal))
    omega
  apart address other cell found := by
    rw [cell_blank] at found
    cases found

/-- A loader with nothing mapped in the engine and one page in the table. -/
def onePageLoader : BrewLoader := ⟨some .blank, some onePage, {}⟩

theorem injectBytes_views_onePage :
    ∃ after, (onePageLoader.injectBytes [1, 2, 3, 4] 0x2000 0 "").2.uc = some after ∧
      Injected .blank after onePage 0x2000 [1, 2, 3, 4] :=
  (injectBytes_views onePageLoader [1, 2, 3, 4] 0x2000 0 "").2 .blank rfl separate_onePage
    (by decide +kernel)

/-- What the table shows of a range is what the engine shows. -/
def SameViews (mem : Memory) (lut : VtlbLut) (first last : Nat) : Prop :=
  ∀ address, first ≤ address → address < last → (lut.find address).isSome = true →
    tableByte lut mem address = mem.byteAt address

/-- A table that has the second page of a payload and not the first does not show what is on
the second. -/
theorem not_sameViews_secondPage :
    ¬∀ (loader : BrewLoader) (d : List Byte) (loadVa clsid : Word) (origin : String) (mem after : Memory),
      loader.uc = some mem → Separate mem loader.table →
      (loader.injectBytes d loadVa clsid origin).1 = true →
      (loader.injectBytes d loadVa clsid origin).2.uc = some after →
      SameViews after loader.table (reservedStart loadVa.toNat) (loadVa.toNat + d.length) := by
  intro all
  obtain ⟨after, held⟩ : ∃ after,
      (onePageLoader.injectBytes [1, 2, 3, 4, 5, 6, 7, 8] 0x1ffc 0 "").2.uc = some after := ⟨_, rfl⟩
  have same := all onePageLoader [1, 2, 3, 4, 5, 6, 7, 8] 0x1ffc 0 "" .blank after rfl
    separate_onePage (by decide +kernel) held 0x2000 (by decide) (by decide) (by decide)
  have bytes : (onePageLoader.injectBytes [1, 2, 3, 4, 5, 6, 7, 8] 0x1ffc 0 "").2.uc.map
      (fun mem => (tableByte onePage mem 0x2000, mem.byteAt 0x2000)) = some (0, 5) := by
    decide +kernel
  rw [held, Option.map_some, Option.some.injEq, Prod.mk.injEq] at bytes
  rw [bytes.2] at same
  exact absurd (bytes.1.symm.trans same) (by decide)

end ZeeboLle.Brew

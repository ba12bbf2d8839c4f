import ZeeboLle.L4.MapItem
import ZeeboLle.Paging.KeyedList

/-! `SpaceManager`: the regions each L4 space has recorded, the base links between
spaces, and the switch that rebinds the engine from one space to another. The
cache of bound hosts and the shadowed static ranges are keyed by base address.
Tracing to the error stream is left out. -/
namespace ZeeboLle.L4

open Paging Unicorn

/-- One recorded region: whole pages, so it can be handed to the engine as it is. -/
structure Region extends Extent where
  prot : Prot
  host : HostPtr
deriving DecidableEq, Repr

/-- The region the engine sees starting at page `span.first`. -/
def Region.span (region : Region) : Span := region.toExtent.span

/-- Host address behind one page of a region. -/
def Region.hostAt (region : Region) (page : Nat) : HostPtr :=
  region.host + (page - region.va / 0x1000) * 0x1000

/-- The lookup test on a page address, in 64-bit arithmetic. -/
def Region.covers (region : Region) (baseVa : Nat) : Bool :=
  baseVa ≥ region.va && baseVa < (region.va + region.size) % 2 ^ 64

/-- Same range and same buffer: the switch leaves such a region bound. -/
def Region.coincides (left right : Region) : Bool :=
  left.va == right.va && left.size == right.size && left.host == right.host

/-- The recorded regions of one space, one for each base address. -/
structure SpaceRegions where
  list : List Region
  distinct : (list.map fun region => region.va).Nodup

def SpaceRegions.empty : SpaceRegions := ⟨[], List.nodup_nil⟩

structure SpaceManager where
  spaces : Word → Option SpaceRegions
  baseLinks : Word → Option Word
  mappedHost : Nat → Option HostPtr
  shadowed : Nat → Option Region
  hasPendingActivate : Bool
  pendingSid : Word
  activeSid : Word
  activatedOnce : Bool

namespace SpaceManager

def empty : SpaceManager where
  spaces _ := none
  baseLinks _ := none
  mappedHost _ := none
  shadowed _ := none
  hasPendingActivate := false
  pendingSid := 0
  activeSid := 0
  activatedOnce := false

/-- A region of the same base in the same space is replaced. -/
def record (mgr : SpaceManager) (sid : Word) (va size : Nat) (prot : Prot) (host : HostPtr) :
    SpaceManager :=
  match clampRange va size with
  | none => mgr
  | some extent =>
    let held := (mgr.spaces sid).getD SpaceRegions.empty
    { mgr with
      spaces := Function.update mgr.spaces sid (some {
        list := upsert (fun region => region.va) { toExtent := extent, prot, host } held.list
        distinct := nodup_upsert held.distinct }) }

def hasSpace (mgr : SpaceManager) (sid : Word) : Bool := (mgr.spaces sid).isSome

def regionsOf (mgr : SpaceManager) (sid : Word) : List Region :=
  ((mgr.spaces sid).map SpaceRegions.list).getD []

def linkBase (mgr : SpaceManager) (ext base : Word) : SpaceManager :=
  if ext = 0 ∨ ext = base then mgr
  else if base = 0 then { mgr with baseLinks := Function.update mgr.baseLinks ext none }
  else { mgr with baseLinks := Function.update mgr.baseLinks ext (some base) }

def baseOf (mgr : SpaceManager) (sid : Word) : Word := (mgr.baseLinks sid).getD 0

/-- The walk shared by `resolve_host` and `maps`: the first region covering the page
in the first `hops` spaces of the base chain. -/
def lookupLoop (mgr : SpaceManager) (baseVa : Nat) : Nat → Word → Option Region
  | 0, _ => none
  | hops + 1, cur =>
    if cur = 0 then none
    else
      match (mgr.regionsOf cur).find? fun region => region.covers baseVa with
      | some region => some region
      | none =>
        let nxt := mgr.baseOf cur
        if nxt = cur then none else mgr.lookupLoop baseVa hops nxt

def resolveHost (mgr : SpaceManager) (sid : Word) (va : Nat) : HostPtr :=
  match mgr.lookupLoop (roundDown va) 8 sid with
  | some region => region.host
  | none => nullptr

def maps (mgr : SpaceManager) (sid : Word) (va : Nat) : Bool :=
  (mgr.lookupLoop (roundDown va) 8 sid).isSome

/-- The walk of `effective_regions` along the base chain; a base region is added
unless its base address is already taken. -/
def effectiveLoop (mgr : SpaceManager) : Nat → Word → List Region → List Region
  | 0, _, eff => eff
  | hops + 1, cur, eff =>
    if cur = 0 then eff
    else
      let eff := mergeNew (fun region => region.va) eff (mgr.regionsOf cur)
      let nxt := mgr.baseOf cur
      if nxt = cur then eff else mgr.effectiveLoop hops nxt eff

def effectiveRegions (mgr : SpaceManager) (sid : Word) : List Region :=
  mgr.effectiveLoop 8 (mgr.baseOf sid) (mgr.regionsOf sid)

end SpaceManager

/-- What the switch works on: the engine, the cache of bound hosts and the
shadowed static ranges. -/
structure Bindings where
  mem : Memory
  mappedHost : Nat → Option HostPtr
  shadowed : Nat → Option Region

/-- The engine refuses an empty protection, so it is bound readable. -/
def bindProt (prot : Prot) : Prot := if prot = Prot.none then Prot.readOnly else prot

namespace Bindings

/-- Remember the extent and protection of what is about to be rebound; the first
record of a base address is kept. -/
def recordShadow (bindings : Bindings) (region : Region) (prot : Prot) : Bindings :=
  match bindings.shadowed region.va with
  | some _ => bindings
  | none =>
    let foundProt := (bindings.mem.pages.prot (region.va / 0x1000)).getD prot
    { bindings with
      shadowed := Function.update bindings.shadowed region.va
        (some { region with prot := foundProt, host := nullptr }) }

/-- Best effort: a collision is ignored and the record is dropped all the same. -/
def restoreShadow (bindings : Bindings) (va : Nat) : Bindings :=
  match bindings.shadowed va with
  | none => bindings
  | some shadow =>
    { bindings with
      mem := (bindings.mem.ucMemMap shadow.va shadow.size (bindProt shadow.prot)).2
      shadowed := Function.update bindings.shadowed va none }

/-- First pass, one region of the space being left. -/
def leaveRegion (target : List Region) (bindings : Bindings) (prior : Region) : Bindings :=
  if target.any fun region => region.coincides prior then bindings
  else
    restoreShadow
      { bindings with
        mem := (bindings.mem.ucMemUnmap prior.va prior.size).2
        mappedHost := Function.update bindings.mappedHost prior.va none }
      prior.va

/-- Force the rebinding of a range that something else already occupies. -/
def rebindRegion (bindings : Bindings) (region : Region) (prot : Prot) : UcErr × Bindings :=
  let bindings :=
    if (bindings.mappedHost region.va).isNone then bindings.recordShadow region prot else bindings
  let (unmapErr, mem) := bindings.mem.ucMemUnmap region.va region.size
  let (err, mem) :=
    if unmapErr = .ok then mem.ucMemMapPtr region.va region.size prot region.host
    else (.map, mem)
  if err = .ok then (.ok, { bindings with mem })
  else
    let (err, mem) := mem.ucMemProtect region.va region.size prot
    (err, { bindings with mem })

/-- Second pass, one region of the space being entered. -/
def enterRegion (bindings : Bindings) (region : Region) : UcErr × Bindings :=
  let prot := bindProt region.prot
  if bindings.mappedHost region.va = some region.host then
    let (err, mem) := bindings.mem.ucMemProtect region.va region.size prot
    (err, { bindings with mem })
  else
    let (err, bindings) :=
      match bindings.mem.ucMemMapPtr region.va region.size prot region.host with
      | (.map, mem) =>
        if region.host ≠ nullptr then rebindRegion { bindings with mem } region prot
        else
          let (err, mem) := mem.ucMemProtect region.va region.size prot
          (err, { bindings with mem })
      | (err, mem) => (err, { bindings with mem })
    if err = .ok then
      (.ok, { bindings with
        mappedHost := Function.update bindings.mappedHost region.va (some region.host) })
    else (err, bindings)

/-- The second pass keeps the first error and goes on. -/
def enterStep (acc : UcErr × Bindings) (region : Region) : UcErr × Bindings :=
  let (err, bindings) := acc.2.enterRegion region
  (if acc.1 = .ok then err else acc.1, bindings)

end Bindings

namespace SpaceManager

/-- Whether `activate` gets past its guards. -/
def switches (mgr : SpaceManager) (sid : Word) : Bool :=
  mgr.hasSpace sid && !(sid == mgr.activeSid && mgr.activatedOnce)

/-- The engine and the two caches after both passes, with the first error. -/
def rebind (mgr : SpaceManager) (mem : Memory) (sid : Word) : UcErr × Bindings :=
  let target := mgr.effectiveRegions sid
  let start : Bindings := ⟨mem, mgr.mappedHost, mgr.shadowed⟩
  let left :=
    if mgr.activatedOnce then
      (mgr.effectiveRegions mgr.activeSid).foldl (Bindings.leaveRegion target) start
    else start
  target.foldl Bindings.enterStep (.ok, left)

def activate (mgr : SpaceManager) (mem : Memory) (sid : Word) : UcErr × SpaceManager × Memory :=
  if mgr.hasSpace sid = false then (.arg, mgr, mem)
  else if sid = mgr.activeSid ∧ mgr.activatedOnce = true then (.ok, mgr, mem)
  else
    let (firstErr, bindings) := mgr.rebind mem sid
    (firstErr,
      { mgr with
        mappedHost := bindings.mappedHost
        shadowed := bindings.shadowed
        activeSid := sid
        activatedOnce := true },
      bindings.mem)

def queueActivate (mgr : SpaceManager) (sid : Word) : SpaceManager :=
  { mgr with pendingSid := sid, hasPendingActivate := true }

def drainActivate (mgr : SpaceManager) (mem : Memory) : UcErr × SpaceManager × Memory :=
  if mgr.hasPendingActivate = false then (.ok, mgr, mem)
  else
    let sid := mgr.pendingSid
    let mgr := { mgr with hasPendingActivate := false, pendingSid := 0 }
    if mgr.hasSpace sid = false then (.ok, mgr, mem) else mgr.activate mem sid

end SpaceManager

namespace Bindings

/-- The shadow table after a range is taken over. -/
def shadowedFor (bindings : Bindings) (region : Region) : Nat → Option Region :=
  if (bindings.mappedHost region.va).isNone then
    (bindings.recordShadow region (bindProt region.prot)).shadowed
  else bindings.shadowed

/-- The outcomes of entering one region. -/
inductive EnterEffect (before : Bindings) (region : Region) : UcErr → Bindings → Prop where
  /-- bound to the same host already: only the protection is set -/
  | reaffirmed (same : before.mappedHost region.va = some region.host)
      (full : before.mem.pages.full region.span = true) :
      EnterEffect before region .ok
        { before with mem := { before.mem with
            pages := before.mem.pages.protect region.span (bindProt region.prot) } }
  | stale (same : before.mappedHost region.va = some region.host)
      (hole : before.mem.pages.full region.span = false) : EnterEffect before region .nomem before
  | unbacked (different : before.mappedHost region.va ≠ some region.host)
      (null : region.host = nullptr) : EnterEffect before region .arg before
  | fresh (different : before.mappedHost region.va ≠ some region.host)
      (backed : region.host ≠ nullptr) (free : before.mem.pages.free region.span = true) :
      EnterEffect before region .ok
        { before with
          mem := { before.mem with
            pages := before.mem.pages.install region.span
              (Memory.hostPages region.va (bindProt region.prot) region.host) }
          mappedHost := Function.update before.mappedHost region.va (some region.host) }
  /-- something else occupied the whole range and is replaced -/
  | rebound (different : before.mappedHost region.va ≠ some region.host)
      (backed : region.host ≠ nullptr) (full : before.mem.pages.full region.span = true) :
      EnterEffect before region .ok
        { mem := { before.mem with
            pages := (before.mem.pages.remove region.span).install region.span
              (Memory.hostPages region.va (bindProt region.prot) region.host) }
          mappedHost := Function.update before.mappedHost region.va (some region.host)
          shadowed := before.shadowedFor region }
  /-- the range is partly occupied: neither mapping nor unmapping works -/
  | blocked (different : before.mappedHost region.va ≠ some region.host)
      (backed : region.host ≠ nullptr) (taken : before.mem.pages.free region.span = false)
      (hole : before.mem.pages.full region.span = false) :
      EnterEffect before region .nomem { before with shadowed := before.shadowedFor region }

private theorem recordShadow_mem (bindings : Bindings) (region : Region) (prot : Prot) :
    (bindings.recordShadow region prot).mem = bindings.mem ∧
      (bindings.recordShadow region prot).mappedHost = bindings.mappedHost := by
  unfold recordShadow
  split
  · exact ⟨rfl, rfl⟩
  · exact ⟨rfl, rfl⟩

/-- Taking over a range first records its shadow and changes nothing else. -/
private theorem shadowedFor_eq (bindings : Bindings) (region : Region) :
    (if (bindings.mappedHost region.va).isNone then
      bindings.recordShadow region (bindProt region.prot) else bindings) =
      { bindings with shadowed := bindings.shadowedFor region } := by
  unfold shadowedFor
  split
  · obtain ⟨mem, mappedHost⟩ := bindings.recordShadow_mem region (bindProt region.prot)
    rw [Bindings.mk.injEq]
    exact ⟨mem, mappedHost, rfl⟩
  · rfl

private theorem rebindRegion_full {bindings : Bindings} {region : Region}
    (backed : region.host ≠ nullptr) (full : bindings.mem.pages.full region.span = true) :
    bindings.rebindRegion region (bindProt region.prot) =
      (.ok, { bindings with
        mem := { bindings.mem with
          pages := (bindings.mem.pages.remove region.span).install region.span
            (Memory.hostPages region.va (bindProt region.prot) region.host) }
        shadowed := bindings.shadowedFor region }) := by
  have removed : bindings.mem.ucMemUnmap region.va region.size =
      (.ok, { bindings.mem with pages := bindings.mem.pages.remove region.span }) :=
    Memory.ucMemUnmap_full full
  have free : (bindings.mem.pages.remove region.span).free
      (pageSpan region.va region.size) = true := PageTable.free_remove _ _
  simp only [rebindRegion, shadowedFor_eq, removed, if_true]
  rw [Memory.ucMemMapPtr_free backed free]
  rfl

private theorem rebindRegion_hole {bindings : Bindings} {region : Region}
    (hole : bindings.mem.pages.full region.span = false) :
    bindings.rebindRegion region (bindProt region.prot) =
      (.nomem, { bindings with shadowed := bindings.shadowedFor region }) := by
  have refused := Memory.ucMemUnmap_hole hole
  have kept : bindings.mem.ucMemProtect region.va region.size (bindProt region.prot) =
      (.nomem, bindings.mem) := Memory.ucMemProtect_hole hole
  simp only [rebindRegion, shadowedFor_eq, refused, reduceCtorEq, if_false, kept]

/-- The whole case analysis of the second pass, once. -/
theorem enterRegion_effect (bindings : Bindings) (region : Region) :
    EnterEffect bindings region (bindings.enterRegion region).1 (bindings.enterRegion region).2 := by
  have span : pageSpan region.va region.size = region.span := rfl
  by_cases same : bindings.mappedHost region.va = some region.host
  · cases full : bindings.mem.pages.full region.span with
    | true =>
      simp only [enterRegion, if_pos same, Memory.ucMemProtect_full (span ▸ full)]
      exact .reaffirmed same full
    | false =>
      simp only [enterRegion, if_pos same, Memory.ucMemProtect_hole (span ▸ full)]
      exact .stale same full
  · by_cases null : region.host = nullptr
    · simp only [enterRegion, if_neg same, Memory.ucMemMapPtr, if_pos null]
      exact .unbacked same null
    · cases free : bindings.mem.pages.free region.span with
      | true =>
        simp only [enterRegion, if_neg same, Memory.ucMemMapPtr_free null (span ▸ free)]
        exact .fresh same null free
      | false =>
        cases full : bindings.mem.pages.full region.span with
        | true =>
          simp only [enterRegion, if_neg same, Memory.ucMemMapPtr_taken null (span ▸ free), if_pos null,
            rebindRegion_full null full]
          exact .rebound same null full
        | false =>
          simp only [enterRegion, if_neg same, Memory.ucMemMapPtr_taken null (span ▸ free), if_pos null,
            rebindRegion_hole full]
          exact .blocked same null free full

end Bindings

/-- An engine and its manager, with a log of the switches made so far (latest
first) and the regions each of them bound. -/
structure World where
  mgr : SpaceManager
  mem : Memory
  switchLog : List (Word × List Region)

inductive SpaceOp where
  | record (sid : Word) (va size : Nat) (prot : Prot) (host : HostPtr)
  | linkBase (ext base : Word)
  | queueActivate (sid : Word)
  | drainActivate
  | activate (sid : Word)

/-- The space an operation switches to, when it does switch. -/
def SpaceOp.target (mgr : SpaceManager) : SpaceOp → Option Word
  | .activate sid => if mgr.switches sid then some sid else none
  | .drainActivate =>
    if mgr.hasPendingActivate && mgr.switches mgr.pendingSid then some mgr.pendingSid else none
  | _ => none

namespace World

def start (mem : Memory) : World := ⟨SpaceManager.empty, mem, []⟩

/-- The regions the latest switch bound. -/
def bound (world : World) : List Region :=
  match world.switchLog with
  | [] => []
  | (_, regions) :: _ => regions

def bindings (world : World) : Bindings := ⟨world.mem, world.mgr.mappedHost, world.mgr.shadowed⟩

/-- The manager and engine after one operation, with its error code. -/
def effect (world : World) : SpaceOp → UcErr × SpaceManager × Memory
  | .record sid va size prot host => (.ok, world.mgr.record sid va size prot host, world.mem)
  | .linkBase ext base => (.ok, world.mgr.linkBase ext base, world.mem)
  | .queueActivate sid => (.ok, world.mgr.queueActivate sid, world.mem)
  | .drainActivate => world.mgr.drainActivate world.mem
  | .activate sid => world.mgr.activate world.mem sid

def step (world : World) (op : SpaceOp) : World where
  mgr := (world.effect op).2.1
  mem := (world.effect op).2.2
  switchLog :=
    match op.target world.mgr with
    | none => world.switchLog
    | some sid => (sid, world.mgr.effectiveRegions sid) :: world.switchLog

def run (world : World) (ops : List SpaceOp) : World := ops.foldl step world

/-- Every operation of a run meets a condition on the state it starts from. -/
def Meets (condition : World → SpaceOp → Prop) : World → List SpaceOp → Prop
  | _, [] => True
  | world, op :: rest => condition world op ∧ Meets condition (world.step op) rest

/-- A condition on switches: it speaks about the state before and the space entered. -/
def OnSwitch (condition : World → Word → Prop) (world : World) (op : SpaceOp) : Prop :=
  ∀ sid, op.target world.mgr = some sid → condition world sid

instance {condition : World → Word → Prop} [∀ world sid, Decidable (condition world sid)]
    (world : World) (op : SpaceOp) : Decidable (OnSwitch condition world op) :=
  match target : op.target world.mgr with
  | none => isTrue fun _ same => by cases target.symm.trans same
  | some sid =>
    decidable_of_iff (condition world sid)
      ⟨fun held other same => Option.some.inj (target.symm.trans same) ▸ held,
        fun held => held sid target⟩

instance decidableMeets {condition : World → SpaceOp → Prop}
    [∀ world op, Decidable (condition world op)] :
    ∀ world ops, Decidable (Meets condition world ops)
  | _, [] => isTrue trivial
  | world, op :: rest =>
    have : Decidable (Meets condition (world.step op) rest) := decidableMeets _ rest
    inferInstanceAs (Decidable (condition world op ∧ Meets condition (world.step op) rest))

theorem meets_append {condition : World → SpaceOp → Prop} {world : World}
    {left right : List SpaceOp} :
    Meets condition world (left ++ right) ↔
      Meets condition world left ∧ Meets condition (world.run left) right := by
  induction left generalizing world with
  | nil => exact ⟨fun meets => ⟨trivial, meets⟩, fun meets => meets.2⟩
  | cons op rest ih =>
    rw [List.cons_append, Meets, Meets, ih, and_assoc]
    rfl

/-- A condition on the operations alone can be added step by step. -/
theorem Meets.and_forall {condition : World → SpaceOp → Prop} {allowed : SpaceOp → Prop}
    {world : World} {ops : List SpaceOp} (meets : Meets condition world ops)
    (all : ∀ op ∈ ops, allowed op) :
    Meets (fun world op => allowed op ∧ condition world op) world ops := by
  induction ops generalizing world with
  | nil => trivial
  | cons op rest ih =>
    exact ⟨⟨all op List.mem_cons_self, meets.1⟩,
      ih meets.2 fun later member => all later (List.mem_cons_of_mem op member)⟩

/-- An invariant that conditioned steps keep holds along every conditioned run. -/
theorem run_invariant {condition : World → SpaceOp → Prop} {motive : World → Prop}
    (keeps : ∀ world op, motive world → condition world op → motive (world.step op))
    {world : World} {ops : List SpaceOp} (start : motive world)
    (meets : Meets condition world ops) : motive (world.run ops) := by
  induction ops generalizing world with
  | nil => exact start
  | cons op rest ih => exact ih (keeps world op start meets.1) meets.2

end World

namespace SpaceManager

variable {left right : SpaceManager}

theorem regionsOf_congr (spaces : left.spaces = right.spaces) :
    left.regionsOf = right.regionsOf := by
  funext sid
  simp only [regionsOf, spaces]

theorem baseOf_congr (links : left.baseLinks = right.baseLinks) : left.baseOf = right.baseOf := by
  funext sid
  simp only [baseOf, links]

private theorem effectiveLoop_congr (spaces : left.spaces = right.spaces)
    (links : left.baseLinks = right.baseLinks) (hops : Nat) (cur : Word) (eff : List Region) :
    left.effectiveLoop hops cur eff = right.effectiveLoop hops cur eff := by
  induction hops generalizing cur eff with
  | zero => rfl
  | succ hops ih =>
    rw [effectiveLoop, effectiveLoop, regionsOf_congr spaces, baseOf_congr links]
    simp only [ih]

theorem effectiveRegions_congr (spaces : left.spaces = right.spaces)
    (links : left.baseLinks = right.baseLinks) (sid : Word) :
    left.effectiveRegions sid = right.effectiveRegions sid := by
  rw [effectiveRegions, effectiveRegions, effectiveLoop_congr spaces links, regionsOf_congr spaces,
    baseOf_congr links]

theorem regionsOf_distinct (mgr : SpaceManager) (sid : Word) :
    ((mgr.regionsOf sid).map fun region => region.va).Nodup := by
  unfold regionsOf
  cases mgr.spaces sid with
  | none => exact List.nodup_nil
  | some held => exact held.distinct

private theorem effectiveLoop_distinct (mgr : SpaceManager) (hops : Nat) (cur : Word)
    {eff : List Region} (distinct : (eff.map fun region => region.va).Nodup) :
    ((mgr.effectiveLoop hops cur eff).map fun region => region.va).Nodup := by
  induction hops generalizing cur eff with
  | zero => exact distinct
  | succ hops ih =>
    unfold effectiveLoop
    split
    · exact distinct
    · dsimp only
      split
      · exact nodup_mergeNew distinct _
      · exact ih _ (nodup_mergeNew distinct _)

/-- No two effective regions share a base address. -/
theorem effectiveRegions_distinct (mgr : SpaceManager) (sid : Word) :
    ((mgr.effectiveRegions sid).map fun region => region.va).Nodup :=
  mgr.effectiveLoop_distinct _ _ (mgr.regionsOf_distinct sid)

theorem effectiveRegions_eq_of_va {mgr : SpaceManager} {sid : Word} {left right : Region}
    (inLeft : left ∈ mgr.effectiveRegions sid) (inRight : right ∈ mgr.effectiveRegions sid)
    (same : left.va = right.va) : left = right :=
  List.inj_on_of_nodup_map (mgr.effectiveRegions_distinct sid) inLeft inRight same

private theorem mem_effectiveLoop {mgr : SpaceManager} {hops : Nat} {cur : Word}
    {eff : List Region} {region : Region} (member : region ∈ mgr.effectiveLoop hops cur eff) :
    region ∈ eff ∨ ∃ sid, region ∈ mgr.regionsOf sid := by
  induction hops generalizing cur eff with
  | zero => exact .inl member
  | succ hops ih =>
    unfold effectiveLoop at member
    split at member
    · exact .inl member
    · dsimp only at member
      split at member
      · rcases mem_mergeNew member with old | new
        · exact .inl old
        · exact .inr ⟨cur, new⟩
      · rcases ih member with merged | recorded
        · rcases mem_mergeNew merged with old | new
          · exact .inl old
          · exact .inr ⟨cur, new⟩
        · exact .inr recorded

/-- Every effective region is recorded in some space. -/
theorem exists_mem_regionsOf {mgr : SpaceManager} {sid : Word} {region : Region}
    (member : region ∈ mgr.effectiveRegions sid) : ∃ owner, region ∈ mgr.regionsOf owner := by
  rcases mem_effectiveLoop member with own | recorded
  · exact ⟨sid, own⟩
  · exact recorded

/-- The tables and flags an edit of the recorded regions leaves alone. -/
structure SameBinding (left right : SpaceManager) : Prop where
  mappedHost : left.mappedHost = right.mappedHost
  shadowed : left.shadowed = right.shadowed
  activeSid : left.activeSid = right.activeSid
  activatedOnce : left.activatedOnce = right.activatedOnce

theorem SameBinding.refl (mgr : SpaceManager) : SameBinding mgr mgr := ⟨rfl, rfl, rfl, rfl⟩

theorem SameBinding.trans {first second third : SpaceManager} (later : SameBinding third second)
    (earlier : SameBinding second first) : SameBinding third first :=
  ⟨later.mappedHost.trans earlier.mappedHost, later.shadowed.trans earlier.shadowed,
    later.activeSid.trans earlier.activeSid, later.activatedOnce.trans earlier.activatedOnce⟩

theorem record_sameBinding (mgr : SpaceManager) (sid : Word) (va size : Nat) (prot : Prot)
    (host : HostPtr) : SameBinding (mgr.record sid va size prot host) mgr := by
  unfold record
  split
  · exact ⟨rfl, rfl, rfl, rfl⟩
  · exact ⟨rfl, rfl, rfl, rfl⟩

theorem linkBase_sameBinding (mgr : SpaceManager) (ext base : Word) :
    SameBinding (mgr.linkBase ext base) mgr := by
  unfold linkBase
  split
  · exact ⟨rfl, rfl, rfl, rfl⟩
  · split
    · exact ⟨rfl, rfl, rfl, rfl⟩
    · exact ⟨rfl, rfl, rfl, rfl⟩

theorem activate_idle {mgr : SpaceManager} {sid : Word} (mem : Memory)
    (idle : mgr.switches sid = false) : (mgr.activate mem sid).2 = (mgr, mem) := by
  unfold activate
  split
  · rfl
  · rename_i present
    have current : sid = mgr.activeSid ∧ mgr.activatedOnce = true := by
      simpa [switches, present] using idle
    rw [if_pos current]

theorem activate_switch {mgr : SpaceManager} {sid : Word} (mem : Memory)
    (switch : mgr.switches sid = true) :
    mgr.activate mem sid = ((mgr.rebind mem sid).1,
      { mgr with
        mappedHost := (mgr.rebind mem sid).2.mappedHost
        shadowed := (mgr.rebind mem sid).2.shadowed
        activeSid := sid
        activatedOnce := true },
      (mgr.rebind mem sid).2.mem) := by
  simp only [switches, Bool.and_eq_true, Bool.not_eq_true', Bool.and_eq_false_iff,
    beq_eq_false_iff_ne] at switch
  have moved : ¬ (sid = mgr.activeSid ∧ mgr.activatedOnce = true) := by
    rintro ⟨same, once⟩
    rcases switch.2 with different | never
    · exact different same
    · simp [once] at never
  simp only [activate, switch.1, Bool.true_eq_false, if_false, if_neg moved]

theorem activate_spaces (mgr : SpaceManager) (mem : Memory) (sid : Word) :
    (mgr.activate mem sid).2.1.spaces = mgr.spaces := by
  unfold activate
  split
  · rfl
  · split
    · rfl
    · rfl

theorem drainActivate_spaces (mgr : SpaceManager) (mem : Memory) :
    (mgr.drainActivate mem).2.1.spaces = mgr.spaces := by
  unfold drainActivate
  split
  · rfl
  · dsimp only
    split
    · rfl
    · exact activate_spaces _ _ _

theorem activate_baseLinks (mgr : SpaceManager) (mem : Memory) (sid : Word) :
    (mgr.activate mem sid).2.1.baseLinks = mgr.baseLinks := by
  unfold activate
  split
  · rfl
  · split
    · rfl
    · rfl

theorem drainActivate_baseLinks (mgr : SpaceManager) (mem : Memory) :
    (mgr.drainActivate mem).2.1.baseLinks = mgr.baseLinks := by
  unfold drainActivate
  split
  · rfl
  · dsimp only
    split
    · rfl
    · exact activate_baseLinks _ _ _

theorem linkBase_spaces (mgr : SpaceManager) (ext base : Word) :
    (mgr.linkBase ext base).spaces = mgr.spaces := by
  unfold linkBase
  split
  · rfl
  · split
    · rfl
    · rfl

/-- Recording updates the list of its own space and no other. -/
theorem regionsOf_record {va size : Nat} {extent : Extent} (range : clampRange va size = some extent)
    (mgr : SpaceManager) (sid : Word) (prot : Prot) (host : HostPtr) (owner : Word) :
    (mgr.record sid va size prot host).regionsOf owner =
      if owner = sid then
        upsert (fun region => region.va) { toExtent := extent, prot, host } (mgr.regionsOf sid)
      else mgr.regionsOf owner := by
  have list : ((mgr.spaces sid).getD SpaceRegions.empty).list = mgr.regionsOf sid := by
    unfold regionsOf
    cases mgr.spaces sid with
    | none => rfl
    | some regions => rfl
  simp only [record, range]
  by_cases same : owner = sid
  · subst same
    rw [if_pos rfl, ← list]
    simp [regionsOf]
  · simp [regionsOf, same]

/-- A region of an updated space is old or the one just recorded. -/
theorem mem_regionsOf_record {mgr : SpaceManager} {sid owner : Word} {va size : Nat} {prot : Prot}
    {host : HostPtr} {region : Region}
    (member : region ∈ (mgr.record sid va size prot host).regionsOf owner) :
    region ∈ mgr.regionsOf owner ∨
      owner = sid ∧ clampRange va size = some region.toExtent ∧ region.prot = prot ∧
        region.host = host := by
  cases range : clampRange va size with
  | none =>
    simp only [record, range] at member
    exact .inl member
  | some extent =>
    rw [regionsOf_record range] at member
    split at member
    · rename_i same
      rcases mem_upsert member with new | old
      · subst new
        exact .inr ⟨same, rfl, rfl, rfl⟩
      · exact .inl (same ▸ old)
    · exact .inl member

theorem rebind_congr (spaces : left.spaces = right.spaces)
    (links : left.baseLinks = right.baseLinks) (binding : SameBinding left right) (mem : Memory)
    (sid : Word) : left.rebind mem sid = right.rebind mem sid := by
  simp only [rebind, effectiveRegions_congr spaces links, binding.mappedHost, binding.shadowed,
    binding.activeSid, binding.activatedOnce]

/-- Draining forgets the request before it acts on it. -/
theorem drainActivate_idle {mgr : SpaceManager} (mem : Memory)
    (idle : (mgr.hasPendingActivate && mgr.switches mgr.pendingSid) = false) :
    (mgr.drainActivate mem).2.2 = mem ∧ SameBinding (mgr.drainActivate mem).2.1 mgr := by
  unfold drainActivate
  split
  · exact ⟨rfl, rfl, rfl, rfl, rfl⟩
  · rename_i pending
    have still : mgr.switches mgr.pendingSid = false := by simpa [pending] using idle
    dsimp only
    split
    · exact ⟨rfl, rfl, rfl, rfl, rfl⟩
    · rw [activate_idle mem (by exact still)]
      exact ⟨rfl, rfl, rfl, rfl, rfl⟩

theorem drainActivate_switch {mgr : SpaceManager} (mem : Memory)
    (pending : mgr.hasPendingActivate = true) (switch : mgr.switches mgr.pendingSid = true) :
    mgr.drainActivate mem = ((mgr.rebind mem mgr.pendingSid).1,
      { mgr with
        mappedHost := (mgr.rebind mem mgr.pendingSid).2.mappedHost
        shadowed := (mgr.rebind mem mgr.pendingSid).2.shadowed
        hasPendingActivate := false
        pendingSid := 0
        activeSid := mgr.pendingSid
        activatedOnce := true },
      (mgr.rebind mem mgr.pendingSid).2.mem) := by
  let cleared : SpaceManager := { mgr with hasPendingActivate := false, pendingSid := 0 }
  have present : mgr.hasSpace mgr.pendingSid = true := by
    simp only [switches, Bool.and_eq_true] at switch
    exact switch.1
  have same : cleared.rebind mem mgr.pendingSid = mgr.rebind mem mgr.pendingSid :=
    rebind_congr rfl rfl ⟨rfl, rfl, rfl, rfl⟩ mem _
  have drained : mgr.drainActivate mem = cleared.activate mem mgr.pendingSid := by
    simp only [drainActivate, pending, Bool.true_eq_false, if_false]
    have kept : cleared.hasSpace mgr.pendingSid ≠ false := by
      intro gone
      exact Bool.noConfusion (present.symm.trans gone)
    exact if_neg kept
  rw [drained, activate_switch mem (by exact switch), same]

/-- A drained request for a known space makes that space the active one. -/
theorem drainActivate_activeSid {mgr : SpaceManager} (mem : Memory)
    (pending : mgr.hasPendingActivate = true) (known : mgr.hasSpace mgr.pendingSid = true) :
    (mgr.drainActivate mem).2.1.activeSid = mgr.pendingSid := by
  cases switch : mgr.switches mgr.pendingSid with
  | true => rw [drainActivate_switch mem pending switch]
  | false =>
    have current : mgr.pendingSid = mgr.activeSid ∧ mgr.activatedOnce = true := by
      simpa [switches, known] using switch
    rw [(drainActivate_idle mem (by simp [switch])).2.activeSid, current.1]

end SpaceManager

namespace World

variable {world : World} {op : SpaceOp} {sid : Word}

/-- Everything an operation that does not switch leaves alone. -/
structure Idled (world : World) (op : SpaceOp) : Prop where
  mem : (world.step op).mem = world.mem
  binding : SpaceManager.SameBinding (world.step op).mgr world.mgr
  log : (world.step op).switchLog = world.switchLog

theorem Idled.bindings (idled : Idled world op) : (world.step op).bindings = world.bindings := by
  rw [World.bindings, World.bindings, idled.mem, idled.binding.mappedHost, idled.binding.shadowed]

theorem Idled.bound (idled : Idled world op) : (world.step op).bound = world.bound := by
  rw [World.bound, World.bound, idled.log]

theorem step_idle (idle : op.target world.mgr = none) : Idled world op := by
  have log : (world.step op).switchLog = world.switchLog := by simp [step, idle]
  cases op with
  | record sid va size prot host =>
    exact ⟨rfl, world.mgr.record_sameBinding sid va size prot host, log⟩
  | linkBase ext base => exact ⟨rfl, world.mgr.linkBase_sameBinding ext base, log⟩
  | queueActivate sid => exact ⟨rfl, ⟨rfl, rfl, rfl, rfl⟩, log⟩
  | activate sid =>
    have still : world.mgr.switches sid = false := by simpa [SpaceOp.target] using idle
    have same := SpaceManager.activate_idle world.mem still
    refine ⟨congrArg Prod.snd same, ?_, log⟩
    have mgr : (world.step (.activate sid)).mgr = world.mgr := congrArg Prod.fst same
    rw [mgr]
    exact ⟨rfl, rfl, rfl, rfl⟩
  | drainActivate =>
    have still : (world.mgr.hasPendingActivate && world.mgr.switches world.mgr.pendingSid) = false := by
      simpa [SpaceOp.target] using idle
    obtain ⟨mem, binding⟩ := SpaceManager.drainActivate_idle world.mem still
    exact ⟨mem, binding, log⟩

/-- Recorded regions only ever come from `record`. -/
theorem mem_regionsOf_step {owner : Word} {region : Region}
    (member : region ∈ (world.step op).mgr.regionsOf owner) :
    region ∈ world.mgr.regionsOf owner ∨
      ∃ va size, op = .record owner va size region.prot region.host ∧
        clampRange va size = some region.toExtent := by
  cases op with
  | record sid va size prot host =>
    rcases SpaceManager.mem_regionsOf_record member with old | ⟨same, range, protIs, hostIs⟩
    · exact .inl old
    · subst same protIs hostIs
      exact .inr ⟨va, size, rfl, range⟩
  | linkBase ext base =>
    exact .inl (SpaceManager.regionsOf_congr (world.mgr.linkBase_spaces ext base) ▸ member)
  | queueActivate sid => exact .inl member
  | drainActivate =>
    exact .inl (SpaceManager.regionsOf_congr (world.mgr.drainActivate_spaces world.mem) ▸ member)
  | activate sid =>
    exact .inl (SpaceManager.regionsOf_congr (world.mgr.activate_spaces world.mem sid) ▸ member)

/-- A switch leaves the recorded regions alone and installs what both passes computed. -/
structure Switched (world : World) (op : SpaceOp) (sid : Word) : Prop where
  err : (world.effect op).1 = (world.mgr.rebind world.mem sid).1
  mem : (world.step op).mem = (world.mgr.rebind world.mem sid).2.mem
  mappedHost : (world.step op).mgr.mappedHost = (world.mgr.rebind world.mem sid).2.mappedHost
  shadowed : (world.step op).mgr.shadowed = (world.mgr.rebind world.mem sid).2.shadowed
  activeSid : (world.step op).mgr.activeSid = sid
  activatedOnce : (world.step op).mgr.activatedOnce = true
  spaces : (world.step op).mgr.spaces = world.mgr.spaces
  baseLinks : (world.step op).mgr.baseLinks = world.mgr.baseLinks
  log : (world.step op).switchLog = (sid, world.mgr.effectiveRegions sid) :: world.switchLog

theorem Switched.bindings (switched : Switched world op sid) :
    (world.step op).bindings = (world.mgr.rebind world.mem sid).2 := by
  rw [World.bindings, switched.mem, switched.mappedHost, switched.shadowed]

theorem Switched.bound (switched : Switched world op sid) :
    (world.step op).bound = world.mgr.effectiveRegions sid := by
  rw [World.bound, switched.log]

theorem step_switch (switch : op.target world.mgr = some sid) : Switched world op sid := by
  have log : (world.step op).switchLog =
      (sid, world.mgr.effectiveRegions sid) :: world.switchLog := by simp [step, switch]
  cases op with
  | record sid va size prot host => cases switch
  | linkBase ext base => cases switch
  | queueActivate sid => cases switch
  | activate asked =>
    simp only [SpaceOp.target, Option.ite_none_right_eq_some, Option.some.injEq] at switch
    obtain ⟨moves, same⟩ := switch
    subst same
    have result := SpaceManager.activate_switch world.mem moves
    constructor <;> first | exact log | simp only [step, effect, result]
  | drainActivate =>
    simp only [SpaceOp.target, Option.ite_none_right_eq_some, Option.some.injEq,
      Bool.and_eq_true] at switch
    obtain ⟨⟨pending, moves⟩, same⟩ := switch
    subst same
    have result := SpaceManager.drainActivate_switch world.mem pending moves
    constructor <;> first | exact log | simp only [step, effect, result]

end World

end ZeeboLle.L4

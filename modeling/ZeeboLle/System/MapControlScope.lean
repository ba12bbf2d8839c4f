import ZeeboLle.L4.MapControlFrame
import ZeeboLle.System.OwnSpace

/-! What one `L4_MapControl` trap touches: the live engine in two passes, the lookup table
of the named space and that space's recorded regions. Neither the modify bit nor the
active space is consulted, and the table only follows what the engine adopts. So the call
stays in its scope exactly when it asks for nothing that the engine, and the table if the
call names another space, do not have already. -/
namespace ZeeboLle.System

open Paging Unicorn L4

/-- The lookup table of a space; an absent one is empty. -/
def LleSystem.lutOf (sys : LleSystem) (sid : Word) : VtlbLut := (sys.spaceMap sid).getD VtlbLut.empty

/-- The region an item leads to, when the pool backs it. -/
def recordedRegion (pool : PhysPool) (item : MapItem) : Option Region :=
  if item.fpage.isNil || item.fpage.isWholeSpace then none
  else
    match item.fpage.extent with
    | none => none
    | some extent =>
      let host := pool.hostOf item.phys.physBase
      if host = nullptr ∨ pool.contains item.phys.physBase item.fpage.sizeBytes = false then none
      else some { toExtent := extent, prot := fpageToUcProt item.fpage, host }

/-- What an item asks of the entry of a page in the table of its space: none once the page
is revoked, else the pool's memory behind it. -/
def requestedEntry (pool : PhysPool) (page : Nat) (item : MapItem) : Option HostPtr :=
  if item.fpage.Covers page then
    if item.fpage.rwx = 0 then some nullptr
    else
      match item.fpage.extent with
      | none => none
      | some extent =>
        if item.fpage.isOrdinary && pool.backs item extent then
          some (pool.hostOf item.phys.physBase + (page - extent.va / 0x1000) * 0x1000)
        else none
  else none

/-- The items of the trap, as memory has them before it. -/
def LleSystem.trapItems (sys : LleSystem) : List MapItem :=
  askedItems sys.mem (utcbPtr sys.mem) (⟨sys.regs.r 1⟩ : MapControl).items

/-- The regions the items of the trap lead to, in order. -/
def LleSystem.askedRegions (sys : LleSystem) : List Region :=
  sys.trapItems.filterMap (recordedRegion sys.appsPool)

/-- The last thing the items of the trap ask of the entry of a page. -/
def LleSystem.askedEntry (sys : LleSystem) (page : Nat) : Option HostPtr :=
  (sys.trapItems.filterMap (requestedEntry sys.appsPool page)).getLast?

/-- The request is in the list and the table of its space: under each base the region last
asked for, on each page the entry last asked for, and the old ones elsewhere. -/
def RecordsRequest (sys after : LleSystem) : Prop :=
  let sid := sys.regs.r 0
  (∀ va, (after.spaceManager.regionsOf sid).find? (fun region => region.va = va) =
      (latest (fun region => region.va = va) sys.askedRegions).or
        ((sys.spaceManager.regionsOf sid).find? fun region => region.va = va)) ∧
    ∀ page, (after.lutOf sid).entries page =
      (sys.askedEntry page).getD ((sys.lutOf sid).entries page)

/-- A call without the modify bit changes nothing. A call for a space that is not the active
one leaves the live engine and all other spaces alone, and a request to modify is recorded
for its own space. -/
def StaysInScope (sys : LleSystem) : Prop :=
  let sid := sys.regs.r 0
  let control : MapControl := ⟨sys.regs.r 1⟩
  let after := sys.c0IntrHook
  (control.isModify = false →
    after.mem.pages = sys.mem.pages ∧ after.vtlb = sys.vtlb ∧
      (∀ space, after.lutOf space = sys.lutOf space) ∧
      ∀ space, after.spaceManager.regionsOf space = sys.spaceManager.regionsOf space) ∧
    (sys.spaceManager.activatedOnce = true → sid ≠ sys.spaceManager.activeSid →
      after.mem.pages = sys.mem.pages ∧ after.vtlb = sys.vtlb ∧
        (∀ space, space ≠ sid → after.lutOf space = sys.lutOf space) ∧
        (∀ space, space ≠ sid →
          after.spaceManager.regionsOf space = sys.spaceManager.regionsOf space) ∧
        (control.isModify = true → control.isQuery = false → RecordsRequest sys after))

/-- The call asks for nothing that is not there, wherever its scope forbids a change: the
pages keep their protections and, without the modify bit, the last region of each base is
recorded already. A request to modify another space finds its entries in that space's
table. -/
def AsksForNothing (sys : LleSystem) : Prop :=
  let sid := sys.regs.r 0
  let control : MapControl := ⟨sys.regs.r 1⟩
  (control.isModify = false →
    KeepsPages sys.mem (utcbPtr sys.mem) control ∧
      (sys.appsPool.host ≠ nullptr → ∀ va last,
        latest (fun region => region.va = va) sys.askedRegions = some last →
          last ∈ sys.spaceManager.regionsOf sid)) ∧
    (sys.spaceManager.activatedOnce = true → sid ≠ sys.spaceManager.activeSid →
      KeepsPages sys.mem (utcbPtr sys.mem) control ∧
        (control.isModify = true → control.isQuery = false →
          ∀ page entry, sys.askedEntry page = some entry → (sys.lutOf sid).entries page = entry))

theorem regionsOf_recordItem (pool : PhysPool) (sid : Word) (mgr : SpaceManager) (item : MapItem)
    (space : Word) :
    (LleSystem.recordItem pool sid mgr item).regionsOf space =
      if space = sid then
        upsertAll (fun region => region.va) (mgr.regionsOf sid) (recordedRegion pool item).toList
      else mgr.regionsOf space := by
  have idle : mgr.regionsOf space =
      if space = sid then upsertAll (fun region => region.va) (mgr.regionsOf sid) []
      else mgr.regionsOf space := by
    split
    · rename_i same
      rw [same]
      rfl
    · rfl
  obtain ⟨extent, range⟩ := item.fpage.exists_extent
  unfold LleSystem.recordItem recordedRegion
  rw [range]
  dsimp only
  split
  · exact idle
  · split
    · exact idle
    · exact SpaceManager.regionsOf_record range mgr sid _ _ space

/-- The recorder updates the list of the named space with the regions in order. -/
theorem regionsOf_recordItems (pool : PhysPool) (sid : Word) (mgr : SpaceManager)
    (items : List MapItem) (space : Word) :
    (items.foldl (LleSystem.recordItem pool sid) mgr).regionsOf space =
      if space = sid then
        upsertAll (fun region => region.va) (mgr.regionsOf sid)
          (items.filterMap (recordedRegion pool))
      else mgr.regionsOf space := by
  induction items generalizing mgr with
  | nil =>
    split
    · rename_i same
      rw [same]
      rfl
    · rfl
  | cons item rest ih =>
    rw [List.foldl_cons, ih]
    split
    · rw [regionsOf_recordItem, if_pos rfl, List.filterMap_cons]
      cases recordedRegion pool item with
      | none => rfl
      | some region => rfl
    · rename_i different
      rw [regionsOf_recordItem, if_neg different]

namespace LleSystem

variable {sys : LleSystem} {space : Word}

/-- The pass over the engine and the table of the named space. -/
def pooledPass (sys : LleSystem) : MapControlResult :=
  (handleMapControl sys.mem (utcbPtr sys.mem) ⟨sys.regs.r 1⟩ (some sys.appsPool)
    (some (sys.lutOf (sys.regs.r 0)))).2

/-- The pass over the live view has no pool, so it writes no table. -/
theorem l4MapControl_pooled (pooled : sys.appsPool.host ≠ nullptr) :
    sys.l4MapControl.sys = { sys with
      mem := (handleMapControl sys.pooledPass.mem (utcbPtr sys.mem) ⟨sys.regs.r 1⟩ none
        (some sys.vtlb)).2.mem
      spaceMap := Function.update sys.spaceMap (sys.regs.r 0) sys.pooledPass.lut
      spaceManager :=
        sys.pooledPass.items.foldl (recordItem sys.appsPool (sys.regs.r 0)) sys.spaceManager } := by
  rw [l4MapControl, if_pos pooled]
  dsimp only
  rw [handleMapControl_lut]
  rfl

theorem l4MapControl_poolless (poolless : ¬ sys.appsPool.host ≠ nullptr) :
    sys.l4MapControl.sys = { sys with
      mem := (handleMapControl sys.mem (utcbPtr sys.mem) ⟨sys.regs.r 1⟩ none none).2.mem } := by
  rw [l4MapControl, if_neg poolless]

theorem l4MapControl_pages_iff (sys : LleSystem) :
    sys.l4MapControl.sys.mem.pages = sys.mem.pages ↔
      KeepsPages sys.mem (utcbPtr sys.mem) ⟨sys.regs.r 1⟩ := by
  by_cases pooled : sys.appsPool.host ≠ nullptr
  · rw [l4MapControl_pooled pooled]
    exact twoPasses_pages_iff _ _ _ _
  · rw [l4MapControl_poolless pooled]
    exact onePass_pages_iff _ _

theorem l4MapControl_vtlb (sys : LleSystem) : sys.l4MapControl.sys.vtlb = sys.vtlb := by
  by_cases pooled : sys.appsPool.host ≠ nullptr
  · rw [l4MapControl_pooled pooled]
  · rw [l4MapControl_poolless pooled]

theorem l4MapControl_lutOf (other : space ≠ sys.regs.r 0) :
    sys.l4MapControl.sys.lutOf space = sys.lutOf space := by
  by_cases pooled : sys.appsPool.host ≠ nullptr
  · rw [l4MapControl_pooled pooled, lutOf]
    dsimp only
    rw [Function.update_of_ne other, ← lutOf]
  · rw [l4MapControl_poolless pooled]
    rfl

theorem l4MapControl_lutOf_kept (kept : KeepsPages sys.mem (utcbPtr sys.mem) ⟨sys.regs.r 1⟩)
    (space : Word) : sys.l4MapControl.sys.lutOf space = sys.lutOf space := by
  by_cases own : space = sys.regs.r 0
  · subst own
    by_cases pooled : sys.appsPool.host ≠ nullptr
    · rw [l4MapControl_pooled pooled, lutOf]
      dsimp only
      rw [Function.update_self, pooledPass, (handleMapControl_kept kept _ _).1]
      rfl
    · rw [l4MapControl_poolless pooled]
      rfl
  · exact l4MapControl_lutOf own

theorem l4MapControl_regionsOf (other : space ≠ sys.regs.r 0) :
    sys.l4MapControl.sys.spaceManager.regionsOf space = sys.spaceManager.regionsOf space := by
  by_cases pooled : sys.appsPool.host ≠ nullptr
  · rw [l4MapControl_pooled pooled, regionsOf_recordItems, if_neg other]
  · rw [l4MapControl_poolless pooled]

/-- A call that keeps the pages updates the list of its space with what was asked for. -/
theorem l4MapControl_asked (kept : KeepsPages sys.mem (utcbPtr sys.mem) ⟨sys.regs.r 1⟩) :
    sys.l4MapControl.sys.spaceManager.regionsOf (sys.regs.r 0) =
      upsertAll (fun region => region.va) (sys.spaceManager.regionsOf (sys.regs.r 0))
        sys.askedRegions := by
  by_cases pooled : sys.appsPool.host ≠ nullptr
  · rw [l4MapControl_pooled pooled, regionsOf_recordItems, if_pos rfl, pooledPass,
      (handleMapControl_kept kept _ _).2]
    rfl
  · have none : sys.askedRegions = [] := by
      apply List.filterMap_eq_nil_iff.mpr
      intro item _
      obtain ⟨extent, range⟩ := item.fpage.exists_extent
      simp [recordedRegion, range, PhysPool.hostOf, not_not.mp pooled]
    rw [l4MapControl_poolless pooled, none]
    rfl

/-- A call that keeps the pages records its request exactly when the table has it. -/
theorem recordsRequest_iff (kept : KeepsPages sys.mem (utcbPtr sys.mem) ⟨sys.regs.r 1⟩) :
    RecordsRequest sys sys.l4MapControl.sys ↔
      ∀ page entry, sys.askedEntry page = some entry →
        (sys.lutOf (sys.regs.r 0)).entries page = entry := by
  have regions : ∀ va,
      (sys.l4MapControl.sys.spaceManager.regionsOf (sys.regs.r 0)).find?
          (fun region => region.va = va) =
        (latest (fun region => region.va = va) sys.askedRegions).or
          ((sys.spaceManager.regionsOf (sys.regs.r 0)).find? fun region => region.va = va) := by
    intro va
    rw [l4MapControl_asked kept]
    exact find?_upsertAll _ _ _ va
  rw [RecordsRequest, and_iff_right regions, l4MapControl_lutOf_kept kept]
  constructor
  · intro held page entry asked
    rw [held page, asked, Option.getD_some]
  · intro held page
    cases asked : sys.askedEntry page with
    | none => rfl
    | some entry => exact held page entry asked

/-- A call that keeps the pages keeps the regions exactly when they are all recorded. -/
theorem l4MapControl_regionsOf_iff (kept : KeepsPages sys.mem (utcbPtr sys.mem) ⟨sys.regs.r 1⟩) :
    (∀ space, sys.l4MapControl.sys.spaceManager.regionsOf space =
        sys.spaceManager.regionsOf space) ↔
      (sys.appsPool.host ≠ nullptr → ∀ va last,
        latest (fun region => region.va = va) sys.askedRegions = some last →
          last ∈ sys.spaceManager.regionsOf (sys.regs.r 0)) := by
  by_cases pooled : sys.appsPool.host ≠ nullptr
  · have recorded := l4MapControl_asked kept
    have law := upsertAll_eq_self_iff (sys.spaceManager.regionsOf_distinct (sys.regs.r 0))
      sys.askedRegions
    constructor
    · intro same _
      exact law.mp (recorded.symm.trans (same _))
    · intro there space
      by_cases own : space = sys.regs.r 0
      · subst own
        exact recorded.trans (law.mpr (there pooled))
      · exact l4MapControl_regionsOf own
  · refine ⟨fun _ host => absurd host pooled, fun _ space => ?_⟩
    rw [l4MapControl_poolless pooled]

end LleSystem

/-- An `L4_MapControl` trap stays in its scope exactly when it asks for nothing that is
not there. -/
theorem staysInScope_iff (sys : LleSystem) (call : sys.regs.readSp &&& 0xff#32 = 0x14#32) :
    StaysInScope sys ↔ AsksForNothing sys := by
  have answered : sys.dispatch (sys.regs.readSp &&& 0xff#32) = sys.l4MapControl := by
    rw [call]
    rfl
  have mem : sys.c0IntrHook.mem = sys.l4MapControl.sys.mem :=
    congrArg (fun answer => answer.sys.mem) answered
  have vtlb : sys.c0IntrHook.vtlb = sys.l4MapControl.sys.vtlb :=
    congrArg (fun answer => answer.sys.vtlb) answered
  have luts : ∀ space, sys.c0IntrHook.lutOf space = sys.l4MapControl.sys.lutOf space :=
    fun space => congrArg (fun answer => answer.sys.lutOf space) answered
  have spaces : sys.c0IntrHook.spaceManager = sys.l4MapControl.sys.spaceManager :=
    congrArg (fun answer => answer.sys.spaceManager) answered
  have records : RecordsRequest sys sys.c0IntrHook ↔ RecordsRequest sys sys.l4MapControl.sys := by
    simp only [RecordsRequest, luts, spaces]
  have kept := sys.l4MapControl_pages_iff
  simp only [StaysInScope, AsksForNothing, mem, vtlb, luts, spaces, records, sys.l4MapControl_vtlb]
  constructor
  · rintro ⟨unmodified, foreign⟩
    refine ⟨fun modify => ?_, fun once other => ?_⟩
    · obtain ⟨same, _, _, regions⟩ := unmodified modify
      exact ⟨kept.mp same, (LleSystem.l4MapControl_regionsOf_iff (kept.mp same)).mp regions⟩
    · obtain ⟨same, _, _, _, recorded⟩ := foreign once other
      exact ⟨kept.mp same, fun modify query =>
        (LleSystem.recordsRequest_iff (kept.mp same)).mp (recorded modify query)⟩
  · rintro ⟨unmodified, foreign⟩
    refine ⟨fun modify => ?_, fun once other => ?_⟩
    · obtain ⟨same, regions⟩ := unmodified modify
      exact ⟨kept.mpr same, trivial, LleSystem.l4MapControl_lutOf_kept same,
        (LleSystem.l4MapControl_regionsOf_iff same).mpr regions⟩
    · obtain ⟨same, held⟩ := foreign once other
      exact ⟨kept.mpr same, trivial, fun _ => LleSystem.l4MapControl_lutOf,
        fun _ => LleSystem.l4MapControl_regionsOf, fun modify query =>
          (LleSystem.recordsRequest_iff same).mpr (held modify query)⟩

/-- A UTCB at 0x1000, named by the kernel's pointer page, whose first item asks for one rwx
page at 0x5000. -/
def mappingUtcb : Memory where
  pages := fun page => if page = 1 ∨ page = 0xff000 then some ⟨Prot.all, .ram⟩ else none
  ram := fun byte =>
    if byte = 0xff000ff1 then 0x10 else if byte = 0x1044 then 0xc7 else if byte = 0x1045 then 0x50
    else 0
  host := fun _ => 0

/-- A trap with `L4_MapControl` for space 2 while space 1 is active. -/
def mapTrap (control : Word) : LleSystem :=
  { yielding 0x2000 with
    regs := { switchTrap 0x2000 0xffffff14 with
      r := fun index => if index = 0 then 2 else if index = 1 then control else 0 }
    mem := mappingUtcb
    spaceManager := { SpaceManager.empty with activeSid := 1, activatedOnce := true }
    appsPool := ⟨0x10000000, 0x1000000, 0x9000⟩ }

/-- The same request for the pool's first page, which the engine has at 0x5000 already. -/
def sharedUtcb : Memory where
  pages := fun page =>
    if page = 5 then some ⟨Prot.all, .host 0x9000⟩ else mappingUtcb.pages page
  ram := fun byte => if byte = 0x1043 then 0x10 else mappingUtcb.ram byte
  host := fun _ => 0

/-- The table of space 2 has the page as well; its region list does not. -/
def sharedTrap : LleSystem :=
  { mapTrap 0x80000000 with
    mem := sharedUtcb
    spaceMap := fun sid =>
      if sid = 2 then some ⟨fun page => if page = 5 then 0x9000 else nullptr⟩ else none }

/-- The item of `sharedTrap`. -/
def sharedItem : MapItem := ⟨⟨0x10000000⟩, ⟨0x50c7⟩⟩

private theorem sharedItem_page {page : Nat} (covers : sharedItem.fpage.Covers page) : page = 5 := by
  have start : sharedItem.fpage.vaddr = 0x5000 := by decide
  have size : sharedItem.fpage.sizeBytes = 0x1000 := by decide
  have part : sharedItem.fpage.isWholeSpace = false := by decide
  obtain ⟨_, _, whole | ⟨lower, upper⟩⟩ := covers
  · exact Bool.noConfusion (whole.symm.trans part)
  · omega

theorem staysInScope_shared : StaysInScope sharedTrap := by
  have items : sharedTrap.trapItems = [sharedItem] := by decide +kernel
  apply (staysInScope_iff sharedTrap (by decide)).mpr
  refine ⟨fun modify => ?_, fun _ _ => ⟨.inr ⟨?_, fun page found last mapped acting => ?_⟩, ?_⟩⟩
  · exact absurd modify (by decide)
  · intro item member
    have only : item ∈ [sharedItem] := items ▸ member
    rw [List.mem_singleton.mp only]
    decide +kernel
  · have asked : latest (fun item => item.fpage.acts sharedTrap.mem.pages &&
        decide (item.fpage.Covers page)) [sharedItem] = some last := items ▸ acting
    obtain ⟨only, passes⟩ := latest_passes asked
    rw [List.mem_singleton.mp only, Bool.and_eq_true, decide_eq_true_eq] at passes
    rw [List.mem_singleton.mp only]
    have here := sharedItem_page passes.2
    subst here
    rw [← Option.some.inj mapped]
    decide
  · intro _ _ page entry asked
    rw [LleSystem.askedEntry, items] at asked
    cases requested : requestedEntry sharedTrap.appsPool page sharedItem with
    | none => simp [requested] at asked
    | some wanted =>
      have covers : sharedItem.fpage.Covers page := by
        by_contra outside
        simp [requestedEntry, outside] at requested
      have here := sharedItem_page covers
      subst here
      have value : requestedEntry sharedTrap.appsPool 5 sharedItem = some 0x9000 := by decide +kernel
      simp only [value, List.filterMap_cons, List.filterMap_nil, List.getLast?_singleton,
        Option.some.injEq] at asked
      exact asked ▸ rfl

/-- A modifying call for space 2 maps its page in the engine that runs space 1. -/
theorem not_staysInScope_foreignSpace : ¬ StaysInScope (mapTrap 0x80000000) := by
  intro scope
  have same := (scope.2 rfl (by decide)).1
  exact absurd (congrFun same 5) (by decide +kernel)

end ZeeboLle.System

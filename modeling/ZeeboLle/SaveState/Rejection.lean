import ZeeboLle.SaveState.RoundTrip
import Mathlib.Data.List.TakeWhile

/-! What a rejected file leaves behind. A file is a list of requests to the engines: map this
range, write these bytes. The load makes them one by one while it is still reading, so when it
gives up, those already granted stand. -/
namespace ZeeboLle.SaveState

open Paging Unicorn

inductive Request where
  | map (core : CoreId) (begin size : DoubleWord) (perms : Word)
  | write (core : CoreId) (start : Nat) (data : List Byte)
deriving DecidableEq, Repr

namespace Request

/-- The engine does not refuse the request; a range already taken is no refusal. -/
def granted (engines : Engines) : Request → Bool
  | .map core begin size perms =>
    begin ≤ begin + size - 1 ∧ size ≠ 0 ∧ (engines core).config.takesMapping begin size perms
  | .write core start data => (engines core).map.Backs start data.length

/-- The request asks for a range of which nothing is mapped. -/
def Fresh (engines : Engines) : Request → Prop
  | .map core begin size perms => (engines core).map.Free ⟨begin, begin + size - 1, perms⟩
  | .write _ _ _ => False

/-- The byte the request writes at an address. -/
def byteAt (core : CoreId) (address : Nat) : Request → Option Byte
  | .map _ _ _ _ => none
  | .write owner start data => if owner = core ∧ start ≤ address then data[address - start]? else none

def perform (engines : Engines) : Request → Bool × Engines
  | .map core begin size perms =>
    let (error, uc) := (engines core).ucMemMap begin size perms
    (error = .ok ∨ error = .map, Function.update engines core uc)
  | .write core start data =>
    let (error, uc) := (engines core).ucMemWrite start data
    (error = .ok, Function.update engines core uc)

variable {engines : Engines} {request : Request}

/-- A refused request has no effect. -/
theorem perform_refused (refused : request.granted engines = false) :
    request.perform engines = (false, engines) := by
  cases request with
  | map core begin size perms =>
    have improper := of_decide_eq_false refused
    simp only [perform, UcEngine.ucMemMap, if_neg improper]
    simp
  | write core start data =>
    have unmapped := of_decide_eq_false refused
    simp only [perform, UcEngine.ucMemWrite, if_neg unmapped]
    simp

/-- A request for a range that is taken, even in part, has none either. -/
theorem perform_taken {core : CoreId} {begin size : DoubleWord} {perms : Word}
    (granted : granted engines (.map core begin size perms) = true)
    (taken : ¬ Fresh engines (.map core begin size perms)) :
    perform engines (.map core begin size perms) = (true, engines) := by
  have proper := of_decide_eq_true granted
  have occupied : ¬ (engines core).map.Free ⟨begin, begin + size - 1, perms⟩ := taken
  simp only [perform, UcEngine.ucMemMap, if_pos proper, if_neg occupied]
  simp

/-- A fresh range is mapped. -/
theorem perform_fresh {core : CoreId} {begin size : DoubleWord} {perms : Word}
    (granted : granted engines (.map core begin size perms) = true)
    (fresh : Fresh engines (.map core begin size perms)) :
    ∃ uc, perform engines (.map core begin size perms) = (true, Function.update engines core uc) ∧
      uc.map.regions = (engines core).map.regions ++ [⟨begin, begin + size - 1, perms⟩] := by
  have proper := of_decide_eq_true granted
  have free : (engines core).map.Free ⟨begin, begin + size - 1, perms⟩ := fresh
  simp only [perform, UcEngine.ucMemMap, if_pos proper, if_pos free]
  refine ⟨_, Prod.ext (by simp) rfl, ?_⟩
  rw [MemoryMap.withRegion, dif_pos ⟨proper.1, free⟩]
  rfl

theorem perform_write {core : CoreId} {start : Nat} {data : List Byte}
    (granted : granted engines (.write core start data) = true) :
    perform engines (.write core start data) = (true, Function.update engines core
      { engines core with bytes := patch (engines core).bytes start data }) := by
  have backs := of_decide_eq_true granted
  simp only [perform, UcEngine.ucMemWrite, if_pos backs]
  simp

theorem length_update {owner : CoreId} {uc : UcEngine}
    (kept : (engines owner).map.regions.length ≤ uc.map.regions.length) (core : CoreId) :
    (engines core).map.regions.length ≤ (Function.update engines owner uc core).map.regions.length := by
  by_cases own : core = owner
  · subst own
    rwa [Function.update_self]
  · rw [Function.update_of_ne own]

/-- No request unmaps anything. -/
theorem length_perform (engines : Engines) (request : Request) (core : CoreId) :
    (engines core).map.regions.length ≤ ((request.perform engines).2 core).map.regions.length := by
  cases answer : request.granted engines with
  | false => rw [perform_refused answer]
  | true =>
    cases request with
    | map owner begin size perms =>
      by_cases fresh : Fresh engines (.map owner begin size perms)
      · obtain ⟨uc, performed, regions⟩ := perform_fresh answer fresh
        rw [performed]
        apply length_update
        rw [regions, List.length_append]
        exact Nat.le_add_right _ _
      · rw [perform_taken answer fresh]
    | write owner start data =>
      rw [perform_write answer]
      apply length_update
      exact Nat.le_refl _

end Request

/-- The requests one after the other, up to the first that is refused. -/
def performAll : List Request → Engines → Bool × Engines
  | [], engines => (true, engines)
  | request :: later, engines =>
    match request.perform engines with
    | (true, engines) => performAll later engines
    | (false, engines) => (false, engines)

/-- The requests before the first that the engines, as they are, refuse. -/
def reached (engines : Engines) (requests : List Request) : List Request :=
  requests.takeWhile (Request.granted engines)

/-- What the requests leave at an address, where one of them writes it. -/
def lastWritten (core : CoreId) (address : Nat) : List Request → Option Byte
  | [] => none
  | request :: later => (lastWritten core address later).or (request.byteAt core address)

variable {engines other : Engines} {request : Request} {requests : List Request} {core : CoreId}
  {address : Nat} {byte : Byte}

theorem performAll_cons (request : Request) (later : List Request) (engines : Engines) :
    performAll (request :: later) engines =
      if (request.perform engines).1 then performAll later (request.perform engines).2
      else (false, (request.perform engines).2) := by
  rw [performAll]
  obtain ⟨answer, next⟩ := request.perform engines
  cases answer <;> rfl

theorem performAll_append (first later : List Request) (engines : Engines) :
    performAll (first ++ later) engines =
      if (performAll first engines).1 then performAll later (performAll first engines).2
      else (false, (performAll first engines).2) := by
  induction first generalizing engines with
  | nil => rfl
  | cons request first ih =>
    rw [List.cons_append, performAll_cons, performAll_cons]
    split
    · exact ih _
    · rfl

theorem length_performAll (requests : List Request) (engines : Engines) (core : CoreId) :
    (engines core).map.regions.length ≤ ((performAll requests engines).2 core).map.regions.length := by
  induction requests generalizing engines with
  | nil => exact Nat.le_refl _
  | cons request later ih =>
    have first := request.length_perform engines core
    rw [performAll]
    split
    · rename_i next performed
      rw [performed] at first
      exact first.trans (ih next)
    · rename_i next performed
      rwa [performed] at first

/-- Both engines have the same regions and take the same arguments. -/
def SameMaps (engines other : Engines) : Prop :=
  ∀ core, (other core).config = (engines core).config ∧ (other core).map = (engines core).map

theorem SameMaps.granted (same : SameMaps engines other) : Request.granted other = Request.granted engines := by
  funext request
  cases request with
  | map core begin size perms => simp only [Request.granted, (same core).1]
  | write core start data => simp only [Request.granted, (same core).2]

theorem SameMaps.fresh (same : SameMaps engines other) : request.Fresh other ↔ request.Fresh engines := by
  cases request with
  | map core begin size perms => simp only [Request.Fresh, (same core).2]
  | write core start data => exact Iff.rfl

theorem SameMaps.reached (same : SameMaps engines other) : reached other requests = reached engines requests := by
  rw [SaveState.reached, SaveState.reached, same.granted]

/-- The engines with some bytes replaced. -/
def overwrite (engines : Engines) (values : CoreId → Nat → Option Byte) : Engines := fun core =>
  { engines core with bytes := fun address => (values core address).getD ((engines core).bytes address) }

theorem sameMaps_overwrite (engines : Engines) (values : CoreId → Nat → Option Byte) :
    SameMaps engines (overwrite engines values) := fun _ => ⟨rfl, rfl⟩

theorem overwrite_overwrite (engines : Engines) (earlier later : CoreId → Nat → Option Byte) :
    overwrite (overwrite engines earlier) later =
      overwrite engines fun core address => (later core address).or (earlier core address) := by
  funext core
  simp only [overwrite, Option.getD_or]

/-- Bytes replaced by themselves. -/
theorem overwrite_self {values : CoreId → Nat → Option Byte}
    (held : ∀ core address byte, values core address = some byte → byte = (engines core).bytes address) :
    overwrite engines values = engines := by
  funext core
  have same : (fun address => (values core address).getD ((engines core).bytes address)) =
      (engines core).bytes := by
    funext address
    cases value : values core address with
    | none => rfl
    | some byte => exact held core address byte value
  rw [overwrite, same]

/-- A request that maps nothing changes bytes alone. -/
theorem Request.perform_quiet (granted : request.granted engines = true)
    (quiet : ¬ request.Fresh engines) :
    request.perform engines = (true, overwrite engines fun core address => request.byteAt core address) := by
  cases request with
  | map owner begin size perms => exact perform_taken granted quiet
  | write owner start data =>
    rw [perform_write granted, Prod.mk.injEq]
    refine ⟨rfl, funext fun core => ?_⟩
    by_cases own : core = owner
    · subst own
      have written : patch (engines core).bytes start data = fun address =>
          (byteAt core address (.write core start data)).getD ((engines core).bytes address) := by
        funext address
        simp only [patch, byteAt, true_and]
        split <;> rfl
      rw [Function.update_self, written, overwrite]
    · rw [Function.update_of_ne own]
      simp only [overwrite, byteAt, Ne.symm own, false_and, if_false, Option.getD_none]

theorem reached_granted (answer : request.granted engines = true) :
    reached engines (request :: requests) = request :: reached engines requests :=
  List.takeWhile_cons_of_pos answer

theorem reached_refused (answer : request.granted engines = false) :
    reached engines (request :: requests) = [] := List.takeWhile_cons_of_neg (by simp [answer])

/-- Where no request maps anything, all that is left of them is what they wrote last. -/
theorem performAll_quiet (quiet : ∀ request ∈ reached engines requests, ¬ request.Fresh engines) :
    performAll requests engines = (requests.all (Request.granted engines),
      overwrite engines fun core address => lastWritten core address (reached engines requests)) := by
  induction requests generalizing engines with
  | nil => rfl
  | cons request later ih =>
    cases answer : request.granted engines with
    | false =>
      rw [performAll, Request.perform_refused answer, List.all_cons, answer, reached_refused answer]
      rfl
    | true =>
      rw [reached_granted answer, List.forall_mem_cons] at quiet
      have same := sameMaps_overwrite engines fun core address => request.byteAt core address
      have rest := ih (by
        rw [same.reached]
        exact fun other member fresh => quiet.2 other member (same.fresh.mp fresh))
      rw [same.granted, same.reached, overwrite_overwrite] at rest
      rw [performAll, request.perform_quiet answer quiet.1, reached_granted answer, List.all_cons, answer,
        Bool.true_and]
      exact rest

/-- Conversely, where the maps are as before, no request reached a free range. -/
theorem not_fresh_of_kept (kept : ∀ core, ((performAll requests engines).2 core).map = (engines core).map) :
    ∀ request ∈ reached engines requests, ¬ request.Fresh engines := by
  induction requests generalizing engines with
  | nil => exact fun _ member => nomatch member
  | cons request later ih =>
    cases answer : request.granted engines with
    | false =>
      rw [reached_refused answer]
      exact fun _ member => nomatch member
    | true =>
      by_cases fresh : request.Fresh engines
      · -- the range stays mapped to the end
        cases request with
        | map core begin size perms =>
          obtain ⟨uc, performed, regions⟩ := Request.perform_fresh answer fresh
          have longer := length_performAll later (Function.update engines core uc) core
          rw [Function.update_self, regions, List.length_append, List.length_singleton] at longer
          have same := kept core
          rw [performAll, performed] at same
          simp only [same] at longer
          omega
        | write core start data => exact fresh.elim
      · have same := sameMaps_overwrite engines fun core address => request.byteAt core address
        rw [performAll, request.perform_quiet answer fresh] at kept
        have rest := ih fun core => (kept core).trans (same core).2.symm
        rw [same.reached] at rest
        rw [reached_granted answer, List.forall_mem_cons]
        exact ⟨fresh, fun other member again => rest other member (same.fresh.mpr again)⟩

/-- What a reached request writes is mapped. -/
theorem backs_of_lastWritten (written : lastWritten core address (reached engines requests) = some byte) :
    (engines core).map.Backs address 1 := by
  have granted : ∀ request ∈ reached engines requests, request.granted engines = true :=
    fun request member => List.mem_takeWhile_imp member
  revert written granted
  generalize reached engines requests = asked
  intro written granted
  induction asked with
  | nil => cases written
  | cons request later ih =>
    rw [lastWritten, Option.or_eq_some_iff] at written
    rcases written with rest | ⟨-, here⟩
    · exact ih rest (List.forall_mem_cons.mp granted).2
    · cases request with
      | map owner begin size perms => cases here
      | write owner start data =>
        simp only [Request.byteAt] at here
        split at here
        · rename_i inside
          obtain ⟨rfl, low⟩ := inside
          obtain ⟨below, -⟩ := List.getElem?_eq_some_iff.mp here
          have backs := of_decide_eq_true (granted _ List.mem_cons_self) (address - start) below
          intro index first
          rwa [Nat.lt_one_iff.mp first, Nat.add_zero, ← Nat.add_sub_cancel' low]
        · cases here

namespace ZeeboSaveStateManager

/-- What a stretch of the file asks for, with the bytes behind it unless the file is rejected
there. -/
abbrev Asked := List Request × Option (List Byte)

def chunkRequests (core : CoreId) (begin size : Nat) : (rounds done : Nat) → List Byte → Asked
  | 0, _, input => ([], some input)
  | rounds + 1, done, input =>
    if done < size then
      let n := min ioChunk (size - done)
      match readExact input n with
      | none => ([], none)
      | some (chunk, rest) =>
        let later := chunkRequests core begin size rounds (done + n) rest
        (.write core (begin + done) chunk :: later.1, later.2)
    else ([], some input)

def recordRequests (input : List Byte) : Asked :=
  match readExact input ZeeboMemRegionHeader.packedSize with
  | none => ([], none)
  | some (record, rest) =>
    let rh := ZeeboMemRegionHeader.ofBytes record
    if malformed rh then ([], none)
    else
      let core := CoreId.ofWord rh.coreId
      let chunks := chunkRequests core rh.begin.toNat rh.dataSize.toNat rh.dataSize.toNat 0 rest
      (.map core rh.begin rh.dataSize rh.perms :: chunks.1, chunks.2)

def fileRequests : Nat → List Byte → Asked
  | 0, input => ([], some input)
  | count + 1, input =>
    match recordRequests input with
    | (first, none) => (first, none)
    | (first, some rest) =>
      let later := fileRequests count rest
      (first ++ later.1, later.2)

/-- The requests made, and the bytes behind them if all were granted. -/
def serve (asked : Asked) (engines : Engines) : Engines × Option (List Byte) :=
  let done := performAll asked.1 engines
  (done.2, if done.1 then asked.2 else none)

theorem serve_cons (request : Request) (later : Asked) (engines : Engines) :
    serve (request :: later.1, later.2) engines =
      if (request.perform engines).1 then serve later (request.perform engines).2
      else ((request.perform engines).2, none) := by
  simp only [serve, performAll_cons]
  split <;> rfl

theorem serve_append (first : List Request) (later : Asked) (engines : Engines) :
    serve (first ++ later.1, later.2) engines =
      if (performAll first engines).1 then serve later (performAll first engines).2
      else ((performAll first engines).2, none) := by
  simp only [serve, performAll_append]
  split <;> rfl

/-- The copy loop makes the requests of its chunks. -/
theorem loadChunks_serve (core : CoreId) (begin size rounds done : Nat) (engines : Engines) (uc : UcEngine)
    (input : List Byte) :
    (Function.update engines core (loadChunks begin size rounds done uc input).1,
        (loadChunks begin size rounds done uc input).2) =
      serve (chunkRequests core begin size rounds done input) (Function.update engines core uc) := by
  induction rounds generalizing done uc input with
  | zero => rfl
  | succ rounds ih =>
    rw [loadChunks, chunkRequests]
    by_cases more : done < size
    · rw [if_pos more, if_pos more]
      cases taken : readExact input (min ioChunk (size - done)) with
      | none => simp only [taken]; rfl
      | some read =>
        obtain ⟨chunk, rest⟩ := read
        cases outcome : uc.ucMemWrite (begin + done) chunk with
        | mk error next =>
          have step : Request.perform (Function.update engines core uc) (.write core (begin + done) chunk) =
              (decide (error = .ok), Function.update engines core next) := by
            simp only [Request.perform, Function.update_self, Function.update_idem, outcome]
          simp only [taken, outcome, serve_cons, step]
          by_cases written : error = .ok
          · simp only [if_pos written, decide_eq_true written, if_true]
            exact ih _ _ _
          · simp only [if_neg written, decide_eq_false written]
            rfl
    · rw [if_neg more, if_neg more]
      rfl

/-- A record asks for its range and then for its chunks. -/
theorem loadRegion_serve (engines : Engines) (input : List Byte) :
    loadRegion engines input = serve (recordRequests input) engines := by
  unfold loadRegion recordRequests
  cases readExact input ZeeboMemRegionHeader.packedSize with
  | none => rfl
  | some read =>
    obtain ⟨record, rest⟩ := read
    simp only
    generalize ZeeboMemRegionHeader.ofBytes record = rh
    cases bad : malformed rh with
    | true => rfl
    | false =>
      simp only [Bool.false_eq_true, if_false]
      cases outcome : (engines (CoreId.ofWord rh.coreId)).ucMemMap rh.begin rh.dataSize rh.perms with
      | mk error next =>
        have step : Request.perform engines (.map (CoreId.ofWord rh.coreId) rh.begin rh.dataSize rh.perms) =
            (decide (error = .ok ∨ error = .map), Function.update engines (CoreId.ofWord rh.coreId) next) := by
          simp only [Request.perform, outcome]
        simp only [serve_cons, step, ← loadChunks_serve]
        by_cases mapped : error = .ok ∨ error = .map
        · rw [if_neg (by tauto), decide_eq_true mapped, if_pos rfl]
        · rw [if_pos (by tauto), decide_eq_false mapped]
          rfl

theorem loadRegions_serve (count : Nat) (engines : Engines) (input : List Byte) :
    loadRegions count engines input = serve (fileRequests count input) engines := by
  induction count generalizing engines input with
  | zero => rfl
  | succ count ih =>
    rw [loadRegions, fileRequests, loadRegion_serve]
    obtain ⟨first, left⟩ := recordRequests input
    cases left with
    | none =>
      simp only [serve, ite_self]
    | some rest =>
      have whole := serve_append first (fileRequests count rest) engines
      cases outcome : performAll first engines with
      | mk answer next =>
        rw [outcome] at whole
        have record : serve (first, some rest) engines = (next, if answer then some rest else none) := by
          rw [serve, outcome]
        simp only [whole, record]
        cases answer with
        | false => rfl
        | true => exact ih next rest

variable {c0Ctx c1Ctx : List Byte}

theorem restoreContexts_memory (engines : Engines) (c0Ctx c1Ctx : List Byte) (core : CoreId) :
    ((restoreContexts engines c0Ctx c1Ctx).2 core).map = (engines core).map ∧
      ((restoreContexts engines c0Ctx c1Ctx).2 core).bytes = (engines core).bytes := by
  cases takes : (engines .core0).config.takesContext c0Ctx <;>
    cases also : (engines .core1).config.takesContext c1Ctx <;>
      cases core <;> simp [restoreContexts, UcEngine.ucContextRestore, takes, also]

/-- Core 0 has its new context whatever becomes of core 1. -/
theorem restoreContexts_core0 (takes : (engines .core0).config.takesContext c0Ctx = true) :
    ((restoreContexts engines c0Ctx c1Ctx).2 .core0).context = c0Ctx := by
  simp only [restoreContexts, UcEngine.ucContextRestore, takes, if_true]
  rfl

/-- A refusal without effect: core 0 refuses, or has the context already. -/
theorem restoreContexts_refused (kept : (engines .core0).config.takesContext c0Ctx = true →
    c0Ctx = (engines .core0).context) (refused : (restoreContexts engines c0Ctx c1Ctx).1 = false) :
    (restoreContexts engines c0Ctx c1Ctx).2 = engines := by
  cases takes : (engines .core0).config.takesContext c0Ctx with
  | false => simp [restoreContexts, UcEngine.ucContextRestore, takes]
  | true =>
    have same := kept takes
    subst same
    cases also : (engines .core1).config.takesContext c1Ctx with
    | false => simp [restoreContexts, UcEngine.ucContextRestore, takes, also]
    | true => simp [restoreContexts, UcEngine.ucContextRestore, takes, also] at refused

/-- What the regions of a file ask for. -/
def Front.asked (front : Front) : Asked := fileRequests front.hdr.numMemRegions.toNat front.body

variable {file : List Byte} {front : Front} {counters : Counters}

/-- The loop over the regions did not come to the end. -/
theorem loadState_stopped (found : readFront engines file = some front)
    (left : (serve front.asked engines).2 = none) :
    loadState file engines counters = ⟨false, (performAll front.asked.1 engines).2, counters⟩ := by
  have served : loadRegions front.hdr.numMemRegions.toNat engines front.body =
      ((performAll front.asked.1 engines).2, none) := by
    rw [loadRegions_serve]
    exact Prod.ext rfl left
  simp only [loadState, found, served]

/-- It did, and the contexts decide. -/
theorem loadState_served {rest : List Byte} (found : readFront engines file = some front)
    (left : (serve front.asked engines).2 = some rest) :
    (loadState file engines counters).ok =
        (restoreContexts (performAll front.asked.1 engines).2 front.c0Ctx front.c1Ctx).1 ∧
      (loadState file engines counters).engines =
        (restoreContexts (performAll front.asked.1 engines).2 front.c0Ctx front.c1Ctx).2 ∧
      ((loadState file engines counters).ok = false → (loadState file engines counters).counters = counters) := by
  have served : loadRegions front.hdr.numMemRegions.toNat engines front.body =
      ((performAll front.asked.1 engines).2, some rest) := by
    rw [loadRegions_serve]
    exact Prod.ext rfl left
  simp only [loadState, found, served]
  cases restoreContexts (performAll front.asked.1 engines).2 front.c0Ctx front.c1Ctx with
  | mk answer next => cases answer <;> simp

/-- Regions and bytes are those after the last request made. -/
theorem loadState_memory (counters : Counters) (found : readFront engines file = some front) (core : CoreId) :
    ((loadState file engines counters).engines core).map = ((performAll front.asked.1 engines).2 core).map ∧
      ((loadState file engines counters).engines core).bytes =
        ((performAll front.asked.1 engines).2 core).bytes := by
  cases left : (serve front.asked engines).2 with
  | none =>
    rw [loadState_stopped found left]
    exact ⟨rfl, rfl⟩
  | some rest =>
    obtain ⟨-, after, -⟩ := @loadState_served _ _ _ counters _ found left
    rw [after]
    exact restoreContexts_memory _ _ _ core

/-- The same regions, the same bytes wherever something is mapped, the same contexts and the same
counters. -/
structure Unchanged (engines : Engines) (counters : Counters) (loaded : Loaded) : Prop where
  maps : ∀ core, (loaded.engines core).map = (engines core).map
  bytes : ∀ core address, (engines core).map.Backs address 1 →
    (loaded.engines core).bytes address = (engines core).bytes address
  contexts : ∀ core, (loaded.engines core).context = (engines core).context
  counters : loaded.counters = counters

/-- The requests that are reached map nothing new and leave each byte as it is, and a context
that core 0 takes behind the last of them is the one it has. -/
structure Front.Harmless (engines : Engines) (front : Front) : Prop where
  mapsNothing : ∀ request ∈ reached engines front.asked.1, ¬ request.Fresh engines
  writesBack : ∀ core address byte, lastWritten core address (reached engines front.asked.1) = some byte →
    byte = (engines core).bytes address
  keepsContext : front.asked.1.all (Request.granted engines) = true → front.asked.2.isSome = true →
    (engines .core0).config.takesContext front.c0Ctx = true → front.c0Ctx = (engines .core0).context

/-- A file rejected at its header or contexts, or harmless behind them. -/
def Harmless (engines : Engines) (file : List Byte) : Prop :=
  ∀ front, readFront engines file = some front → front.Harmless engines

theorem Unchanged.harmless (unchanged : Unchanged engines counters (loadState file engines counters)) :
    Harmless engines file := by
  intro front found
  have memory := loadState_memory counters found
  have quiet : ∀ request ∈ reached engines front.asked.1, ¬ request.Fresh engines :=
    not_fresh_of_kept fun core => (memory core).1.symm.trans (unchanged.maps core)
  have performed := performAll_quiet quiet
  refine ⟨quiet, ?_, ?_⟩
  · intro core address byte written
    have same := unchanged.bytes core address (backs_of_lastWritten written)
    rw [(memory core).2, performed] at same
    simpa only [overwrite, written, Option.getD_some] using same
  · intro granted complete takes
    obtain ⟨rest, behind⟩ := Option.isSome_iff_exists.mp complete
    have left : (serve front.asked engines).2 = some rest := by
      rw [serve, performed, granted, behind]
      rfl
    obtain ⟨-, after, -⟩ := @loadState_served _ _ _ counters _ found left
    rw [performed] at after
    rw [← unchanged.contexts .core0, after]
    symm
    apply restoreContexts_core0
    exact takes

theorem Harmless.loadState_eq (harmless : Harmless engines file)
    (rejected : (loadState file engines counters).ok = false) :
    loadState file engines counters = ⟨false, engines, counters⟩ := by
  cases found : readFront engines file with
  | none => rw [loadState, found]
  | some front =>
    obtain ⟨quiet, back, context⟩ := harmless front found
    have performed := performAll_quiet quiet
    rw [overwrite_self back] at performed
    cases left : (serve front.asked engines).2 with
    | none => rw [loadState_stopped found left, performed]
    | some rest =>
      obtain ⟨answer, after, kept⟩ := @loadState_served _ _ _ counters _ found left
      rw [performed] at answer after
      rw [serve, performed] at left
      have granted : front.asked.1.all (Request.granted engines) = true := by
        by_contra refused
        rw [if_neg refused] at left
        cases left
      have complete : front.asked.2.isSome = true := by
        rw [if_pos granted] at left
        rw [left]
        rfl
      rw [restoreContexts_refused (context granted complete) (answer.symm.trans rejected)] at after
      exact Loaded.ext rejected after (kept rejected)

/-- A rejected file leaves everything as it was exactly when it is harmless. -/
theorem unchanged_iff (file : List Byte) (engines : Engines) (counters : Counters)
    (rejected : (loadState file engines counters).ok = false) :
    Unchanged engines counters (loadState file engines counters) ↔ Harmless engines file := by
  constructor
  · exact Unchanged.harmless
  · intro harmless
    rw [harmless.loadState_eq rejected]
    exact ⟨fun _ => rfl, fun _ _ _ => rfl, fun _ => rfl, rfl⟩

/-! A file that ends behind the header of its only region. -/

def truncatedFront : Front :=
  ⟨.mk stateMagic stateVersion 0 0 0 0 1 2 1, [0xAA], [0xAA, 0xAA], (regionHeader .core0 (page 7)).bytes⟩

def truncated : List Byte :=
  truncatedFront.hdr.bytes ++ (truncatedFront.c0Ctx ++ (truncatedFront.c1Ctx ++ truncatedFront.body))

/-- Engines with nothing mapped. -/
def bare : Engines := fun core => { onePage 7 0 core with map := .empty }

/-- The missing bytes are noticed after the page has been mapped. -/
theorem not_unchanged_truncated :
    (loadState truncated bare ⟨0, 0, 0, 0⟩).ok = false ∧
      ¬ Unchanged bare ⟨0, 0, 0, 0⟩ (loadState truncated bare ⟨0, 0, 0, 0⟩) := by
  refine ⟨by decide +kernel, fun unchanged => ?_⟩
  have same := congrArg (fun map => map.regions.length) (unchanged.maps .core0)
  revert same
  decide +kernel

/-- Where the page is mapped the same file has no effect. -/
theorem unchanged_iff_truncated :
    (loadState truncated (onePage 7 0) ⟨0, 0, 0, 0⟩).ok = false ∧
      Unchanged (onePage 7 0) ⟨0, 0, 0, 0⟩ (loadState truncated (onePage 7 0) ⟨0, 0, 0, 0⟩) := by
  have rejected : (loadState truncated (onePage 7 0) ⟨0, 0, 0, 0⟩).ok = false := by decide +kernel
  refine ⟨rejected, (unchanged_iff _ _ _ rejected).mpr fun front found => ?_⟩
  have read : readFront (onePage 7 0) truncated = some truncatedFront := by decide +kernel
  obtain rfl := Option.some.inj (read.symm.trans found)
  have asked : truncatedFront.asked = ([.map .core0 0x1000 0x1000 7], none) := by decide +kernel
  have only : reached (onePage 7 0) [.map .core0 0x1000 0x1000 7] = [.map .core0 0x1000 0x1000 7] := by
    decide +kernel
  refine ⟨?_, ?_, ?_⟩
  · rw [asked, only]
    intro request member
    obtain rfl := List.mem_singleton.mp member
    have taken : ¬ (MemoryMap.single (page 7) (by decide)).Free ⟨0x1000, 0x1000 + 0x1000 - 1, 7⟩ := by decide
    exact taken
  · rw [asked, only]
    intro core address byte written
    cases written
  · rw [asked]
    intro _ complete
    cases complete

end ZeeboSaveStateManager

end ZeeboLle.SaveState

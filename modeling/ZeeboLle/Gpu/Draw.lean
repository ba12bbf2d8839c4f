import ZeeboLle.Unicorn.Memory
import Mathlib.Logic.Function.Basic

/-! Drawing through the GL hook. Vertices are assembled from guest arrays, for an indexed draw
only once for each index in use, and the rasterizer walks them as triangles, strips or fans.
Floating point is given: components as they are read from guest memory, the product of two
matrices and the transform of a vertex. -/
namespace ZeeboLle.Gpu

open Unicorn

namespace Glenum

def byte : Word := 0x1400
def ubyte : Word := 0x1401
def short : Word := 0x1402
def ushort : Word := 0x1403
def float : Word := 0x1406
def fixed : Word := 0x140c

def typeSize (type : Word) : Word :=
  if type = byte ∨ type = ubyte then 1 else if type = short ∨ type = ushort then 2 else 4

end Glenum

inductive Prim where
  | points
  | lines
  | lineStrip
  | triangles
  | triStrip
  | triFan
deriving DecidableEq

def toPrim (mode : Word) : Prim :=
  if mode = 0 then .points
  else if mode = 1 then .lines
  else if mode = 3 then .lineStrip
  else if mode = 5 then .triStrip
  else if mode = 6 then .triFan
  else .triangles

section Rasterizer

variable {V : Type}

/-- The body of a loop over a counter that goes up by `step + 1` while `i + margin < limit`. -/
def forLoop (limit margin step : Nat) (body : Nat → List α) (i : Nat) : List α :=
  if i + margin < limit then body i ++ forLoop limit margin step body (i + (step + 1)) else []
termination_by limit - i

/-- One `fill_tri` call. -/
def fillTri (first second third : Option V) : List (V × V × V) :=
  match first, second, third with
  | some first, some second, some third => [(first, second, third)]
  | _, _, _ => []

/-- The triangles a primitive fills, in order. -/
def draw (prim : Prim) (v : List V) : List (V × V × V) :=
  match prim with
  | .triangles => forLoop v.length 2 2 (fun i => fillTri v[i]? v[i + 1]? v[i + 2]?) 0
  | .triStrip =>
    forLoop v.length 2 0
      (fun i =>
        if i % 2 = 0 then fillTri v[i]? v[i + 1]? v[i + 2]? else fillTri v[i + 1]? v[i]? v[i + 2]?)
      0
  | .triFan =>
    if 3 ≤ v.length then forLoop v.length 1 0 (fun i => fillTri v[0]? v[i]? v[i + 1]?) 1 else []
  | _ => []

/-- The vertex behind a position of the index list. -/
def indexed (v : List V) (idx : List Nat) (i : Nat) : Option V := idx[i]?.bind (v[·]?)

def valid (v : List V) (idx : List Nat) (i : Nat) : Bool := (indexed v idx i).isSome

def drawIndexed (prim : Prim) (v : List V) (idx : List Nat) : List (V × V × V) :=
  match prim with
  | .triangles =>
    forLoop idx.length 2 2
      (fun i =>
        if valid v idx i && valid v idx (i + 1) && valid v idx (i + 2) then
          fillTri (indexed v idx i) (indexed v idx (i + 1)) (indexed v idx (i + 2))
        else [])
      0
  | .triStrip =>
    forLoop idx.length 2 0
      (fun i =>
        if !valid v idx i || !valid v idx (i + 1) || !valid v idx (i + 2) then []
        else if i % 2 = 0 then
          fillTri (indexed v idx i) (indexed v idx (i + 1)) (indexed v idx (i + 2))
        else fillTri (indexed v idx (i + 1)) (indexed v idx i) (indexed v idx (i + 2)))
      0
  | .triFan =>
    if idx ≠ [] then
      forLoop idx.length 1 0
        (fun i =>
          if valid v idx 0 && valid v idx i && valid v idx (i + 1) then
            fillTri (indexed v idx 0) (indexed v idx i) (indexed v idx (i + 1))
          else [])
        1
    else []
  | _ => []

end Rasterizer

structure Vertex (F : Type) where
  x : F
  y : F
  z : F
  w : F
  r : F
  g : F
  b : F
  a : F
  u : F
  v : F
  u1 : F
  v1 : F

/-- Size and stride are `int`s, kept as their 32 bits. -/
structure GuestArray where
  enabled : Bool
  va : Word
  size : Word
  type : Word
  stride : Word

/-- A read of guest memory yields its bytes or fails; a component read converts them. -/
structure GuestMachine (F : Type) where
  read : Word → (size : Nat) → Option (Fin size → Byte)
  readComponent : Word → Word → F

structure FloatOps (F Mat4 : Type) where
  zero : F
  one : F
  matMul : Mat4 → Mat4 → Mat4
  transformVertex : Mat4 → Vertex F → Vertex F

/-- The part of the hook that draws read. -/
structure IglHook (F Mat4 : Type) where
  vtx : GuestArray
  col : GuestArray
  tex : GuestArray
  currentColor : Vertex F
  mvp : Mat4
  modelview : Mat4
  projection : Mat4

variable {F Mat4 : Type}

def GuestArray.bytes (array : GuestArray) : Word :=
  if array.stride ≠ 0 then array.stride else array.size * Glenum.typeSize array.type

/-- Component of an element of an array. -/
def GuestArray.component (array : GuestArray) (gm : GuestMachine F) (e component : Word) : F :=
  gm.readComponent (array.va + e * array.bytes + component * Glenum.typeSize array.type) array.type

namespace IglHook

/-- One element, transformed by the composite matrix. -/
def element (ops : FloatOps F Mat4) (hook : IglHook F Mat4) (gm : GuestMachine F) (e : Word) :
    Vertex F :=
  let vx : Vertex F :=
    { x := ops.zero, y := ops.zero, z := ops.zero, w := ops.one
      r := hook.currentColor.r, g := hook.currentColor.g, b := hook.currentColor.b
      a := hook.currentColor.a, u := ops.zero, v := ops.zero, u1 := ops.zero, v1 := ops.zero }
  let vx :=
    if hook.vtx.enabled then
      { vx with
        x := hook.vtx.component gm e 0
        y := hook.vtx.component gm e 1
        z := if 3 ≤ hook.vtx.size.toInt then hook.vtx.component gm e 2 else vx.z }
    else vx
  let vx :=
    if hook.col.enabled then
      { vx with
        r := hook.col.component gm e 0
        g := hook.col.component gm e 1
        b := hook.col.component gm e 2
        a := if 4 ≤ hook.col.size.toInt then hook.col.component gm e 3 else vx.a }
    else vx
  let vx :=
    if hook.tex.enabled then
      { vx with u := hook.tex.component gm e 0, v := hook.tex.component gm e 1 }
    else vx
  ops.transformVertex hook.mvp vx

/-- The composite matrix is recomputed at every call. -/
def assemble (ops : FloatOps F Mat4) (hook : IglHook F Mat4) (gm : GuestMachine F)
    (first count : Nat) : IglHook F Mat4 × List (Vertex F) :=
  let hook := { hook with mvp := ops.matMul hook.projection hook.modelview }
  (hook, (List.range count).map fun k => hook.element ops gm (BitVec.ofNat 32 (first + k)))

end IglHook

/-- One index: a byte, or a little-endian halfword. -/
def readIndex (gm : GuestMachine F) (idxVa type : Word) (i : Nat) : Option Nat :=
  if type = Glenum.ubyte then (gm.read (idxVa + BitVec.ofNat 32 i) 1).map fun b => (b 0).toNat
  else (gm.read (idxVa + BitVec.ofNat 32 i * 2) 2).map fun s => (s 0).toNat + 0x100 * (s 1).toNat

/-- The first loop of `assemble_indexed`, from counter `i` on. -/
def readIndices (gm : GuestMachine F) (idxVa type : Word) : Nat → Nat → Option (List Nat)
  | 0, _ => some []
  | count + 1, i => do
    let id ← readIndex gm idxVa type i
    let rest ← readIndices gm idxVa type count (i + 1)
    some (id :: rest)

/-- The state of the second loop; an entry of the table below zero is unset. -/
structure Compaction (F Mat4 : Type) where
  hook : IglHook F Mat4
  remap : Nat → Int
  verts : List (Vertex F)
  outIdx : List Nat

def Compaction.step (ops : FloatOps F Mat4) (gm : GuestMachine F) (state : Compaction F Mat4)
    (id : Nat) : Option (Compaction F Mat4) :=
  if state.remap id < 0 then
    let (hook, one) := state.hook.assemble ops gm id 1
    match one with
    | [vertex] =>
      some
        { hook := hook
          remap := Function.update state.remap id state.verts.length
          verts := state.verts ++ [vertex]
          outIdx := state.outIdx ++ [state.verts.length] }
    | _ => none
  else some { state with outIdx := state.outIdx ++ [(state.remap id).toNat] }

/-- An index that cannot be read leaves nothing to draw. -/
def IglHook.assembleIndexed (ops : FloatOps F Mat4) (hook : IglHook F Mat4) (gm : GuestMachine F)
    (idxVa : Word) (count : Nat) (type : Word) : IglHook F Mat4 × List (Vertex F) × List Nat :=
  match readIndices gm idxVa type count 0 with
  | none => (hook, [], [])
  | some guestIdx =>
    match guestIdx.foldlM (Compaction.step ops gm) ⟨hook, fun _ => -1, [], []⟩ with
    | none => (hook, [], [])
    | some state => (state.hook, state.verts, state.outIdx)

/-- The draws of the dispatch: whether the call is taken, and the triangles filled. -/
def IglHook.glDrawArrays (ops : FloatOps F Mat4) (hook : IglHook F Mat4) (gm : GuestMachine F)
    (mode first count : Word) : Bool × IglHook F Mat4 × List (Vertex F × Vertex F × Vertex F) :=
  if 1000000 < count.toNat ∨ 0x7fffffff - count.toNat < first.toNat then (false, hook, [])
  else
    let (hook, verts) := hook.assemble ops gm first.toNat count.toNat
    (true, hook, draw (toPrim mode) verts)

def IglHook.glDrawElements (ops : FloatOps F Mat4) (hook : IglHook F Mat4) (gm : GuestMachine F)
    (mode count type idxVa : Word) :
    Bool × IglHook F Mat4 × List (Vertex F × Vertex F × Vertex F) :=
  if 1000000 < count.toNat ∨ (type ≠ Glenum.ubyte ∧ type ≠ Glenum.ushort) then (false, hook, [])
  else
    let (hook, verts, idx) := hook.assembleIndexed ops gm idxVa count.toNat type
    (true, hook, drawIndexed (toPrim mode) verts idx)

section Walk

variable {V : Type} {v w : List V} {idx : List Nat}

theorem forLoop_congr {limit margin step : Nat} {body other : Nat → List α}
    (same : ∀ i, body i = other i) (i : Nat) :
    forLoop limit margin step body i = forLoop limit margin step other i := by
  have equal : body = other := funext same
  rw [equal]

theorem forLoop_done {limit margin step i : Nat} {body : Nat → List α} (done : limit ≤ i + margin) :
    forLoop limit margin step body i = [] := by
  rw [forLoop, if_neg (by omega)]

/-- A bounds test before a triangle changes nothing where a missing vertex fills none. -/
theorem fillTri_guarded (first second third : Option V) :
    (if first.isSome && second.isSome && third.isSome then fillTri first second third else []) =
      fillTri first second third := by
  cases first with
  | none => rfl
  | some first =>
    cases second with
    | none => rfl
    | some second =>
      cases third with
      | none => rfl
      | some third => rfl

theorem indexed_eq (same : idx.map (v[·]?) = w.map some) (i : Nat) : indexed v idx i = w[i]? := by
  have here := congrArg (·[i]?) same
  simp only [List.getElem?_map] at here
  rw [indexed]
  cases held : idx[i]? with
  | none => simpa [held] using here.symm
  | some out =>
    rw [held, Option.map_some] at here
    cases kept : w[i]? with
    | none => simp [kept] at here
    | some vertex => simpa [kept] using here

theorem drawIndexed_eq_draw (prim : Prim) (same : idx.map (v[·]?) = w.map some) :
    drawIndexed prim v idx = draw prim w := by
  have length : idx.length = w.length := by simpa using congrArg List.length same
  have lookup := indexed_eq same
  cases prim with
  | triangles =>
    simp only [drawIndexed, draw, length]
    apply forLoop_congr
    intro i
    simp only [valid, lookup]
    exact fillTri_guarded _ _ _
  | triStrip =>
    simp only [drawIndexed, draw, length]
    apply forLoop_congr
    intro i
    simp only [valid, lookup]
    rw [← fillTri_guarded w[i]? w[i + 1]? w[i + 2]?, ← fillTri_guarded w[i + 1]? w[i]? w[i + 2]?]
    cases w[i]?.isSome <;> cases w[i + 1]?.isSome <;> cases w[i + 2]?.isSome <;> simp
  | triFan =>
    simp only [drawIndexed, draw, length]
    by_cases enough : 3 ≤ w.length
    · have nonempty : idx ≠ [] := by
        rintro rfl
        simp at length
        omega
      rw [if_pos nonempty, if_pos enough]
      apply forLoop_congr
      intro i
      simp only [valid, lookup]
      exact fillTri_guarded _ _ _
    · rw [if_neg enough, forLoop_done (by omega), ite_self]
  | points => rfl
  | lines => rfl
  | lineStrip => rfl

end Walk

variable {ops : FloatOps F Mat4} {hook : IglHook F Mat4} {gm : GuestMachine F}

/-- The vertex at an index, as assembled on its own. -/
def IglHook.vertexAt (ops : FloatOps F Mat4) (hook : IglHook F Mat4) (gm : GuestMachine F)
    (id : Nat) : Vertex F :=
  { hook with mvp := ops.matMul hook.projection hook.modelview }.element ops gm (BitVec.ofNat 32 id)

theorem assemble_one (hook : IglHook F Mat4) (id : Nat) :
    hook.assemble ops gm id 1 =
      ({ hook with mvp := ops.matMul hook.projection hook.modelview },
        [hook.vertexAt ops gm id]) := rfl

/-- What the second loop has reached: each output index leads to the vertex of its guest index,
and so does every entry of the table that is set. -/
structure Compacted (ops : FloatOps F Mat4) (gm : GuestMachine F) (hook : IglHook F Mat4)
    (seen : List Nat) (state : Compaction F Mat4) : Prop where
  still : state.hook.vertexAt ops gm = hook.vertexAt ops gm
  out : state.outIdx.map (state.verts[·]?) = (seen.map (hook.vertexAt ops gm)).map some
  table : ∀ id, 0 ≤ state.remap id →
    state.verts[(state.remap id).toNat]? = some (hook.vertexAt ops gm id)

theorem Compaction.step_unset {state : Compaction F Mat4} {id : Nat} (unset : state.remap id < 0) :
    state.step ops gm id = some
      { hook := { state.hook with mvp := ops.matMul state.hook.projection state.hook.modelview }
        remap := Function.update state.remap id state.verts.length
        verts := state.verts ++ [state.hook.vertexAt ops gm id]
        outIdx := state.outIdx ++ [state.verts.length] } := by
  rw [step, if_pos unset]
  rfl

theorem Compacted.step {seen : List Nat} {state : Compaction F Mat4}
    (reached : Compacted ops gm hook seen state) (id : Nat) :
    ∃ next, state.step ops gm id = some next ∧ Compacted ops gm hook (seen ++ [id]) next := by
  by_cases unset : state.remap id < 0
  · refine ⟨_, Compaction.step_unset unset, ?_⟩
    rw [reached.still]
    have kept : ∀ {out : Nat} {vertex}, state.verts[out]? = some vertex →
        (state.verts ++ [hook.vertexAt ops gm id])[out]? = some vertex := by
      intro out vertex found
      have below := (List.getElem?_eq_some_iff.mp found).1
      rw [List.getElem?_append_left below, found]
    constructor
    · exact reached.still
    · simp only [List.map_append]
      congr 1
      · rw [← reached.out]
        apply List.map_congr_left
        intro out member
        have mapped : state.verts[out]? ∈ state.outIdx.map (state.verts[·]?) :=
          List.mem_map_of_mem member
        rw [reached.out] at mapped
        obtain ⟨vertex, _, found⟩ := List.mem_map.mp mapped
        rw [← found]
        exact kept found.symm
      · simp
    · intro other entered
      simp only at entered ⊢
      by_cases same : other = id
      · subst same
        simp
      · rw [Function.update_of_ne same] at entered ⊢
        exact kept (reached.table other entered)
  · refine ⟨{ state with outIdx := state.outIdx ++ [(state.remap id).toNat] }, ?_, ?_⟩
    · rw [Compaction.step, if_neg unset]
    · refine ⟨reached.still, ?_, reached.table⟩
      simp only [List.map_append, reached.out]
      simp [reached.table id (by omega)]

theorem Compacted.run {seen : List Nat} {state : Compaction F Mat4}
    (reached : Compacted ops gm hook seen state) (ids : List Nat) :
    ∃ last, ids.foldlM (Compaction.step ops gm) state = some last ∧
      Compacted ops gm hook (seen ++ ids) last := by
  induction ids generalizing seen state with
  | nil => exact ⟨state, rfl, by simpa using reached⟩
  | cons id ids ih =>
    obtain ⟨next, stepped, after⟩ := reached.step id
    obtain ⟨last, finished, compacted⟩ := ih after
    refine ⟨last, ?_, by simpa using compacted⟩
    rw [List.foldlM_cons, stepped]
    exact finished

theorem readIndices_eq_some {idxVa type : Word} {ids : List Nat} {i : Nat}
    (read : ∀ k, k < ids.length → readIndex gm idxVa type (i + k) = ids[k]?) :
    readIndices gm idxVa type ids.length i = some ids := by
  induction ids generalizing i with
  | nil => rfl
  | cons id ids ih =>
    have first : readIndex gm idxVa type i = some id := by simpa using read 0 (by simp)
    have rest : readIndices gm idxVa type ids.length (i + 1) = some ids := by
      apply ih
      intro k below
      have later := read (k + 1) (by simpa using below)
      rwa [List.getElem?_cons_succ, Nat.add_comm k, ← Nat.add_assoc] at later
    rw [List.length_cons, readIndices, first, rest]
    rfl

theorem readIndices_eq_none {idxVa type : Word} {count i k : Nat} (below : k < count)
    (unreadable : readIndex gm idxVa type (i + k) = none) :
    readIndices gm idxVa type count i = none := by
  induction count generalizing i k with
  | zero => exact absurd below (Nat.not_lt_zero k)
  | succ count ih =>
    rw [readIndices]
    cases first : readIndex gm idxVa type i with
    | none => rfl
    | some id =>
      cases k with
      | zero =>
        rw [Nat.add_zero, first] at unreadable
        cases unreadable
      | succ k =>
        rw [Nat.add_comm k, ← Nat.add_assoc] at unreadable
        rw [ih (Nat.lt_of_succ_lt_succ below) unreadable]
        rfl

theorem flatMap_assemble (ids : List Nat) :
    (ids.flatMap fun id => (hook.assemble ops gm id 1).2) = ids.map (hook.vertexAt ops gm) := by
  simp only [assemble_one]
  exact List.flatMap_pure_eq_map _ _

/-- The direct path draws the vertices of consecutive indices. -/
theorem drawArrays_eq_draw {mode first count : Word} (bounded : count.toNat ≤ 1000000)
    (fits : first.toNat + count.toNat ≤ 0x7fffffff) :
    (hook.glDrawArrays ops gm mode first count).2.2 =
      draw (toPrim mode)
        ((List.range' first.toNat count.toNat).flatMap fun id => (hook.assemble ops gm id 1).2) := by
  have taken : ¬(1000000 < count.toNat ∨ 0x7fffffff - count.toNat < first.toNat) := by omega
  rw [IglHook.glDrawArrays, if_neg taken, flatMap_assemble, List.range'_eq_map_range, List.map_map]
  rfl

/-- An indexed draw of readable indices fills the triangles of the vertices assembled one by one
at these indices, in the same order; where an index cannot be read it fills none. -/
theorem drawElements_eq_draw (ops : FloatOps F Mat4) (hook : IglHook F Mat4) (gm : GuestMachine F)
    (mode count type idxVa : Word) (bounded : count.toNat ≤ 1000000)
    (typed : type = Glenum.ubyte ∨ type = Glenum.ushort) :
    (∀ ids : List Nat, ids.length = count.toNat →
        (∀ k, k < count.toNat → readIndex gm idxVa type k = ids[k]?) →
        (hook.glDrawElements ops gm mode count type idxVa).2.2 =
          draw (toPrim mode) (ids.flatMap fun id => (hook.assemble ops gm id 1).2)) ∧
      ((∃ k, k < count.toNat ∧ readIndex gm idxVa type k = none) →
        (hook.glDrawElements ops gm mode count type idxVa).2.2 = []) := by
  have taken : ¬(1000000 < count.toNat ∨ (type ≠ Glenum.ubyte ∧ type ≠ Glenum.ushort)) := by
    rintro (large | ⟨first, second⟩)
    · omega
    · exact typed.elim first second
  rw [IglHook.glDrawElements, if_neg taken]
  simp only [IglHook.assembleIndexed]
  constructor
  · intro ids length read
    have start : Compacted ops gm hook [] ⟨hook, fun _ => -1, [], []⟩ :=
      ⟨rfl, rfl, fun id set => absurd set (by simp)⟩
    obtain ⟨last, finished, compacted⟩ := start.run ids
    have indices : readIndices gm idxVa type count.toNat 0 = some ids := by
      rw [← length] at read ⊢
      exact readIndices_eq_some (by simpa using read)
    rw [indices, flatMap_assemble]
    simp only [finished]
    exact drawIndexed_eq_draw _ compacted.out
  · rintro ⟨k, below, unreadable⟩
    rw [readIndices_eq_none below (by simpa using unreadable)]
    cases toPrim mode with
    | triangles => exact forLoop_done (by simp)
    | triStrip => exact forLoop_done (by simp)
    | triFan => rfl
    | points => rfl
    | lines => rfl
    | lineStrip => rfl

/-- Three byte indices, the first of them used again. -/
theorem drawElements_eq_draw_repeated :
    let ops : FloatOps Nat Unit := ⟨0, 1, fun _ _ => (), fun _ vertex => vertex⟩
    let array : GuestArray := ⟨true, 0x2000, 3, Glenum.fixed, 0⟩
    let color : Vertex Nat := ⟨0, 0, 0, 1, 1, 1, 1, 1, 0, 0, 0, 0⟩
    let hook : IglHook Nat Unit := ⟨array, ⟨false, 0, 0, 0, 0⟩, ⟨false, 0, 0, 0, 0⟩, color, (), (), ()⟩
    let gm : GuestMachine Nat :=
      ⟨fun va _ => some fun _ => if va = 0x1001 then 9 else 4, fun va _ => va.toNat⟩
    (hook.glDrawElements ops gm 4 3 Glenum.ubyte 0x1000).2.2 =
      draw .triangles ([4, 9, 4].flatMap fun id => (hook.assemble ops gm id 1).2) := by
  intro ops array color hook gm
  refine (drawElements_eq_draw ops hook gm 4 3 Glenum.ubyte 0x1000 (by decide) (.inl rfl)).1
    [4, 9, 4] rfl fun k below => ?_
  have three : k = 0 ∨ k = 1 ∨ k = 2 := by
    have bound : k < 3 := below
    omega
  rcases three with rfl | rfl | rfl
  · decide
  · decide
  · decide

end ZeeboLle.Gpu

import ZeeboLle.Gpu.Draw
import ZeeboLle.Gpu.MatrixStack
import ZeeboLle.Scheduling.Transducers

/-! The selectors of the GL hook, which later calls read: the matrix mode and the active texture
unit. A mode for which the hook keeps no matrix selects the modelview matrix, and the unit of the
client arrays is the unit of everything else, so calls that GL keeps apart reach each other here. -/
namespace ZeeboLle.Gpu

open Scheduling Unicorn

namespace Glenum

def texture2d : Word := 0x0de1
def texture0 : Word := 0x84c0
def vertexArray : Word := 0x8074
def colorArray : Word := 0x8076
def texcoordArray : Word := 0x8078
def textureMagFilter : Word := 0x2800
def textureMinFilter : Word := 0x2801
def textureWrapS : Word := 0x2802
def textureWrapT : Word := 0x2803
def nearest : Word := 0x2600
def linear : Word := 0x2601
def repeat' : Word := 0x2901
def clampToEdge : Word := 0x812f

end Glenum

/-- The given arithmetic of draws and matrices, and of fixed-point colours. -/
structure GlOps (F Mat4 : Type) extends FloatOps F Mat4, MatrixOps Mat4 where
  fixedToFloat : Word → F

/-- A decoded image. -/
structure TextureImage where
  width : Word
  height : Word
  rgba : List Byte
deriving DecidableEq

/-- The hook's matrices, arrays and texture state; the rest of the render state is not read here. -/
structure GlState (F Mat4 : Type) where
  matrices : MatrixState Mat4
  vtx : GuestArray
  col : GuestArray
  tex : GuestArray
  currentColor : Vertex F
  mvp : Mat4
  activeUnit : Fin 2
  texEnabled : Fin 2 → Bool
  boundTex : Fin 2 → Word

/-- The slots that read or write this state. An image is what the call's arguments and memory gave,
or nothing if they were rejected; both are settled without the hook's state. -/
inductive GlCall (F Mat4 : Type) where
  | matrix (call : MatrixCall Mat4)
  | glColor4x (r g b a : Word)
  | glActiveTexture (texture : Word)
  | glClientActiveTexture (texture : Word)
  | glTexParameterx (target pname param : Word)
  | glBindTexture (target texture : Word)
  | glEnable (cap : Word)
  | glDisable (cap : Word)
  | glCompressedTexImage2D (image : Option TextureImage)
  | glTexImage2D (image : Option TextureImage)
  | glVertexPointer (size type stride ptr : Word)
  | glColorPointer (size type stride ptr : Word)
  | glTexCoordPointer (size type stride ptr : Word)
  | glEnableClientState (array : Word)
  | glDisableClientState (array : Word)
  | glDrawArrays (gm : GuestMachine F) (mode first count : Word)
  | glDrawElements (gm : GuestMachine F) (mode count type idx : Word)

/-- What the hook passes on to the rasterizer; a draw with the matrix and the state set for it. -/
inductive RasterCall (F Mat4 : Type) where
  | texParameter (unit : Fin 2) (pname param : Word)
  | bindTexture (unit : Fin 2) (id : Word)
  | texImage2d (id : Word) (image : TextureImage)
  | draw (mvp : Mat4) (activeUnit : Fin 2) (texEnabled : Fin 2 → Bool)
      (triangles : List (Vertex F × Vertex F × Vertex F))

variable {F Mat4 : Type}

instance neZero_units : NeZero 2 := ⟨by decide⟩

/-- The unit a texture name selects; anything above the second is the second. -/
def unitOf (requested : Word) : Fin 2 :=
  if requested ≥ Glenum.texture0 then if requested - Glenum.texture0 = 0 then 0 else 1 else 0

/-- The sampler parameters that are modelled. -/
def samplerParam (pname param : Word) : Bool :=
  if pname = Glenum.textureMagFilter || pname = Glenum.textureMinFilter then
    param = Glenum.nearest || param = Glenum.linear
  else if pname = Glenum.textureWrapS || pname = Glenum.textureWrapT then
    param = Glenum.repeat' || param = Glenum.clampToEdge
  else false

namespace GlState

/-- The part of the state that draws read. -/
def hook (state : GlState F Mat4) : IglHook F Mat4 where
  vtx := state.vtx
  col := state.col
  tex := state.tex
  currentColor := state.currentColor
  mvp := state.mvp
  modelview := (state.matrices.matrices .modelview).current
  projection := (state.matrices.matrices .projection).current

/-- `glEnable` and `glDisable`; capabilities other than textures belong to the rest of the state. -/
def setCap (state : GlState F Mat4) (cap : Word) (on : Bool) : GlState F Mat4 :=
  if cap = Glenum.texture2d then
    { state with texEnabled := Function.update state.texEnabled state.activeUnit on }
  else state

/-- An image for the texture bound to the active unit. -/
def texImage (state : GlState F Mat4) : Option TextureImage → List (RasterCall F Mat4)
  | some image => [.texImage2d (state.boundTex state.activeUnit) image]
  | none => []

/-- `glEnableClientState` and `glDisableClientState`. -/
def setArray (state : GlState F Mat4) (array : Word) (on : Bool) : GlState F Mat4 :=
  if array = Glenum.vertexArray then { state with vtx := { state.vtx with enabled := on } }
  else if array = Glenum.colorArray then { state with col := { state.col with enabled := on } }
  else if array = Glenum.texcoordArray then { state with tex := { state.tex with enabled := on } }
  else state

/-- The two texture selectors are one slot here. -/
def dispatch (ops : GlOps F Mat4) (state : GlState F Mat4) :
    GlCall F Mat4 → GlState F Mat4 × List (RasterCall F Mat4)
  | .matrix call => ({ state with matrices := state.matrices.dispatchIgl ops.toMatrixOps call }, [])
  | .glColor4x r g b a =>
    ({ state with currentColor := { state.currentColor with
        r := ops.fixedToFloat r, g := ops.fixedToFloat g, b := ops.fixedToFloat b
        a := ops.fixedToFloat a } }, [])
  | .glActiveTexture texture => ({ state with activeUnit := unitOf texture }, [])
  | .glClientActiveTexture texture => ({ state with activeUnit := unitOf texture }, [])
  | .glTexParameterx target pname param =>
    (state, if target = Glenum.texture2d && samplerParam pname param then
      [.texParameter state.activeUnit pname param] else [])
  | .glBindTexture _ texture =>
    ({ state with boundTex := Function.update state.boundTex state.activeUnit texture },
      [.bindTexture state.activeUnit texture])
  | .glEnable cap => (state.setCap cap true, [])
  | .glDisable cap => (state.setCap cap false, [])
  | .glCompressedTexImage2D image => (state, state.texImage image)
  | .glTexImage2D image => (state, state.texImage image)
  | .glVertexPointer size type stride ptr => ({ state with vtx := ⟨true, ptr, size, type, stride⟩ }, [])
  | .glColorPointer size type stride ptr => ({ state with col := ⟨true, ptr, size, type, stride⟩ }, [])
  | .glTexCoordPointer size type stride ptr => ({ state with tex := ⟨true, ptr, size, type, stride⟩ }, [])
  | .glEnableClientState array => (state.setArray array true, [])
  | .glDisableClientState array => (state.setArray array false, [])
  | .glDrawArrays gm mode first count =>
    -- the matrix is handed over before the composite is computed again
    let (taken, hook, triangles) := state.hook.glDrawArrays ops.toFloatOps gm mode first count
    ({ state with mvp := hook.mvp },
      if taken then [.draw state.mvp state.activeUnit state.texEnabled triangles] else [])
  | .glDrawElements gm mode count type idx =>
    let (taken, hook, triangles) := state.hook.glDrawElements ops.toFloatOps gm mode count type idx
    ({ state with mvp := hook.mvp },
      if taken then [.draw hook.mvp state.activeUnit state.texEnabled triangles] else [])

/-- A mode for which the hook keeps no matrix. -/
def otherMode (mode : Word) : Bool := mode ≠ 0x1700 && mode ≠ 0x1701

/-- A matrix call, other than the selector itself. -/
def isMatrixCall : GlCall F Mat4 → Bool
  | .matrix (.glMatrixMode _) => false
  | .matrix _ => true
  | _ => false

/-- A matrix call made while another mode is set. -/
def strayMatrixCall (state : GlState F Mat4) (call : GlCall F Mat4) : Bool :=
  otherMode state.matrices.matrixMode && isMatrixCall call

/-- Stray matrix calls leave matrices and stacks alone, and all that reaches the rasterizer is as if
they had not been made. -/
def MatricesKept (ops : GlOps F Mat4) (state : GlState F Mat4) (calls : List (GlCall F Mat4)) : Prop :=
  AtEach (dispatch ops) (fun state call => strayMatrixCall state call = true →
      (state.dispatch ops call).1.matrices.matrices = state.matrices.matrices) state calls ∧
    (transduce (dispatch ops) state (erase (dispatch ops) strayMatrixCall state calls)).2 =
      (transduce (dispatch ops) state calls).2

/-- A matrix call without effect on the selected matrix and stack. -/
def Idle (ops : GlOps F Mat4) (matrices : MatrixState Mat4) : MatrixCall Mat4 → Prop
  | .glMatrixMode _ => True
  | .glLoadIdentity => ops.matIdentity = matrices.curMatrix
  | .glLoadMatrixx matrix => matrix = matrices.curMatrix
  | .glMultMatrixx matrix => ops.matMul matrices.curMatrix matrix = matrices.curMatrix
  | .glPushMatrix => (matrices.matrices matrices.selected).depth = 4
  | .glPopMatrix => (matrices.matrices matrices.selected).depth = 0
  | .glRotatex angle x y z => ops.matMul matrices.curMatrix (ops.matRotate angle x y z) = matrices.curMatrix
  | .glScalex x y z => ops.matMul matrices.curMatrix (ops.matScale x y z) = matrices.curMatrix
  | .glTranslatex x y z => ops.matMul matrices.curMatrix (ops.matTranslate x y z) = matrices.curMatrix
  | .glFrustumx left right bottom top near far =>
    ops.matMul matrices.curMatrix (ops.matFrustum left right bottom top near far) = matrices.curMatrix
  | .glOrthox left right bottom top near far =>
    ops.matMul matrices.curMatrix (ops.matOrtho left right bottom top near far) = matrices.curMatrix

/-- Every stray matrix call of a run is idle. -/
def StrayCallsIdle (ops : GlOps F Mat4) (state : GlState F Mat4) (calls : List (GlCall F Mat4)) : Prop :=
  AtEach (dispatch ops) (fun state call => ∀ change, call = .matrix change →
    otherMode state.matrices.matrixMode = true → Idle ops state.matrices change) state calls

section Matrices

variable {ops : GlOps F Mat4} {state : GlState F Mat4} {matrices : MatrixState Mat4}

theorem onCur_eq_iff {change : MatrixStack Mat4 → MatrixStack Mat4} :
    (matrices.onCur change).matrices = matrices.matrices ↔
      change (matrices.matrices matrices.selected) = matrices.matrices matrices.selected := by
  constructor
  · intro same
    have here := congrFun same matrices.selected
    rwa [matrices_onCur_self] at here
  · intro same
    funext mode
    by_cases own : mode = matrices.selected
    · rw [own, matrices_onCur_self, same]
    · exact matrices_onCur_of_ne change own

theorem setCur_eq_iff {matrix : Mat4} :
    (matrices.setCur matrix).matrices = matrices.matrices ↔ matrix = matrices.curMatrix := by
  rw [MatrixState.setCur, onCur_eq_iff]
  constructor
  · exact congrArg MatrixStack.current
  · intro same
    rw [same]
    rfl

theorem push_eq_iff {saved : MatrixStack Mat4} : saved.push = saved ↔ saved.depth = 4 := by
  have bounded := saved.bounded
  rw [MatrixStack.push]
  split
  · rename_i room
    constructor
    · intro same
      have depth := congrArg MatrixStack.depth same
      simp only at depth
      omega
    · omega
  · exact ⟨fun _ => by omega, fun _ => rfl⟩

theorem pop_eq_iff {saved : MatrixStack Mat4} : saved.pop = saved ↔ saved.depth = 0 := by
  rw [MatrixStack.pop]
  split
  · rename_i held
    constructor
    · intro same
      have depth := congrArg MatrixStack.depth same
      simp only at depth
      omega
    · omega
  · exact ⟨fun _ => by omega, fun _ => rfl⟩

/-- A call keeps matrices and stacks exactly when it is idle. -/
theorem dispatchIgl_eq_iff (call : MatrixCall Mat4) :
    (matrices.dispatchIgl ops.toMatrixOps call).matrices = matrices.matrices ↔ Idle ops matrices call := by
  cases call with
  | glMatrixMode mode => exact ⟨fun _ => trivial, fun _ => rfl⟩
  | glPushMatrix => exact onCur_eq_iff.trans push_eq_iff
  | glPopMatrix => exact onCur_eq_iff.trans pop_eq_iff
  | glLoadIdentity => exact setCur_eq_iff
  | glLoadMatrixx matrix => exact setCur_eq_iff
  | glMultMatrixx matrix => exact setCur_eq_iff
  | glRotatex angle x y z => exact setCur_eq_iff
  | glScalex x y z => exact setCur_eq_iff
  | glTranslatex x y z => exact setCur_eq_iff
  | glFrustumx left right bottom top near far => exact setCur_eq_iff
  | glOrthox left right bottom top near far => exact setCur_eq_iff

theorem matrixState_ext {other : MatrixState Mat4} (mode : matrices.matrixMode = other.matrixMode)
    (same : matrices.matrices = other.matrices) : matrices = other := by
  cases matrices
  cases other
  subst mode same
  rfl

/-- A matrix call does not select. -/
theorem matrixMode_dispatch (ops : GlOps F Mat4) (matrices : MatrixState Mat4) {call : GlCall F Mat4} (changes : isMatrixCall call = true) :
    ∃ change, call = .matrix change ∧
      (matrices.dispatchIgl ops.toMatrixOps change).matrixMode = matrices.matrixMode := by
  cases call with
  | matrix change =>
    refine ⟨change, rfl, ?_⟩
    cases change with
    | glMatrixMode mode => cases changes
    | _ => rfl
  | _ => cases changes

/-- A stray call that keeps matrices and stacks does nothing at all. -/
theorem silent_of_kept {call : GlCall F Mat4} (stray : strayMatrixCall state call = true)
    (kept : (state.dispatch ops call).1.matrices.matrices = state.matrices.matrices) :
    Silent (dispatch ops) state call := by
  rw [strayMatrixCall, Bool.and_eq_true] at stray
  obtain ⟨change, rfl, mode⟩ := matrixMode_dispatch ops state.matrices stray.2
  rw [Silent, dispatch, matrixState_ext mode kept]

theorem kept_iff (call : GlCall F Mat4) :
    (strayMatrixCall state call = true →
        (state.dispatch ops call).1.matrices.matrices = state.matrices.matrices) ↔
      ∀ change, call = .matrix change → otherMode state.matrices.matrixMode = true →
        Idle ops state.matrices change := by
  constructor
  · rintro kept change rfl other
    cases change with
    | glMatrixMode mode => trivial
    | _ =>
      refine (dispatchIgl_eq_iff _).mp (kept ?_)
      rw [strayMatrixCall, other]
      rfl
  · intro idle stray
    rw [strayMatrixCall, Bool.and_eq_true] at stray
    obtain ⟨change, rfl, _⟩ := matrixMode_dispatch ops state.matrices stray.2
    exact (dispatchIgl_eq_iff change).mpr (idle change rfl stray.1)

/-- Modes without a matrix of their own are harmless exactly as long as the calls made in them are. -/
theorem matricesKept_iff (calls : List (GlCall F Mat4)) :
    MatricesKept ops state calls ↔ StrayCallsIdle ops state calls := by
  have each : AtEach (dispatch ops) (fun state call => strayMatrixCall state call = true →
      (state.dispatch ops call).1.matrices.matrices = state.matrices.matrices) state calls ↔
        StrayCallsIdle ops state calls := atEach_congr fun _ call => kept_iff call
  rw [MatricesKept, each, and_iff_left_iff_imp]
  intro idle
  rw [transduce_erase ((each.mpr idle).imp fun state call kept stray => silent_of_kept stray (kept stray))]

end Matrices

/-- A sequence of calls with selections of the client unit inserted. -/
inductive Item (F Mat4 : Type) where
  | kept (call : GlCall F Mat4)
  | inserted (texture : Word)

def Item.call : Item F Mat4 → GlCall F Mat4
  | .kept call => call
  | .inserted texture => .glClientActiveTexture texture

def Item.keptCall : Item F Mat4 → Option (GlCall F Mat4)
  | .kept call => some call
  | .inserted _ => none

/-- Which units are enabled, which textures are bound, and all that reached the rasterizer: the
textures that parameters and images went to, and the unit and its state at each draw. -/
def observed (ops : GlOps F Mat4) (state : GlState F Mat4) (calls : List (GlCall F Mat4)) :
    (Fin 2 → Bool) × (Fin 2 → Word) × List (RasterCall F Mat4) :=
  let run := transduce (dispatch ops) state calls
  (run.1.texEnabled, run.1.boundTex, run.2)

/-- No insertion is noticed, whatever follows it, nor are all of them together. -/
def InsertionsHarmless (ops : GlOps F Mat4) (state : GlState F Mat4) (items : List (Item F Mat4)) : Prop :=
  AtEach (fun state item => dispatch ops state item.call) (fun state item => ∀ texture,
      item = .inserted texture → ∀ later,
        observed ops state (.glClientActiveTexture texture :: later) = observed ops state later) state items ∧
    observed ops state (items.map Item.call) = observed ops state (items.filterMap Item.keptCall)

/-- Every insertion names the unit that is active anyway. -/
def InsertionsNameActive (ops : GlOps F Mat4) (state : GlState F Mat4) (items : List (Item F Mat4)) : Prop :=
  AtEach (fun state item => dispatch ops state item.call) (fun state item => ∀ texture,
    item = .inserted texture → unitOf texture = state.activeUnit) state items

section Units

variable {ops : GlOps F Mat4} {state : GlState F Mat4}

theorem silent_client {texture : Word} (active : unitOf texture = state.activeUnit) :
    Silent (dispatch ops) state (.glClientActiveTexture texture) := by
  rw [Silent, dispatch, active]

/-- A selection is noticed by some later call exactly if it changes the unit. -/
theorem unnoticed_iff (texture : Word) :
    (∀ later, observed ops state (.glClientActiveTexture texture :: later) = observed ops state later) ↔
      unitOf texture = state.activeUnit := by
  constructor
  · intro unnoticed
    have bound := congrArg (·.2.2) (unnoticed [.glBindTexture 0 0])
    have unit : [(.bindTexture (unitOf texture) 0 : RasterCall F Mat4)] = [.bindTexture state.activeUnit 0] :=
      bound
    exact (RasterCall.bindTexture.inj (List.singleton_inj.mp unit)).1
  · intro active later
    rw [observed, observed, transduce_silent (silent_client active)]

theorem transduce_insertions {items : List (Item F Mat4)} (active : InsertionsNameActive ops state items) :
    transduce (dispatch ops) state (items.map Item.call) =
      transduce (dispatch ops) state (items.filterMap Item.keptCall) := by
  induction items generalizing state with
  | nil => rfl
  | cons item rest ih =>
    obtain ⟨here, later⟩ := active
    cases item with
    | kept call =>
      change transduce (dispatch ops) state (call :: rest.map Item.call) =
        transduce (dispatch ops) state (call :: rest.filterMap Item.keptCall)
      have after : InsertionsNameActive ops (dispatch ops state call).1 rest := later
      rw [transduce_cons, transduce_cons, ih after]
    | inserted texture =>
      have still : dispatch ops state (.glClientActiveTexture texture) = (state, []) :=
        silent_client (here texture rfl)
      have unchanged : InsertionsNameActive ops (dispatch ops state (.glClientActiveTexture texture)).1 rest :=
        later
      rw [still] at unchanged
      change transduce (dispatch ops) state (.glClientActiveTexture texture :: rest.map Item.call) =
        transduce (dispatch ops) state (rest.filterMap Item.keptCall)
      rw [transduce_silent still, ih unchanged]

theorem insertionsHarmless_iff (items : List (Item F Mat4)) :
    InsertionsHarmless ops state items ↔ InsertionsNameActive ops state items := by
  have each : AtEach (fun state item => dispatch ops state (Item.call item)) (fun state item => ∀ texture,
      item = .inserted texture → ∀ later, observed ops state (.glClientActiveTexture texture :: later) =
        observed ops state later) state items ↔ InsertionsNameActive ops state items :=
    atEach_congr fun state item => forall_congr' fun texture => imp_congr_right fun _ => unnoticed_iff texture
  rw [InsertionsHarmless, each, and_iff_left_iff_imp]
  intro active
  rw [observed, observed, transduce_insertions active]

end Units

/-- In every run from every state: modes without a matrix of their own are harmless exactly if every
matrix call made in one is idle, and inserted selections of the client unit are harmless exactly if
each names the active unit. -/
theorem selectors_independent_iff (ops : GlOps F Mat4) (state : GlState F Mat4)
    (calls : List (GlCall F Mat4)) (items : List (Item F Mat4)) :
    (MatricesKept ops state calls ↔ StrayCallsIdle ops state calls) ∧
      (InsertionsHarmless ops state items ↔ InsertionsNameActive ops state items) :=
  ⟨matricesKept_iff calls, insertionsHarmless_iff items⟩

/-- Matrices and components that are only told apart. -/
def plainOps : GlOps Nat Nat where
  zero := 0
  one := 1
  matMul left _ := left
  transformVertex _ vertex := vertex
  matIdentity := 0
  matRotate _ _ _ _ := 0
  matScale _ _ _ := 0
  matTranslate _ _ _ := 0
  matFrustum _ _ _ _ _ _ := 0
  matOrtho _ _ _ _ _ _ := 0
  fixedToFloat _ := 0

/-- The hook as constructed. -/
def fresh : GlState Nat Nat where
  matrices := .fresh plainOps.toMatrixOps fun _ _ => 0
  vtx := ⟨false, 0, 0, Glenum.float, 0⟩
  col := ⟨false, 0, 0, Glenum.float, 0⟩
  tex := ⟨false, 0, 0, Glenum.float, 0⟩
  currentColor := ⟨0, 0, 0, 1, 1, 1, 1, 1, 0, 0, 0, 0⟩
  mvp := 0
  activeUnit := 0
  texEnabled := fun _ => false
  boundTex := fun _ => 0

/-- A matrix loaded in texture mode replaces the modelview matrix, and a texture bound after the
second client unit was selected is bound to the second unit. -/
theorem selectors_leak :
    ¬ MatricesKept plainOps fresh [.matrix (.glMatrixMode 0x1702), .matrix (.glLoadMatrixx 7)] ∧
      ¬ InsertionsHarmless plainOps fresh [.inserted 0x84c1, .kept (.glBindTexture Glenum.texture2d 5)] := by
  constructor
  · intro kept
    have stray := kept.1.2.1 (by decide)
    have loaded := congrArg (fun matrices => (matrices .modelview).current) stray
    exact absurd loaded (by decide)
  · intro harmless
    have bound := congrArg (·.2.1 1) harmless.2
    exact absurd bound (by decide)

end GlState

end ZeeboLle.Gpu

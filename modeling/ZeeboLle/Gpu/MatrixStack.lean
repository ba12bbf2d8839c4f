import ZeeboLle.Unicorn.Memory
import Mathlib.Data.List.Infix
import Mathlib.Data.List.Induction
import Mathlib.Data.Int.Cast.Basic
import Mathlib.Logic.Function.Basic

/-! The fixed-function matrix stacks behind the GL hook. Matrices are of any type, and the
products and the matrices that calls build from their arguments are given; what is modelled is
which matrix a call changes and what the two stacks keep. -/
namespace ZeeboLle.Gpu

open Unicorn

inductive MatrixMode where
  | modelview
  | projection
deriving DecidableEq

/-- Everything that is not the projection selects the modelview matrix. -/
def selectedBy (mode : Word) : MatrixMode := if mode = 0x1701 then .projection else .modelview

/-- The current matrix of a mode and the saved ones. -/
structure MatrixStack (Mat4 : Type) where
  current : Mat4
  stack : Fin 4 → Mat4
  depth : Nat
  bounded : depth ≤ 4

structure MatrixState (Mat4 : Type) where
  matrixMode : Word
  matrices : MatrixMode → MatrixStack Mat4

/-- The matrices the hook computes. -/
structure MatrixOps (Mat4 : Type) where
  matIdentity : Mat4
  matMul : Mat4 → Mat4 → Mat4
  matRotate : Word → Word → Word → Word → Mat4
  matScale : Word → Word → Word → Mat4
  matTranslate : Word → Word → Word → Mat4
  matFrustum : Word → Word → Word → Word → Word → Word → Mat4
  matOrtho : Word → Word → Word → Word → Word → Word → Mat4

/-- The calls of the matrix slots; a matrix argument is what was read for it. -/
inductive MatrixCall (Mat4 : Type) where
  | glMatrixMode (mode : Word)
  | glLoadIdentity
  | glLoadMatrixx (matrix : Mat4)
  | glMultMatrixx (matrix : Mat4)
  | glPushMatrix
  | glPopMatrix
  | glRotatex (angle x y z : Word)
  | glScalex (x y z : Word)
  | glTranslatex (x y z : Word)
  | glFrustumx (left right bottom top near far : Word)
  | glOrthox (left right bottom top near far : Word)
deriving DecidableEq

variable {Mat4 : Type}

namespace MatrixStack

/-- A full stack drops the push. -/
def push (saved : MatrixStack Mat4) : MatrixStack Mat4 :=
  if room : saved.depth < 4 then
    { saved with
      stack := Function.update saved.stack ⟨saved.depth, room⟩ saved.current
      depth := saved.depth + 1
      bounded := room }
  else saved

def pop (saved : MatrixStack Mat4) : MatrixStack Mat4 :=
  if held : 0 < saved.depth then
    have below : saved.depth - 1 < 4 := by
      have bounded := saved.bounded
      omega
    { saved with
      current := saved.stack ⟨saved.depth - 1, below⟩
      depth := saved.depth - 1
      bounded := Nat.le_of_lt below }
  else saved

end MatrixStack

namespace MatrixState

def selected (state : MatrixState Mat4) : MatrixMode := selectedBy state.matrixMode

def curMatrix (state : MatrixState Mat4) : Mat4 := (state.matrices state.selected).current

def onCur (state : MatrixState Mat4) (change : MatrixStack Mat4 → MatrixStack Mat4) :
    MatrixState Mat4 :=
  { state with
    matrices := Function.update state.matrices state.selected (change (state.matrices state.selected)) }

def setCur (state : MatrixState Mat4) (matrix : Mat4) : MatrixState Mat4 :=
  state.onCur fun saved => { saved with current := matrix }

def dispatchIgl (ops : MatrixOps Mat4) (state : MatrixState Mat4) :
    MatrixCall Mat4 → MatrixState Mat4
  | .glMatrixMode mode => { state with matrixMode := mode }
  | .glLoadIdentity => state.setCur ops.matIdentity
  | .glLoadMatrixx matrix => state.setCur matrix
  | .glMultMatrixx matrix => state.setCur (ops.matMul state.curMatrix matrix)
  | .glPushMatrix => state.onCur MatrixStack.push
  | .glPopMatrix => state.onCur MatrixStack.pop
  | .glRotatex angle x y z =>
    state.setCur (ops.matMul state.curMatrix (ops.matRotate angle x y z))
  | .glScalex x y z => state.setCur (ops.matMul state.curMatrix (ops.matScale x y z))
  | .glTranslatex x y z => state.setCur (ops.matMul state.curMatrix (ops.matTranslate x y z))
  | .glFrustumx left right bottom top near far =>
    state.setCur (ops.matMul state.curMatrix (ops.matFrustum left right bottom top near far))
  | .glOrthox left right bottom top near far =>
    state.setCur (ops.matMul state.curMatrix (ops.matOrtho left right bottom top near far))

/-- The hook as constructed: nothing is saved, and the slots hold anything. -/
def fresh (ops : MatrixOps Mat4) (unset : MatrixMode → Fin 4 → Mat4) : MatrixState Mat4 where
  matrixMode := 0x1700
  matrices := fun mode => ⟨ops.matIdentity, unset mode, 0, by decide⟩

def run (ops : MatrixOps Mat4) (unset : MatrixMode → Fin 4 → Mat4)
    (calls : List (MatrixCall Mat4)) : MatrixState Mat4 :=
  calls.foldl (dispatchIgl ops) (fresh ops unset)

end MatrixState

/-- The mode that is selected and how many pushes of each mode are open. -/
structure Nesting where
  mode : MatrixMode
  depth : MatrixMode → Int

namespace Nesting

def step (nesting : Nesting) : MatrixCall Mat4 → Nesting
  | .glMatrixMode mode => { nesting with mode := selectedBy mode }
  | .glPushMatrix =>
    { nesting with depth := Function.update nesting.depth nesting.mode (nesting.depth nesting.mode + 1) }
  | .glPopMatrix =>
    { nesting with depth := Function.update nesting.depth nesting.mode (nesting.depth nesting.mode - 1) }
  | _ => nesting

def after (calls : List (MatrixCall Mat4)) : Nesting := calls.foldl step ⟨.modelview, fun _ => 0⟩

end Nesting

/-- Every pop has its push, and no mode nests deeper than the limit. -/
def WellBracketed (limit : Int) (calls : List (MatrixCall Mat4)) : Prop :=
  ∀ before, before <+: calls → ∀ mode,
    0 ≤ (Nesting.after before).depth mode ∧ (Nesting.after before).depth mode ≤ limit

/-- The pop after `inner` closes the push after `before`. -/
structure Matching (before inner : List (MatrixCall Mat4)) (mode : MatrixMode) : Prop where
  opened : (Nesting.after before).mode = mode
  closed : (Nesting.after (before ++ .glPushMatrix :: inner)).mode = mode
  balanced : (Nesting.after (before ++ .glPushMatrix :: inner)).depth mode =
    (Nesting.after before).depth mode + 1
  inside : ∀ earlier, earlier <+: inner → (Nesting.after before).depth mode <
    (Nesting.after (before ++ .glPushMatrix :: earlier)).depth mode

/-- Each pop restores the matrix of its push and leaves the other mode alone. -/
def Restores (ops : MatrixOps Mat4) (unset : MatrixMode → Fin 4 → Mat4)
    (calls : List (MatrixCall Mat4)) : Prop :=
  ∀ before inner mode, before ++ .glPushMatrix :: (inner ++ [.glPopMatrix]) <+: calls →
    Matching before inner mode →
    let pushed := MatrixState.run ops unset before
    let opened := MatrixState.run ops unset (before ++ .glPushMatrix :: inner)
    let popped := MatrixState.run ops unset (before ++ .glPushMatrix :: (inner ++ [.glPopMatrix]))
    (popped.matrices mode).current = (pushed.matrices mode).current ∧
      ∀ other, other ≠ mode → popped.matrices other = opened.matrices other

section Step

variable {ops : MatrixOps Mat4} {unset : MatrixMode → Fin 4 → Mat4} {state : MatrixState Mat4}
  {nesting : Nesting} {call : MatrixCall Mat4}

/-- All a call can do: select, push, pop, or replace the current matrix. -/
theorem dispatchIgl_cases (ops : MatrixOps Mat4) (state : MatrixState Mat4)
    (call : MatrixCall Mat4) :
    (∃ mode, call = .glMatrixMode mode ∧
        state.dispatchIgl ops call = { state with matrixMode := mode }) ∨
      (call = .glPushMatrix ∧ state.dispatchIgl ops call = state.onCur MatrixStack.push) ∨
      (call = .glPopMatrix ∧ state.dispatchIgl ops call = state.onCur MatrixStack.pop) ∨
      ∃ matrix, state.dispatchIgl ops call = state.setCur matrix ∧
        ∀ nesting : Nesting, nesting.step call = nesting := by
  cases call with
  | glMatrixMode mode => exact .inl ⟨mode, rfl, rfl⟩
  | glPushMatrix => exact .inr (.inl ⟨rfl, rfl⟩)
  | glPopMatrix => exact .inr (.inr (.inl ⟨rfl, rfl⟩))
  | _ => exact .inr (.inr (.inr ⟨_, rfl, fun _ => rfl⟩))

theorem matrices_onCur_self (change : MatrixStack Mat4 → MatrixStack Mat4) :
    (state.onCur change).matrices state.selected = change (state.matrices state.selected) :=
  Function.update_self _ _ _

theorem matrices_onCur_of_ne {mode : MatrixMode} (change : MatrixStack Mat4 → MatrixStack Mat4)
    (other : mode ≠ state.selected) : (state.onCur change).matrices mode = state.matrices mode :=
  Function.update_of_ne other _ _

/-- The hook selects and nests as the calls say. -/
structure Tracks (nesting : Nesting) (state : MatrixState Mat4) : Prop where
  mode : state.selected = nesting.mode
  depth : ∀ mode, ((state.matrices mode).depth : Int) = nesting.depth mode

theorem Tracks.onCur (tracks : Tracks nesting state)
    (change : MatrixStack Mat4 → MatrixStack Mat4) {depth : Int}
    (changed : ((change (state.matrices state.selected)).depth : Int) = depth) :
    Tracks { nesting with depth := Function.update nesting.depth nesting.mode depth }
      (state.onCur change) where
  mode := tracks.mode
  depth := by
    intro mode
    by_cases own : mode = state.selected
    · rw [own, matrices_onCur_self, changed, tracks.mode]
      exact (Function.update_self nesting.mode depth nesting.depth).symm
    · have other : mode ≠ nesting.mode := tracks.mode ▸ own
      rw [matrices_onCur_of_ne change own, tracks.depth mode]
      exact (Function.update_of_ne other depth nesting.depth).symm

theorem Tracks.step (tracks : Tracks nesting state)
    (within : ∀ mode, 0 ≤ (nesting.step call).depth mode ∧ (nesting.step call).depth mode ≤ 4) :
    Tracks (nesting.step call) (state.dispatchIgl ops call) := by
  have held := tracks.depth state.selected
  rw [tracks.mode] at held
  have bounds := within nesting.mode
  rcases dispatchIgl_cases ops state call with ⟨mode, rfl, same⟩ | ⟨rfl, same⟩ | ⟨rfl, same⟩ |
    ⟨matrix, same, still⟩
  · rw [same]
    exact ⟨rfl, tracks.depth⟩
  · rw [same]
    simp only [Nesting.step, Function.update_self] at bounds
    apply tracks.onCur
    rw [tracks.mode, MatrixStack.push, dif_pos (by omega)]
    push_cast
    omega
  · rw [same]
    simp only [Nesting.step, Function.update_self] at bounds
    apply tracks.onCur
    rw [tracks.mode, MatrixStack.pop, dif_pos (by omega)]
    simp only
    omega
  · rw [same, still]
    refine ⟨tracks.mode, fun mode => ?_⟩
    by_cases own : mode = state.selected
    · rw [MatrixState.setCur, own, matrices_onCur_self]
      exact tracks.depth state.selected
    · rw [MatrixState.setCur, matrices_onCur_of_ne _ own]
      exact tracks.depth mode

/-- A slot that is in use before and after a call keeps its matrix. -/
theorem slot_dispatchIgl {mode : MatrixMode} {slot : Fin 4}
    (used : slot < (state.matrices mode).depth) :
    ((state.dispatchIgl ops call).matrices mode).stack slot = (state.matrices mode).stack slot := by
  by_cases own : mode = state.selected
  swap
  · rcases dispatchIgl_cases ops state call with ⟨_, _, same⟩ | ⟨_, same⟩ | ⟨_, same⟩ | ⟨_, same, _⟩
    · rw [same]
    · rw [same, matrices_onCur_of_ne _ own]
    · rw [same, matrices_onCur_of_ne _ own]
    · rw [same, MatrixState.setCur, matrices_onCur_of_ne _ own]
  subst own
  rcases dispatchIgl_cases ops state call with ⟨_, _, same⟩ | ⟨_, same⟩ | ⟨_, same⟩ | ⟨_, same, _⟩
  · rw [same]
  · rw [same, matrices_onCur_self, MatrixStack.push]
    split
    · apply Function.update_of_ne
      rintro rfl
      exact absurd used (Nat.lt_irrefl _)
    · rfl
  · rw [same, matrices_onCur_self, MatrixStack.pop]
    split
    · rfl
    · rfl
  · rw [same, MatrixState.setCur, matrices_onCur_self]

end Step

variable {ops : MatrixOps Mat4} {unset : MatrixMode → Fin 4 → Mat4}
  {calls before inner : List (MatrixCall Mat4)} {mode : MatrixMode}

theorem run_snoc (calls : List (MatrixCall Mat4)) (call : MatrixCall Mat4) :
    MatrixState.run ops unset (calls ++ [call]) =
      (MatrixState.run ops unset calls).dispatchIgl ops call := by
  simp [MatrixState.run]

theorem after_snoc (calls : List (MatrixCall Mat4)) (call : MatrixCall Mat4) :
    Nesting.after (calls ++ [call]) = (Nesting.after calls).step call := by
  simp [Nesting.after]

theorem WellBracketed.take (bracketed : WellBracketed 4 calls) (earlier : before <+: calls) :
    WellBracketed 4 before :=
  fun first shorter => bracketed first (shorter.trans earlier)

theorem tracks_run (bracketed : WellBracketed 4 calls) :
    Tracks (Nesting.after calls) (MatrixState.run ops unset calls) := by
  induction calls using List.reverseRecOn with
  | nil => exact ⟨rfl, fun _ => rfl⟩
  | append_singleton calls call ih =>
    rw [run_snoc, after_snoc]
    apply (ih (bracketed.take (List.prefix_append _ _))).step
    intro mode
    rw [← after_snoc]
    exact bracketed (calls ++ [call]) (List.prefix_refl _) mode

/-- While a push is open, its slot holds what was current at it. -/
theorem slot_open (bracketed : WellBracketed 4 (before ++ .glPushMatrix :: inner))
    (opened : (Nesting.after before).mode = mode)
    (inside : ∀ earlier, earlier <+: inner → (Nesting.after before).depth mode <
      (Nesting.after (before ++ .glPushMatrix :: earlier)).depth mode)
    {slot : Fin 4}
    (place : (slot : Nat) = ((MatrixState.run ops unset before).matrices mode).depth) :
    ((MatrixState.run ops unset (before ++ .glPushMatrix :: inner)).matrices mode).stack slot =
      ((MatrixState.run ops unset before).matrices mode).current := by
  have start : Tracks (Nesting.after before) (MatrixState.run ops unset before) :=
    tracks_run (bracketed.take (List.prefix_append _ _))
  induction inner using List.reverseRecOn with
  | nil =>
    have room : ((MatrixState.run ops unset before).matrices mode).depth < 4 := by
      rw [← place]
      exact slot.isLt
    have here : slot = ⟨_, room⟩ := Fin.ext place
    rw [run_snoc, MatrixState.dispatchIgl, ← opened, ← start.mode, matrices_onCur_self, start.mode,
      opened, MatrixStack.push, dif_pos room, here]
    exact Function.update_self _ _ _
  | append_singleton inner call ih =>
    rw [← List.cons_append, ← List.append_assoc] at bracketed ⊢
    have shorter : WellBracketed 4 (before ++ .glPushMatrix :: inner) :=
      bracketed.take (List.prefix_append _ _)
    have depth := (@tracks_run _ ops unset _ shorter).depth mode
    have deeper := inside inner (List.prefix_append _ _)
    have started := start.depth mode
    rw [run_snoc, slot_dispatchIgl (by omega)]
    exact ih shorter fun earlier less => inside earlier (less.trans (List.prefix_append _ _))

/-- As long as neither mode nests deeper than the four slots, each pop restores the matrix of
its push. -/
theorem pop_restores_push (ops : MatrixOps Mat4) (unset : MatrixMode → Fin 4 → Mat4)
    (calls : List (MatrixCall Mat4)) (bracketed : WellBracketed 4 calls) :
    Restores ops unset calls := by
  intro before inner mode earlier matching
  simp only
  rw [← List.cons_append, ← List.append_assoc] at earlier ⊢
  have whole := bracketed.take earlier
  have inside : WellBracketed 4 (before ++ .glPushMatrix :: inner) :=
    whole.take (List.prefix_append _ _)
  have start : Tracks _ (MatrixState.run ops unset before) :=
    tracks_run (inside.take (List.prefix_append _ _))
  have stop : Tracks _ (MatrixState.run ops unset (before ++ .glPushMatrix :: inner)) :=
    tracks_run inside
  have depth : ((MatrixState.run ops unset (before ++ .glPushMatrix :: inner)).matrices mode).depth =
      ((MatrixState.run ops unset before).matrices mode).depth + 1 := by
    have first := start.depth mode
    have last := stop.depth mode
    rw [matching.balanced] at last
    omega
  have selected : (MatrixState.run ops unset (before ++ .glPushMatrix :: inner)).selected = mode :=
    stop.mode.trans matching.closed
  have bounded := ((MatrixState.run ops unset (before ++ .glPushMatrix :: inner)).matrices mode).bounded
  rw [run_snoc, MatrixState.dispatchIgl]
  constructor
  · rw [← selected, matrices_onCur_self, selected, MatrixStack.pop, dif_pos (by omega)]
    apply slot_open inside matching.opened matching.inside
    simp only
    omega
  · intro other different
    exact matrices_onCur_of_ne _ (selected ▸ different)

theorem wellBracketed_of_inits {limit : Int}
    (every : ∀ before ∈ calls.inits,
      (0 ≤ (Nesting.after before).depth .modelview ∧
        (Nesting.after before).depth .modelview ≤ limit) ∧
      0 ≤ (Nesting.after before).depth .projection ∧
        (Nesting.after before).depth .projection ≤ limit) :
    WellBracketed limit calls := by
  intro before earlier mode
  have bounds := every before ((List.mem_inits _ _).mpr earlier)
  cases mode with
  | modelview => exact bounds.1
  | projection => exact bounds.2

/-- Matrices that are only told apart. -/
def labels : MatrixOps Nat where
  matIdentity := 0
  matMul left _ := left
  matRotate _ _ _ _ := 0
  matScale _ _ _ := 0
  matTranslate _ _ _ := 0
  matFrustum _ _ _ _ _ _ := 0
  matOrtho _ _ _ _ _ _ := 0

theorem pop_restores_push_once :
    ((MatrixState.run labels (fun _ _ => 9)
      [.glLoadMatrixx 7, .glPushMatrix, .glMatrixMode 0x1701, .glLoadMatrixx 3, .glMatrixMode 0x1700,
        .glLoadIdentity, .glPopMatrix]).matrices .modelview).current = 7 := by
  have restored := pop_restores_push labels (fun _ _ => 9)
    [.glLoadMatrixx 7, .glPushMatrix, .glMatrixMode 0x1701, .glLoadMatrixx 3, .glMatrixMode 0x1700,
      .glLoadIdentity, .glPopMatrix] (wellBracketed_of_inits (by decide)) [.glLoadMatrixx 7]
    [.glMatrixMode 0x1701, .glLoadMatrixx 3, .glMatrixMode 0x1700, .glLoadIdentity] .modelview
    (List.prefix_refl _)
  refine (restored ⟨by decide, by decide, by decide, fun earlier less => ?_⟩).1
  have checked : ∀ earlier ∈ ([.glMatrixMode 0x1701, .glLoadMatrixx 3, .glMatrixMode 0x1700,
      .glLoadIdentity] : List (MatrixCall Nat)).inits,
      (0 : Int) < (Nesting.after (.glLoadMatrixx 7 :: .glPushMatrix :: earlier)).depth .modelview := by
    decide
  exact checked earlier ((List.mem_inits _ _).mpr less)

/-- Four open pushes, with a matrix of its own above each. -/
def fourDeep : List (MatrixCall Nat) :=
  [.glPushMatrix, .glLoadMatrixx 1, .glPushMatrix, .glLoadMatrixx 2, .glPushMatrix,
    .glLoadMatrixx 3, .glPushMatrix, .glLoadMatrixx 4]

theorem fifth_push_lost :
    ¬∀ (Mat4 : Type) (ops : MatrixOps Mat4) (unset : MatrixMode → Fin 4 → Mat4)
      (calls : List (MatrixCall Mat4)), WellBracketed 16 calls → Restores ops unset calls := by
  intro every
  have bracketed : WellBracketed 16 (fourDeep ++ .glPushMatrix :: ([] ++ [.glPopMatrix])) :=
    wellBracketed_of_inits (by decide +kernel)
  have matching : Matching fourDeep [] .modelview := by
    refine ⟨by decide, by decide +kernel, by decide +kernel, fun earlier less => ?_⟩
    rw [List.prefix_nil.mp less]
    decide +kernel
  have lost : ((MatrixState.run labels (fun _ _ => 9)
      (fourDeep ++ .glPushMatrix :: ([] ++ [.glPopMatrix]))).matrices .modelview).current ≠
      ((MatrixState.run labels (fun _ _ => 9) fourDeep).matrices .modelview).current := by
    decide +kernel
  exact lost (every Nat labels (fun _ _ => 9) _ bracketed fourDeep [] .modelview
    (List.prefix_refl _) matching).1

end ZeeboLle.Gpu

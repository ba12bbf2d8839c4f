import ZeeboLle.Gpu.Coverage
import ZeeboLle.Gpu.Draw
import ZeeboLle.Gpu.NearClip
import ZeeboLle.Gpu.Textures
import ZeeboLle.Streams.Champion

/-! The fragments of a triangle and what they do to the framebuffer: depth test, shading, alpha
test, depth write, blending. Corners and colors are exact, where the code rounds to `f32`. Depths
are of any linear order and computed by any rule, as the finite `f32` values are by the code's own
arithmetic; the exact rule is one of them. With depth test and depth write on and blending off, a
pixel ends with the fragment that the depth comparison prefers. -/
namespace ZeeboLle.Gpu.Fragments

open Unicorn SoftTextures Streams
open NearClip (Attribute clamp)

structure RenderState where
  blend : Bool := false
  blendSrc : Word := 1
  blendDst : Word := 0
  depthTest : Bool := false
  depthFunc : Word := 0x0201
  depthWrite : Bool := true
  alphaTest : Bool := false
  alphaFunc : Word := 0x0207
  alphaRef : ℚ := 0
  cull : Bool := false
  cullFace : Word := 0x0405
  texEnabled : Fin 2 → Word := fun _ => 0
  activeUnit : Word := 0

structure Viewport where
  vx : Int := 0
  vy : Int := 0
  vw : Int := fbWidth
  vh : Int := fbHeight

/-- What a draw reads besides its vertices. -/
structure Settings where
  st : RenderState := {}
  viewport : Viewport := {}
  textures : Textures := {}

variable {D : Type}

/-- Whether an incoming depth passes against the stored one. -/
def depthPass [LinearOrder D] (func : Word) (z stored : D) : Bool :=
  if func = 0x0200 then false
  else if func = 0x0201 then z < stored
  else if func = 0x0202 then z = stored
  else if func = 0x0203 then z ≤ stored
  else if func = 0x0204 then z > stored
  else if func = 0x0205 then z ≠ stored
  else if func = 0x0206 then z ≥ stored
  else if func = 0x0207 then true
  else z < stored

def alphaPass (func : Word) (a ref : ℚ) : Bool :=
  if func = 0x0200 then false
  else if func = 0x0201 then a < ref
  else if func = 0x0202 then a = ref
  else if func = 0x0203 then a ≤ ref
  else if func = 0x0204 then a > ref
  else if func = 0x0205 then a ≠ ref
  else if func = 0x0206 then a ≥ ref
  else true

/-- The factor of one of the channels red, green and blue. -/
def blendFactor (f : Word) (c : Fin 4) (src dst : Color) : ℚ :=
  if f = 0x0000 then 0
  else if f = 0x0001 then 1
  else if f = 0x0300 then src c
  else if f = 0x0301 then 1 - src c
  else if f = 0x0302 then src 3
  else if f = 0x0303 then 1 - src 3
  else if f = 0x0304 then dst 3
  else if f = 0x0305 then 1 - dst 3
  else if f = 0x0306 then dst c
  else if f = 0x0307 then 1 - dst c
  else if f = 0x0308 then min (src 3) (1 - dst 3)
  else 1

/-- A color of the framebuffer, opaque. -/
def unpack565 (dst : BitVec 16) : Color :=
  ![((dst >>> 11) &&& 31).toNat / 31, ((dst >>> 5) &&& 63).toNat / 63, (dst &&& 31).toNat / 31, 1]

def blended (st : RenderState) (color : Color) (dst : BitVec 16) : Color :=
  let d := unpack565 dst
  let s : Color := fun c => clamp (color c) 0 1
  fun c => s c * blendFactor st.blendSrc c s d + d c * blendFactor st.blendDst c s d

def lround (x : ℚ) : Int := if 0 ≤ x then ⌊x + 1 / 2⌋ else ⌈x - 1 / 2⌉

def pack565 (color : Color) : BitVec 16 :=
  let c (x : ℚ) : Word := BitVec.ofInt 32 (lround (clamp x 0 1 * 255))
  (((c (color 0) >>> 3) <<< 11) ||| ((c (color 1) >>> 2) <<< 5) ||| (c (color 2) >>> 3)).setWidth 16

/-- The conversion of a real to `int` drops the fraction. -/
def truncate (x : ℚ) : Int := if 0 ≤ x then ⌊x⌋ else ⌈x⌉

def badW (w : ℚ) : Bool := |w| < 1 / 10 ^ 6

def finiteNdc (v : ℚ) : ℚ := clamp v (-4) 4

namespace Viewport

variable (viewport : Viewport)

def sx (x : ℚ) : Int := viewport.vx + truncate ((finiteNdc x * (1 / 2) + 1 / 2) * viewport.vw)

def sy (y : ℚ) : Int :=
  viewport.vy + truncate ((1 - (finiteNdc y * (1 / 2) + 1 / 2)) * viewport.vh)

def corner (a : NearClip.Vertex) : Pixel := (viewport.sx (a .x * (1 / a .w)), viewport.sy (a .y * (1 / a .w)))

def screen (a b c : NearClip.Vertex) : ScreenTri := ⟨viewport.corner a, viewport.corner b, viewport.corner c⟩

end Viewport

namespace RenderState

/-- A front face has a negative area on the screen, where rows go down. -/
def culled (st : RenderState) (area : Int) : Bool :=
  st.cull &&
    ((area < 0 && (st.cullFace = 0x0404 || st.cullFace = 0x0408)) ||
      (!(area < 0) && (st.cullFace = 0x0405 || st.cullFace = 0x0408)))

/-- The numbers of the two texture units. -/
local instance neZero_samplers : NeZero 2 := ⟨by decide⟩

def unit (st : RenderState) : Fin 2 := if st.activeUnit.toNat = 0 then 0 else 1

def texOn (st : RenderState) : Bool := st.texEnabled st.unit ≠ 0

end RenderState

/-- Weights of the corners at a pixel. -/
structure Weights where
  fa : ℚ
  fb : ℚ
  fc : ℚ

def weights (tri : ScreenTri) (pixel : Pixel) : Weights :=
  ⟨tri.w0 pixel.1 pixel.2 / tri.area, tri.w1 pixel.1 pixel.2 / tri.area, tri.w2 pixel.1 pixel.2 / tri.area⟩

/-- Window depth is affine on the screen; this is it without rounding. -/
def windowDepth (a b c : NearClip.Vertex) (bary : Weights) : ℚ :=
  clamp ((bary.fa * (a .z * (1 / a .w)) + bary.fb * (b .z * (1 / b .w)) + bary.fc * (c .z * (1 / c .w))) *
    (1 / 2) + 1 / 2) 0 1

/-- How the depth at a pixel comes from the corners in clip space and on the screen. -/
abbrev DepthRule (D : Type) :=
  NearClip.Vertex → NearClip.Vertex → NearClip.Vertex → ScreenTri → Pixel → D

/-- The rule of the code in exact arithmetic. -/
def exactDepth : DepthRule ℚ := fun a b c screen pixel => windowDepth a b c (weights screen pixel)

/-- Colors and texture coordinates are corrected for perspective. -/
def persp (a b c : NearClip.Vertex) (bary : Weights) (field : Attribute) : ℚ :=
  let iw := bary.fa * (1 / a .w) + bary.fb * (1 / b .w) + bary.fc * (1 / c .w)
  let invIw := if 1 / 10 ^ 20 < |iw| then 1 / iw else 0
  (bary.fa * a field * (1 / a .w) + bary.fb * b field * (1 / b .w) + bary.fc * c field * (1 / c .w)) * invIw

/-- The color of a fragment; none where the texture cannot be sampled. -/
def shade (settings : Settings) (a b c : NearClip.Vertex) (bary : Weights) : Option Color :=
  let color : Color := ![persp a b c bary .r, persp a b c bary .g, persp a b c bary .b, persp a b c bary .a]
  if settings.st.texOn then
    (sampleTexture (settings.textures.resolve settings.st.unit) (persp a b c bary .u)
      (persp a b c bary .v)).map fun texel => color * texel
  else some color

structure Fragment (D : Type) where
  pixel : Pixel
  z : D
  color : Option Color

/-- What one triangle in front of the near plane sends to the tests, in the order of its pixels. -/
def rasterClippedTri (rule : DepthRule D) (settings : Settings)
    (tri : NearClip.Vertex × NearClip.Vertex × NearClip.Vertex) : List (Fragment D) :=
  let (a, b, c) := tri
  if badW (a .w) || badW (b .w) || badW (c .w) then []
  else
    let screen := settings.viewport.screen a b c
    if settings.st.culled screen.area then []
    else screen.covered.map fun pixel =>
      ⟨pixel, rule a b c screen pixel, shade settings a b c (weights screen pixel)⟩

/-- The fragments of what a draw fills. -/
def fragments (rule : DepthRule D) (settings : Settings)
    (tris : List (NearClip.Vertex × NearClip.Vertex × NearClip.Vertex)) : List (Fragment D) :=
  (tris.flatMap fun tri => NearClip.fillTri tri.1 tri.2.1 tri.2.2).flatMap
    (rasterClippedTri rule settings)

theorem shade_isSome {settings : Settings} (plain : settings.st.texOn = false) (a b c : NearClip.Vertex)
    (bary : Weights) : (shade settings a b c bary).isSome := by
  simp [shade, plain]

/-- Without textures every fragment has its color. -/
theorem fragments_shaded {rule : DepthRule D} {settings : Settings} (plain : settings.st.texOn = false)
    (tris : List (NearClip.Vertex × NearClip.Vertex × NearClip.Vertex)) :
    ∀ f ∈ fragments rule settings tris, f.color.isSome := by
  intro f member
  obtain ⟨⟨a, b, c⟩, -, inside⟩ := List.mem_flatMap.mp member
  unfold rasterClippedTri at inside
  dsimp only at inside
  split_ifs at inside
  · simp at inside
  · simp at inside
  · obtain ⟨pixel, -, rfl⟩ := List.mem_map.mp inside
    exact shade_isSome plain ..

def RenderState.discards (st : RenderState) (color : Color) : Bool :=
  st.alphaTest && !alphaPass st.alphaFunc (color 3) st.alphaRef

structure Frame (D : Type) where
  depth : Pixel → D
  fb : Pixel → BitVec 16

variable [LinearOrder D]

/-- One fragment; a color that is missing is only noticed behind the depth test. -/
def Frame.fragment (st : RenderState) (frame : Frame D) (f : Fragment D) : Option (Frame D) :=
  if st.depthTest && !depthPass st.depthFunc f.z (frame.depth f.pixel) then some frame
  else
    f.color.map fun color =>
      if st.discards color then frame
      else
        let depth := if st.depthTest && st.depthWrite then Function.update frame.depth f.pixel f.z
          else frame.depth
        let color := if st.blend then blended st color (frame.fb f.pixel) else color
        ⟨depth, Function.update frame.fb f.pixel (pack565 color)⟩

def Frame.drawn (st : RenderState) (frame : Frame D) (fs : List (Fragment D)) : Option (Frame D) :=
  fs.foldlM (Frame.fragment st) frame

/-- A draw call. -/
def Frame.draw (rule : DepthRule D) (settings : Settings) (frame : Frame D) (prim : Prim)
    (v : List NearClip.Vertex) : Option (Frame D) :=
  frame.drawn settings.st (fragments rule settings (Gpu.draw prim v))

/-- What the tests leave at a pixel: a depth and a packed color. -/
abbrev Point (D : Type) := D × BitVec 16

def Frame.at (frame : Frame D) (pixel : Pixel) : Point D := (frame.depth pixel, frame.fb pixel)

/-- A fragment as it would be left at a pixel, unless it lies elsewhere or fails the alpha test. -/
def candidate (st : RenderState) (pixel : Pixel) (f : Fragment D) : Option (Point D) :=
  if f.pixel = pixel then
    f.color.bind fun color =>
      if st.discards color then none
      else some (f.z, pack565 color)
  else none

def candidates (st : RenderState) (pixel : Pixel) (fs : List (Fragment D)) : List (Point D) :=
  fs.filterMap (candidate st pixel)

/-- The incoming point passes the depth test against the stored one. -/
def Passes (func : Word) (z stored : Point D) : Prop := depthPass func z.1 stored.1

instance (func : Word) : DecidableRel (Passes (D := D) func) := fun z stored =>
  inferInstanceAs (Decidable (depthPass func z.1 stored.1 = true))

/-- The settings that hide surfaces. -/
structure Hides (st : RenderState) : Prop where
  test : st.depthTest = true
  write : st.depthWrite = true
  solid : st.blend = false
  equal : st.depthFunc ≠ 0x0202
  unequal : st.depthFunc ≠ 0x0205

/-- The comparisons other than those for equality. -/
theorem depthPass_cases {func : Word} (equal : func ≠ 0x0202) (unequal : func ≠ 0x0205) :
    (func = 0x0200 ∧ depthPass func = fun (_ _ : D) => false) ∨
      (func = 0x0207 ∧ depthPass func = fun (_ _ : D) => true) ∨
      (depthPass func = fun (z stored : D) => decide (z < stored)) ∨
      (depthPass func = fun (z stored : D) => decide (z ≤ stored)) ∨
      (depthPass func = fun (z stored : D) => decide (z > stored)) ∨
      depthPass func = fun (z stored : D) => decide (z ≥ stored) := by
  unfold depthPass
  split_ifs <;> simp_all

/-- All of them rank the depths. -/
theorem ranks_passes {func : Word} (equal : func ≠ 0x0202) (unequal : func ≠ 0x0205) :
    Ranks (Passes (D := D) func) := by
  unfold Passes
  rcases depthPass_cases (D := D) equal unequal with ⟨-, never⟩ | ⟨-, always⟩ | less | lequal | greater | gequal
  · exact ⟨by simp [never], by simp [never]⟩
  · exact ⟨by simp [always], by simp [always]⟩
  · simp only [less, decide_eq_true_eq]
    exact ⟨fun first second => first.trans second, fun z first => (lt_or_ge _ z.1).imp_right (·.trans_lt first)⟩
  · simp only [lequal, decide_eq_true_eq]
    exact ⟨fun first second => first.trans second, fun z first => (le_or_gt _ z.1).imp_right (·.le.trans first)⟩
  · simp only [greater, decide_eq_true_eq]
    exact ⟨fun first second => second.trans first, fun z first => (lt_or_ge z.1 _).imp_right (first.trans_le ·)⟩
  · simp only [gequal, decide_eq_true_eq]
    exact ⟨fun first second => second.trans first, fun z first => (le_or_gt z.1 _).imp_right (first.trans ·.le)⟩

/-- One fragment challenges what is left at its pixel. -/
theorem fragment_at {st : RenderState} (hides : Hides st) (frame : Frame D) {f : Fragment D}
    (shaded : f.color.isSome) :
    ∃ next, frame.fragment st f = some next ∧ ∀ pixel, next.at pixel =
      (candidate st pixel f).toList.foldl
        (fun best x => if Passes st.depthFunc x best then x else best) (frame.at pixel) := by
  obtain ⟨color, found⟩ := Option.isSome_iff_exists.mp shaded
  unfold Frame.fragment
  rw [hides.test, hides.write, hides.solid, found]
  by_cases passes : depthPass st.depthFunc f.z (frame.depth f.pixel) = true
  · by_cases fails : st.discards color = true
    · refine ⟨frame, by simp [passes, fails], fun pixel => ?_⟩
      by_cases here : f.pixel = pixel <;> simp [candidate, here, found, fails]
    · refine ⟨⟨Function.update frame.depth f.pixel f.z, Function.update frame.fb f.pixel (pack565 color)⟩,
        by simp [passes, fails], fun pixel => ?_⟩
      by_cases here : f.pixel = pixel
      · subst here
        simp [candidate, found, fails, Frame.at, Passes, passes]
      · simp [candidate, here, Frame.at, Function.update_of_ne (Ne.symm here)]
  · refine ⟨frame, by simp [passes], fun pixel => ?_⟩
    by_cases here : f.pixel = pixel
    · subst here
      by_cases fails : st.discards color = true
      · simp [candidate, found, fails]
      · simp [candidate, found, fails, Frame.at, Passes, passes]
    · simp [candidate, here]

theorem drawn_at {st : RenderState} (hides : Hides st) (fs : List (Fragment D)) (frame : Frame D)
    (shaded : ∀ f ∈ fs, f.color.isSome) :
    ∃ out, frame.drawn st fs = some out ∧ ∀ pixel, out.at pixel =
      (candidates st pixel fs).foldl
        (fun best x => if Passes st.depthFunc x best then x else best) (frame.at pixel) := by
  induction fs generalizing frame with
  | nil => exact ⟨frame, rfl, fun pixel => rfl⟩
  | cons f fs ih =>
    obtain ⟨next, stepped, first⟩ := fragment_at hides frame (shaded f (by simp))
    obtain ⟨out, rest, second⟩ := ih next fun f member => shaded f (by simp [member])
    refine ⟨out, ?_, fun pixel => ?_⟩
    · rw [Frame.drawn, List.foldlM_cons, stepped]
      exact rest
    · rw [second, first, ← List.foldl_append]
      congr 1
      cases challenger : candidate st pixel f <;> simp [candidates, challenger]

structure DrawCall where
  settings : Settings
  prim : Prim
  v : List NearClip.Vertex

namespace DrawCall

def fragments (rule : DepthRule D) (call : DrawCall) : List (Fragment D) :=
  Fragments.fragments rule call.settings (Gpu.draw call.prim call.v)

/-- What the draw would leave at a pixel, fragment by fragment. -/
def candidates (rule : DepthRule D) (call : DrawCall) (pixel : Pixel) : List (Point D) :=
  Fragments.candidates call.settings.st pixel (call.fragments rule)

/-- Surfaces are hidden by one depth comparison, and every fragment has its color: all texture
reads succeed, their coordinates fitting an `int`. -/
structure Solid (rule : DepthRule D) (func : Word) (call : DrawCall) : Prop where
  hides : Hides call.settings.st
  func : call.settings.st.depthFunc = func
  shaded : ∀ f ∈ call.fragments rule, f.color.isSome

end DrawCall

def Frame.render (rule : DepthRule D) (frame : Frame D) (calls : List DrawCall) : Option (Frame D) :=
  calls.foldlM (fun frame call => frame.draw rule call.settings call.prim call.v) frame

variable {rule : DepthRule D}

theorem render_at {func : Word} (calls : List DrawCall) (frame : Frame D)
    (solid : ∀ call ∈ calls, call.Solid rule func) :
    ∃ out, frame.render rule calls = some out ∧ ∀ pixel, out.at pixel =
      (calls.flatMap fun call => call.candidates rule pixel).foldl
        (fun best x => if Passes func x best then x else best) (frame.at pixel) := by
  induction calls generalizing frame with
  | nil => exact ⟨frame, rfl, fun pixel => rfl⟩
  | cons call calls ih =>
    have own := solid call (by simp)
    obtain ⟨next, drawn, first⟩ := drawn_at own.hides (call.fragments rule) frame own.shaded
    obtain ⟨out, rest, second⟩ := ih next fun call member => solid call (by simp [member])
    rw [own.func] at first
    refine ⟨out, ?_, fun pixel => ?_⟩
    · rw [Frame.render, List.foldlM_cons]
      change (frame.drawn call.settings.st (call.fragments rule)).bind _ = _
      rw [drawn]
      exact rest
    · rw [second, first, List.flatMap_cons, List.foldl_append]
      rfl

theorem render_champion {func : Word} (equal : func ≠ 0x0202) (unequal : func ≠ 0x0205)
    (calls : List DrawCall) (frame : Frame D) (solid : ∀ call ∈ calls, call.Solid rule func) :
    ∃ out, frame.render rule calls = some out ∧ ∀ pixel, Champion (Passes func)
      (frame.at pixel :: calls.flatMap fun call => call.candidates rule pixel) (out.at pixel) := by
  obtain ⟨out, drawn, final⟩ := render_at calls frame solid
  refine ⟨out, drawn, fun pixel => ?_⟩
  rw [final]
  exact champion_foldl (ranks_passes equal unequal) _ (.single _)

/-- What a pixel shows after a frame of draws passes the depth test against all that came before it
there, and nothing that came after it passes against that. -/
theorem render_hides (rule : DepthRule D) {func : Word} (equal : func ≠ 0x0202)
    (unequal : func ≠ 0x0205) (calls : List DrawCall) (frame : Frame D)
    (solid : ∀ call ∈ calls, call.Solid rule func) :
    ∃ out, frame.render rule calls = some out ∧ ∀ pixel, ∃ before after,
      frame.at pixel :: (calls.flatMap fun call => call.candidates rule pixel) =
          before ++ out.at pixel :: after ∧
        (∀ hidden ∈ before, depthPass func (out.depth pixel) hidden.1) ∧
        ∀ hidden ∈ after, ¬depthPass func hidden.1 (out.depth pixel) :=
  render_champion equal unequal calls frame solid

/-- A plain draw whose surfaces are hidden by GL_LESS. -/
def plainCall (v : List NearClip.Vertex) : DrawCall where
  settings := { st := { depthTest := true } }
  prim := .triangles
  v := v

theorem solid_plainCall (v : List NearClip.Vertex) : (plainCall v).Solid exactDepth 0x0201 where
  hides := ⟨rfl, rfl, rfl, by simp [plainCall], by simp [plainCall]⟩
  func := rfl
  shaded := fragments_shaded rfl _

/-- A corner at the given place with depth and weight. -/
def vertexAt (x y z : ℚ) : NearClip.Vertex
  | .x => x
  | .y => y
  | .z => z
  | .w => 1
  | _ => 1

def nearTriangle : List NearClip.Vertex := [vertexAt (-1) (-1) 0, vertexAt 1 (-1) 0, vertexAt 0 1 0]
def farTriangle : List NearClip.Vertex :=
  [vertexAt (-1) (-1) (1 / 2), vertexAt 1 (-1) (1 / 2), vertexAt 0 1 (1 / 2)]

def cleared : Frame ℚ := ⟨fun _ => 1, fun _ => 0⟩

theorem render_hides_twoTriangles :
    ∃ out, cleared.render exactDepth [plainCall farTriangle, plainCall nearTriangle] = some out ∧
      ∀ pixel, ∃ before after,
        cleared.at pixel :: ([plainCall farTriangle, plainCall nearTriangle].flatMap fun call =>
          call.candidates exactDepth pixel) = before ++ out.at pixel :: after ∧
        (∀ hidden ∈ before, depthPass 0x0201 (out.depth pixel) hidden.1) ∧
        ∀ hidden ∈ after, ¬depthPass 0x0201 hidden.1 (out.depth pixel) :=
  render_hides exactDepth (by decide) (by decide) _ cleared (by
    intro call member
    simp only [List.mem_cons, List.not_mem_nil, or_false] at member
    rcases member with rfl | rfl <;> exact solid_plainCall _)

/-- Of two different depths exactly one passes against the other. -/
theorem passes_decided {func : Word} (equal : func ≠ 0x0202) (unequal : func ≠ 0x0205)
    (sometimes : func ≠ 0x0200) (notAlways : func ≠ 0x0207) {x y : Point D} (different : x.1 ≠ y.1) :
    Passes func x y ↔ ¬Passes func y x := by
  unfold Passes
  rcases depthPass_cases (D := D) equal unequal with
    ⟨never, -⟩ | ⟨always, -⟩ | less | lequal | greater | gequal
  · exact absurd never sometimes
  · exact absurd always notAlways
  · simp only [less, decide_eq_true_eq, not_lt]
    exact ⟨le_of_lt, fun below => below.lt_of_ne different⟩
  · simp only [lequal, decide_eq_true_eq, not_le]
    exact ⟨fun below => below.lt_of_ne different, le_of_lt⟩
  · simp only [greater, decide_eq_true_eq, not_lt]
    exact ⟨le_of_lt, fun above => above.lt_of_ne different.symm⟩
  · simp only [gequal, decide_eq_true_eq, not_le]
    exact ⟨fun above => above.lt_of_ne different.symm, le_of_lt⟩

/-- The draws of a frame can come in any order: a pixel where no two depths are equal shows the
same. -/
theorem render_order (rule : DepthRule D) (func : Word) (equal : func ≠ 0x0202)
    (unequal : func ≠ 0x0205) (sometimes : func ≠ 0x0200) (notAlways : func ≠ 0x0207)
    {calls others : List DrawCall} (same : calls.Perm others) (frame : Frame D)
    (solid : ∀ call ∈ calls, call.Solid rule func) :
    ∃ out other, frame.render rule calls = some out ∧ frame.render rule others = some other ∧
      ∀ pixel, (frame.at pixel :: calls.flatMap fun call => call.candidates rule pixel).Pairwise
        (fun x y => x.1 ≠ y.1) → out.at pixel = other.at pixel := by
  obtain ⟨out, drawn, final⟩ := render_champion equal unequal calls frame solid
  obtain ⟨other, drawn', final'⟩ := render_champion equal unequal others frame fun call member =>
    solid call (same.mem_iff.mpr member)
  refine ⟨out, other, drawn, drawn', fun pixel distinct => ?_⟩
  refine (final pixel).eq_of_perm ((same.flatMap_right _).cons _) (distinct.imp ?_) (final' pixel)
  exact fun different => passes_decided equal unequal sometimes notAlways different

theorem render_order_twoTriangles :
    ∃ out other, cleared.render exactDepth [plainCall farTriangle, plainCall nearTriangle] = some out ∧
      cleared.render exactDepth [plainCall nearTriangle, plainCall farTriangle] = some other ∧
      ∀ pixel, (cleared.at pixel :: [plainCall farTriangle, plainCall nearTriangle].flatMap fun call =>
        call.candidates exactDepth pixel).Pairwise (fun x y => x.1 ≠ y.1) →
          out.at pixel = other.at pixel :=
  render_order exactDepth 0x0201 (by decide) (by decide) (by decide) (by decide) (.swap _ _ _) cleared (by
    intro call member
    simp only [List.mem_cons, List.not_mem_nil, or_false] at member
    rcases member with rfl | rfl <;> exact solid_plainCall _)

end ZeeboLle.Gpu.Fragments

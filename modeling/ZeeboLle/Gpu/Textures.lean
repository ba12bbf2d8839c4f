import ZeeboLle.Unicorn.Memory
import Mathlib.Data.Fin.VecNotation
import Mathlib.Data.Rat.Floor
import Mathlib.Logic.Function.Basic
import Mathlib.Tactic.FieldSimp
import Mathlib.Tactic.FinCases
import Mathlib.Tactic.Linarith
import Mathlib.Tactic.Positivity

/-! The textures of the software rasterizer: images are uploaded under an id, ids are bound to the
two units, and a draw samples the image its unit resolves to. Arithmetic is over the rationals; a
read outside the image or a coordinate that no `int` holds gives no color. -/
namespace ZeeboLle.Gpu.SoftTextures

open Unicorn

structure Texture where
  w : Int := 0
  h : Int := 0
  rgba : List Byte := []
  magNearest : Bool := false
  minNearest : Bool := false
  clampS : Bool := false
  clampT : Bool := false

structure Textures where
  textures : Word → Option Texture := fun _ => none
  boundTex : Fin 2 → Word := fun _ => 0

inductive TextureCall where
  | texImage2d (id : Word) (w h : Int) (rgba8 : Option (Nat → Byte))
  | texParameter (unit pname param : Word)
  | bindTexture (unit id : Word)
  | deleteTexture (id : Word)

/-- The sampler setting of one parameter; other names are ignored. -/
def Texture.parameter (t : Texture) (pname param : Word) : Texture :=
  if pname = 0x2800 then { t with magNearest := param = 0x2600 }
  else if pname = 0x2801 then { t with minNearest := param = 0x2600 }
  else if pname = 0x2802 then { t with clampS := param = 0x812f }
  else if pname = 0x2803 then { t with clampT := param = 0x812f }
  else t

namespace Textures

def texImage2d (state : Textures) (id : Word) (w h : Int) (rgba8 : Option (Nat → Byte)) : Textures :=
  match rgba8 with
  | none => state
  | some src =>
    if w ≤ 0 ∨ h ≤ 0 ∨ w > 4096 ∨ h > 4096 then state
    else
      -- the sampler settings of an earlier image are kept
      let t := (state.textures id).getD {}
      let bytes := w.toNat * h.toNat * 4
      let image : Texture := { t with w := w, h := h, rgba := (List.range bytes).map src }
      { state with textures := Function.update state.textures id (some image) }

def texParameter (state : Textures) (unit pname param : Word) : Textures :=
  if inside : unit.toNat < 2 then
    let id := state.boundTex ⟨unit.toNat, inside⟩
    if id = 0 then state
    else
      let t := (state.textures id).getD {}
      { state with textures := Function.update state.textures id (some (t.parameter pname param)) }
  else state

def bindTexture (state : Textures) (unit id : Word) : Textures :=
  if inside : unit.toNat < 2 then
    { state with boundTex := Function.update state.boundTex ⟨unit.toNat, inside⟩ id }
  else state

def deleteTexture (state : Textures) (id : Word) : Textures where
  textures := Function.update state.textures id none
  boundTex unit := if state.boundTex unit = id then 0 else state.boundTex unit

def step (state : Textures) : TextureCall → Textures
  | .texImage2d id w h rgba8 => state.texImage2d id w h rgba8
  | .texParameter unit pname param => state.texParameter unit pname param
  | .bindTexture unit id => state.bindTexture unit id
  | .deleteTexture id => state.deleteTexture id

def run (calls : List TextureCall) : Textures := calls.foldl step {}

/-- The texture a draw resolves once for each triangle. -/
def resolve (state : Textures) (unit : Fin 2) : Option Texture :=
  (state.textures (state.boundTex unit)).filter fun t => t.rgba ≠ []

end Textures

abbrev Color := Fin 4 → ℚ

/-- A value that is converted to `int`. -/
def castInt (i : Int) : Option Int := if -0x80000000 ≤ i ∧ i ≤ 0x7fffffff then some i else none

def addr (i n : Int) (clamp : Bool) : Option Int :=
  if n ≤ 0 then none
  else if clamp then some (if i < 0 then 0 else if n - 1 < i then n - 1 else i)
  else
    let i := i.tmod n
    some (if i < 0 then i + n else i)

def channels (rgba : List Byte) (p : Nat) : Option Color :=
  match rgba[p]?, rgba[p + 1]?, rgba[p + 2]?, rgba[p + 3]? with
  | some r, some g, some b, some a =>
    some ![(r.toNat : ℚ) / 255, (g.toNat : ℚ) / 255, (b.toNat : ℚ) / 255, (a.toNat : ℚ) / 255]
  | _, _, _, _ => none

def texel (t : Texture) (x y : Int) : Option Color := do
  let x ← addr x t.w t.clampS
  let y ← addr y t.h t.clampT
  channels t.rgba ((y.toNat * t.w.toNat + x.toNat) * 4)

/-- One channel between the four nearest texels. -/
def bilinear (fx fy : ℚ) (p00 p10 p01 p11 : Color) : Color := fun c =>
  let top := p00 c + (p10 c - p00 c) * fx
  let bottom := p01 c + (p11 c - p01 c) * fx
  top + (bottom - top) * fy

def sampleTexture (t : Option Texture) (u v : ℚ) : Option Color :=
  match t with
  | none => some ![1, 1, 1, 1]
  | some t =>
    if t.rgba = [] then some ![1, 1, 1, 1]
    else if t.magNearest then do
      let xi ← castInt ⌊u * t.w⌋
      let yi ← castInt ⌊v * t.h⌋
      texel t xi yi
    else do
      let x := u * t.w - 1 / 2
      let y := v * t.h - 1 / 2
      let x0 ← castInt ⌊x⌋
      let y0 ← castInt ⌊y⌋
      let x1 ← castInt (x0 + 1)
      let y1 ← castInt (y0 + 1)
      let p00 ← texel t x0 y0
      let p10 ← texel t x1 y0
      let p01 ← texel t x0 y1
      let p11 ← texel t x1 y1
      some (bilinear (x - x0) (y - y0) p00 p10 p01 p11)

/-- The converted coordinates, and their neighbours where four texels are read, fit an `int`. -/
def Representable (t : Option Texture) (u v : ℚ) : Prop :=
  ∀ found ∈ t, found.rgba ≠ [] →
    if found.magNearest then (castInt ⌊u * found.w⌋).isSome ∧ (castInt ⌊v * found.h⌋).isSome
    else
      ((castInt ⌊u * found.w - 1 / 2⌋).isSome ∧ (castInt (⌊u * found.w - 1 / 2⌋ + 1)).isSome) ∧
        (castInt ⌊v * found.h - 1 / 2⌋).isSome ∧ (castInt (⌊v * found.h - 1 / 2⌋ + 1)).isSome

/-- An image as it is uploaded. -/
structure Image where
  w : Int
  h : Int
  src : Nat → Byte
  wide : 0 < w ∧ w ≤ 4096
  tall : 0 < h ∧ h ≤ 4096

namespace Image

def bytes (image : Image) : List Byte := (List.range (image.w.toNat * image.h.toNat * 4)).map image.src

/-- The color of the texel in a column and a row. -/
def color (image : Image) (x y : Nat) : Color := fun c =>
  ((image.src ((y * image.w.toNat + x) * 4 + c)).toNat : ℚ) / 255

end Image

/-- What a call says about the image of an id: nothing, a new one, or that it is gone. -/
def imageOf (id : Word) : TextureCall → Option (Option Image)
  | .texImage2d other w h (some src) =>
    if valid : other = id ∧ (0 < w ∧ w ≤ 4096) ∧ 0 < h ∧ h ≤ 4096 then
      some (some ⟨w, h, src, valid.2.1, valid.2.2⟩)
    else none
  | .deleteTexture other => if other = id then some none else none
  | _ => none

/-- The image that the last call about an id leaves it. -/
def uploaded (calls : List TextureCall) (id : Word) : Option Image :=
  (calls.reverse.findSome? (imageOf id)).join

/-- What can be seen of a texture besides its sampler settings. -/
def shown (t : Option Texture) : Option (Int × Int × List Byte) :=
  (t.filter fun t => t.rgba ≠ []).map fun t => (t.w, t.h, t.rgba)

def Image.data (image : Image) : Int × Int × List Byte := (image.w, image.h, image.bytes)

theorem Image.length_bytes (image : Image) :
    image.bytes.length = image.w.toNat * image.h.toNat * 4 := by
  simp [Image.bytes]

theorem Image.bytes_ne_nil (image : Image) : image.bytes ≠ [] := by
  have wide : 0 < image.w.toNat := Int.lt_toNat.mpr image.wide.1
  have tall : 0 < image.h.toNat := Int.lt_toNat.mpr image.tall.1
  have long : 0 < image.bytes.length := by
    rw [image.length_bytes]
    positivity
  exact List.ne_nil_of_length_pos long

theorem shown_some (t : Texture) :
    shown (some t) = if t.rgba = [] then none else some (t.w, t.h, t.rgba) := by
  by_cases empty : t.rgba = [] <;> simp [shown, Option.filter, empty]

theorem parameter_shown (t : Texture) (pname param : Word) :
    shown (some (t.parameter pname param)) = shown (some t) := by
  rw [shown_some, shown_some]
  unfold Texture.parameter
  split_ifs <;> rfl

/-- An entry that is made up when it is missing shows nothing. -/
theorem shown_getD (t : Option Texture) : shown (some (t.getD {})) = shown t := by
  cases t <;> rfl

theorem shown_step (state : Textures) (call : TextureCall) (id : Word) :
    shown ((state.step call).textures id) =
      ((imageOf id call).map fun image => image.map Image.data).getD (shown (state.textures id)) := by
  cases call with
  | texImage2d other w h rgba8 =>
    cases rgba8 with
    | none => rfl
    | some src =>
      by_cases refused : w ≤ 0 ∨ h ≤ 0 ∨ w > 4096 ∨ h > 4096
      · have invalid : ¬(other = id ∧ (0 < w ∧ w ≤ 4096) ∧ 0 < h ∧ h ≤ 4096) := by omega
        simp [Textures.step, Textures.texImage2d, imageOf, if_pos refused, dif_neg invalid]
      · by_cases same : other = id
        · subst same
          have valid : (0 < w ∧ w ≤ 4096) ∧ 0 < h ∧ h ≤ 4096 := by omega
          have image := (Image.mk w h src valid.1 valid.2).bytes_ne_nil
          simp only [Image.bytes] at image
          simp [Textures.step, Textures.texImage2d, imageOf, if_neg refused, valid, shown, Image.data,
            Image.bytes, Option.filter, image]
        · simp [Textures.step, Textures.texImage2d, imageOf, if_neg refused, same,
            Function.update_of_ne (Ne.symm same)]
  | texParameter unit pname param =>
    simp only [Textures.step, Textures.texParameter, imageOf]
    split
    · split
      · rfl
      · rename_i inside _
        by_cases same : id = state.boundTex ⟨unit.toNat, inside⟩
        · subst same
          simp only [Function.update_self, parameter_shown, shown_getD]
          rfl
        · simp only [Function.update_of_ne same]
          rfl
    · rfl
  | bindTexture unit other =>
    simp only [Textures.step, Textures.bindTexture, imageOf]
    split <;> rfl
  | deleteTexture other =>
    by_cases same : other = id
    · simp [Textures.step, Textures.deleteTexture, imageOf, same, shown]
    · simp [Textures.step, Textures.deleteTexture, imageOf, same, Function.update_of_ne (Ne.symm same)]

theorem uploaded_append (calls : List TextureCall) (call : TextureCall) (id : Word) :
    uploaded (calls ++ [call]) id = (imageOf id call).getD (uploaded calls id) := by
  unfold uploaded
  cases found : imageOf id call <;> simp [found]

/-- After any calls a texture shows what the last call about its id uploaded. -/
theorem shown_run (calls : List TextureCall) (id : Word) :
    shown ((Textures.run calls).textures id) = (uploaded calls id).map Image.data := by
  induction calls using List.reverseRecOn with
  | nil => rfl
  | append_singleton calls call ih =>
    have run : Textures.run (calls ++ [call]) = (Textures.run calls).step call := by
      simp [Textures.run]
    rw [run, shown_step, uploaded_append, ih]
    cases imageOf id call <;> rfl

/-- A texture that holds an uploaded image. -/
structure Holds (t : Texture) (image : Image) : Prop where
  w : t.w = image.w
  h : t.h = image.h
  rgba : t.rgba = image.bytes

/-- What a resolved texture is when the history leaves an image or none. -/
def Shows (t : Option Texture) : Option Image → Prop
  | none => t = none
  | some image => ∃ found, t = some found ∧ Holds found image

/-- A draw resolves its unit to the image uploaded last under the id that is bound. -/
theorem resolve_run (calls : List TextureCall) (unit : Fin 2) :
    Shows ((Textures.run calls).resolve unit)
      (uploaded calls ((Textures.run calls).boundTex unit)) := by
  have history := shown_run calls ((Textures.run calls).boundTex unit)
  change ((Textures.run calls).resolve unit).map _ = _ at history
  cases last : uploaded calls ((Textures.run calls).boundTex unit) with
  | none =>
    rw [last] at history
    exact Option.map_eq_none_iff.mp history
  | some image =>
    rw [last] at history
    obtain ⟨t, found, same⟩ := Option.map_eq_some_iff.mp history
    simp only [Image.data, Prod.mk.injEq] at same
    exact ⟨t, found, same.1, same.2.1, same.2.2⟩

theorem addr_repeat (i : Int) {n : Int} (pos : 0 < n) : addr i n false = some (i % n) := by
  have low := Int.tmod_lt_of_pos i pos
  have high := Int.lt_tmod_of_pos i pos
  have same : (i.tmod n) % n = i % n := by
    rw [Int.tmod_def]
    simp
  rw [addr, if_neg (by omega), if_neg Bool.false_ne_true]
  dsimp only
  split
  · rename_i negative
    rw [← same, ← Int.add_emod_right, Int.emod_eq_of_lt (by omega) (by omega)]
  · rw [← same, Int.emod_eq_of_lt (by omega) low]

theorem addr_inside (i : Int) {n : Int} (pos : 0 < n) (clamp : Bool) :
    ∃ j, addr i n clamp = some j ∧ 0 ≤ j ∧ j < n := by
  cases clamp with
  | true =>
    rw [addr, if_neg (by omega), if_pos rfl]
    refine ⟨_, rfl, ?_⟩
    split_ifs <;> omega
  | false => exact ⟨_, addr_repeat i pos, Int.emod_nonneg i (by omega), Int.emod_lt_of_pos i pos⟩

theorem addr_self {i n : Int} (low : 0 ≤ i) (high : i < n) (clamp : Bool) : addr i n clamp = some i := by
  cases clamp with
  | true => rw [addr, if_neg (by omega), if_pos rfl, if_neg (by omega), if_neg (by omega)]
  | false => rw [addr_repeat i (low.trans_lt high), Int.emod_eq_of_lt low high]

variable {t : Texture} {image : Image}

theorem channels_bytes (image : Image) {x y : Nat} (column : x < image.w.toNat) (row : y < image.h.toNat) :
    channels image.bytes ((y * image.w.toNat + x) * 4) = some (image.color x y) := by
  have inside : y * image.w.toNat + x < image.w.toNat * image.h.toNat := by
    calc y * image.w.toNat + x < y * image.w.toNat + image.w.toNat := by omega
      _ = (y + 1) * image.w.toNat := by ring
      _ ≤ image.h.toNat * image.w.toNat := Nat.mul_le_mul_right _ row
      _ = image.w.toNat * image.h.toNat := Nat.mul_comm _ _
  have read (c : Nat) (small : c < 4) :
      image.bytes[(y * image.w.toNat + x) * 4 + c]? =
        some (image.src ((y * image.w.toNat + x) * 4 + c)) := by
    have below : (y * image.w.toNat + x) * 4 + c < image.w.toNat * image.h.toNat * 4 := by omega
    rw [Image.bytes, List.getElem?_map, List.getElem?_range below]
    rfl
  have first := read 0 (by decide)
  rw [Nat.add_zero] at first
  rw [channels, first, read 1 (by decide), read 2 (by decide), read 3 (by decide)]
  refine congrArg some (funext fun c => ?_)
  fin_cases c <;> rfl

theorem texel_eq (holds : Holds t image) {x y : Int} {i j : Nat} (column : i < image.w.toNat)
    (row : j < image.h.toNat) (horizontal : addr x image.w t.clampS = some (i : Int))
    (vertical : addr y image.h t.clampT = some (j : Int)) : texel t x y = some (image.color i j) := by
  rw [texel, holds.w, holds.h, holds.rgba, horizontal, vertical]
  exact channels_bytes image column row

/-- The channels of a color lie between black and white. -/
def Unit (color : Color) : Prop := ∀ c, 0 ≤ color c ∧ color c ≤ 1

theorem unit_color (image : Image) (x y : Nat) : Unit (image.color x y) := by
  intro c
  have small : (image.src ((y * image.w.toNat + x) * 4 + c)).toNat ≤ 255 := by omega
  have scaled : ((image.src ((y * image.w.toNat + x) * 4 + c)).toNat : ℚ) ≤ 255 := by exact_mod_cast small
  exact ⟨by unfold Image.color; positivity, (div_le_one (by norm_num)).mpr scaled⟩

/-- Every texel a sampler asks for is one of the image. -/
theorem texel_inside (holds : Holds t image) (x y : Int) :
    ∃ i j, texel t x y = some (image.color i j) := by
  obtain ⟨i, horizontal, left, right⟩ := addr_inside x image.wide.1 t.clampS
  obtain ⟨j, vertical, top, bottom⟩ := addr_inside y image.tall.1 t.clampT
  refine ⟨i.toNat, j.toNat, texel_eq holds (by omega) (by omega) ?_ ?_⟩
  · rw [horizontal, Int.toNat_of_nonneg left]
  · rw [vertical, Int.toNat_of_nonneg top]

theorem texel_self (holds : Holds t image) {i j : Nat} (column : i < image.w.toNat)
    (row : j < image.h.toNat) : texel t i j = some (image.color i j) :=
  texel_eq holds column row (addr_self (by omega) (by omega) _) (addr_self (by omega) (by omega) _)

theorem between_unit {a b f : ℚ} (first : 0 ≤ a ∧ a ≤ 1) (second : 0 ≤ b ∧ b ≤ 1)
    (weight : 0 ≤ f ∧ f ≤ 1) : 0 ≤ a + (b - a) * f ∧ a + (b - a) * f ≤ 1 := by
  constructor
  · nlinarith [mul_nonneg first.1 (sub_nonneg.mpr weight.2), mul_nonneg second.1 weight.1]
  · nlinarith [mul_nonneg (sub_nonneg.mpr first.2) (sub_nonneg.mpr weight.2),
      mul_nonneg (sub_nonneg.mpr second.2) weight.1]

theorem bilinear_unit {fx fy : ℚ} {p00 p10 p01 p11 : Color} (across : 0 ≤ fx ∧ fx ≤ 1)
    (down : 0 ≤ fy ∧ fy ≤ 1) (u00 : Unit p00) (u10 : Unit p10) (u01 : Unit p01) (u11 : Unit p11) :
    Unit (bilinear fx fy p00 p10 p01 p11) := fun c =>
  between_unit (between_unit (u00 c) (u10 c) across) (between_unit (u01 c) (u11 c) across) down

theorem bilinear_corner (p00 p10 p01 p11 : Color) : bilinear 0 0 p00 p10 p01 p11 = p00 := by
  funext c
  simp [bilinear]

theorem fract_unit (x : ℚ) : 0 ≤ x - ⌊x⌋ ∧ x - ⌊x⌋ ≤ 1 := by
  have := Int.fract_nonneg x
  have := Int.fract_lt_one x
  unfold Int.fract at *
  exact ⟨by linarith, by linarith⟩

theorem castInt_isSome {i : Int} (fits : (castInt i).isSome) : castInt i = some i := by
  unfold castInt at *
  split <;> simp_all

theorem Holds.rgba_ne_nil (holds : Holds t image) : t.rgba ≠ [] := by
  rw [holds.rgba]
  exact image.bytes_ne_nil

theorem sample_nearest {u v : ℚ} (stored : t.rgba ≠ []) (nearest : t.magNearest = true)
    (fx : (castInt ⌊u * t.w⌋).isSome) (fy : (castInt ⌊v * t.h⌋).isSome) :
    sampleTexture (some t) u v = texel t ⌊u * t.w⌋ ⌊v * t.h⌋ := by
  simp only [sampleTexture, if_neg stored, if_pos nearest, castInt_isSome fx, castInt_isSome fy,
    Option.bind_eq_bind, Option.bind_some]

/-- Four texels that are all there are interpolated. -/
theorem sample_linear {u v : ℚ} {x y : Int} {p00 p10 p01 p11 : Color} (stored : t.rgba ≠ [])
    (linear : ¬t.magNearest = true) (column : ⌊u * t.w - 1 / 2⌋ = x) (row : ⌊v * t.h - 1 / 2⌋ = y)
    (fits : ((castInt x).isSome ∧ (castInt (x + 1)).isSome) ∧ (castInt y).isSome ∧ (castInt (y + 1)).isSome)
    (read00 : texel t x y = some p00) (read10 : texel t (x + 1) y = some p10)
    (read01 : texel t x (y + 1) = some p01) (read11 : texel t (x + 1) (y + 1) = some p11) :
    sampleTexture (some t) u v =
      some (bilinear (u * t.w - 1 / 2 - x) (v * t.h - 1 / 2 - y) p00 p10 p01 p11) := by
  obtain ⟨⟨fx0, fx1⟩, fy0, fy1⟩ := fits
  simp only [sampleTexture, if_neg stored, if_neg linear, column, row, castInt_isSome fx0,
    castInt_isSome fy0, castInt_isSome fx1, castInt_isSome fy1, read00, read10, read01, read11,
    Option.bind_eq_bind, Option.bind_some]

/-- A sample of an uploaded image only fails where no `int` holds a coordinate. -/
theorem sample_unit (holds : Holds t image) {u v : ℚ} (fits : Representable (some t) u v) :
    ∃ color, sampleTexture (some t) u v = some color ∧ Unit color := by
  have texels (x y : Int) : ∃ color, texel t x y = some color ∧ Unit color := by
    obtain ⟨i, j, read⟩ := texel_inside holds x y
    exact ⟨_, read, unit_color image i j⟩
  have converted := fits t rfl holds.rgba_ne_nil
  by_cases nearest : t.magNearest = true
  · rw [if_pos nearest] at converted
    rw [sample_nearest holds.rgba_ne_nil nearest converted.1 converted.2]
    exact texels _ _
  · rw [if_neg nearest] at converted
    obtain ⟨p00, read00, u00⟩ := texels ⌊u * t.w - 1 / 2⌋ ⌊v * t.h - 1 / 2⌋
    obtain ⟨p10, read10, u10⟩ := texels (⌊u * t.w - 1 / 2⌋ + 1) ⌊v * t.h - 1 / 2⌋
    obtain ⟨p01, read01, u01⟩ := texels ⌊u * t.w - 1 / 2⌋ (⌊v * t.h - 1 / 2⌋ + 1)
    obtain ⟨p11, read11, u11⟩ := texels (⌊u * t.w - 1 / 2⌋ + 1) (⌊v * t.h - 1 / 2⌋ + 1)
    exact ⟨_, sample_linear holds.rgba_ne_nil nearest rfl rfl converted read00 read10 read01 read11,
      bilinear_unit (fract_unit _) (fract_unit _) u00 u10 u01 u11⟩

theorem castInt_small {i : Int} (low : 0 ≤ i) (high : i ≤ 4096) : (castInt i).isSome := by
  rw [castInt, if_pos ⟨by linarith, by linarith⟩]
  rfl

/-- The center of a texel, along one side of `n` texels. -/
def center (i : Nat) (n : Int) : ℚ := (i + 1 / 2) / n

theorem center_mul (i : Nat) {n : Int} (pos : 0 < n) : center i n * n = i + 1 / 2 := by
  have nonzero : (n : ℚ) ≠ 0 := by exact_mod_cast pos.ne'
  rw [center, div_mul_cancel₀ _ nonzero]

theorem floor_half (i : Nat) : ⌊(i : ℚ) + 1 / 2⌋ = i := by
  rw [Int.floor_eq_iff]
  constructor
  · push_cast
    linarith
  · push_cast
    linarith

/-- At the center of a texel both filters give the texel. -/
theorem sample_center (holds : Holds t image) {i j : Nat} (column : i < image.w.toNat)
    (row : j < image.h.toNat) :
    sampleTexture (some t) (center i image.w) (center j image.h) = some (image.color i j) := by
  have own := texel_self holds column row
  have wide := image.wide
  have tall := image.tall
  have across : center i image.w * t.w = i + 1 / 2 := by rw [holds.w, center_mul i wide.1]
  have down : center j image.h * t.h = j + 1 / 2 := by rw [holds.h, center_mul j tall.1]
  have left : (castInt i).isSome := castInt_small (by omega) (by omega)
  have top : (castInt j).isSome := castInt_small (by omega) (by omega)
  by_cases nearest : t.magNearest = true
  · have columns : ⌊center i image.w * t.w⌋ = i := by rw [across, floor_half]
    have rows : ⌊center j image.h * t.h⌋ = j := by rw [down, floor_half]
    rw [sample_nearest holds.rgba_ne_nil nearest (by rwa [columns]) (by rwa [rows]), columns, rows, own]
  · have columns : ⌊center i image.w * t.w - 1 / 2⌋ = i := by
      rw [across, add_sub_cancel_right, Int.floor_natCast]
    have rows : ⌊center j image.h * t.h - 1 / 2⌋ = j := by
      rw [down, add_sub_cancel_right, Int.floor_natCast]
    have right : (castInt (i + 1)).isSome := castInt_small (by omega) (by omega)
    have bottom : (castInt (j + 1)).isSome := castInt_small (by omega) (by omega)
    obtain ⟨a, b, read10⟩ := texel_inside holds (i + 1 : Int) j
    obtain ⟨c, d, read01⟩ := texel_inside holds i (j + 1 : Int)
    obtain ⟨e, f, read11⟩ := texel_inside holds (i + 1 : Int) (j + 1 : Int)
    rw [sample_linear holds.rgba_ne_nil nearest columns rows ⟨⟨left, right⟩, top, bottom⟩ own read10
      read01 read11, across, down, add_sub_cancel_right, add_sub_cancel_right, Int.cast_natCast,
      Int.cast_natCast, sub_self, sub_self, bilinear_corner]

/-- A whole number of images further along a side that wraps is the same texel. -/
theorem texel_repeat (holds : Holds t image) {k l : Int} (wide : t.clampS = true → k = 0)
    (tall : t.clampT = true → l = 0) (x y : Int) :
    texel t (x + k * image.w) (y + l * image.h) = texel t x y := by
  have side {clamp : Bool} {steps n : Int} (pos : 0 < n) (stays : clamp = true → steps = 0) (i : Int) :
      addr (i + steps * n) n clamp = addr i n clamp := by
    cases clamp with
    | true => rw [stays rfl, Int.zero_mul, Int.add_zero]
    | false => rw [addr_repeat _ pos, addr_repeat _ pos, Int.add_mul_emod_self_right]
  rw [texel, texel, holds.w, holds.h, side image.wide.1 wide, side image.tall.1 tall]

/-- A shift by whole periods moves the position by whole images. -/
private theorem floor_period (w : ℚ) (n k : Int) (offset : ℚ) :
    ⌊(w + k) * n - offset⌋ = ⌊w * n - offset⌋ + k * n := by
  rw [← Int.floor_add_intCast]
  congr 1
  push_cast
  ring

theorem sample_repeat (holds : Holds t image) {u v : ℚ} {k l : Int} (wide : t.clampS = true → k = 0)
    (tall : t.clampT = true → l = 0) (fits : Representable (some t) u v)
    (shifted : Representable (some t) (u + k) (v + l)) :
    sampleTexture (some t) (u + k) (v + l) = sampleTexture (some t) u v := by
  have columns : ⌊(u + k) * t.w⌋ = ⌊u * t.w⌋ + k * t.w := by
    simpa using floor_period u t.w k 0
  have rows : ⌊(v + l) * t.h⌋ = ⌊v * t.h⌋ + l * t.h := by
    simpa using floor_period v t.h l 0
  have same (x y : Int) : texel t (x + k * t.w) (y + l * t.h) = texel t x y := by
    rw [holds.w, holds.h]
    exact texel_repeat holds wide tall x y
  have first := fits t rfl holds.rgba_ne_nil
  have second := shifted t rfl holds.rgba_ne_nil
  by_cases nearest : t.magNearest = true
  · rw [if_pos nearest] at first second
    rw [sample_nearest holds.rgba_ne_nil nearest first.1 first.2,
      sample_nearest holds.rgba_ne_nil nearest second.1 second.2, columns, rows, same]
  · rw [if_neg nearest] at first second
    obtain ⟨_, _, read00⟩ := texel_inside holds ⌊u * t.w - 1 / 2⌋ ⌊v * t.h - 1 / 2⌋
    obtain ⟨_, _, read10⟩ := texel_inside holds (⌊u * t.w - 1 / 2⌋ + 1) ⌊v * t.h - 1 / 2⌋
    obtain ⟨_, _, read01⟩ := texel_inside holds ⌊u * t.w - 1 / 2⌋ (⌊v * t.h - 1 / 2⌋ + 1)
    obtain ⟨_, _, read11⟩ := texel_inside holds (⌊u * t.w - 1 / 2⌋ + 1) (⌊v * t.h - 1 / 2⌋ + 1)
    have right : ⌊u * t.w - 1 / 2⌋ + k * t.w + 1 = ⌊u * t.w - 1 / 2⌋ + 1 + k * t.w := by ring
    have below : ⌊v * t.h - 1 / 2⌋ + l * t.h + 1 = ⌊v * t.h - 1 / 2⌋ + 1 + l * t.h := by ring
    rw [floor_period, floor_period] at second
    rw [sample_linear holds.rgba_ne_nil nearest rfl rfl first read00 read10 read01 read11,
      sample_linear holds.rgba_ne_nil nearest (floor_period ..) (floor_period ..) second
        (by rw [same, read00]) (by rw [right, same, read10]) (by rw [below, same, read01])
        (by rw [right, below, same, read11])]
    congr 2
    · push_cast
      ring
    · push_cast
      ring

/-- How a texture with an uploaded image is sampled. -/
structure Samples (t : Option Texture) (image : Image) : Prop where
  /-- Never out of bounds, and between black and white. -/
  inside : ∀ u v, Representable t u v → ∃ color, sampleTexture t u v = some color ∧ Unit color
  /-- Exactly the image at the centers of its texels. -/
  centers : ∀ i j, i < image.w.toNat → j < image.h.toNat →
    sampleTexture t (center i image.w) (center j image.h) = some (image.color i j)
  /-- Over and over along each side that is not clamped, separately and together. -/
  repeats : ∀ found ∈ t, ∀ u v (k l : Int), (found.clampS = true → k = 0) →
    (found.clampT = true → l = 0) → Representable t u v → Representable t (u + k) (v + l) →
    sampleTexture t (u + k) (v + l) = sampleTexture t u v

/-- How a unit is sampled when the history leaves an image or none. -/
def SampledAs (t : Option Texture) : Option Image → Prop
  | none => ∀ u v, sampleTexture t u v = some ![1, 1, 1, 1]
  | some image => Samples t image

/-- After any calls, a unit samples the image uploaded last under the id it is bound to. -/
theorem sample_uploaded (calls : List TextureCall) (unit : Fin 2) :
    SampledAs ((Textures.run calls).resolve unit)
      (uploaded calls ((Textures.run calls).boundTex unit)) := by
  have resolved := resolve_run calls unit
  generalize (Textures.run calls).resolve unit = t at resolved ⊢
  generalize uploaded calls ((Textures.run calls).boundTex unit) = last at resolved ⊢
  cases last with
  | none =>
    obtain rfl : t = none := resolved
    exact fun u v => rfl
  | some image =>
    obtain ⟨found, rfl, holds⟩ := resolved
    refine ⟨fun u v fits => sample_unit holds fits, fun i j column row => sample_center holds column row, ?_⟩
    intro other same u v k l wide tall fits shifted
    obtain rfl := Option.mem_some_iff.mp same
    exact sample_repeat holds wide tall fits shifted

end ZeeboLle.Gpu.SoftTextures

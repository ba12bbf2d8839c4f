import ZeeboLle.Unicorn.Memory
import Mathlib.Data.List.GetD
import Mathlib.Tactic.Linarith

/-! The ATITC block decoder, with the widths of the host types, and the oracle its test vectors
come from, in unbounded integers. Sixteen texels of a block are a function of their number. -/
namespace ZeeboLle.Gpu

open Unicorn

def atitcRgb : Word := 0x8c92
def atitcRgbaExplicit : Word := 0x8c93
def atitcRgbaInterp : Word := 0x87ee

def atitcBlockBytes (fmt : Word) : Nat :=
  if fmt = atitcRgb then 8
  else if fmt = atitcRgbaExplicit ∨ fmt = atitcRgbaInterp then 16
  else 0

def atitcImageSize (fmt : Word) (w h : Int) : Nat :=
  let bb := atitcBlockBytes fmt
  if bb = 0 ∨ w ≤ 0 ∨ h ≤ 0 then 0
  else
    let bw := ((w + 3) / 4).toNat
    let bh := ((h + 3) / 4).toNat
    bw * bh * bb

namespace AtitcDetail

def e5 (v : Word) : Byte := ((v <<< 3) ||| (v >>> 2)).setWidth 8

def e6 (v : Word) : Byte := ((v <<< 2) ||| (v >>> 4)).setWidth 8

structure Rgb where
  r : Byte
  g : Byte
  b : Byte
deriving DecidableEq

/-- Method bit and 555 colour. -/
def unpackC0 (w : BitVec 16) : BitVec 16 × Rgb :=
  ((w >>> 15) &&& 1,
    ⟨e5 (((w >>> 10) &&& 0x1f).setWidth 32), e5 (((w >>> 5) &&& 0x1f).setWidth 32),
      e5 ((w &&& 0x1f).setWidth 32)⟩)

def unpackC1 (w : BitVec 16) : Rgb :=
  ⟨e5 (((w >>> 11) &&& 0x1f).setWidth 32), e6 (((w >>> 5) &&& 0x3f).setWidth 32),
    e5 ((w &&& 0x1f).setWidth 32)⟩

def mix (a : Byte) (wa : Nat) (b : Byte) (wb denom : Nat) : Byte :=
  BitVec.ofNat 8 ((wa * a.toNat + wb * b.toNat) / denom)

/-- The difference is taken in `int` and clamped before it is narrowed. -/
def sub (a b : Byte) : Byte :=
  let r : Int := a.toNat - (b.toNat / 4 : Nat)
  BitVec.ofInt 8 (if r < 0 then 0 else r)

def lerp (method : BitVec 16) (t : Nat) (c0 c1 : Rgb) : Rgb :=
  if method = 0 then
    match t with
    | 0 => c0
    | 1 => ⟨mix c0.r 2 c1.r 1 3, mix c0.g 2 c1.g 1 3, mix c0.b 2 c1.b 1 3⟩
    | 2 => ⟨mix c0.r 1 c1.r 2 3, mix c0.g 1 c1.g 2 3, mix c0.b 1 c1.b 2 3⟩
    | _ => c1
  else
    match t with
    | 0 => ⟨0, 0, 0⟩
    | 1 => ⟨sub c0.r c1.r, sub c0.g c1.g, sub c0.b c1.b⟩
    | 2 => c0
    | _ => c1

def decodeColors (cb : Nat → Byte) (i : Nat) : Rgb :=
  let w0 : BitVec 16 := (cb 0).setWidth 16 ||| (cb 1).setWidth 16 <<< 8
  let w1 : BitVec 16 := (cb 2).setWidth 16 ||| (cb 3).setWidth 16 <<< 8
  let (method, c0) := unpackC0 w0
  let c1 := unpackC1 w1
  let idx : Word := (cb 4).setWidth 32 ||| (cb 5).setWidth 32 <<< 8 |||
    (cb 6).setWidth 32 <<< 16 ||| (cb 7).setWidth 32 <<< 24
  lerp method ((idx >>> (2 * i)) &&& 3).toNat c0 c1

/-- Even texels take the low nibble of their byte, odd ones the high nibble. -/
def decodeAlphaExplicit (ab : Nat → Byte) (i : Nat) : Byte :=
  if i % 2 = 0 then BitVec.ofNat 8 ((ab (i / 2) &&& 0x0f).toNat * 17)
  else BitVec.ofNat 8 (((ab (i / 2) >>> 4) &&& 0x0f).toNat * 17)

def alphaPalette (a0 a1 : Nat) : List Byte :=
  if a1 < a0 then
    [BitVec.ofNat 8 a0, BitVec.ofNat 8 a1] ++
      (List.range 6).map fun j => BitVec.ofNat 8 (((6 - j) * a0 + (1 + j) * a1) / 7)
  else
    [BitVec.ofNat 8 a0, BitVec.ofNat 8 a1] ++
      ((List.range 4).map fun j => BitVec.ofNat 8 (((4 - j) * a0 + (1 + j) * a1) / 5)) ++ [0, 255]

def decodeAlphaInterp (ab : Nat → Byte) (i : Nat) : Byte :=
  let pal := alphaPalette (ab 0).toNat (ab 1).toNat
  let bits : BitVec 64 := (List.range 6).foldl
    (fun bits k => bits ||| (ab (2 + k)).setWidth 64 <<< (8 * k)) 0
  pal.getD ((bits >>> (3 * i)) &&& 7).toNat 0

end AtitcDetail

namespace AtcOracle

def e5 (v : Nat) : Nat := (v <<< 3) ||| (v >>> 2)

def e6 (v : Nat) : Nat := (v <<< 2) ||| (v >>> 4)

structure Color where
  r : Nat
  g : Nat
  b : Nat
deriving DecidableEq

def unpackColor0 (w : Nat) : Nat × Color :=
  let method := (w >>> 15) &&& 1
  let r := (w >>> 10) &&& 0x1f
  let g := (w >>> 5) &&& 0x1f
  let b := w &&& 0x1f
  (method, ⟨e5 r, e5 g, e5 b⟩)

def unpackColor1 (w : Nat) : Color :=
  let r := (w >>> 11) &&& 0x1f
  let g := (w >>> 5) &&& 0x3f
  let b := w &&& 0x1f
  ⟨e5 r, e6 g, e5 b⟩

/-- The same formula for each channel. -/
def channels (formula : Nat → Nat → Nat) (c0 c1 : Color) : Color :=
  ⟨formula c0.r c1.r, formula c0.g c1.g, formula c0.b c1.b⟩

def lerpRgb (method t : Nat) (c0 c1 : Color) : Color :=
  if method = 0 then
    if t = 0 then c0
    else if t = 1 then channels (fun a b => (2 * a + b) / 3) c0 c1
    else if t = 2 then channels (fun a b => (a + 2 * b) / 3) c0 c1
    else c1
  else
    if t = 0 then ⟨0, 0, 0⟩
    else if t = 1 then channels (fun a b => (max 0 ((a : Int) - (b / 4 : Nat))).toNat) c0 c1
    else if t = 2 then c0
    else c1

def decodeColorBlock (cb : Nat → Nat) (i : Nat) : Color :=
  let w0 := cb 0 ||| cb 1 <<< 8
  let w1 := cb 2 ||| cb 3 <<< 8
  let (method, c0) := unpackColor0 w0
  let c1 := unpackColor1 w1
  let idx := cb 4 ||| cb 5 <<< 8 ||| cb 6 <<< 16 ||| cb 7 <<< 24
  lerpRgb method ((idx >>> (2 * i)) &&& 3) c0 c1

def decodeExplicitAlpha (ab : Nat → Nat) (i : Nat) : Nat :=
  if i % 2 = 0 then (ab (i / 2) &&& 0x0f) * 17 else ((ab (i / 2) >>> 4) &&& 0x0f) * 17

def decodeInterpAlpha (ab : Nat → Nat) (i : Nat) : Nat :=
  let a0 := ab 0
  let a1 := ab 1
  let bits := (List.range 6).foldl (fun bits k => bits ||| ab (2 + k) <<< (8 * k)) 0
  let pal :=
    if a1 < a0 then
      [a0, a1] ++ (List.range 6).map fun j => ((6 - j) * a0 + (1 + j) * a1) / 7
    else
      [a0, a1] ++ ((List.range 4).map fun j => ((4 - j) * a0 + (1 + j) * a1) / 5) ++ [0, 255]
  pal.getD ((bits >>> (3 * i)) &&& 7) 0

/-- Colour and alpha of one texel of a block. -/
def texel (fmt : Word) (block : Nat → Nat) (i : Nat) : List Nat :=
  let (color, alpha) :=
    if fmt = atitcRgb then (decodeColorBlock block i, 255)
    else if fmt = atitcRgbaExplicit then
      (decodeColorBlock (fun k => block (8 + k)) i, decodeExplicitAlpha block i)
    else (decodeColorBlock (fun k => block (8 + k)) i, decodeInterpAlpha block i)
  [color.r, color.g, color.b, alpha]

end AtcOracle

namespace AtitcDetail

def Rgb.values (c : Rgb) : AtcOracle.Color := ⟨c.r.toNat, c.g.toNat, c.b.toNat⟩

theorem toNat_e5 {v : Word} (small : v.toNat < 32) : (e5 v).toNat = AtcOracle.e5 v.toNat := by
  have every : ∀ n, n < 32 → (e5 (BitVec.ofNat 32 n)).toNat = AtcOracle.e5 n := by decide
  simpa using every v.toNat small

theorem toNat_e6 {v : Word} (small : v.toNat < 64) : (e6 v).toNat = AtcOracle.e6 v.toNat := by
  have every : ∀ n, n < 64 → (e6 (BitVec.ofNat 32 n)).toNat = AtcOracle.e6 n := by decide
  simpa using every v.toNat small

theorem toNat_field (w : BitVec 16) (shift : Nat) (mask : BitVec 16) :
    (((w >>> shift) &&& mask).setWidth 32).toNat = (w.toNat >>> shift) &&& mask.toNat := by
  have bound := ((w >>> shift) &&& mask).isLt
  rw [BitVec.toNat_setWidth, Nat.mod_eq_of_lt (by omega), BitVec.toNat_and, BitVec.toNat_ushiftRight]

theorem toNat_low (w mask : BitVec 16) : ((w &&& mask).setWidth 32).toNat = w.toNat &&& mask.toNat := by
  simpa using toNat_field w 0 mask

theorem unpackC0_values (w : BitVec 16) :
    ((unpackC0 w).1.toNat, (unpackC0 w).2.values) = AtcOracle.unpackColor0 w.toNat := by
  have small : ∀ n, n &&& (0x1f : BitVec 16).toNat < 32 := fun n => Nat.lt_of_le_of_lt Nat.and_le_right (by decide)
  simp only [unpackC0, Rgb.values, AtcOracle.unpackColor0]
  rw [toNat_e5 (by rw [toNat_field]; exact small _), toNat_e5 (by rw [toNat_field]; exact small _),
    toNat_e5 (by rw [toNat_low]; exact small _), toNat_field, toNat_field, toNat_low,
    BitVec.toNat_and, BitVec.toNat_ushiftRight]
  rfl

theorem unpackC1_values (w : BitVec 16) :
    (unpackC1 w).values = AtcOracle.unpackColor1 w.toNat := by
  have five : ∀ n, n &&& (0x1f : BitVec 16).toNat < 32 := fun n => Nat.lt_of_le_of_lt Nat.and_le_right (by decide)
  have six : ∀ n, n &&& (0x3f : BitVec 16).toNat < 64 := fun n => Nat.lt_of_le_of_lt Nat.and_le_right (by decide)
  simp only [unpackC1, Rgb.values, AtcOracle.unpackColor1]
  rw [toNat_e5 (by rw [toNat_field]; exact five _), toNat_e6 (by rw [toNat_field]; exact six _),
    toNat_e5 (by rw [toNat_low]; exact five _), toNat_field, toNat_field, toNat_low]
  rfl

theorem toNat_mix {a b : Byte} {wa wb denom : Nat} (weights : wa + wb = denom)
    (positive : 0 < denom) :
    (mix a wa b wb denom).toNat = (wa * a.toNat + wb * b.toNat) / denom := by
  have first := a.isLt
  have second := b.isLt
  have bound : wa * a.toNat + wb * b.toNat < 256 * denom := by
    subst weights
    nlinarith
  rw [mix, BitVec.toNat_ofNat, Nat.mod_eq_of_lt]
  exact Nat.div_lt_of_lt_mul (by omega)

theorem toNat_sub (a b : Byte) :
    (sub a b).toNat = (max 0 ((a.toNat : Int) - (b.toNat / 4 : Nat))).toNat := by
  have first := a.isLt
  rw [sub, BitVec.toNat_ofInt]
  split <;> omega

theorem lerp_values (method : BitVec 16) (t : Nat) (c0 c1 : Rgb) :
    (lerp method t c0 c1).values = AtcOracle.lerpRgb method.toNat t c0.values c1.values := by
  have zero : method.toNat = 0 ↔ method = 0 := by
    rw [← BitVec.toNat_inj]
    rfl
  have two : 2 + 1 = 3 := rfl
  have one : 1 + 2 = 3 := rfl
  unfold lerp AtcOracle.lerpRgb
  by_cases plain : method = 0
  · rw [if_pos plain, if_pos (zero.mpr plain)]
    match t with
    | 0 => rfl
    | 1 => simp [Rgb.values, AtcOracle.channels, toNat_mix two]
    | 2 => simp [Rgb.values, AtcOracle.channels, toNat_mix one]
    | t + 3 => simp
  · rw [if_neg plain, if_neg fun same => plain (zero.mp same)]
    match t with
    | 0 => rfl
    | 1 => simp [Rgb.values, AtcOracle.channels, toNat_sub]
    | 2 => simp
    | t + 3 => simp

theorem toNat_shifted {width : Nat} (byte : Byte) (shift : Nat) (fits : 8 + shift ≤ width) :
    (byte.setWidth width <<< shift).toNat = byte.toNat <<< shift := by
  have bound := byte.isLt
  have scaled : byte.toNat * 2 ^ shift < 2 ^ width := calc
    byte.toNat * 2 ^ shift < 2 ^ 8 * 2 ^ shift := Nat.mul_lt_mul_of_pos_right bound (Nat.two_pow_pos shift)
    _ = 2 ^ (8 + shift) := (Nat.pow_add 2 8 shift).symm
    _ ≤ 2 ^ width := Nat.pow_le_pow_right (by decide) fits
  have widened : byte.toNat < 2 ^ width :=
    Nat.lt_of_lt_of_le bound (Nat.pow_le_pow_right (by decide) (by omega))
  rw [BitVec.toNat_shiftLeft, BitVec.toNat_setWidth, Nat.mod_eq_of_lt widened, Nat.shiftLeft_eq,
    Nat.mod_eq_of_lt scaled]

theorem toNat_widened {width : Nat} (byte : Byte) (fits : 8 ≤ width) :
    (byte.setWidth width).toNat = byte.toNat := by
  simpa using toNat_shifted byte 0 fits

theorem decodeColors_values (cb : Nat → Byte) (i : Nat) :
    (decodeColors cb i).values = AtcOracle.decodeColorBlock (fun k => (cb k).toNat) i := by
  have half : ∀ low high : Byte, (low.setWidth 16 ||| high.setWidth 16 <<< 8).toNat =
      low.toNat ||| high.toNat <<< 8 := by
    intro low high
    rw [BitVec.toNat_or, toNat_shifted high 8 (by decide), toNat_widened low (by decide)]
  have first := unpackC0_values ((cb 0).setWidth 16 ||| (cb 1).setWidth 16 <<< 8)
  have second := unpackC1_values ((cb 2).setWidth 16 ||| (cb 3).setWidth 16 <<< 8)
  rw [half] at first second
  simp only [decodeColors, AtcOracle.decodeColorBlock, lerp_values, ← first, second,
    BitVec.toNat_and, BitVec.toNat_ushiftRight, BitVec.toNat_or]
  rw [toNat_shifted _ 8 (by decide), toNat_shifted _ 16 (by decide), toNat_shifted _ 24 (by decide),
    toNat_widened _ (by decide)]
  rfl

theorem decodeAlphaExplicit_value (ab : Nat → Byte) (i : Nat) :
    (decodeAlphaExplicit ab i).toNat = AtcOracle.decodeExplicitAlpha (fun k => (ab k).toNat) i := by
  have nibble : ∀ byte : Byte, (BitVec.ofNat 8 ((byte &&& 0x0f).toNat * 17)).toNat =
      (byte.toNat &&& 0x0f) * 17 := by
    intro byte
    have small : byte.toNat &&& 0x0f < 16 := Nat.lt_of_le_of_lt Nat.and_le_right (by decide)
    have mask : (byte &&& 0x0f).toNat = byte.toNat &&& 0x0f := BitVec.toNat_and _ _
    rw [mask, BitVec.toNat_ofNat, Nat.mod_eq_of_lt (by omega)]
  unfold decodeAlphaExplicit AtcOracle.decodeExplicitAlpha
  split
  · exact nibble _
  · rw [nibble, BitVec.toNat_ushiftRight]

/-- Every entry of the palette is a mean of the two end points. -/
theorem alphaPalette_values (a0 a1 : Byte) :
    (alphaPalette a0.toNat a1.toNat).map BitVec.toNat =
      if a1.toNat < a0.toNat then
        [a0.toNat, a1.toNat] ++
          (List.range 6).map fun j => ((6 - j) * a0.toNat + (1 + j) * a1.toNat) / 7
      else
        [a0.toNat, a1.toNat] ++
          ((List.range 4).map fun j => ((4 - j) * a0.toNat + (1 + j) * a1.toNat) / 5) ++ [0, 255] := by
  unfold alphaPalette
  split
  · rw [List.map_append, List.map_map]
    congr 1
    · simp
    · apply List.map_congr_left
      intro j below
      have inside := List.mem_range.mp below
      exact toNat_mix (by omega) (by decide)
  · rw [List.map_append, List.map_append, List.map_map]
    congr 2
    · simp
    · apply List.map_congr_left
      intro j below
      have inside := List.mem_range.mp below
      exact toNat_mix (by omega) (by decide)

theorem decodeAlphaInterp_value (ab : Nat → Byte) (i : Nat) :
    (decodeAlphaInterp ab i).toNat = AtcOracle.decodeInterpAlpha (fun k => (ab k).toNat) i := by
  have six : List.range 6 = [0, 1, 2, 3, 4, 5] := rfl
  have bits : ((List.range 6).foldl
      (fun bits k => bits ||| (ab (2 + k)).setWidth 64 <<< (8 * k)) (0 : BitVec 64)).toNat =
      (List.range 6).foldl (fun bits k => bits ||| (ab (2 + k)).toNat <<< (8 * k)) 0 := by
    simp only [six, List.foldl_cons, List.foldl_nil, BitVec.toNat_or]
    rw [toNat_shifted _ _ (by decide), toNat_shifted _ _ (by decide), toNat_shifted _ _ (by decide),
      toNat_shifted _ _ (by decide), toNat_shifted _ _ (by decide), toNat_shifted _ _ (by decide)]
    rfl
  unfold decodeAlphaInterp AtcOracle.decodeInterpAlpha
  simp only [← alphaPalette_values, BitVec.toNat_and, BitVec.toNat_ushiftRight, bits]
  exact (List.getD_map _ (0 : Byte) BitVec.toNat).symm

end AtitcDetail

end ZeeboLle.Gpu

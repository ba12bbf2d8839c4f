import ZeeboLle.Gpu.Atitc
import ZeeboLle.Scheduling.Runs
import Mathlib.Algebra.Order.Floor.Div
import Mathlib.GroupTheory.GroupAction.Ring
import Mathlib.Tactic.IntervalCases
import Mathlib.Tactic.Ring

/-! Decoding an ATITC image: block by block, each clipped to the image, into packed RGBA8. A
byte of the input that cannot be read has no value, so a decode that returns has read only
bytes that can. -/
namespace ZeeboLle.Gpu

open Unicorn Scheduling AtitcDetail

structure Texel where
  color : Rgb
  alpha : Byte

def Texel.bytes (texel : Texel) : List Byte :=
  [texel.color.r, texel.color.g, texel.color.b, texel.alpha]

/-- The eight bytes of a sub-block. -/
def readEight (data : Nat → Option Byte) (off : Nat) : Option (Nat → Byte) :=
  if ∀ k, k < 8 → (data (off + k)).isSome = true then some fun k => (data (off + k)).getD 0
  else none

def decodeBlock (fmt : Word) (data : Nat → Option Byte) (off : Nat) : Option (Nat → Texel) :=
  if fmt = atitcRgb then do
    let cb ← readEight data off
    some fun i => ⟨decodeColors cb i, 255⟩
  else if fmt = atitcRgbaExplicit then do
    let ab ← readEight data off
    let cb ← readEight data (off + 8)
    some fun i => ⟨decodeColors cb i, decodeAlphaExplicit ab i⟩
  else do
    let ab ← readEight data off
    let cb ← readEight data (off + 8)
    some fun i => ⟨decodeColors cb i, decodeAlphaInterp ab i⟩

/-- The four bytes of a pixel. -/
def writeTexel (pixels : List Byte) (pixel : Nat) (texel : Texel) : List Byte :=
  let o := pixel * 4
  (((pixels.set o texel.color.r).set (o + 1) texel.color.g).set (o + 2) texel.color.b).set (o + 3)
    texel.alpha

/-- A row of a block, without what lies right of the image. -/
def writeRow (w py bx ty : Nat) (texels : Nat → Texel) (pixels : List Byte) : List Byte :=
  (List.range 4).foldl
    (fun pixels tx =>
      let px := bx * 4 + tx
      if w ≤ px then pixels else writeTexel pixels (py * w + px) (texels (ty * 4 + tx)))
    pixels

/-- The rows of a block, without those below the image. -/
def writeBlock (w h row bx : Nat) (texels : Nat → Texel) (pixels : List Byte) : List Byte :=
  (List.range 4).foldl
    (fun pixels ty =>
      let py := row * 4 + ty
      if h ≤ py then pixels else writeRow w py bx ty texels pixels)
    pixels

/-- A row of blocks; the offset goes up by one block each time. -/
def decodeRow (fmt : Word) (w h : Nat) (data : Nat → Option Byte) (state : Nat × List Byte)
    (row : Nat) : Option (Nat × List Byte) :=
  (List.range ((w + 3) / 4)).foldlM
    (fun (state : Nat × List Byte) bx => do
      let texels ← decodeBlock fmt data state.1
      some (state.1 + atitcBlockBytes fmt, writeBlock w h row bx texels state.2))
    state

def decodeBlocks (fmt : Word) (w h : Nat) (data : Nat → Option Byte) (pixels : List Byte) :
    Option (Nat × List Byte) :=
  (List.range ((h + 3) / 4)).foldlM (decodeRow fmt w h data) (0, pixels)

/-- Whether the image was decoded, and the output vector. -/
def decodeAtitc (fmt : Word) (w h : Int) (data : Option (Nat → Option Byte)) (dataSize : Nat)
    (out : List Byte) : Option (Bool × List Byte) :=
  if atitcBlockBytes fmt = 0 then some (false, out)
  else if w ≤ 0 ∨ h ≤ 0 then some (false, out)
  else
    match data with
    | none => some (false, out)
    | some data =>
      let need := atitcImageSize fmt w h
      if need = 0 ∨ dataSize < need then some (false, out)
      else do
        let (_, pixels) ← decodeBlocks fmt w.toNat h.toNat data
          (List.replicate (w.toNat * h.toNat * 4) 0)
        some (true, pixels)

/-- The bytes of a pixel. -/
def texelAt (pixels : List Byte) (pixel : Nat) : List (Option Byte) :=
  (List.range 4).map fun channel => pixels[pixel * 4 + channel]?

@[simp] theorem length_writeTexel (pixels : List Byte) (pixel : Nat) (texel : Texel) :
    (writeTexel pixels pixel texel).length = pixels.length := by
  simp [writeTexel]

theorem texelAt_eq (pixels : List Byte) (pixel : Nat) :
    texelAt pixels pixel = [pixels[pixel * 4]?, pixels[pixel * 4 + 1]?, pixels[pixel * 4 + 2]?,
      pixels[pixel * 4 + 3]?] := rfl

theorem texelAt_writeTexel_self {pixels : List Byte} {pixel : Nat} (texel : Texel)
    (inside : pixel * 4 + 4 ≤ pixels.length) :
    texelAt (writeTexel pixels pixel texel) pixel = texel.bytes.map some := by
  rw [texelAt_eq]
  simp only [writeTexel, Texel.bytes, List.map_cons, List.map_nil, List.getElem?_set,
    List.length_set]
  grind

theorem texelAt_writeTexel_of_ne {pixels : List Byte} {pixel other : Nat} (texel : Texel)
    (apart : other ≠ pixel) :
    texelAt (writeTexel pixels pixel texel) other = texelAt pixels other := by
  apply List.map_congr_left
  intro channel below
  have inside := List.mem_range.mp below
  simp only [writeTexel]
  rw [List.getElem?_set_ne (by omega), List.getElem?_set_ne (by omega),
    List.getElem?_set_ne (by omega), List.getElem?_set_ne (by omega)]

section Image

variable {w h : Nat} {x y px py : Nat}

theorem pixel_inj (left : x < w) (right : px < w) (same : y * w + x = py * w + px) :
    x = px ∧ y = py := by
  have rows := congrArg (· / w) same
  have columns := congrArg (· % w) same
  have positive : 0 < w := by omega
  simp only [Nat.mul_comm _ w, Nat.mul_add_div positive, Nat.mul_add_mod, Nat.div_eq_of_lt left,
    Nat.div_eq_of_lt right, Nat.mod_eq_of_lt left, Nat.mod_eq_of_lt right] at rows columns
  exact ⟨columns, by omega⟩

theorem pixel_inside (left : x < w) (top : y < h) : (y * w + x) * 4 + 4 ≤ w * h * 4 := by
  have below : (y + 1) * w ≤ h * w := Nat.mul_le_mul_right w top
  rw [Nat.add_mul, Nat.one_mul] at below
  rw [Nat.mul_comm w h]
  omega

/-- A region of the image holds its texels, and the rest is as before. -/
structure Painted (w h : Nat) (value : Nat → Nat → Texel) (pixels : List Byte)
    (region : Nat → Nat → Prop) (state : List Byte) : Prop where
  size : state.length = w * h * 4
  inside : ∀ x y, x < w → y < h → region x y →
    texelAt state (y * w + x) = (value x y).bytes.map some
  outside : ∀ x y, x < w → y < h → ¬region x y →
    texelAt state (y * w + x) = texelAt pixels (y * w + x)

variable {row bx ty count : Nat} {value : Nat → Nat → Texel} {pixels middle state : List Byte}
  {region later whole : Nat → Nat → Prop}

theorem Painted.nothing (size : pixels.length = w * h * 4) :
    Painted w h value pixels (fun _ _ => False) pixels :=
  ⟨size, fun _ _ _ _ painted => painted.elim, fun _ _ _ _ _ => rfl⟩

theorem Painted.congr (painted : Painted w h value pixels region state)
    (same : ∀ x y, x < w → y < h → (whole x y ↔ region x y)) :
    Painted w h value pixels whole state where
  size := painted.size
  inside := fun x y left top covered => painted.inside x y left top ((same x y left top).mp covered)
  outside := fun x y left top bare =>
    painted.outside x y left top fun covered => bare ((same x y left top).mpr covered)

/-- One region after another. -/
theorem Painted.trans (first : Painted w h value pixels region middle)
    (second : Painted w h value middle later state) :
    Painted w h value pixels (fun x y => region x y ∨ later x y) state where
  size := second.size
  inside := by
    intro x y left top covered
    by_cases again : later x y
    · exact second.inside x y left top again
    · rw [second.outside x y left top again]
      exact first.inside x y left top (covered.resolve_right again)
  outside := by
    intro x y left top bare
    rw [second.outside x y left top fun covered => bare (.inr covered)]
    exact first.outside x y left top fun covered => bare (.inl covered)

theorem painted_writeTexel (size : pixels.length = w * h * 4) (column : px < w) (line : py < h) :
    Painted w h value pixels (fun x y => x = px ∧ y = py)
      (writeTexel pixels (py * w + px) (value px py)) where
  size := by rw [length_writeTexel, size]
  inside := by
    rintro x y _ _ ⟨rfl, rfl⟩
    exact texelAt_writeTexel_self _ (size ▸ pixel_inside column line)
  outside := by
    intro x y left _ other
    exact texelAt_writeTexel_of_ne _ fun same => other (pixel_inj left column same)

/-- The texels of a block are those of the image at its place. -/
def BlockOf (value : Nat → Nat → Texel) (row bx : Nat) (texels : Nat → Texel) : Prop :=
  ∀ tx ty, tx < 4 → ty < 4 → value (bx * 4 + tx) (row * 4 + ty) = texels (ty * 4 + tx)

variable {texels : Nat → Texel}

theorem painted_writeRow (own : BlockOf value row bx texels) (size : pixels.length = w * h * 4)
    (low : ty < 4) (line : row * 4 + ty < h) :
    Painted w h value pixels (fun x y => x / 4 = bx ∧ y = row * 4 + ty)
      (writeRow w (row * 4 + ty) bx ty texels pixels) := by
  have loop : Painted w h value pixels (fun x y => x / 4 = bx ∧ x % 4 < 4 ∧ y = row * 4 + ty)
      (writeRow w (row * 4 + ty) bx ty texels pixels) := by
    apply foldl_range_invariant fun count =>
      Painted w h value pixels (fun x y => x / 4 = bx ∧ x % 4 < count ∧ y = row * 4 + ty)
    · intro tx below state painted
      simp only
      split
      · exact painted.congr fun x y left _ => by omega
      · rename_i within
        rw [← own tx ty below low]
        exact (painted.trans (painted_writeTexel painted.size (by omega) line)).congr
          fun x y left _ => by omega
    · exact (Painted.nothing size).congr fun x y _ _ => by simp
  exact loop.congr fun x y _ _ => by omega

theorem painted_writeBlock (own : BlockOf value row bx texels) (size : pixels.length = w * h * 4) :
    Painted w h value pixels (fun x y => x / 4 = bx ∧ y / 4 = row)
      (writeBlock w h row bx texels pixels) := by
  have loop : Painted w h value pixels (fun x y => x / 4 = bx ∧ y / 4 = row ∧ y % 4 < 4)
      (writeBlock w h row bx texels pixels) := by
    apply foldl_range_invariant fun count =>
      Painted w h value pixels (fun x y => x / 4 = bx ∧ y / 4 = row ∧ y % 4 < count)
    · intro ty below state painted
      simp only
      split
      · exact painted.congr fun x y _ top => by omega
      · rename_i within
        exact (painted.trans (painted_writeRow own painted.size below (by omega))).congr
          fun x y _ _ => by omega
    · exact (Painted.nothing size).congr fun x y _ _ => by simp
  exact loop.congr fun x y _ _ => by omega

end Image

/-- The texels of a block whose bytes are known. -/
def blockTexels (fmt : Word) (block : Nat → Byte) (i : Nat) : Texel :=
  if fmt = atitcRgb then ⟨decodeColors block i, 255⟩
  else if fmt = atitcRgbaExplicit then
    ⟨decodeColors (fun k => block (8 + k)) i, decodeAlphaExplicit block i⟩
  else ⟨decodeColors (fun k => block (8 + k)) i, decodeAlphaInterp block i⟩

theorem blockTexels_values (fmt : Word) (block : Nat → Byte) (i : Nat) :
    (blockTexels fmt block i).bytes.map BitVec.toNat =
      AtcOracle.texel fmt (fun k => (block k).toNat) i := by
  have colors : ∀ cb : Nat → Byte, ∀ alpha : Byte,
      (⟨decodeColors cb i, alpha⟩ : Texel).bytes.map BitVec.toNat =
        [(AtcOracle.decodeColorBlock (fun k => (cb k).toNat) i).r,
          (AtcOracle.decodeColorBlock (fun k => (cb k).toNat) i).g,
          (AtcOracle.decodeColorBlock (fun k => (cb k).toNat) i).b, alpha.toNat] := by
    intro cb alpha
    rw [← decodeColors_values]
    rfl
  unfold blockTexels AtcOracle.texel
  split
  · rw [colors]
    rfl
  · split
    · rw [colors, decodeAlphaExplicit_value]
    · rw [colors, decodeAlphaInterp_value]

/-- The bytes of the input from an offset on, where they can be read. -/
def bytesFrom (data : Nat → Option Byte) (off k : Nat) : Byte := (data (off + k)).getD 0

theorem readEight_eq {data : Nat → Option Byte} {off : Nat}
    (readable : ∀ k, k < 8 → (data (off + k)).isSome = true) :
    readEight data off = some (bytesFrom data off) := if_pos readable

theorem decodeBlock_eq {fmt : Word} {data : Nat → Option Byte} {off : Nat}
    (known : atitcBlockBytes fmt ≠ 0)
    (readable : ∀ k, k < atitcBlockBytes fmt → (data (off + k)).isSome = true) :
    decodeBlock fmt data off = some (blockTexels fmt (bytesFrom data off)) := by
  have later : bytesFrom data (off + 8) = fun k => bytesFrom data off (8 + k) := by
    funext k
    rw [bytesFrom, bytesFrom, Nat.add_assoc]
  unfold decodeBlock
  by_cases plain : fmt = atitcRgb
  · have eight : atitcBlockBytes fmt = 8 := by rw [atitcBlockBytes, if_pos plain]
    rw [if_pos plain, readEight_eq (eight ▸ readable)]
    refine congrArg some (funext fun i => ?_)
    rw [blockTexels, if_pos plain]
  · have sixteen : atitcBlockBytes fmt = 16 := by
      unfold atitcBlockBytes at known ⊢
      rw [if_neg plain] at known ⊢
      split at known
      · rename_i alpha
        rw [if_pos alpha]
      · exact absurd rfl known
    rw [sixteen] at readable
    have first := readEight_eq fun k below => readable k (by omega)
    have second : readEight data (off + 8) = some (bytesFrom data (off + 8)) :=
      readEight_eq fun k below => by
        rw [Nat.add_assoc]
        exact readable (8 + k) (by omega)
    rw [if_neg plain, first, second, later]
    split
    · rename_i explicit
      refine congrArg some (funext fun i => ?_)
      rw [blockTexels, if_neg plain, if_pos explicit]
    · rename_i interp
      refine congrArg some (funext fun i => ?_)
      rw [blockTexels, if_neg plain, if_neg interp]

section Blocks

variable {fmt : Word} {w h : Nat} {data : Nat → Option Byte} {pixels : List Byte}

/-- The texel of the image at a pixel. -/
def imageTexel (fmt : Word) (w : Nat) (data : Nat → Option Byte) (x y : Nat) : Texel :=
  blockTexels fmt (bytesFrom data ((y / 4 * ((w + 3) / 4) + x / 4) * atitcBlockBytes fmt))
    (y % 4 * 4 + x % 4)

theorem blockOf_imageTexel (row bx : Nat) :
    BlockOf (imageTexel fmt w data) row bx
      (blockTexels fmt (bytesFrom data ((row * ((w + 3) / 4) + bx) * atitcBlockBytes fmt))) := by
  intro tx ty left top
  have column : (bx * 4 + tx) / 4 = bx ∧ (bx * 4 + tx) % 4 = tx := by omega
  have line : (row * 4 + ty) / 4 = row ∧ (row * 4 + ty) % 4 = ty := by omega
  rw [imageTexel, column.1, column.2, line.1, line.2]

/-- Every block lies in the required size. -/
theorem block_inside {row bx bw bh bb k : Nat} (line : row < bh) (column : bx < bw) (below : k < bb) :
    (row * bw + bx) * bb + k < bw * bh * bb := by
  have blocks : row * bw + bx + 1 ≤ bw * bh := calc
    row * bw + bx + 1 ≤ row * bw + bw := by omega
    _ = (row + 1) * bw := by rw [Nat.add_mul, Nat.one_mul]
    _ ≤ bh * bw := Nat.mul_le_mul_right bw line
    _ = bw * bh := Nat.mul_comm bh bw
  have scaled := Nat.mul_le_mul_right bb blocks
  rw [Nat.add_mul _ 1, Nat.one_mul] at scaled
  omega

variable (known : atitcBlockBytes fmt ≠ 0)
  (readable : ∀ k, k < (w + 3) / 4 * ((h + 3) / 4) * atitcBlockBytes fmt → (data k).isSome = true)

include known readable

theorem decodeRow_painted {row : Nat} {state : Nat × List Byte} (line : row < (h + 3) / 4)
    (reached : state.1 = row * ((w + 3) / 4) * atitcBlockBytes fmt)
    (painted : Painted w h (imageTexel fmt w data) pixels (fun _ y => y / 4 < row) state.2) :
    ∃ next, decodeRow fmt w h data state row = some next ∧
      next.1 = (row + 1) * ((w + 3) / 4) * atitcBlockBytes fmt ∧
      Painted w h (imageTexel fmt w data) pixels (fun _ y => y / 4 < row + 1) next.2 := by
  have loop : ∃ next, decodeRow fmt w h data state row = some next ∧
      (next.1 = (row * ((w + 3) / 4) + (w + 3) / 4) * atitcBlockBytes fmt ∧
        Painted w h (imageTexel fmt w data) pixels
          (fun x y => y / 4 < row ∨ (y / 4 = row ∧ x / 4 < (w + 3) / 4)) next.2) := by
    apply foldlM_range_invariant fun (count : Nat) (state : Nat × List Byte) =>
      state.1 = (row * ((w + 3) / 4) + count) * atitcBlockBytes fmt ∧
        Painted w h (imageTexel fmt w data) pixels
          (fun x y => y / 4 < row ∨ (y / 4 = row ∧ x / 4 < count)) state.2
    · rintro bx column ⟨off, before⟩ ⟨here, covered⟩
      simp only at here covered
      subst here
      have decoded := decodeBlock_eq known fun k below => readable _ (block_inside line column below)
      refine ⟨_, by simp only [decoded]; rfl, ?_, ?_⟩
      · rw [← Nat.add_assoc, Nat.add_mul _ 1, Nat.one_mul]
      · exact (covered.trans (painted_writeBlock (blockOf_imageTexel row bx) covered.size)).congr
          fun x y _ _ => by omega
    · exact ⟨by simpa using reached, painted.congr fun x y _ _ => by simp⟩
  obtain ⟨next, finished, here, covered⟩ := loop
  refine ⟨next, finished, ?_, covered.congr fun x y left _ => by omega⟩
  rw [here, Nat.add_mul row, Nat.one_mul]

theorem decodeBlocks_painted (size : pixels.length = w * h * 4) :
    ∃ state, decodeBlocks fmt w h data pixels = some state ∧
      Painted w h (imageTexel fmt w data) pixels (fun _ _ => True) state.2 := by
  have loop : ∃ state, decodeBlocks fmt w h data pixels = some state ∧
      (state.1 = (h + 3) / 4 * ((w + 3) / 4) * atitcBlockBytes fmt ∧
        Painted w h (imageTexel fmt w data) pixels (fun _ y => y / 4 < (h + 3) / 4) state.2) := by
    apply foldlM_range_invariant fun (count : Nat) (state : Nat × List Byte) =>
      state.1 = count * ((w + 3) / 4) * atitcBlockBytes fmt ∧
        Painted w h (imageTexel fmt w data) pixels (fun _ y => y / 4 < count) state.2
    · rintro row line state ⟨reached, painted⟩
      exact decodeRow_painted known readable line reached painted
    · exact ⟨by simp, (Painted.nothing size).congr fun x y _ _ => by simp⟩
  obtain ⟨state, finished, _, painted⟩ := loop
  refine ⟨state, finished, painted.congr fun x y _ top => ⟨fun _ => ?_, fun _ => trivial⟩⟩
  omega

end Blocks

theorem atitcBlockBytes_ne_zero (fmt : Word) :
    atitcBlockBytes fmt ≠ 0 ↔
      fmt = atitcRgb ∨ fmt = atitcRgbaExplicit ∨ fmt = atitcRgbaInterp := by
  unfold atitcBlockBytes
  split
  · rename_i plain
    exact iff_of_true (by decide) (.inl plain)
  · rename_i coloured
    split
    · rename_i alpha
      exact iff_of_true (by decide) (.inr alpha)
    · rename_i unknown
      exact iff_of_false (by simp) fun known => unknown (known.resolve_left coloured)

/-- The size an image needs, in whole blocks. -/
def requiredSize (fmt : Word) (w h : Int) : Nat :=
  (w.toNat ⌈/⌉ 4) * (h.toNat ⌈/⌉ 4) * atitcBlockBytes fmt

/-- What the decoder takes. -/
def Decodable (fmt : Word) (w h : Int) (data : Option (Nat → Option Byte)) (dataSize : Nat) : Prop :=
  (fmt = atitcRgb ∨ fmt = atitcRgbaExplicit ∨ fmt = atitcRgbaInterp) ∧ 0 < w ∧ 0 < h ∧
    data.isSome = true ∧ requiredSize fmt w h ≤ dataSize

theorem ceilDiv_four (n : Nat) : n ⌈/⌉ 4 = (n + 3) / 4 := Nat.ceilDiv_eq_add_pred_div n 4

theorem atitcImageSize_eq {fmt : Word} {w h : Int} (known : atitcBlockBytes fmt ≠ 0) (wide : 0 < w)
    (high : 0 < h) : atitcImageSize fmt w h = requiredSize fmt w h ∧ 0 < requiredSize fmt w h := by
  have columns : ((w + 3) / 4).toNat = (w.toNat + 3) / 4 := by omega
  have rows : ((h + 3) / 4).toNat = (h.toNat + 3) / 4 := by omega
  constructor
  · rw [atitcImageSize, if_neg (by omega), requiredSize, ceilDiv_four, ceilDiv_four, columns, rows]
  · rw [requiredSize, ceilDiv_four, ceilDiv_four]
    exact Nat.mul_pos (Nat.mul_pos (by omega) (by omega)) (Nat.pos_of_ne_zero known)

/-- The decoder takes exactly the images it should. Of one it takes, every pixel has the colour and
alpha the oracle gives for its texel, and no byte at or past the required size is read; of any
other, the output is left as it was. -/
theorem decodeAtitc_exact (fmt : Word) (w h : Int) (data : Option (Nat → Option Byte))
    (dataSize : Nat) (out : List Byte)
    (readable : ∀ bytes, data = some bytes → ∀ k, k < dataSize → k < requiredSize fmt w h →
      (bytes k).isSome = true) :
    ∃ ok result, decodeAtitc fmt w h data dataSize out = some (ok, result) ∧
      (ok = true ↔ Decodable fmt w h data dataSize) ∧
      (ok = false → result = out) ∧
      (ok = true → ∀ bytes, data = some bytes →
        result.length = 4 * w.toNat * h.toNat ∧
        ∀ x y, x < w.toNat → y < h.toNat →
          (texelAt result (y * w.toNat + x)).map (·.map BitVec.toNat) =
            (AtcOracle.texel fmt
              (fun k => (bytesFrom bytes
                ((y / 4 * (w.toNat ⌈/⌉ 4) + x / 4) * atitcBlockBytes fmt) k).toNat)
              (y % 4 * 4 + x % 4)).map some) := by
  unfold decodeAtitc
  by_cases known : atitcBlockBytes fmt = 0
  · rw [if_pos known]
    refine ⟨false, out, rfl, iff_of_false (by simp) fun taken => ?_, fun _ => rfl, by simp⟩
    exact (atitcBlockBytes_ne_zero fmt).mpr taken.1 known
  rw [if_neg known]
  by_cases flat : w ≤ 0 ∨ h ≤ 0
  · rw [if_pos flat]
    refine ⟨false, out, rfl, iff_of_false (by simp) fun taken => ?_, fun _ => rfl, by simp⟩
    have wide := taken.2.1
    have high := taken.2.2.1
    omega
  rw [if_neg flat]
  cases data with
  | none => exact ⟨false, out, rfl, iff_of_false (by simp) fun taken => by simpa using taken.2.2.2.1,
      fun _ => rfl, by simp⟩
  | some bytes =>
    obtain ⟨required, positive⟩ := @atitcImageSize_eq fmt w h known (by omega) (by omega)
    simp only [required]
    by_cases short : requiredSize fmt w h = 0 ∨ dataSize < requiredSize fmt w h
    · rw [if_pos short]
      refine ⟨false, out, rfl, iff_of_false (by simp) fun taken => ?_, fun _ => rfl, by simp⟩
      have enough := taken.2.2.2.2
      omega
    rw [if_neg short]
    have inside : ∀ k, k < (w.toNat + 3) / 4 * ((h.toNat + 3) / 4) * atitcBlockBytes fmt →
        (bytes k).isSome = true := by
      intro k below
      rw [← ceilDiv_four, ← ceilDiv_four] at below
      have needed : k < requiredSize fmt w h := below
      exact readable bytes rfl k (by omega) needed
    obtain ⟨state, decoded, painted⟩ := decodeBlocks_painted known inside
      (@List.length_replicate _ (w.toNat * h.toNat * 4) (0 : Byte))
    simp only [decoded]
    refine ⟨true, state.2, rfl, iff_of_true rfl ?_, by simp, fun _ other same => ?_⟩
    · exact ⟨(atitcBlockBytes_ne_zero fmt).mp known, by omega, by omega, rfl, by omega⟩
    · cases same
      refine ⟨by rw [painted.size]; ring, fun x y left top => ?_⟩
      rw [painted.inside x y left top trivial, ← blockTexels_values, imageTexel, ceilDiv_four]
      simp

/-- Two blocks with interpolated alpha, the second with the method bit set. -/
def gradientBlocks : List Byte :=
  [0xc8, 0x38, 0x88, 0xc6, 0xfa, 0x00, 0x00, 0x00, 0x00, 0x7c, 0x1f, 0x00, 0xe4, 0x00, 0x00, 0x00,
    0x10, 0xf0, 0x07, 0x00, 0x00, 0x00, 0x00, 0x00, 0xef, 0xbd, 0xe8, 0x87, 0x55, 0x55, 0x55, 0x55]

/-- The first row of a five pixels wide image of these blocks. -/
def gradientTexels : List (List Nat) :=
  [[255, 0, 0, 200], [170, 0, 85, 56], [85, 0, 170, 179], [0, 0, 255, 158], [90, 60, 107, 255]]

theorem decodeAtitc_exact_gradient :
    ∃ result, decodeAtitc atitcRgbaInterp 5 1 (some (gradientBlocks[·]?)) 32 [7] =
        some (true, result) ∧
      result.length = 20 ∧ ∀ x, x < 5 →
        (texelAt result x).map (·.map BitVec.toNat) = (gradientTexels.getD x []).map some := by
  have whole : requiredSize atitcRgbaInterp 5 1 = 32 := by
    rw [requiredSize, ceilDiv_four, ceilDiv_four]
    decide
  have readable : ∀ bytes, some (gradientBlocks[·]?) = some bytes → ∀ k, k < 32 →
      k < requiredSize atitcRgbaInterp 5 1 → (bytes k).isSome = true := by
    rintro bytes same k below _
    cases same
    simp [gradientBlocks, below]
  obtain ⟨ok, result, decoded, taken, _, exact⟩ :=
    decodeAtitc_exact atitcRgbaInterp 5 1 (some (gradientBlocks[·]?)) 32 [7] readable
  have accepted : ok = true :=
    taken.mpr ⟨by decide, by decide, by decide, rfl, Nat.le_of_eq whole⟩
  obtain ⟨size, pixel⟩ := exact accepted _ rfl
  subst accepted
  refine ⟨result, decoded, size, fun x below => ?_⟩
  have texel := pixel x 0 below (by decide)
  rw [ceilDiv_four, Nat.zero_mul, Nat.zero_add] at texel
  refine texel.trans ?_
  interval_cases x <;> decide +kernel

end ZeeboLle.Gpu

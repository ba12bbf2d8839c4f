import ZeeboLle.Plane.Triangle
import Mathlib.Data.Int.Range
import Mathlib.Data.List.Permutation
import Mathlib.Data.Real.Basic

/-! Which pixels a triangle covers. The rasterizer walks the part of the bounding box that lies
in the framebuffer and keeps the pixels whose three edge products do not disagree in sign, which
takes every edge with the triangle it bounds. -/
namespace ZeeboLle.Gpu

open Plane

def fbWidth : Int := 640
def fbHeight : Int := 480

/-- Integer screen coordinates. -/
abbrev Pixel := Int × Int

structure ScreenTri where
  p0 : Pixel
  p1 : Pixel
  p2 : Pixel
deriving DecidableEq

namespace ScreenTri

def corners (tri : ScreenTri) : List Pixel := [tri.p0, tri.p1, tri.p2]

def area (tri : ScreenTri) : Int :=
  (tri.p1.1 - tri.p0.1) * (tri.p2.2 - tri.p0.2) - (tri.p2.1 - tri.p0.1) * (tri.p1.2 - tri.p0.2)

def w0 (tri : ScreenTri) (x y : Int) : Int :=
  (tri.p1.1 - x) * (tri.p2.2 - y) - (tri.p2.1 - x) * (tri.p1.2 - y)

def w1 (tri : ScreenTri) (x y : Int) : Int :=
  (tri.p2.1 - x) * (tri.p0.2 - y) - (tri.p0.1 - x) * (tri.p2.2 - y)

def w2 (tri : ScreenTri) (x y : Int) : Int :=
  (tri.p0.1 - x) * (tri.p1.2 - y) - (tri.p1.1 - x) * (tri.p0.2 - y)

def minx (tri : ScreenTri) : Int := max 0 (min tri.p0.1 (min tri.p1.1 tri.p2.1))
def maxx (tri : ScreenTri) : Int := min (fbWidth - 1) (max tri.p0.1 (max tri.p1.1 tri.p2.1))
def miny (tri : ScreenTri) : Int := max 0 (min tri.p0.2 (min tri.p1.2 tri.p2.2))
def maxy (tri : ScreenTri) : Int := min (fbHeight - 1) (max tri.p0.2 (max tri.p1.2 tri.p2.2))

/-- The edge test accepts both windings. -/
def inside (tri : ScreenTri) (x y : Int) : Bool :=
  (tri.w0 x y ≥ 0 && tri.w1 x y ≥ 0 && tri.w2 x y ≥ 0) ||
    (tri.w0 x y ≤ 0 && tri.w1 x y ≤ 0 && tri.w2 x y ≤ 0)

/-- The pixels that come to shading, row by row. -/
def covered (tri : ScreenTri) : List Pixel :=
  if tri.area = 0 then []
  else (Int.range tri.miny (tri.maxy + 1)).flatMap fun y =>
    ((Int.range tri.minx (tri.maxx + 1)).filter fun x => tri.inside x y).map fun x => (x, y)

/-- Where the viewport and the clamped projection can put a corner. -/
def OnScreen (point : Pixel) : Prop :=
  (-2560 ≤ point.1 ∧ point.1 ≤ 3840) ∧ -1920 ≤ point.2 ∧ point.2 ≤ 2880

def InFramebuffer (pixel : Pixel) : Prop :=
  (0 ≤ pixel.1 ∧ pixel.1 < fbWidth) ∧ 0 ≤ pixel.2 ∧ pixel.2 < fbHeight

/-- On such corners every intermediate of the edge products fits its C++ type. -/
theorem edge_fits {a b c : Pixel} (ha : OnScreen a) (hb : OnScreen b) (hc : OnScreen c) :
    |b.1 - a.1| < 2 ^ 31 ∧ |b.2 - a.2| < 2 ^ 31 ∧
      |(b.1 - a.1) * (c.2 - a.2) - (c.1 - a.1) * (b.2 - a.2)| < 2 ^ 63 := by
  have wide {p q : Pixel} (hp : OnScreen p) (hq : OnScreen q) : |q.1 - p.1| ≤ 6400 :=
    abs_le.mpr ⟨by linarith [hp.1.2, hq.1.1], by linarith [hp.1.1, hq.1.2]⟩
  have tall {p q : Pixel} (hp : OnScreen p) (hq : OnScreen q) : |q.2 - p.2| ≤ 4800 :=
    abs_le.mpr ⟨by linarith [hp.2.2, hq.2.1], by linarith [hp.2.1, hq.2.2]⟩
  refine ⟨(wide ha hb).trans_lt (by norm_num), (tall ha hb).trans_lt (by norm_num), ?_⟩
  calc |(b.1 - a.1) * (c.2 - a.2) - (c.1 - a.1) * (b.2 - a.2)|
      ≤ |(b.1 - a.1) * (c.2 - a.2)| + |(c.1 - a.1) * (b.2 - a.2)| := abs_sub _ _
    _ ≤ 6400 * 4800 + 6400 * 4800 := by
      rw [abs_mul, abs_mul]
      gcongr
      · exact wide ha hb
      · exact tall ha hc
      · exact wide ha hc
      · exact tall ha hb
    _ < 2 ^ 63 := by norm_num

/-- A pixel as a point of the plane. -/
def toPlane (pixel : Pixel) : ℝ × ℝ := (pixel.1, pixel.2)

/-- The convex combinations of the corners. -/
def closed (tri : ScreenTri) : Set (ℝ × ℝ) :=
  triangle (toPlane tri.p0) (toPlane tri.p1) (toPlane tri.p2)

theorem cross_toPlane (a b c : Pixel) :
    cross (toPlane a) (toPlane b) (toPlane c) = (cross a b c : Int) :=
  map_cross (Int.castRingHom ℝ) a b c

theorem inside_iff (tri : ScreenTri) (pixel : Pixel) :
    tri.inside pixel.1 pixel.2 = true ↔
      Within (toPlane tri.p0) (toPlane tri.p1) (toPlane tri.p2) (toPlane pixel) := by
  have first : tri.w0 pixel.1 pixel.2 = cross pixel tri.p1 tri.p2 := rfl
  have second : tri.w1 pixel.1 pixel.2 = cross pixel tri.p2 tri.p0 := rfl
  have third : tri.w2 pixel.1 pixel.2 = cross pixel tri.p0 tri.p1 := rfl
  simp only [inside, Within, cross_toPlane, first, second, third, Bool.or_eq_true, Bool.and_eq_true,
    decide_eq_true_eq, ge_iff_le, and_assoc, Int.cast_nonneg_iff, Int.cast_nonpos]

theorem area_ne_zero {tri : ScreenTri} (nondegenerate : tri.area ≠ 0) :
    cross (toPlane tri.p0) (toPlane tri.p1) (toPlane tri.p2) ≠ 0 := by
  rw [cross_toPlane]
  exact Int.cast_ne_zero.mpr nondegenerate

/-- A pixel of the triangle lies in its bounding box. -/
theorem bounds_of_closed {tri : ScreenTri} {pixel : Pixel} (inside : toPlane pixel ∈ tri.closed) :
    (min tri.p0.1 (min tri.p1.1 tri.p2.1) ≤ pixel.1 ∧
        pixel.1 ≤ max tri.p0.1 (max tri.p1.1 tri.p2.1)) ∧
      min tri.p0.2 (min tri.p1.2 tri.p2.2) ≤ pixel.2 ∧
        pixel.2 ≤ max tri.p0.2 (max tri.p1.2 tri.p2.2) := by
  obtain ⟨u, v, w, u_nonneg, v_nonneg, w_nonneg, total, weighted⟩ := mem_triangle.mp inside
  have between (x y z : Int) :=
    weighted_between (x : ℝ) y z (min x (min y z) : Int) (max x (max y z) : Int) u_nonneg v_nonneg
      w_nonneg total
      (by constructor <;> simp) (by constructor <;> simp) (by constructor <;> simp)
  have fst := between tri.p0.1 tri.p1.1 tri.p2.1
  have snd := between tri.p0.2 tri.p1.2 tri.p2.2
  rw [show u * (tri.p0.1 : ℝ) + v * tri.p1.1 + w * tri.p2.1 = pixel.1 from
    (congrArg Prod.fst weighted).symm] at fst
  rw [show u * (tri.p0.2 : ℝ) + v * tri.p1.2 + w * tri.p2.2 = pixel.2 from
    (congrArg Prod.snd weighted).symm] at snd
  exact ⟨⟨Int.cast_le.mp fst.1, Int.cast_le.mp fst.2⟩, Int.cast_le.mp snd.1, Int.cast_le.mp snd.2⟩

theorem mem_covered {tri : ScreenTri} (nondegenerate : tri.area ≠ 0) (pixel : Pixel) :
    pixel ∈ tri.covered ↔ (tri.minx ≤ pixel.1 ∧ pixel.1 ≤ tri.maxx) ∧
      (tri.miny ≤ pixel.2 ∧ pixel.2 ≤ tri.maxy) ∧ tri.inside pixel.1 pixel.2 = true := by
  rw [covered, if_neg nondegenerate]
  simp only [List.mem_flatMap, List.mem_map, List.mem_filter, Int.mem_range_iff, Int.lt_add_one_iff]
  constructor
  · rintro ⟨y, rows, x, ⟨columns, inside⟩, rfl⟩
    exact ⟨columns, rows, inside⟩
  · rintro ⟨columns, rows, inside⟩
    exact ⟨pixel.2, rows, pixel.1, ⟨columns, inside⟩, rfl⟩

/-- The pixels that come to shading are those of the framebuffer in the closed triangle. -/
theorem mem_covered_iff {tri : ScreenTri} (nondegenerate : tri.area ≠ 0) (pixel : Pixel) :
    pixel ∈ tri.covered ↔ InFramebuffer pixel ∧ toPlane pixel ∈ tri.closed := by
  rw [mem_covered nondegenerate, inside_iff, closed, mem_triangle_iff_within (area_ne_zero nondegenerate)]
  constructor
  · rintro ⟨⟨left, right⟩, ⟨top, bottom⟩, within⟩
    simp only [minx, maxx, miny, maxy] at left right top bottom
    refine ⟨⟨⟨?_, ?_⟩, ?_, ?_⟩, within⟩
    · exact (le_max_left _ _).trans left
    · exact Int.lt_of_le_sub_one (right.trans (min_le_left _ _))
    · exact (le_max_left _ _).trans top
    · exact Int.lt_of_le_sub_one (bottom.trans (min_le_left _ _))
  · rintro ⟨⟨⟨left, right⟩, top, bottom⟩, within⟩
    obtain ⟨⟨low, high⟩, lower, upper⟩ :=
      bounds_of_closed ((mem_triangle_iff_within (area_ne_zero nondegenerate)).mpr within)
    exact ⟨⟨max_le left low, le_min (Int.le_sub_one_of_lt right) high⟩,
      ⟨max_le top lower, le_min (Int.le_sub_one_of_lt bottom) upper⟩, within⟩

/-- The area of reordered corners is the same up to sign. -/
theorem area_of_perm {tri other : ScreenTri} (same : tri.corners.Perm other.corners) :
    tri.area = other.area ∨ tri.area = -other.area := by
  obtain ⟨p0, p1, p2⟩ := tri
  have listed := List.mem_permutations'.mpr same
  simp only [corners, List.permutations', List.permutations'Aux, List.flatMap_cons, List.flatMap_nil,
    List.map_cons, List.map_nil, List.append_nil, List.cons_append, List.nil_append, List.mem_cons,
    List.cons.injEq, List.not_mem_nil, and_true, or_false] at listed
  simp only [area]
  rcases listed with ⟨rfl, rfl, rfl⟩ | ⟨rfl, rfl, rfl⟩ | ⟨rfl, rfl, rfl⟩ | ⟨rfl, rfl, rfl⟩ |
    ⟨rfl, rfl, rfl⟩ | ⟨rfl, rfl, rfl⟩
  · exact .inl rfl
  · exact .inr (by ring)
  · exact .inl (by ring)
  · exact .inr (by ring)
  · exact .inl (by ring)
  · exact .inr (by ring)

theorem closed_eq_convexHull (tri : ScreenTri) :
    tri.closed = convexHull ℝ {point | point ∈ tri.corners.map toPlane} := by
  rw [closed, triangle]
  congr 1
  ext point
  simp [corners]

theorem closed_of_perm {tri other : ScreenTri} (same : tri.corners.Perm other.corners) :
    tri.closed = other.closed := by
  rw [closed_eq_convexHull, closed_eq_convexHull]
  congr 1
  ext point
  exact (same.map toPlane).mem_iff

/-- The order of the corners does not matter. -/
theorem mem_covered_of_perm {tri other : ScreenTri} (same : tri.corners.Perm other.corners)
    (pixel : Pixel) : pixel ∈ tri.covered ↔ pixel ∈ other.covered := by
  by_cases flat : other.area = 0
  · have flat' : tri.area = 0 := by
      rcases area_of_perm same with equal | opposite
      · rw [equal, flat]
      · rw [opposite, flat, neg_zero]
    rw [covered, if_pos flat', covered, if_pos flat]
  · have solid : tri.area ≠ 0 := by
      rcases area_of_perm same with equal | opposite
      · rwa [equal]
      · rwa [opposite, neg_ne_zero]
    rw [mem_covered_iff solid, mem_covered_iff flat, closed_of_perm same]

theorem range_nodup (low high : Int) : (Int.range low high).Nodup :=
  List.nodup_range.map fun _ _ same => by simpa using same

/-- No pixel comes twice in one triangle. -/
theorem covered_nodup (tri : ScreenTri) : tri.covered.Nodup := by
  unfold covered
  split
  · exact List.nodup_nil
  · rw [List.nodup_flatMap]
    refine ⟨fun y _ => ((range_nodup _ _).filter _).map fun _ _ same => congrArg Prod.fst same, ?_⟩
    refine (range_nodup _ _).imp fun {y other} apart pixel here there => ?_
    obtain ⟨_, _, rfl⟩ := List.mem_map.mp here
    obtain ⟨_, _, same⟩ := List.mem_map.mp there
    exact apart (congrArg Prod.snd same).symm

/-- Triangles on the edge from `a` to `b` with their other corners on opposite sides of it. -/
structure ShareEdge (left right : ScreenTri) (a b : Pixel) : Prop where
  corners : ∃ c d, left.corners.Perm [a, b, c] ∧ right.corners.Perm [a, b, d] ∧
    (ScreenTri.mk a b c).area * (ScreenTri.mk a b d).area < 0

/-- The pixel lies on the edge, its ends included. -/
def OnEdge (a b pixel : Pixel) : Prop := toPlane pixel ∈ segment ℝ (toPlane a) (toPlane b)

/-- How often a pixel comes to shading, and with blending on is composited, in a mesh. -/
def composites (mesh : List ScreenTri) (pixel : Pixel) : Nat := (mesh.flatMap covered).count pixel

theorem ShareEdge.area_ne_zero {left right : ScreenTri} {a b : Pixel}
    (shared : ShareEdge left right a b) : left.area ≠ 0 ∧ right.area ≠ 0 := by
  obtain ⟨c, d, first, second, opposite⟩ := shared
  have solid {tri : ScreenTri} (other : ScreenTri) (same : tri.corners.Perm other.corners)
      (nonzero : other.area ≠ 0) : tri.area ≠ 0 := by
    rcases area_of_perm same with equal | flipped
    · rwa [equal]
    · rwa [flipped, neg_ne_zero]
  exact ⟨solid ⟨a, b, c⟩ first (left_ne_zero_of_mul opposite.ne),
    solid ⟨a, b, d⟩ second (right_ne_zero_of_mul opposite.ne)⟩

/-- Reordered so that the edge comes first, the two are triangles on opposite sides of it. -/
theorem ShareEdge.exists_opposite {left right : ScreenTri} {a b : Pixel}
    (shared : ShareEdge left right a b) :
    ∃ c d, left.closed = triangle (toPlane a) (toPlane b) c ∧
      right.closed = triangle (toPlane a) (toPlane b) d ∧ Opposite (toPlane a) (toPlane b) c d := by
  obtain ⟨c, d, first, second, opposite⟩ := shared
  refine ⟨toPlane c, toPlane d, @closed_of_perm left ⟨a, b, c⟩ first,
    @closed_of_perm right ⟨a, b, d⟩ second, ?_⟩
  rw [Plane.Opposite, cross_toPlane, cross_toPlane]
  exact_mod_cast opposite

/-- The coverage test keeps exactly the pixels of the closed triangle, whatever the order of its
corners, and across a shared edge no pixel is left out. -/
theorem covered_is_closed_triangle (tri : ScreenTri) (nondegenerate : tri.area ≠ 0) :
    (∀ pixel, pixel ∈ tri.covered ↔ InFramebuffer pixel ∧ toPlane pixel ∈ tri.closed) ∧
      (∀ other : ScreenTri, other.corners.Perm tri.corners → ∀ pixel,
        pixel ∈ other.covered ↔ pixel ∈ tri.covered) ∧
      ∀ other a b, ShareEdge tri other a b → ∀ near ∈ tri.closed, ∀ far ∈ other.closed,
        ∀ cut ∈ segment ℝ (toPlane a) (toPlane b), ∀ pixel, InFramebuffer pixel →
          toPlane pixel ∈ segment ℝ near cut ∪ segment ℝ cut far →
            pixel ∈ tri.covered ∨ pixel ∈ other.covered := by
  refine ⟨mem_covered_iff nondegenerate, fun other same => mem_covered_of_perm same, ?_⟩
  intro other a b shared near here far there cut edge pixel visible between
  obtain ⟨c, d, first, second, _⟩ := shared.exists_opposite
  rw [mem_covered_iff nondegenerate, mem_covered_iff shared.area_ne_zero.2]
  rw [first] at here ⊢
  rw [second] at there ⊢
  rcases mem_of_across here there edge between with left | right
  · exact .inl ⟨visible, left⟩
  · exact .inr ⟨visible, right⟩

theorem covered_is_closed_triangle_corner :
    (ScreenTri.mk (0, 0) (4, 0) (0, 4)).area ≠ 0 ∧
      ((2, 2) ∈ (ScreenTri.mk (0, 0) (4, 0) (0, 4)).covered ↔ InFramebuffer (2, 2) ∧
        toPlane (2, 2) ∈ (ScreenTri.mk (0, 0) (4, 0) (0, 4)).closed) :=
  ⟨by decide, (covered_is_closed_triangle ⟨(0, 0), (4, 0), (0, 4)⟩ (by decide)).1 (2, 2)⟩

theorem both_covered_iff {left right : ScreenTri} {a b : Pixel} (shared : ShareEdge left right a b)
    (pixel : Pixel) : pixel ∈ left.covered ∧ pixel ∈ right.covered ↔
      InFramebuffer pixel ∧ OnEdge a b pixel := by
  obtain ⟨c, d, first, second, opposite⟩ := shared.exists_opposite
  rw [mem_covered_iff shared.area_ne_zero.1, mem_covered_iff shared.area_ne_zero.2, first, second,
    OnEdge, ← mem_both_iff opposite]
  exact ⟨fun ⟨⟨visible, here⟩, _, there⟩ => ⟨visible, here, there⟩,
    fun ⟨visible, here, there⟩ => ⟨⟨visible, here⟩, visible, there⟩⟩

theorem composites_pair (left right : ScreenTri) (pixel : Pixel) :
    composites [left, right] pixel =
      (if pixel ∈ left.covered then 1 else 0) + if pixel ∈ right.covered then 1 else 0 := by
  simp only [composites, List.flatMap_cons, List.flatMap_nil, List.append_nil, List.count_append,
    (covered_nodup _).count]

/-- Two triangles on opposite sides of an edge both cover exactly the pixels on that edge, and
composite each pixel of theirs twice there and once everywhere else. -/
theorem blended_twice_iff_on_edge (left right : ScreenTri) (a b : Pixel)
    (shared : ShareEdge left right a b) (pixel : Pixel) :
    (pixel ∈ left.covered ∧ pixel ∈ right.covered ↔ InFramebuffer pixel ∧ OnEdge a b pixel) ∧
      (pixel ∈ left.covered ∨ pixel ∈ right.covered →
        (OnEdge a b pixel ∧ composites [left, right] pixel = 2) ∨
          (¬ OnEdge a b pixel ∧ composites [left, right] pixel = 1)) := by
  have both := both_covered_iff shared pixel
  refine ⟨both, fun covered => ?_⟩
  rw [composites_pair]
  by_cases here : pixel ∈ left.covered
  · have visible := ((mem_covered_iff shared.area_ne_zero.1 pixel).mp here).1
    by_cases there : pixel ∈ right.covered
    · exact .inl ⟨(both.mp ⟨here, there⟩).2, by rw [if_pos here, if_pos there]⟩
    · exact .inr ⟨fun edge => there (both.mpr ⟨visible, edge⟩).2, by rw [if_pos here, if_neg there]⟩
  · have there := covered.resolve_left here
    have visible := ((mem_covered_iff shared.area_ne_zero.2 pixel).mp there).1
    exact .inr ⟨fun edge => here (both.mpr ⟨visible, edge⟩).1, by rw [if_neg here, if_pos there]⟩

/-- The two halves of a square, on its diagonal. -/
theorem square_shared :
    ShareEdge ⟨(0, 0), (2, 2), (0, 2)⟩ ⟨(0, 0), (2, 2), (2, 0)⟩ (0, 0) (2, 2) :=
  ⟨(0, 2), (2, 0), .rfl, .rfl, by decide⟩

theorem blended_twice_iff_on_edge_square :
    ShareEdge ⟨(0, 0), (2, 2), (0, 2)⟩ ⟨(0, 0), (2, 2), (2, 0)⟩ (0, 0) (2, 2) ∧
      ((0, 1) ∈ (ScreenTri.mk (0, 0) (2, 2) (0, 2)).covered ∧
        (0, 1) ∈ (ScreenTri.mk (0, 0) (2, 2) (2, 0)).covered ↔
          InFramebuffer (0, 1) ∧ OnEdge (0, 0) (2, 2) (0, 1)) :=
  ⟨square_shared, (blended_twice_iff_on_edge _ _ _ _ square_shared (0, 1)).1⟩

theorem diagonal_blended_twice :
    ¬ ∀ left right a b, ShareEdge left right a b → ∀ pixel,
      ¬ (pixel ∈ left.covered ∧ pixel ∈ right.covered) := fun once =>
  once ⟨(0, 0), (2, 2), (0, 2)⟩ ⟨(0, 0), (2, 2), (2, 0)⟩ (0, 0) (2, 2)
    ⟨(0, 2), (2, 0), .rfl, .rfl, by decide⟩ (1, 1) ⟨by decide, by decide⟩

end ScreenTri

end ZeeboLle.Gpu

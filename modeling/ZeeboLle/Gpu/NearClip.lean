import ZeeboLle.Plane.ClipFan

/-! Clipping a triangle against the near plane before the divide, over the rationals. A vertex
is the vector of all its attributes, so that every position inside a triangle has its attributes
with it. -/
namespace ZeeboLle.Gpu.NearClip

open Plane

/-- The fields of a vertex. -/
inductive Attribute where
  | x | y | z | w
  | r | g | b | a
  | u | v | u1 | v1
deriving DecidableEq

abbrev Vertex := Attribute → ℚ

/-- Interpolation of all vertex attributes. -/
def lerpVertex (a b : Vertex) (t : ℚ) : Vertex := fun field =>
  a field + (b field - a field) * t

def clamp (value low high : ℚ) : ℚ := if value < low then low else if high < value then high else value

/-- Nonnegative in front of the near plane. -/
def dist (vertex : Vertex) : ℚ := vertex .z + vertex .w

/-- What one round of the loop appends. -/
def clipEdge (cur nxt : Vertex) : List Vertex :=
  let dc := dist cur
  let dn := dist nxt
  (if 0 ≤ dc then [cur] else []) ++
    if (0 ≤ dc ↔ 0 ≤ dn) then []
    else
      let denom := dc - dn
      if 1 / 10 ^ 20 < |denom| then [lerpVertex cur nxt (clamp (dc / denom) 0 1)] else []

def clipNear (input : List Vertex) : List Vertex :=
  (input.zip (input.rotate 1)).flatMap fun edge => clipEdge edge.1 edge.2

/-- The triangles that `fill_tri` rasterizes. -/
def fillTri (a b c : Vertex) : List (Vertex × Vertex × Vertex) :=
  let poly := clipNear [a, b, c]
  if poly.length < 3 then [] else fan poly

/-- The vertex with given weights on the second and the third corner. -/
def mix (a b c : Vertex) (weights : ℚ × ℚ) : Vertex := fun field =>
  (1 - weights.1 - weights.2) * a field + weights.1 * b field + weights.2 * c field

def distMap : Vertex →ᵃ[ℚ] ℚ :=
  ((LinearMap.proj Attribute.z : Vertex →ₗ[ℚ] ℚ) + LinearMap.proj Attribute.w).toAffineMap

def mixMap (a b c : Vertex) : ℚ × ℚ →ᵃ[ℚ] Vertex :=
  ((LinearMap.fst ℚ ℚ ℚ).smulRight (b - a) + (LinearMap.snd ℚ ℚ ℚ).smulRight (c - a)).toAffineMap +
    AffineMap.const ℚ (ℚ × ℚ) a

variable {a b c p q : Vertex}

@[simp] theorem distMap_apply (vertex : Vertex) : distMap vertex = dist vertex := rfl

theorem mixMap_apply (a b c : Vertex) (weights : ℚ × ℚ) : mixMap a b c weights = mix a b c weights := by
  funext field
  simp [mixMap, mix]
  ring

theorem clamp_inside {value : ℚ} (low : 0 ≤ value) (high : value ≤ 1) : clamp value 0 1 = value := by
  rw [clamp, if_neg (not_lt.mpr low), if_neg (not_lt.mpr high)]

/-- Clamping changes nothing: the source's edge is the edge of the plain algorithm. -/
theorem clipEdge_eq (cur nxt : Vertex) :
    clipEdge cur nxt = Plane.clipEdge distMap (1 / 10 ^ 20) cur nxt := by
  have line (t : ℚ) : lerpVertex cur nxt t = AffineMap.lineMap cur nxt t := by
    funext field
    rw [lerpVertex, AffineMap.lineMap_apply_module]
    simp
    ring
  unfold clipEdge Plane.clipEdge
  dsimp only
  congr 1
  split
  · rename_i same
    exact (if_pos same).symm
  · rename_i sides
    have between : 0 ≤ dist cur / (dist cur - dist nxt) ∧ dist cur / (dist cur - dist nxt) ≤ 1 := by
      rcases le_or_gt 0 (dist cur) with front | behind
      · have other : dist nxt < 0 := not_le.mp fun ahead => sides (iff_of_true front ahead)
        have gap : 0 < dist cur - dist nxt := sub_pos.mpr (other.trans_le front)
        exact ⟨div_nonneg front gap.le, (div_le_one gap).mpr (by linarith)⟩
      · have other : 0 ≤ dist nxt :=
          not_lt.mp fun below => sides (iff_of_false (not_le.mpr behind) (not_le.mpr below))
        have gap : dist cur - dist nxt < 0 := sub_neg.mpr (behind.trans_le other)
        exact ⟨div_nonneg_of_nonpos behind.le gap.le, (div_le_one_of_neg gap).mpr (by linarith)⟩
    rw [line, clamp_inside between.1 between.2]
    exact (if_neg sides).symm

theorem clipNear_eq (a b c : Vertex) :
    clipNear [a, b, c] = clipTriangle distMap (1 / 10 ^ 20) a b c := by
  rw [clipTriangle, ← clipEdge_eq, ← clipEdge_eq, ← clipEdge_eq]
  simp [clipNear]

/-- The fan in barycentric coordinates, where the corners are (0,0), (1,0) and (0,1) and turn to
the left. -/
def weightFan (a b c : Vertex) : List ((ℚ × ℚ) × (ℚ × ℚ) × (ℚ × ℚ)) :=
  fan (clipTriangle (distMap.comp (mixMap a b c)) (1 / 10 ^ 20) (0, 0) (1, 0) (0, 1))

/-- Every edge between the two sides of the plane is longer than the guard. -/
def Steep (a b c : Vertex) : Prop :=
  ∀ p ∈ ({a, b, c} : Set Vertex), ∀ q ∈ ({a, b, c} : Set Vertex), 0 < dist p → dist q < 0 →
    1 / 10 ^ 20 < |dist p - dist q|

/-- No vertex is in front of the plane, and an edge joins one on it to one just behind it. -/
def Slight (a b c : Vertex) : Prop :=
  (∀ p ∈ ({a, b, c} : Set Vertex), dist p ≤ 0) ∧
    ∃ p ∈ ({a, b, c} : Set Vertex), ∃ q ∈ ({a, b, c} : Set Vertex),
      dist p = 0 ∧ dist q < 0 ∧ -(1 / 10 ^ 20) ≤ dist q

theorem mix_first (a b c : Vertex) : mix a b c (0, 0) = a := by
  funext field
  simp [mix]

theorem mix_second (a b c : Vertex) : mix a b c (1, 0) = b := by
  funext field
  simp [mix]

theorem mix_third (a b c : Vertex) : mix a b c (0, 1) = c := by
  funext field
  simp [mix]

/-- The vertex of each corner of the barycentric triangle. -/
theorem corner_vertices (P : Vertex → Prop) :
    (∀ p ∈ ({(0, 0), (1, 0), (0, 1)} : Set (ℚ × ℚ)), P (mix a b c p)) ↔
      ∀ p ∈ ({a, b, c} : Set Vertex), P p := by
  simp [mix_first, mix_second, mix_third]

theorem steep_weights (steep : Steep a b c) :
    Plane.Steep (distMap.comp (mixMap a b c)) (1 / 10 ^ 20) (0, 0) (1, 0) (0, 1) := by
  have vertices := (corner_vertices (a := a) (b := b) (c := c) fun p =>
    ∀ q ∈ ({(0, 0), (1, 0), (0, 1)} : Set (ℚ × ℚ)), 0 < dist p → dist (mix a b c q) < 0 →
      1 / 10 ^ 20 < |dist p - dist (mix a b c q)|).mpr fun p first =>
    (corner_vertices fun q => 0 < dist p → dist q < 0 → 1 / 10 ^ 20 < |dist p - dist q|).mpr (steep p first)
  intro p first q second
  have found := vertices p first q second
  simpa only [AffineMap.comp_apply, mixMap_apply, distMap_apply] using found

theorem slight_weights
    (slight : Plane.Slight (distMap.comp (mixMap a b c)) (1 / 10 ^ 20) (0, 0) (1, 0) (0, 1)) :
    Slight a b c := by
  obtain ⟨below, p, first, q, second, level, behind, near⟩ := slight
  simp only [AffineMap.comp_apply, mixMap_apply, distMap_apply] at below level behind near
  have vertices : ∀ p ∈ ({(0, 0), (1, 0), (0, 1)} : Set (ℚ × ℚ)), mix a b c p ∈ ({a, b, c} : Set Vertex) :=
    (corner_vertices fun p => p ∈ ({a, b, c} : Set Vertex)).mpr fun _ member => member
  exact ⟨(corner_vertices fun p => dist p ≤ 0).mp below, _, vertices p first, _, vertices q second,
    level, behind, near⟩

theorem fillTri_eq (a b c : Vertex) :
    fillTri a b c = (weightFan a b c).map (Prod.map (mix a b c) (Prod.map (mix a b c) (mix a b c))) := by
  have whole : fillTri a b c = fan (clipNear [a, b, c]) := by
    unfold fillTri
    dsimp only
    split
    · rename_i short
      exact (fan_short short).symm
    · rfl
  have same : ⇑(mixMap a b c) = mix a b c := funext (mixMap_apply a b c)
  rw [whole, clipNear_eq, weightFan, ← map_fan, ← same, clipTriangle_map]
  rw [same, mix_first, mix_second, mix_third]

/-- Clipping against the near plane is exact: the vertices of the result span the part of the
triangle in front, at most four of them and all in front, and the triangles of the fan, seen in
barycentric coordinates, keep the orientation, have no inner points in common and make up the
part in front, unless that is slight. -/
theorem clipNear_exact (a b c : Vertex) (steep : Steep a b c) :
    convexHull ℚ {v | v ∈ clipNear [a, b, c]} = {v | v ∈ convexHull ℚ {a, b, c} ∧ 0 ≤ dist v} ∧
      (clipNear [a, b, c]).length ≤ 4 ∧ (∀ v ∈ clipNear [a, b, c], 0 ≤ dist v) ∧
      fillTri a b c = (weightFan a b c).map (Prod.map (mix a b c) (Prod.map (mix a b c) (mix a b c))) ∧
      (∀ corners ∈ weightFan a b c, 0 ≤ cross corners.1 corners.2.1 corners.2.2) ∧
      (weightFan a b c).Pairwise
        (fun first second => Disjoint (interior (tile first)) (interior (tile second))) ∧
      (¬Slight a b c → ∀ weights,
        weights ∈ triangle (0, 0) (1, 0) (0, 1) ∧ 0 ≤ dist (mix a b c weights) ↔
          ∃ corners ∈ weightFan a b c, weights ∈ tile corners) := by
  have turn : 0 < cross ((0, 0) : ℚ × ℚ) (1, 0) (0, 1) := by norm_num [cross]
  have region : ∀ weights, weights ∈ inFront (distMap.comp (mixMap a b c)) (0, 0) (1, 0) (0, 1) ↔
      weights ∈ triangle (0, 0) (1, 0) (0, 1) ∧ 0 ≤ dist (mix a b c weights) := by
    intro weights
    rw [← mixMap_apply]
    exact Iff.rfl
  rw [clipNear_eq]
  refine ⟨convexHull_clipTriangle steep, length_clipTriangle_le a b c,
    fun v found => (clipTriangle_subset found).2, fillTri_eq a b c, ?_⟩
  rcases settled_clipTriangle turn (steep_weights steep) with tiles | ⟨empty, slight⟩
  · refine ⟨tiles.oriented, tiles.disjoint, fun _ weights => ?_⟩
    rw [← region]
    exact tiles.covers weights
  · rw [weightFan, empty]
    exact ⟨by rintro _ ⟨⟩, List.Pairwise.nil, fun thick => absurd (slight_weights slight) thick⟩

/-- A vertex at a depth, all else zero. -/
def atDepth (depth : ℚ) : Vertex := fun
  | .z => depth
  | _ => 0

@[simp] theorem dist_atDepth (depth : ℚ) : dist (atDepth depth) = depth := add_zero depth

/-- With the third corner behind the plane, the fan makes up the half of the triangle on the
side of the other two. -/
theorem clipNear_exact_behind :
    (clipNear [atDepth 1, atDepth 1, atDepth (-1)]).length ≤ 4 ∧
      (∀ v ∈ clipNear [atDepth 1, atDepth 1, atDepth (-1)], 0 ≤ dist v) ∧
      ∀ weights, weights ∈ triangle (0, 0) (1, 0) (0, 1) ∧ 2 * weights.2 ≤ 1 ↔
        ∃ corners ∈ weightFan (atDepth 1) (atDepth 1) (atDepth (-1)), weights ∈ tile corners := by
  have steep : Steep (atDepth 1) (atDepth 1) (atDepth (-1)) := by
    rintro p (rfl | rfl | rfl) q (rfl | rfl | rfl) <;> norm_num
  obtain ⟨_, short, front, _, _, _, covered⟩ :=
    clipNear_exact (atDepth 1) (atDepth 1) (atDepth (-1)) steep
  have thick : ¬Slight (atDepth 1) (atDepth 1) (atDepth (-1)) := fun slight => by
    have behind : dist (atDepth 1) ≤ 0 := slight.1 _ (.inl rfl)
    norm_num at behind
  refine ⟨short, front, fun weights => ?_⟩
  rw [← covered thick weights]
  have level : dist (mix (atDepth 1) (atDepth 1) (atDepth (-1)) weights) = 1 - 2 * weights.2 := by
    simp only [dist, mix, atDepth]
    ring
  rw [level, sub_nonneg]

/-- A vertex behind the plane by much less than the guard. -/
def justBehind : Vertex := atDepth (-(1 / 10 ^ 30))

theorem dist_justBehind : dist justBehind = -(1 / 10 ^ 30) := dist_atDepth _

/-- A corner on the plane and two just behind it: the corner is in front, and there is no
triangle that has it. -/
theorem not_covers_corner :
    ¬∀ a b c : Vertex, Steep a b c → ∀ weights,
      weights ∈ triangle (0, 0) (1, 0) (0, 1) ∧ 0 ≤ dist (mix a b c weights) ↔
        ∃ corners ∈ weightFan a b c, weights ∈ tile corners := by
  intro all
  have steep : Steep (atDepth 0) justBehind justBehind := by
    rintro p (rfl | rfl | rfl) q _ ahead <;> norm_num [dist_justBehind] at ahead
  have front : (0, 0) ∈ triangle ((0, 0) : ℚ × ℚ) (1, 0) (0, 1) ∧
      0 ≤ dist (mix (atDepth 0) justBehind justBehind (0, 0)) := by
    refine ⟨subset_convexHull ℚ _ (by simp), ?_⟩
    rw [mix_first, dist_atDepth]
  have polygon : clipNear [atDepth 0, justBehind, justBehind] = [atDepth 0] := by
    have leaving : clipEdge (atDepth 0) justBehind = [atDepth 0] := by
      norm_num [clipEdge, dist_justBehind]
    have outside : clipEdge justBehind justBehind = [] := by
      norm_num [clipEdge, dist_justBehind]
    have entering : clipEdge justBehind (atDepth 0) = [] := by
      norm_num [clipEdge, dist_justBehind]
    simp [clipNear, leaving, outside, entering]
  have empty : weightFan (atDepth 0) justBehind justBehind = [] := by
    have none := fillTri_eq (atDepth 0) justBehind justBehind
    rw [fillTri, polygon] at none
    exact List.map_eq_nil_iff.mp none.symm
  obtain ⟨corners, member, _⟩ := (all _ _ _ steep (0, 0)).mp front
  rw [empty] at member
  cases member

end ZeeboLle.Gpu.NearClip

import Mathlib.LinearAlgebra.AffineSpace.AffineMap
import Mathlib.Tactic.Module
import ZeeboLle.Plane.Fan

/-! Clipping a triangle with a half-space: each corner in front is kept, and each edge that
crosses the border is cut there. The corners of the result span exactly the part of the triangle
in front. An edge from the border to just behind it may be left uncut. -/
namespace ZeeboLle.Plane

variable {K V W : Type*} [Field K] [AddCommGroup V] [Module K V] [AddCommGroup W] [Module K W]

/-- An affine function of a weighted point is the weighted mean of its values. -/
theorem map_weighted {a b c : V} (f : V →ᵃ[K] W) {u v w : K} (total : u + v + w = 1) :
    f (u • a + v • b + w • c) = u • f a + v • f b + w • f c := by
  have split : ∀ p, f p = f.linear p + f 0 := fun p => congrFun f.decomp p
  rw [split, split a, split b, split c, map_add, map_add, map_smul, map_smul, map_smul]
  have whole : f 0 = u • f 0 + v • f 0 + w • f 0 := by
    rw [← add_smul, ← add_smul, total, one_smul]
  nth_rewrite 1 [whole]
  module

/-- Where an edge crosses the border. -/
def crossing (d : V →ᵃ[K] K) (p q : V) : V := AffineMap.lineMap p q (d p / (d p - d q))

section Crossing

variable {d : V →ᵃ[K] K} {p q : V}

theorem crossing_level (different : d p ≠ d q) : d (crossing d p q) = 0 := by
  have nonzero : d p - d q ≠ 0 := sub_ne_zero.mpr different
  rw [crossing, AffineMap.apply_lineMap, AffineMap.lineMap_apply_ring']
  field_simp
  ring

theorem crossing_comm (different : d p ≠ d q) : crossing d p q = crossing d q p := by
  have nonzero : d p - d q ≠ 0 := sub_ne_zero.mpr different
  have turned : d q - d p ≠ 0 := sub_ne_zero.mpr different.symm
  have share : d p / (d p - d q) = 1 - d q / (d q - d p) := by
    field_simp
    ring
  rw [crossing, crossing, share, AffineMap.lineMap_apply_one_sub]

theorem crossing_on (level : d p = 0) : crossing d p q = p := by
  rw [crossing, level, zero_div, AffineMap.lineMap_apply_zero]

end Crossing

variable [LinearOrder K]

section Edges

variable (d : V →ᵃ[K] K) (slack : K)

/-- The cut of an edge, unless its ends are too close to the border. -/
def cut (p q : V) : List V := if slack < |d p - d q| then [crossing d p q] else []

/-- What one edge adds to the result. -/
def clipEdge (p q : V) : List V :=
  (if 0 ≤ d p then [p] else []) ++ if (0 ≤ d p ↔ 0 ≤ d q) then [] else cut d slack p q

def clipTriangle (a b c : V) : List V :=
  clipEdge d slack a b ++ (clipEdge d slack b c ++ clipEdge d slack c a)

end Edges

/-- The part of a triangle in front of the border. -/
def inFront (d : V →ᵃ[K] K) (a b c : V) : Set V := {x | x ∈ convexHull K {a, b, c} ∧ 0 ≤ d x}

/-- Every edge between the two sides is cut. -/
def Steep (d : V →ᵃ[K] K) (slack : K) (a b c : V) : Prop :=
  ∀ p ∈ ({a, b, c} : Set V), ∀ q ∈ ({a, b, c} : Set V), 0 < d p → d q < 0 → slack < |d p - d q|

variable {d : V →ᵃ[K] K} {slack : K} {p q r x a b c : V} {points : Set V}

theorem inFront_rotate : inFront d b c a = inFront d a b c := by
  rw [inFront, inFront, rotate_corners]

theorem Steep.rotate (steep : Steep d slack a b c) : Steep d slack b c a := by
  rw [Steep, rotate_corners]
  exact steep

theorem clipEdge_inside (front : 0 ≤ d p) (also_front : 0 ≤ d q) : clipEdge d slack p q = [p] := by
  rw [clipEdge, if_pos front, if_pos (iff_of_true front also_front), List.append_nil]

theorem clipEdge_leaving (front : 0 ≤ d p) (behind : d q < 0) :
    clipEdge d slack p q = p :: cut d slack p q := by
  rw [clipEdge, if_pos front, if_neg fun sides => absurd (sides.mp front) (not_le.mpr behind)]
  rfl

theorem clipEdge_entering (behind : d p < 0) (front : 0 ≤ d q) :
    clipEdge d slack p q = cut d slack p q := by
  rw [clipEdge, if_neg (not_le.mpr behind), if_neg fun sides => absurd (sides.mpr front) (not_le.mpr behind)]
  rfl

theorem clipEdge_outside (behind : d p < 0) (also_behind : d q < 0) : clipEdge d slack p q = [] := by
  rw [clipEdge, if_neg (not_le.mpr behind),
    if_pos (iff_of_false (not_le.mpr behind) (not_le.mpr also_behind)), List.append_nil]

theorem mem_clipTriangle : x ∈ clipTriangle d slack a b c ↔
    x ∈ clipEdge d slack a b ∨ x ∈ clipEdge d slack b c ∨ x ∈ clipEdge d slack c a := by
  rw [clipTriangle, List.mem_append, List.mem_append]

/-- The result of clipping a mapped triangle is the mapped result. -/
theorem clipTriangle_map (f : W →ᵃ[K] V) (a b c : W) :
    (clipTriangle (d.comp f) slack a b c).map f = clipTriangle d slack (f a) (f b) (f c) := by
  have crosses (p q : W) : f (crossing (d.comp f) p q) = crossing d (f p) (f q) := by
    rw [crossing, crossing, AffineMap.apply_lineMap]
    rfl
  have cuts (p q : W) : (cut (d.comp f) slack p q).map f = cut d slack (f p) (f q) := by
    by_cases far : slack < |d (f p) - d (f q)|
    · have before : cut (d.comp f) slack p q = [crossing (d.comp f) p q] := if_pos far
      rw [before, List.map_singleton, crosses, cut, if_pos far]
    · have before : cut (d.comp f) slack p q = [] := if_neg far
      rw [before, List.map_nil, cut, if_neg far]
  have edge (p q : W) : (clipEdge (d.comp f) slack p q).map f = clipEdge d slack (f p) (f q) := by
    rcases le_or_gt 0 (d (f p)) with front_p | behind_p
    · rcases le_or_gt 0 (d (f q)) with front_q | behind_q
      · have before : clipEdge (d.comp f) slack p q = [p] := clipEdge_inside front_p front_q
        rw [before, clipEdge_inside front_p front_q, List.map_singleton]
      · have before : clipEdge (d.comp f) slack p q = p :: cut (d.comp f) slack p q :=
          clipEdge_leaving front_p behind_q
        rw [before, clipEdge_leaving front_p behind_q, List.map_cons, cuts]
    · rcases le_or_gt 0 (d (f q)) with front_q | behind_q
      · have before : clipEdge (d.comp f) slack p q = cut (d.comp f) slack p q :=
          clipEdge_entering behind_p front_q
        rw [before, clipEdge_entering behind_p front_q, cuts]
      · have before : clipEdge (d.comp f) slack p q = [] := clipEdge_outside behind_p behind_q
        rw [before, clipEdge_outside behind_p behind_q, List.map_nil]
  rw [clipTriangle, List.map_append, List.map_append, edge, edge, edge]
  rfl

theorem length_cut_le (p q : V) : (cut d slack p q).length ≤ 1 := by
  unfold cut
  split <;> simp

/-- At most one corner more than before. -/
theorem length_clipTriangle_le (a b c : V) : (clipTriangle d slack a b c).length ≤ 4 := by
  have cut_ab : (cut d slack a b).length ≤ 1 := length_cut_le a b
  have cut_bc : (cut d slack b c).length ≤ 1 := length_cut_le b c
  have cut_ca : (cut d slack c a).length ≤ 1 := length_cut_le c a
  unfold clipTriangle clipEdge
  -- of the corners and the crossings, one is missing for each corner behind
  by_cases front_a : 0 ≤ d a <;> by_cases front_b : 0 ≤ d b <;> by_cases front_c : 0 ≤ d c <;>
    simp only [front_a, front_b, front_c, if_true, if_false, iff_true, iff_false, not_true,
      List.length_append, List.length_cons, List.length_nil] <;> omega

theorem corner_mem (front : 0 ≤ d p) : p ∈ clipEdge d slack p q := by
  rw [clipEdge, if_pos front]
  exact List.mem_append_left _ (List.mem_singleton_self p)

/-- The cut of an edge that leaves the front is a corner, if only the one where it leaves. -/
theorem leaving_mem (steep : 0 < d p → slack < |d p - d q|) (front : 0 ≤ d p) (behind : d q < 0) :
    crossing d p q ∈ clipEdge d slack p q := by
  rcases front.eq_or_lt' with level | ahead
  · rw [crossing_on level]
    exact corner_mem front
  · rw [clipEdge_leaving front behind, cut, if_pos (steep ahead)]
    simp

theorem entering_mem (steep : 0 < d q → slack < |d q - d p|) (behind : d p < 0) (front : 0 ≤ d q) :
    crossing d p q ∈ clipEdge d slack p q ∨ crossing d p q = q := by
  have different : d p ≠ d q := (behind.trans_le front).ne
  rcases front.eq_or_lt' with level | ahead
  · right
    rw [crossing_comm different, crossing_on level]
  · left
    rw [clipEdge_entering behind front, cut, abs_sub_comm, if_pos (steep ahead)]
    exact List.mem_singleton_self _

theorem crossing_mem (edge : ∀ x ∈ clipEdge d slack p q, x ∈ points)
    (corner : 0 ≤ d q → q ∈ points) (leaves : 0 < d p → d q < 0 → slack < |d p - d q|)
    (enters : 0 < d q → d p < 0 → slack < |d q - d p|) (sides : 0 ≤ d p ↔ d q < 0) :
    crossing d p q ∈ points := by
  rcases le_or_gt 0 (d p) with front | behind
  · have other := sides.mp front
    exact edge _ (leaving_mem (fun ahead => leaves ahead other) front other)
  · have other : 0 ≤ d q := not_lt.mp fun below => absurd (sides.mpr below) (not_le.mpr behind)
    rcases entering_mem (fun ahead => enters ahead behind) behind other with found | same
    · exact edge _ found
    · rw [same]
      exact corner other

/-- Points among which are the corners in front and all crossings of a triangle. -/
structure Cuts (d : V →ᵃ[K] K) (points : Set V) (a b c : V) : Prop where
  corners : ∀ p ∈ ({a, b, c} : Set V), 0 ≤ d p → p ∈ points
  first : (0 ≤ d a ↔ d b < 0) → crossing d a b ∈ points
  second : (0 ≤ d b ↔ d c < 0) → crossing d b c ∈ points
  third : (0 ≤ d c ↔ d a < 0) → crossing d c a ∈ points

theorem Cuts.rotate (cuts : Cuts d points a b c) : Cuts d points b c a where
  corners := rotate_corners a b c ▸ cuts.corners
  first := cuts.second
  second := cuts.third
  third := cuts.first

theorem cuts_clipTriangle (steep : Steep d slack a b c) :
    Cuts d {x | x ∈ clipTriangle d slack a b c} a b c := by
  have corners : ∀ p ∈ ({a, b, c} : Set V), 0 ≤ d p → p ∈ clipTriangle d slack a b c := by
    rintro p (rfl | rfl | rfl) front
    · exact mem_clipTriangle.mpr (.inl (corner_mem front))
    · exact mem_clipTriangle.mpr (.inr (.inl (corner_mem front)))
    · exact mem_clipTriangle.mpr (.inr (.inr (corner_mem front)))
  have in_a : a ∈ ({a, b, c} : Set V) := by simp
  have in_b : b ∈ ({a, b, c} : Set V) := by simp
  have in_c : c ∈ ({a, b, c} : Set V) := by simp
  refine ⟨corners, ?_, ?_, ?_⟩
  · exact crossing_mem (fun _ member => mem_clipTriangle.mpr (.inl member)) (corners b in_b)
      (steep a in_a b in_b) (steep b in_b a in_a)
  · exact crossing_mem (fun _ member => mem_clipTriangle.mpr (.inr (.inl member))) (corners c in_c)
      (steep b in_b c in_c) (steep c in_c b in_b)
  · exact crossing_mem (fun _ member => mem_clipTriangle.mpr (.inr (.inr member))) (corners a in_a)
      (steep c in_c a in_a) (steep a in_a c in_c)

variable [IsStrictOrderedRing K]

/-- Between two sides the crossing lies on the edge. -/
theorem crossing_between (front : 0 ≤ d p) (behind : d q < 0) :
    ∃ s : K, 0 ≤ s ∧ s ≤ 1 ∧ crossing d p q = AffineMap.lineMap p q s := by
  have positive : 0 < d p - d q := sub_pos.mpr (behind.trans_le front)
  refine ⟨_, div_nonneg front positive.le, ?_, rfl⟩
  rw [div_le_one positive]
  linarith

/-- Behind one corner, the part in front is two triangles. -/
theorem two_in_front (first : 0 ≤ d p) (second : 0 ≤ d q) (behind : d r < 0)
    (inside : x ∈ convexHull K {p, q, r}) (front : 0 ≤ d x) :
    x ∈ convexHull K {p, q, crossing d q r} ∨
      x ∈ convexHull K {p, crossing d q r, crossing d r p} := by
  obtain ⟨u, v, w, u_nonneg, v_nonneg, w_nonneg, total, rfl⟩ := mem_hull.mp inside
  rw [map_weighted d total] at front
  simp only [smul_eq_mul] at front
  have gap_q : d q - d r ≠ 0 := by linarith
  have gap_p : d r - d p ≠ 0 := by linarith
  by_cases near : 0 ≤ v * d q + w * d r
  · refine .inl ?_
    rcases second.eq_or_lt' with level | positive
    · have none : w = 0 := by
        rw [level, mul_zero, zero_add] at near
        nlinarith
      subst none
      exact mem_hull.mpr ⟨u, v, 0, u_nonneg, v_nonneg, le_refl 0, total, by simp⟩
    · refine mem_hull.mpr ⟨u, (v * d q + w * d r) / d q, w * (d q - d r) / d q, u_nonneg,
        div_nonneg near second, div_nonneg (mul_nonneg w_nonneg (by linarith)) second, ?_, ?_⟩
      · field_simp
        linear_combination d q * total
      · rw [crossing, AffineMap.lineMap_apply_module]
        match_scalars
        · field_simp
        · field_simp
          ring
        · field_simp
  · have ahead : 0 < d p := by
      by_contra none
      have level : d p = 0 := le_antisymm (not_lt.mp none) first
      rw [level, mul_zero, zero_add] at front
      exact near front
    have gap : 0 < d p - d r := sub_pos.mpr (behind.trans ahead)
    have nonzero : d r ≠ 0 := behind.ne
    refine .inr (mem_hull.mpr ⟨(u * d p + v * d q + w * d r) / d p, v * (d q - d r) / -d r,
      -(v * d q + w * d r) * (d p - d r) / (d p * -d r), div_nonneg front first,
      div_nonneg (mul_nonneg v_nonneg (by linarith)) (by linarith),
      div_nonneg (mul_nonneg (by linarith) gap.le) (mul_nonneg first (by linarith)), ?_, ?_⟩)
    · field_simp
      linear_combination d p * d r * total
    · rw [crossing, crossing, AffineMap.lineMap_apply_module, AffineMap.lineMap_apply_module]
      match_scalars
      · field_simp
        ring
      · field_simp
        ring
      · field_simp
        ring

/-- In front of one corner, the part in front is one triangle. -/
theorem one_in_front (front_p : 0 ≤ d p) (behind_q : d q < 0) (behind_r : d r < 0)
    (inside : x ∈ convexHull K {p, q, r}) (front : 0 ≤ d x) :
    x ∈ convexHull K {p, crossing d p q, crossing d r p} := by
  obtain ⟨u, v, w, u_nonneg, v_nonneg, w_nonneg, total, rfl⟩ := mem_hull.mp inside
  rw [map_weighted d total] at front
  simp only [smul_eq_mul] at front
  have gap_q : 0 < d p - d q := sub_pos.mpr (behind_q.trans_le front_p)
  have gap_r : d r - d p ≠ 0 := by linarith
  rcases front_p.eq_or_lt' with level | positive
  · have none_v : v = 0 := by
      rw [level] at front
      nlinarith [mul_nonneg w_nonneg (neg_nonneg.mpr behind_r.le)]
    have none_w : w = 0 := by
      rw [level, none_v] at front
      nlinarith
    subst none_v none_w
    exact mem_hull.mpr ⟨u, 0, 0, u_nonneg, le_refl 0, le_refl 0, total, by simp⟩
  · refine mem_hull.mpr ⟨(u * d p + v * d q + w * d r) / d p, v * (d p - d q) / d p,
      w * (d p - d r) / d p, div_nonneg front front_p,
      div_nonneg (mul_nonneg v_nonneg gap_q.le) front_p,
      div_nonneg (mul_nonneg w_nonneg (by linarith)) front_p, ?_, ?_⟩
    · field_simp
      linear_combination d p * total
    · rw [crossing, crossing, AffineMap.lineMap_apply_module, AffineMap.lineMap_apply_module]
      match_scalars
      · field_simp
        ring
      · field_simp
      · field_simp
        ring

theorem convex_inFront : Convex K (inFront d a b c) := by
  have side : Convex K {x | 0 ≤ d x} := (convex_Ici (0 : K)).affine_preimage d
  exact (convex_convexHull K _).inter side

theorem mem_clipEdge (found : x ∈ clipEdge d slack p q) :
    x ∈ segment K p q ∧ 0 ≤ d x := by
  unfold clipEdge cut at found
  rcases List.mem_append.mp found with kept | added
  · split at kept
    · rw [List.mem_singleton.mp kept]
      exact ⟨left_mem_segment K p q, ‹_›⟩
    · cases kept
  · split at added
    · cases added
    · rename_i sides
      split at added
      · rw [List.mem_singleton.mp added]
        have different : d p ≠ d q := fun same => sides (by rw [same])
        refine ⟨?_, (crossing_level different).ge⟩
        rcases le_or_gt 0 (d p) with front | behind
        · have other : d q < 0 := by
            by_contra ahead
            exact sides ⟨fun _ => not_lt.mp ahead, fun _ => front⟩
          obtain ⟨s, low, high, same⟩ := crossing_between front other
          rw [same, segment_eq_image_lineMap]
          exact ⟨s, ⟨low, high⟩, rfl⟩
        · have other : 0 ≤ d q := by
            by_contra ahead
            exact sides ⟨fun front => absurd front (not_le.mpr behind), fun front => absurd front ahead⟩
          obtain ⟨s, low, high, same⟩ := crossing_between other behind
          rw [crossing_comm different, same, segment_symm, segment_eq_image_lineMap]
          exact ⟨s, ⟨low, high⟩, rfl⟩
      · cases added

/-- Nothing of the result lies outside the part in front. -/
theorem clipTriangle_subset (found : x ∈ clipTriangle d slack a b c) : x ∈ inFront d a b c := by
  have corners : ∀ p ∈ ({a, b, c} : Set V), ∀ q ∈ ({a, b, c} : Set V), x ∈ clipEdge d slack p q →
      x ∈ inFront d a b c := by
    intro p first q second member
    obtain ⟨between, front⟩ := mem_clipEdge member
    exact ⟨segment_subset_convexHull first second between, front⟩
  rcases mem_clipTriangle.mp found with edge | edge | edge
  · exact corners a (by simp) b (by simp) edge
  · exact corners b (by simp) c (by simp) edge
  · exact corners c (by simp) a (by simp) edge

theorem Cuts.two (cuts : Cuts d points a b c) (front_a : 0 ≤ d a) (front_b : 0 ≤ d b)
    (behind : d c < 0) : inFront d a b c ⊆ convexHull K points := by
  rintro x ⟨inside, front⟩
  have cut_bc := cuts.second (iff_of_true front_b behind)
  have cut_ca := cuts.third (iff_of_false (not_le.mpr behind) (not_lt.mpr front_a))
  have corner_a := cuts.corners a (by simp) front_a
  have corner_b := cuts.corners b (by simp) front_b
  rcases two_in_front front_a front_b behind inside front with found | found
  · refine convexHull_mono ?_ found
    rintro corner (rfl | rfl | rfl) <;> assumption
  · refine convexHull_mono ?_ found
    rintro corner (rfl | rfl | rfl) <;> assumption

theorem Cuts.one (cuts : Cuts d points a b c) (front_a : 0 ≤ d a) (behind_b : d b < 0)
    (behind_c : d c < 0) : inFront d a b c ⊆ convexHull K points := by
  rintro x ⟨inside, front⟩
  have cut_ab := cuts.first (iff_of_true front_a behind_b)
  have cut_ca := cuts.third (iff_of_false (not_le.mpr behind_c) (not_lt.mpr front_a))
  have corner_a := cuts.corners a (by simp) front_a
  refine convexHull_mono ?_ (one_in_front front_a behind_b behind_c inside front)
  rintro corner (rfl | rfl | rfl) <;> assumption

/-- Such points span the part in front. -/
theorem Cuts.span (cuts : Cuts d points a b c) : inFront d a b c ⊆ convexHull K points := by
  have turned := cuts.rotate
  have again := turned.rotate
  have same : inFront d c a b = inFront d a b c := by rw [inFront_rotate, inFront_rotate]
  rcases le_or_gt 0 (d a) with front_a | behind_a
  · rcases le_or_gt 0 (d b) with front_b | behind_b
    · rcases le_or_gt 0 (d c) with front_c | behind_c
      · rintro x ⟨inside, _⟩
        refine convexHull_mono ?_ inside
        rintro corner (rfl | rfl | rfl)
        · exact cuts.corners _ (by simp) front_a
        · exact cuts.corners _ (by simp) front_b
        · exact cuts.corners _ (by simp) front_c
      · exact cuts.two front_a front_b behind_c
    · rcases le_or_gt 0 (d c) with front_c | behind_c
      · exact same ▸ again.two front_c front_a behind_b
      · exact cuts.one front_a behind_b behind_c
  · rcases le_or_gt 0 (d b) with front_b | behind_b
    · rcases le_or_gt 0 (d c) with front_c | behind_c
      · exact inFront_rotate (d := d) (a := a) ▸ turned.two front_b front_c behind_a
      · exact inFront_rotate (d := d) (a := a) ▸ turned.one front_b behind_c behind_a
    · rcases le_or_gt 0 (d c) with front_c | behind_c
      · exact same ▸ again.one front_c behind_a behind_b
      · rintro x ⟨inside, front⟩
        have side : Convex K {x | d x < 0} := (convex_Iio (0 : K)).affine_preimage d
        have corners : ({a, b, c} : Set V) ⊆ {x | d x < 0} := by
          rintro corner (rfl | rfl | rfl) <;> assumption
        exact absurd front (not_le.mpr (convexHull_min corners side inside))

/-- The corners of the result span the part in front. -/
theorem convexHull_clipTriangle (steep : Steep d slack a b c) :
    convexHull K {x | x ∈ clipTriangle d slack a b c} = inFront d a b c :=
  Set.Subset.antisymm (convexHull_min (fun _ found => clipTriangle_subset found) convex_inFront)
    (cuts_clipTriangle steep).span

end ZeeboLle.Plane

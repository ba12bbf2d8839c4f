import Mathlib
import ZeeboLle.Plane.Triangle

/-! Fans of triangles around the first corner of a polygon: when they are oriented alike, meet
in edges only and cover a region. -/
namespace ZeeboLle.Plane

/-- The triangles of a polygon's first corner and each edge not at it. -/
def fan {α : Type*} : List α → List (α × α × α)
  | [] => []
  | first :: rest => (rest.zip rest.tail).map fun edge => (first, edge.1, edge.2)

theorem map_fan {α β : Type*} (f : α → β) (polygon : List α) :
    fan (polygon.map f) = (fan polygon).map (Prod.map f (Prod.map f f)) := by
  cases polygon with
  | nil => rfl
  | cons first rest =>
    rw [List.map_cons, fan, fan, List.map_map, ← List.map_tail, List.zip_map, List.map_map]
    rfl

theorem fan_short {α : Type*} {polygon : List α} (short : polygon.length < 3) : fan polygon = [] := by
  match polygon, short with
  | [], _ => rfl
  | [_], _ => rfl
  | [_, _], _ => rfl

variable {K : Type*} [Field K] [LinearOrder K] {p q r s x : K × K}

/-- The closed triangle of three corners. -/
def tile (corners : (K × K) × (K × K) × (K × K)) : Set (K × K) :=
  triangle corners.1 corners.2.1 corners.2.2

/-- The triangles turn to the left, have no inner points in common and make up the region. -/
structure Tiles [TopologicalSpace K] (region : Set (K × K))
    (tiles : List ((K × K) × (K × K) × (K × K))) : Prop where
  oriented : ∀ corners ∈ tiles, 0 ≤ cross corners.1 corners.2.1 corners.2.2
  disjoint : tiles.Pairwise fun first second => Disjoint (interior (tile first)) (interior (tile second))
  covers : ∀ x, x ∈ region ↔ ∃ corners ∈ tiles, x ∈ tile corners

/-- One triangle has the whole region. -/
structure Tri (region : Set (K × K)) (p q r : K × K) : Prop where
  oriented : 0 ≤ cross p q r
  covers : region ⊆ triangle p q r

/-- Two triangles on a diagonal have the whole region. -/
structure Quad (region : Set (K × K)) (p q r s : K × K) : Prop where
  first : 0 ≤ cross p q r
  second : 0 ≤ cross p r s
  covers : region ⊆ triangle p q r ∪ triangle p r s

variable {region : Set (K × K)}

theorem triangle_rotate (p q r : K × K) : triangle q r p = triangle p q r := by
  rw [triangle, triangle, rotate_corners]

theorem triangle_subset {first second third : K × K} (first_mem : first ∈ ({p, q, r} : Set (K × K)))
    (second_mem : second ∈ ({p, q, r} : Set (K × K))) (third_mem : third ∈ ({p, q, r} : Set (K × K))) :
    triangle first second third ⊆ triangle p q r := by
  refine convexHull_mono ?_
  rintro x (rfl | rfl | rfl) <;> assumption

theorem Tri.rotate (tri : Tri region p q r) : Tri region q r p :=
  ⟨cross_rotate p q r ▸ tri.oriented, triangle_rotate p q r ▸ tri.covers⟩

/-- The same diagonal from its other end. -/
theorem Quad.turn (quad : Quad region p q r s) : Quad region r s p q where
  first := by
    rw [cross_rotate p r s]
    exact quad.second
  second := by
    rw [← cross_rotate r p q]
    exact quad.first
  covers := by
    rw [triangle_rotate p r s, ← triangle_rotate r p q, Set.union_comm]
    exact quad.covers

/-- Where the first triangle has shrunk to an edge of the second, the second has the region. -/
theorem Quad.drop_first (quad : Quad region p q r s) (flat : q = p ∨ q = r) : Tri region p r s := by
  refine ⟨quad.second, fun x inside => ?_⟩
  rcases quad.covers inside with found | found
  · refine triangle_subset ?_ ?_ ?_ found
    · simp
    · rcases flat with rfl | rfl <;> simp
    · simp
  · exact found

theorem Quad.drop_second (quad : Quad region p q r s) (flat : s = p ∨ s = r) : Tri region p q r := by
  refine ⟨quad.first, fun x inside => ?_⟩
  rcases quad.covers inside with found | found
  · exact found
  · refine triangle_subset ?_ ?_ ?_ found
    · simp
    · simp
    · rcases flat with rfl | rfl <;> simp

variable [TopologicalSpace K]

theorem Tri.tiles (tri : Tri region p q r) (convex : Convex K region)
    (corners : ∀ corner ∈ [p, q, r], corner ∈ region) : Tiles region (fan [p, q, r]) where
  oriented := by
    rintro _ (_ | ⟨_, ⟨⟩⟩)
    exact tri.oriented
  disjoint := List.pairwise_singleton _ _
  covers x := by
    constructor
    · exact fun inside => ⟨(p, q, r), List.mem_singleton_self _, tri.covers inside⟩
    · rintro ⟨_, _ | ⟨_, ⟨⟩⟩, inside⟩
      refine convexHull_min ?_ convex inside
      rintro corner (rfl | rfl | rfl) <;> exact corners _ (by simp)

variable [IsStrictOrderedRing K] [OrderTopology K]

/-- Inside an area one can move a little in every direction. -/
theorem exists_step {area : Set (K × K)} (inner : x ∈ interior area) (direction : K × K) :
    ∃ t : K, t ≠ 0 ∧ x + t • direction ∈ area := by
  have path : Continuous fun t : K => x + t • direction := by fun_prop
  have start : Filter.Tendsto (fun t : K => x + t • direction) (nhds 0) (nhds x) := by
    simpa using path.tendsto 0
  have near := (start.eventually (mem_interior_iff_mem_nhds.mp inner)).filter_mono
    (nhdsWithin_le_nhds (s := {0}ᶜ))
  obtain ⟨t, found, nonzero⟩ := (near.and self_mem_nhdsWithin).exists
  exact ⟨t, nonzero, found⟩

/-- An edge on whose line a whole area lies is no edge. -/
theorem eq_of_flat {area : Set (K × K)} (inner : x ∈ interior area)
    (flat : ∀ y ∈ area, cross y p q = 0) : p = q := by
  have here := flat x (interior_subset inner)
  obtain ⟨s, s_nonzero, right⟩ := exists_step inner (1, 0)
  obtain ⟨t, t_nonzero, up⟩ := exists_step inner (0, 1)
  have moved := flat _ right
  have lifted := flat _ up
  simp only [cross, Prod.fst_add, Prod.snd_add, Prod.smul_fst, Prod.smul_snd, smul_eq_mul, mul_one,
    mul_zero, add_zero] at here moved lifted
  ext
  · apply mul_left_cancel₀ t_nonzero
    linear_combination here - lifted
  · apply mul_left_cancel₀ s_nonzero
    linear_combination moved - here

/-- Triangles on the two sides of an edge have no inner point in common. -/
theorem disjoint_interior (different : p ≠ r) (first : 0 ≤ cross p q r)
    (second : 0 ≤ cross p r s) :
    Disjoint (interior (triangle p q r)) (interior (triangle p r s)) := by
  rw [Set.disjoint_iff_inter_eq_empty, ← interior_inter, Set.eq_empty_iff_forall_notMem]
  intro x inner
  refine different (eq_of_flat inner ?_)
  rintro y ⟨left, right⟩
  obtain ⟨u, v, w, u_nonneg, v_nonneg, w_nonneg, total, weighted⟩ := mem_triangle.mp left
  obtain ⟨u', v', w', _, _, w'_nonneg, total', weighted'⟩ := mem_triangle.mp right
  have below := (cross_weighted total weighted).2.1
  have above := (cross_weighted total' weighted').2.2
  have turned : cross y r p = -cross y p r := by
    simp only [cross]
    ring
  have positive : 0 ≤ cross y p r := by
    rw [above]
    exact mul_nonneg w'_nonneg second
  have negative : 0 ≤ cross y r p := by
    rw [below]
    exact mul_nonneg v_nonneg first
  linarith

theorem Quad.tiles (quad : Quad region p q r s) (different : p ≠ r) (convex : Convex K region)
    (corners : ∀ corner ∈ [p, q, r, s], corner ∈ region) : Tiles region (fan [p, q, r, s]) where
  oriented := by
    rintro _ (_ | ⟨_, _ | ⟨_, ⟨⟩⟩⟩)
    · exact quad.first
    · exact quad.second
  disjoint := List.pairwise_pair.mpr (disjoint_interior different quad.first quad.second)
  covers x := by
    constructor
    · intro inside
      rcases quad.covers inside with found | found
      · exact ⟨(p, q, r), List.mem_cons_self, found⟩
      · exact ⟨(p, r, s), List.mem_cons_of_mem _ (List.mem_singleton_self _), found⟩
    · rintro ⟨_, _ | ⟨_, _ | ⟨_, ⟨⟩⟩⟩, inside⟩
      · refine convexHull_min ?_ convex inside
        rintro corner (rfl | rfl | rfl) <;> exact corners _ (by simp)
      · refine convexHull_min ?_ convex inside
        rintro corner (rfl | rfl | rfl) <;> exact corners _ (by simp)

end ZeeboLle.Plane

import Mathlib.Algebra.BigOperators.Fin
import Mathlib.Analysis.Convex.Combination
import Mathlib.Analysis.Convex.Join
import Mathlib.Tactic.FieldSimp
import Mathlib.Tactic.Linarith

/-! Triangles in the plane and the signed areas their edges cut off. A point lies in a closed
triangle exactly if no two of the three areas it makes with the edges have opposite signs, and
triangles on opposite sides of an edge have only that edge in common. -/
namespace ZeeboLle.Plane

theorem rotate_corners {α : Type*} (a b c : α) : ({b, c, a} : Set α) = {a, b, c} := by
  ext
  simp only [Set.mem_insert_iff, Set.mem_singleton_iff]
  tauto

section Cross

variable {R : Type*} [CommRing R]

/-- Twice the signed area of the triangle of three points. -/
def cross (a b c : R × R) : R := (b.1 - a.1) * (c.2 - a.2) - (c.1 - a.1) * (b.2 - a.2)

theorem cross_rotate (a b c : R × R) : cross b c a = cross a b c := by
  simp only [cross]
  ring

/-- The areas a point makes with the edges add up to the whole. -/
theorem cross_sum (p a b c : R × R) : cross p b c + cross p c a + cross p a b = cross a b c := by
  simp only [cross]
  ring

/-- They are its barycentric coordinates, scaled by the whole. -/
theorem cross_weights_fst (p a b c : R × R) :
    cross p b c * a.1 + cross p c a * b.1 + cross p a b * c.1 = cross a b c * p.1 := by
  simp only [cross]
  ring

theorem cross_weights_snd (p a b c : R × R) :
    cross p b c * a.2 + cross p c a * b.2 + cross p a b * c.2 = cross a b c * p.2 := by
  simp only [cross]
  ring

/-- The area a weighted point makes with an edge is the whole, scaled by the weight of the
corner opposite. -/
theorem cross_weighted {a b c p : R × R} {u v w : R} (total : u + v + w = 1)
    (weighted : p = (u * a.1 + v * b.1 + w * c.1, u * a.2 + v * b.2 + w * c.2)) :
    cross p b c = u * cross a b c ∧ cross p c a = v * cross a b c ∧
      cross p a b = w * cross a b c := by
  obtain rfl : u = 1 - v - w := by
    rw [← total]
    ring
  subst weighted
  simp only [cross]
  refine ⟨?_, ?_, ?_⟩
  · ring
  · ring
  · ring

theorem map_cross {S : Type*} [CommRing S] (f : R →+* S) (a b c : R × R) :
    cross (f a.1, f a.2) (f b.1, f b.2) (f c.1, f c.2) = f (cross a b c) := by
  simp only [cross, map_sub, map_mul]

end Cross

variable {K : Type*} [Field K] [LinearOrder K] [IsStrictOrderedRing K] {a b c d p q : K × K}

/-- The closed triangle of three points: their convex combinations. -/
abbrev triangle (a b c : K × K) : Set (K × K) := convexHull K {a, b, c}

/-- The convex combinations of three points. -/
theorem mem_hull {V : Type*} [AddCommGroup V] [Module K V] {a b c x : V} :
    x ∈ convexHull K {a, b, c} ↔ ∃ u v w : K, 0 ≤ u ∧ 0 ≤ v ∧ 0 ≤ w ∧ u + v + w = 1 ∧
      x = u • a + v • b + w • c := by
  constructor
  · intro inside
    rw [← convexJoin_segment_singleton, mem_convexJoin] at inside
    obtain ⟨_, ⟨s, t, s_nonneg, t_nonneg, whole, rfl⟩, _, rfl, r, w, r_nonneg, w_nonneg, total, rfl⟩ :=
      inside
    refine ⟨r * s, r * t, w, mul_nonneg r_nonneg s_nonneg, mul_nonneg r_nonneg t_nonneg, w_nonneg, ?_, ?_⟩
    · rw [← mul_add, whole, mul_one, total]
    · rw [smul_add, smul_smul, smul_smul]
  · rintro ⟨u, v, w, u_nonneg, v_nonneg, w_nonneg, total, rfl⟩
    refine mem_convexHull_of_exists_fintype ![u, v, w] ![a, b, c] ?_ ?_ ?_ ?_
    · simp [Fin.forall_fin_succ, u_nonneg, v_nonneg, w_nonneg]
    · simpa [Fin.sum_univ_three] using total
    · simp [Fin.forall_fin_succ]
    · simp [Fin.sum_univ_three]

theorem mem_triangle : p ∈ triangle a b c ↔ ∃ u v w, 0 ≤ u ∧ 0 ≤ v ∧ 0 ≤ w ∧ u + v + w = 1 ∧
    p = (u * a.1 + v * b.1 + w * c.1, u * a.2 + v * b.2 + w * c.2) := mem_hull

/-- A weighted mean stays between bounds of its terms. -/
theorem weighted_between (x y z low high : K) {u v w : K} (u_nonneg : 0 ≤ u) (v_nonneg : 0 ≤ v)
    (w_nonneg : 0 ≤ w) (total : u + v + w = 1) (hx : low ≤ x ∧ x ≤ high) (hy : low ≤ y ∧ y ≤ high)
    (hz : low ≤ z ∧ z ≤ high) : low ≤ u * x + v * y + w * z ∧ u * x + v * y + w * z ≤ high := by
  have spread (bound : K) : u * bound + v * bound + w * bound = bound := by
    rw [← add_mul, ← add_mul, total, one_mul]
  constructor
  · calc low = u * low + v * low + w * low := (spread low).symm
      _ ≤ u * x + v * y + w * z := by
        gcongr
        · exact hx.1
        · exact hy.1
        · exact hz.1
  · calc u * x + v * y + w * z ≤ u * high + v * high + w * high := by
          gcongr
          · exact hx.2
          · exact hy.2
          · exact hz.2
      _ = high := spread high

/-- No two of the areas a point makes with the edges have opposite signs. -/
def Within (a b c p : K × K) : Prop :=
  (0 ≤ cross p b c ∧ 0 ≤ cross p c a ∧ 0 ≤ cross p a b) ∨
    (cross p b c ≤ 0 ∧ cross p c a ≤ 0 ∧ cross p a b ≤ 0)

/-- Weights of the areas over the whole, when they all have its sign. -/
theorem mem_triangle_of_div (nondegenerate : cross a b c ≠ 0)
    (first : 0 ≤ cross p b c / cross a b c) (second : 0 ≤ cross p c a / cross a b c)
    (third : 0 ≤ cross p a b / cross a b c) : p ∈ triangle a b c := by
  refine mem_triangle.mpr ⟨_, _, _, first, second, third, ?_, ?_⟩
  · rw [← add_div, ← add_div, cross_sum, div_self nondegenerate]
  · ext
    · simp only [div_mul_eq_mul_div, ← add_div]
      rw [cross_weights_fst, mul_div_cancel_left₀ _ nondegenerate]
    · simp only [div_mul_eq_mul_div, ← add_div]
      rw [cross_weights_snd, mul_div_cancel_left₀ _ nondegenerate]

theorem mem_triangle_iff_within (nondegenerate : cross a b c ≠ 0) :
    p ∈ triangle a b c ↔ Within a b c p := by
  constructor
  · intro inside
    obtain ⟨u, v, w, u_nonneg, v_nonneg, w_nonneg, total, weighted⟩ := mem_triangle.mp inside
    obtain ⟨first, second, third⟩ := cross_weighted total weighted
    rw [Within, first, second, third]
    rcases le_total 0 (cross a b c) with positive | negative
    · exact .inl ⟨mul_nonneg u_nonneg positive, mul_nonneg v_nonneg positive,
        mul_nonneg w_nonneg positive⟩
    · exact .inr ⟨mul_nonpos_of_nonneg_of_nonpos u_nonneg negative,
        mul_nonpos_of_nonneg_of_nonpos v_nonneg negative,
        mul_nonpos_of_nonneg_of_nonpos w_nonneg negative⟩
  · rintro (⟨first, second, third⟩ | ⟨first, second, third⟩)
    · have positive : 0 ≤ cross a b c := by
        rw [← cross_sum p]
        exact add_nonneg (add_nonneg first second) third
      exact mem_triangle_of_div nondegenerate (div_nonneg first positive)
        (div_nonneg second positive) (div_nonneg third positive)
    · have negative : cross a b c ≤ 0 := by
        rw [← cross_sum p]
        exact add_nonpos (add_nonpos first second) third
      exact mem_triangle_of_div nondegenerate (div_nonneg_of_nonpos first negative)
        (div_nonneg_of_nonpos second negative) (div_nonneg_of_nonpos third negative)

/-- The corners off the edge are strictly on opposite sides of it. -/
def Opposite (a b c d : K × K) : Prop := cross a b c * cross a b d < 0

theorem segment_subset_triangle : segment K a b ⊆ triangle a b c := by
  rw [← convexHull_pair]
  exact convexHull_mono (by simp [Set.insert_subset_iff])

/-- Triangles on opposite sides of an edge have only the edge in common. -/
theorem mem_both_iff (opposite : Opposite a b c d) :
    p ∈ triangle a b c ∧ p ∈ triangle a b d ↔ p ∈ segment K a b := by
  constructor
  · rintro ⟨left, right⟩
    obtain ⟨u, v, w, u_nonneg, v_nonneg, w_nonneg, total, weighted⟩ := mem_triangle.mp left
    obtain ⟨u', v', w', _, _, w'_nonneg, total', weighted'⟩ := mem_triangle.mp right
    have level : w * cross a b c = w' * cross a b d :=
      (cross_weighted total weighted).2.2.symm.trans (cross_weighted total' weighted').2.2
    have squared : w * (cross a b c * cross a b c) ≤ 0 :=
      calc w * (cross a b c * cross a b c) = w' * (cross a b c * cross a b d) := by
            rw [← mul_assoc, level]
            ring
        _ ≤ 0 := mul_nonpos_of_nonneg_of_nonpos w'_nonneg opposite.le
    have nonzero : cross a b c ≠ 0 := fun zero => by
      rw [Opposite, zero, zero_mul] at opposite
      exact lt_irrefl _ opposite
    have flat : w = 0 := by
      by_contra weight
      exact absurd squared (not_le.mpr (mul_pos (lt_of_le_of_ne w_nonneg (Ne.symm weight))
        (mul_self_pos.mpr nonzero)))
    subst flat
    refine ⟨u, v, u_nonneg, v_nonneg, by rw [← total, add_zero], ?_⟩
    rw [weighted]
    ext
    · simp
    · simp
  · exact fun edge => ⟨segment_subset_triangle edge, segment_subset_triangle edge⟩

/-- Walking from one triangle to the other across the edge, one never leaves the two. -/
theorem mem_of_across {cut : K × K} (left : p ∈ triangle a b c) (right : q ∈ triangle a b d)
    (edge : cut ∈ segment K a b) {x : K × K} (between : x ∈ segment K p cut ∪ segment K cut q) :
    x ∈ triangle a b c ∪ triangle a b d := by
  rcases between with before | after
  · exact .inl ((convex_convexHull K _).segment_subset left (segment_subset_triangle edge) before)
  · exact .inr ((convex_convexHull K _).segment_subset (segment_subset_triangle edge) right after)

end ZeeboLle.Plane

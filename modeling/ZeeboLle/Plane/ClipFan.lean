import ZeeboLle.Plane.Clip

/-! The fan of a clipped triangle in the plane: its triangles are oriented like the triangle and
meet in edges only, and they make up the part in front, unless that has shrunk to a point or an
edge and a cut was left out. -/
namespace ZeeboLle.Plane

theorem cross_between {K : Type*} [Field K] (p q : K × K) (s : K) :
    AffineMap.lineMap p q s = (p.1 + s * (q.1 - p.1), p.2 + s * (q.2 - p.2)) := by
  rw [AffineMap.lineMap_apply]
  ext
  · simp [add_comm]
  · simp [add_comm]

/-- A crossing is on its edge's line, and the third corner is not. -/
theorem ne_crossing {K : Type*} [Field K] {d : K × K →ᵃ[K] K} {p q r : K × K}
    (turn : cross p q r ≠ 0) : p ≠ crossing d q r := by
  rintro met
  apply turn
  rw [met, crossing, cross_between]
  simp only [cross]
  ring

variable {K : Type*} [Field K] [LinearOrder K] {d : K × K →ᵃ[K] K} {slack : K} {p q r a b c : K × K}

/-- No corner is in front, and an edge from the border to just behind it is left uncut. -/
def Slight (d : K × K →ᵃ[K] K) (slack : K) (a b c : K × K) : Prop :=
  (∀ p ∈ ({a, b, c} : Set (K × K)), d p ≤ 0) ∧
    ∃ p ∈ ({a, b, c} : Set (K × K)), ∃ q ∈ ({a, b, c} : Set (K × K)), d p = 0 ∧ d q < 0 ∧ -slack ≤ d q

theorem slight_rotate : Slight d slack b c a ↔ Slight d slack a b c := by
  rw [Slight, Slight, rotate_corners]

theorem cut_comm (sides : d p ≠ d q) : cut d slack p q = cut d slack q p := by
  rw [cut, cut, abs_sub_comm, crossing_comm sides]

section Settled

variable [TopologicalSpace K]

/-- What the fan of a result can be: tiles of the part in front, or nothing for a slight part. -/
def Settled (d : K × K →ᵃ[K] K) (slack : K) (a b c : K × K) (polygon : List (K × K)) : Prop :=
  Tiles (inFront d a b c) (fan polygon) ∨ fan polygon = [] ∧ Slight d slack a b c

theorem settled_rotate {polygon : List (K × K)} :
    Settled d slack b c a polygon ↔ Settled d slack a b c polygon := by
  rw [Settled, Settled, inFront_rotate, slight_rotate]

end Settled

variable [IsStrictOrderedRing K]

/-- Behind one corner, the part in front is the two triangles on either diagonal. -/
theorem quad_first (turn : 0 ≤ cross p q r) (front_p : 0 ≤ d p) (front_q : 0 ≤ d q) (behind : d r < 0) :
    Quad (inFront d p q r) p q (crossing d q r) (crossing d r p) := by
  obtain ⟨s, s_low, s_high, same_s⟩ := crossing_between front_q behind
  obtain ⟨t, t_low, t_high, same_t⟩ := crossing_between front_p behind
  have sides : d r ≠ d p := (behind.trans_le front_p).ne
  rw [crossing_comm sides]
  refine ⟨?_, ?_, ?_⟩
  · have area : cross p q (crossing d q r) = s * cross p q r := by
      rw [same_s, cross_between]
      simp only [cross]
      ring
    rw [area]
    exact mul_nonneg s_low turn
  · have area : cross p (crossing d q r) (crossing d p r) = (1 - s) * t * cross p q r := by
      rw [same_s, same_t, cross_between, cross_between]
      simp only [cross]
      ring
    rw [area]
    exact mul_nonneg (mul_nonneg (sub_nonneg.mpr s_high) t_low) turn
  · rintro x ⟨inside, front⟩
    rw [crossing_comm sides.symm]
    exact two_in_front front_p front_q behind inside front

theorem quad_second (turn : 0 ≤ cross p q r) (front_p : 0 ≤ d p) (front_q : 0 ≤ d q) (behind : d r < 0) :
    Quad (inFront d p q r) q (crossing d q r) (crossing d r p) p := by
  obtain ⟨s, s_low, s_high, same_s⟩ := crossing_between front_q behind
  obtain ⟨t, t_low, t_high, same_t⟩ := crossing_between front_p behind
  have sides : d r ≠ d p := (behind.trans_le front_p).ne
  have other_sides : d r ≠ d q := (behind.trans_le front_q).ne
  rw [crossing_comm sides]
  refine ⟨?_, ?_, ?_⟩
  · have area : cross q (crossing d q r) (crossing d p r) = s * (1 - t) * cross p q r := by
      rw [same_s, same_t, cross_between, cross_between]
      simp only [cross]
      ring
    rw [area]
    exact mul_nonneg (mul_nonneg s_low (sub_nonneg.mpr t_high)) turn
  · have area : cross q (crossing d p r) p = t * cross p q r := by
      rw [same_t, cross_between]
      simp only [cross]
      ring
    rw [area]
    exact mul_nonneg t_low turn
  · rintro x ⟨inside, front⟩
    rw [Set.insert_comm] at inside
    rcases two_in_front front_q front_p behind inside front with found | found
    · exact .inr (triangle_subset (by simp) (by simp) (by simp) found)
    · rw [crossing_comm other_sides] at found
      exact .inl (triangle_subset (by simp) (by simp) (by simp) found)

theorem tri_front (turn : 0 ≤ cross p q r) (front_p : 0 ≤ d p) (behind_q : d q < 0) (behind_r : d r < 0) :
    Tri (inFront d p q r) p (crossing d p q) (crossing d r p) := by
  obtain ⟨s, s_low, s_high, same_s⟩ := crossing_between front_p behind_q
  obtain ⟨t, t_low, t_high, same_t⟩ := crossing_between front_p behind_r
  have sides : d r ≠ d p := (behind_r.trans_le front_p).ne
  refine ⟨?_, fun x inside => one_in_front front_p behind_q behind_r inside.1 inside.2⟩
  have area : cross p (crossing d p q) (crossing d p r) = s * t * cross p q r := by
    rw [same_s, same_t, cross_between, cross_between]
    simp only [cross]
    ring
  rw [crossing_comm sides, area]
  exact mul_nonneg (mul_nonneg s_low t_low) turn

/-- An edge between the sides is cut, unless it starts on the border and ends just behind it. -/
theorem cut_cases (steep : 0 < d p → slack < |d p - d q|) (front : 0 ≤ d p) (behind : d q < 0) :
    cut d slack p q = [crossing d p q] ∨
      cut d slack p q = [] ∧ crossing d p q = p ∧ d p = 0 ∧ -slack ≤ d q := by
  by_cases cuts : slack < |d p - d q|
  · exact .inl (if_pos cuts)
  · right
    have level : d p = 0 := le_antisymm (not_lt.mp fun ahead => cuts (steep ahead)) front
    refine ⟨if_neg cuts, crossing_on level, level, ?_⟩
    rw [level, zero_sub, abs_neg, abs_of_neg behind] at cuts
    linarith

theorem cut_cases_back (steep : 0 < d q → slack < |d q - d p|) (behind : d p < 0) (front : 0 ≤ d q) :
    cut d slack p q = [crossing d p q] ∨
      cut d slack p q = [] ∧ crossing d p q = q ∧ d q = 0 ∧ -slack ≤ d p := by
  have sides : d p ≠ d q := (behind.trans_le front).ne
  rw [cut_comm sides, crossing_comm sides]
  exact cut_cases steep front behind

/-- In front of one corner both edges at it are cut, or the part in front is slight. -/
theorem cuts_one (front : 0 ≤ d p) (behind_q : d q < 0) (behind_r : d r < 0)
    (steep : Steep d slack p q r) :
    (cut d slack p q = [crossing d p q] ∧ cut d slack r p = [crossing d r p]) ∨
      ((cut d slack p q = [] ∨ cut d slack r p = []) ∧ Slight d slack p q r) := by
  have below : d p = 0 → ∀ x ∈ ({p, q, r} : Set (K × K)), d x ≤ 0 := by
    rintro level x (rfl | rfl | rfl)
    · exact level.le
    · exact behind_q.le
    · exact behind_r.le
  have in_p : p ∈ ({p, q, r} : Set (K × K)) := by simp
  have in_q : q ∈ ({p, q, r} : Set (K × K)) := by simp
  have in_r : r ∈ ({p, q, r} : Set (K × K)) := by simp
  rcases cut_cases (fun ahead => steep p in_p q in_q ahead behind_q) front behind_q with
    leaves | ⟨none, _, level, near⟩
  · rcases cut_cases_back (fun ahead => steep p in_p r in_r ahead behind_r) behind_r front with
      enters | ⟨none, _, level, near⟩
    · exact .inl ⟨leaves, enters⟩
    · exact .inr ⟨.inr none, below level, p, in_p, r, in_r, level, behind_r, near⟩
  · exact .inr ⟨.inl none, below level, p, in_p, q, in_q, level, behind_q, near⟩

/-- Behind one corner both edges at it are cut, or one of the cuts is a corner in front, or the
part in front is slight. -/
theorem cuts_two (front_p : 0 ≤ d p) (front_q : 0 ≤ d q) (behind : d r < 0) (steep : Steep d slack p q r) :
    (cut d slack q r = [crossing d q r] ∧ cut d slack r p = [crossing d r p]) ∨
      (cut d slack q r = [] ∧ crossing d q r = q ∧ cut d slack r p = [crossing d r p]) ∨
      (cut d slack q r = [crossing d q r] ∧ cut d slack r p = [] ∧ crossing d r p = p) ∨
      (cut d slack q r = [] ∧ cut d slack r p = [] ∧ Slight d slack p q r) := by
  have in_p : p ∈ ({p, q, r} : Set (K × K)) := by simp
  have in_q : q ∈ ({p, q, r} : Set (K × K)) := by simp
  have in_r : r ∈ ({p, q, r} : Set (K × K)) := by simp
  rcases cut_cases (fun ahead => steep q in_q r in_r ahead behind) front_q behind with
    leaves | ⟨none, at_q, level_q, near⟩
  · rcases cut_cases_back (fun ahead => steep p in_p r in_r ahead behind) behind front_p with
      enters | ⟨none, at_p, level_p, near⟩
    · exact .inl ⟨leaves, enters⟩
    · exact .inr (.inr (.inl ⟨leaves, none, at_p⟩))
  · rcases cut_cases_back (fun ahead => steep p in_p r in_r ahead behind) behind front_p with
      enters | ⟨also_none, at_p, level_p, near⟩
    · exact .inr (.inl ⟨none, at_q, enters⟩)
    · refine .inr (.inr (.inr ⟨none, also_none, ?_, p, in_p, r, in_r, level_p, behind, near⟩))
      rintro x (rfl | rfl | rfl)
      · exact level_p.le
      · exact level_q.le
      · exact behind.le

variable [TopologicalSpace K]

/-- Where one corner is in front. -/
theorem settled_single (turn : 0 < cross p q r) (front : 0 ≤ d p) (behind_q : d q < 0) (behind_r : d r < 0)
    (steep : Steep d slack p q r) {polygon : List (K × K)}
    (corners : ∀ x ∈ polygon, x ∈ inFront d p q r)
    (order : polygon = p :: (cut d slack p q ++ cut d slack r p) ∨
      polygon = cut d slack r p ++ (p :: cut d slack p q)) : Settled d slack p q r polygon := by
  have tri := tri_front turn.le front behind_q behind_r
  rcases cuts_one front behind_q behind_r steep with ⟨leaves, enters⟩ | ⟨missing, slight⟩
  · rw [leaves, enters] at order
    rcases order with rfl | rfl
    · exact .inl (tri.tiles convex_inFront corners)
    · exact .inl (tri.rotate.rotate.tiles convex_inFront corners)
  · refine .inr ⟨fan_short ?_, slight⟩
    have first : (cut d slack p q).length ≤ 1 := length_cut_le p q
    have second : (cut d slack r p).length ≤ 1 := length_cut_le r p
    have short : (cut d slack p q).length + (cut d slack r p).length < 2 := by
      rcases missing with none | none
      · rw [none, List.length_nil]
        omega
      · rw [none, List.length_nil]
        omega
    rcases order with rfl | rfl
    · simp only [List.length_cons, List.length_append]
      omega
    · simp only [List.length_cons, List.length_append]
      omega

variable [OrderTopology K]

/-- Where two corners are in front and the third is not. -/
theorem settled_third (turn : 0 < cross a b c) (front_a : 0 ≤ d a) (front_b : 0 ≤ d b) (behind : d c < 0)
    (steep : Steep d slack a b c) : Settled d slack a b c (clipTriangle d slack a b c) := by
  have corners : ∀ x ∈ clipTriangle d slack a b c, x ∈ inFront d a b c :=
    fun x found => clipTriangle_subset found
  have quad := quad_first turn.le front_a front_b behind
  unfold clipTriangle at corners ⊢
  rw [clipEdge_inside front_a front_b, clipEdge_leaving front_b behind,
    clipEdge_entering behind front_a] at corners ⊢
  rcases cuts_two front_a front_b behind steep with
    ⟨leaves, enters⟩ | ⟨leaves, at_b, enters⟩ | ⟨leaves, enters, at_a⟩ | ⟨leaves, enters, slight⟩
  · rw [leaves, enters] at corners ⊢
    exact .inl (quad.tiles (ne_crossing turn.ne') convex_inFront corners)
  · rw [leaves, enters] at corners ⊢
    rw [at_b] at quad
    exact .inl ((quad.drop_first (.inr rfl)).tiles convex_inFront corners)
  · rw [leaves, enters] at corners ⊢
    exact .inl ((quad.drop_second (.inl at_a)).tiles convex_inFront corners)
  · rw [leaves, enters]
    exact .inr ⟨rfl, slight⟩

theorem settled_second (turn : 0 < cross a b c) (front_a : 0 ≤ d a) (behind : d b < 0) (front_c : 0 ≤ d c)
    (steep : Steep d slack a b c) : Settled d slack a b c (clipTriangle d slack a b c) := by
  have corners : ∀ x ∈ clipTriangle d slack a b c, x ∈ inFront d a b c :=
    fun x found => clipTriangle_subset found
  have around : inFront d c a b = inFront d a b c := by rw [inFront_rotate, inFront_rotate]
  have turned : 0 < cross c a b := by
    rw [← cross_rotate c a b]
    exact turn
  have quad := quad_second turned.le front_c front_a behind
  rw [around] at quad
  unfold clipTriangle at corners ⊢
  rw [clipEdge_leaving front_a behind, clipEdge_entering behind front_c,
    clipEdge_inside front_c front_a] at corners ⊢
  rcases cuts_two front_c front_a behind steep.rotate.rotate with
    ⟨leaves, enters⟩ | ⟨leaves, at_a, enters⟩ | ⟨leaves, enters, at_c⟩ | ⟨leaves, enters, slight⟩
  · rw [leaves, enters] at corners ⊢
    exact .inl (quad.tiles (ne_crossing turn.ne') convex_inFront corners)
  · rw [leaves, enters] at corners ⊢
    exact .inl ((quad.drop_first (.inl at_a)).tiles convex_inFront corners)
  · rw [leaves, enters] at corners ⊢
    rw [at_c] at quad
    exact .inl ((quad.drop_second (.inr rfl)).tiles convex_inFront corners)
  · rw [leaves, enters]
    exact .inr ⟨rfl, slight_rotate.mp (slight_rotate.mp slight)⟩

theorem settled_first (turn : 0 < cross a b c) (behind : d a < 0) (front_b : 0 ≤ d b) (front_c : 0 ≤ d c)
    (steep : Steep d slack a b c) : Settled d slack a b c (clipTriangle d slack a b c) := by
  have corners : ∀ x ∈ clipTriangle d slack a b c, x ∈ inFront d a b c :=
    fun x found => clipTriangle_subset found
  have turned : 0 < cross b c a := by
    rw [cross_rotate]
    exact turn
  have again : cross c a b ≠ 0 := by
    rw [← cross_rotate c a b]
    exact turn.ne'
  have quad := (quad_second turned.le front_b front_c behind).turn
  rw [inFront_rotate] at quad
  unfold clipTriangle at corners ⊢
  rw [clipEdge_entering behind front_b, clipEdge_inside front_b front_c,
    clipEdge_leaving front_c behind] at corners ⊢
  rcases cuts_two front_b front_c behind steep.rotate with
    ⟨leaves, enters⟩ | ⟨leaves, at_c, enters⟩ | ⟨leaves, enters, at_b⟩ | ⟨leaves, enters, slight⟩
  · rw [leaves, enters] at corners ⊢
    exact .inl (quad.tiles (ne_crossing again).symm convex_inFront corners)
  · rw [leaves, enters] at corners ⊢
    exact .inl ((quad.drop_second (.inr at_c)).tiles convex_inFront corners)
  · rw [leaves, enters] at corners ⊢
    rw [at_b] at quad
    exact .inl ((quad.drop_first (.inl rfl)).tiles convex_inFront corners)
  · rw [leaves, enters]
    exact .inr ⟨rfl, slight_rotate.mp slight⟩

/-- The fan of the result covers the part in front, unless that is slight. -/
theorem settled_clipTriangle (turn : 0 < cross a b c) (steep : Steep d slack a b c) :
    Settled d slack a b c (clipTriangle d slack a b c) := by
  have corners : ∀ x ∈ clipTriangle d slack a b c, x ∈ inFront d a b c :=
    fun x found => clipTriangle_subset found
  rcases le_or_gt 0 (d a) with front_a | behind_a
  · rcases le_or_gt 0 (d b) with front_b | behind_b
    · rcases le_or_gt 0 (d c) with front_c | behind_c
      · left
        unfold clipTriangle at corners ⊢
        rw [clipEdge_inside front_a front_b, clipEdge_inside front_b front_c,
          clipEdge_inside front_c front_a] at corners ⊢
        exact Tri.tiles ⟨turn.le, fun x inside => inside.1⟩ convex_inFront corners
      · exact settled_third turn front_a front_b behind_c steep
    · rcases le_or_gt 0 (d c) with front_c | behind_c
      · exact settled_second turn front_a behind_b front_c steep
      · refine settled_single turn front_a behind_b behind_c steep corners (.inl ?_)
        rw [clipTriangle, clipEdge_leaving front_a behind_b, clipEdge_outside behind_b behind_c,
          clipEdge_entering behind_c front_a]
        rfl
  · rcases le_or_gt 0 (d b) with front_b | behind_b
    · rcases le_or_gt 0 (d c) with front_c | behind_c
      · exact settled_first turn behind_a front_b front_c steep
      · rw [← settled_rotate]
        refine settled_single ?_ front_b behind_c behind_a steep.rotate ?_ (.inr ?_)
        · rw [cross_rotate]
          exact turn
        · rw [inFront_rotate]
          exact corners
        · rw [clipTriangle, clipEdge_entering behind_a front_b, clipEdge_leaving front_b behind_c,
            clipEdge_outside behind_c behind_a, List.append_nil]
    · rcases le_or_gt 0 (d c) with front_c | behind_c
      · rw [← settled_rotate, ← settled_rotate]
        refine settled_single ?_ front_c behind_a behind_b steep.rotate.rotate ?_ (.inr ?_)
        · rw [← cross_rotate c a b]
          exact turn
        · rw [inFront_rotate, inFront_rotate]
          exact corners
        · rw [clipTriangle, clipEdge_outside behind_a behind_b, clipEdge_entering behind_b front_c,
            clipEdge_leaving front_c behind_a]
          rfl
      · have empty : clipTriangle d slack a b c = [] := by
          rw [clipTriangle, clipEdge_outside behind_a behind_b, clipEdge_outside behind_b behind_c,
            clipEdge_outside behind_c behind_a]
          rfl
        have nothing : inFront d a b c = ∅ := by
          rw [← convexHull_clipTriangle steep, empty]
          simp
        rw [empty]
        refine .inl ⟨by rintro _ ⟨⟩, List.Pairwise.nil, fun x => ?_⟩
        rw [nothing]
        simp [fan]

end ZeeboLle.Plane

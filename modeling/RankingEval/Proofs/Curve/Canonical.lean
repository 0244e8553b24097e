/-
# Simplified curves are canonical

Without any tolerance simplification takes away only points that lie straight between others. The points given
can therefore be found again on the polyline that is left, in their order, and no point of the polyline lies
straight between its neighbours. The rule only ever looks at the end of the polyline, and the last point is
moved again and again; but it is moved along its own segment, so that the corner in front of it stays a corner.
-/

import Mathlib
import RankingEval.Proofs.Curve.Buffer
import RankingEval.Proofs.Curve.ExactArea

namespace RankingEval.Curve

open RankingEval.Number

/-! ## Straight steps -/

/-- The scalar product of the step from `a` to `b` and the step from `b` to `c`. -/
def advance (a b c : Point ℚ) : ℚ := (b.x - a.x) * (c.x - b.x) + (b.y - a.y) * (c.y - b.y)

/-- The step from `b` to `c` goes on in the direction of the step from `a` to `b`. -/
def Straight (a b c : Point ℚ) : Prop := turn a b c = 0 ∧ 0 ≤ advance a b c

/-- The point that divides the segment from `a` to `b`: it lies at `a` for zero and at `b` for one. -/
def along (a b : Point ℚ) (t : ℚ) : Point ℚ := ⟨a.x + t * (b.x - a.x), a.y + t * (b.y - a.y)⟩

variable {a b c z : Point ℚ} {s t : ℚ}

theorem continuesForward_zero_iff : continuesForward 0 a b c = true ↔ Straight a b c := by
  constructor
  · intro h
    have hturn := turn_eq_zero h
    rw [continuesForward, Bool.and_eq_true] at h
    exact ⟨hturn, of_decide_eq_true h.2⟩
  · rintro ⟨hturn, hadvance⟩
    rw [continuesForward, Bool.and_eq_true]
    refine ⟨?_, decide_eq_true hadvance⟩
    change decide (turn a b c * turn a b c ≤ 0 * 0 * _) = true
    rw [hturn]
    simp

theorem along_zero (a b : Point ℚ) : along a b 0 = a := by simp [along]

/-- A part of a part of a segment is a part of the segment. -/
theorem along_along (a c : Point ℚ) (s t : ℚ) : along a (along a c s) t = along a c (t * s) := by
  simp only [along, Point.mk.injEq]
  constructor <;> ring

/-- A point at which nothing turns divides the segment between its neighbours. -/
theorem Straight.exists_along (h : Straight a b c) : ∃ s, 0 ≤ s ∧ s ≤ 1 ∧ b = along a c s := by
  obtain ⟨hturn, hadvance⟩ := h
  let square : ℚ := (b.x - a.x) ^ 2 + (b.y - a.y) ^ 2
  rcases (show 0 ≤ square by positivity).eq_or_lt with hzero | hpos
  · -- the first step leads nowhere
    refine ⟨0, le_rfl, zero_le_one, ?_⟩
    have hx : b.x - a.x = 0 := by nlinarith [sq_nonneg (b.x - a.x), sq_nonneg (b.y - a.y)]
    have hy : b.y - a.y = 0 := by nlinarith [sq_nonneg (b.x - a.x), sq_nonneg (b.y - a.y)]
    rw [along_zero]
    obtain ⟨bx, bY⟩ := b
    obtain ⟨ax, aY⟩ := a
    simp only [Point.mk.injEq]
    exact ⟨sub_eq_zero.mp hx, sub_eq_zero.mp hy⟩
  · have hwhole : 0 < square + advance a b c := add_pos_of_pos_of_nonneg hpos hadvance
    refine ⟨square / (square + advance a b c), by positivity, ?_, ?_⟩
    · rw [div_le_one hwhole]
      exact le_add_of_nonneg_right hadvance
    · -- both steps are multiples of the first one, by the square of its length and by the advance
      have hx : square * (c.x - a.x) = (square + advance a b c) * (b.x - a.x) := by
        simp only [square, turn, advance] at hturn ⊢
        linear_combination (b.y - a.y) * (-hturn)
      have hy : square * (c.y - a.y) = (square + advance a b c) * (b.y - a.y) := by
        simp only [square, turn, advance] at hturn ⊢
        linear_combination (b.x - a.x) * hturn
      obtain ⟨bx, bY⟩ := b
      simp only [along, Point.mk.injEq, div_mul_eq_mul_div]
      constructor
      · rw [hx, mul_div_cancel_left₀ _ hwhole.ne']
        ring
      · rw [hy, mul_div_cancel_left₀ _ hwhole.ne']
        ring

/-- A step that goes on straight does so from the beginning. -/
theorem Straight.of_along (h : Straight z a c) (hs : 0 ≤ s) : Straight z a (along a c s) := by
  obtain ⟨hturn, hadvance⟩ := h
  have hturn' : turn z a (along a c s) = s * turn z a c := by
    simp only [turn, along]
    ring
  have hadvance' : advance z a (along a c s) = s * advance z a c := by
    simp only [advance, along]
    ring
  exact ⟨by rw [hturn', hturn, mul_zero], by rw [hadvance']; exact mul_nonneg hs hadvance⟩

/-- What goes on straight from a segment goes on straight from every later part of it. -/
theorem Straight.from_along (h : Straight z b c) (ht : t ≤ 1) : Straight (along z b t) b c := by
  obtain ⟨hturn, hadvance⟩ := h
  have hturn' : turn (along z b t) b c = (1 - t) * turn z b c := by
    simp only [turn, along]
    ring
  have hadvance' : advance (along z b t) b c = (1 - t) * advance z b c := by
    simp only [advance, along]
    ring
  exact ⟨by rw [hturn', hturn, mul_zero],
    by rw [hadvance']; exact mul_nonneg (sub_nonneg.mpr ht) hadvance⟩

theorem straight_self_right (a b : Point ℚ) : Straight a b b := by
  constructor <;> simp [turn, advance]

/-! ## Corners -/

/-- No point of a polyline lies straight between its neighbours. -/
def Angular (stored : List (Point ℚ)) : Prop := ∀ a b c, [a, b, c] <:+: stored → ¬Straight a b c

/-- The same of a polyline that is listed from its last point backwards. -/
def AngularBack (ps : List (Point ℚ)) : Prop := ∀ a b c, [c, b, a] <:+: ps → ¬Straight a b c

theorem angular_reverse_iff {ps : List (Point ℚ)} : Angular ps.reverse ↔ AngularBack ps := by
  have hsame (a b c : Point ℚ) : [a, b, c] <:+: ps.reverse ↔ [c, b, a] <:+: ps := by
    rw [← List.reverse_infix, List.reverse_reverse]
    rfl
  simp only [Angular, AngularBack, hsame]

/-- A new point makes no straight step: where it would, the last point is taken away, and the corner before
that one stays since the last segment keeps its direction. -/
theorem angularBack_extend {ps : List (Point ℚ)} (h : AngularBack ps) (p : Point ℚ) :
    AngularBack (extend 0 ps p) := by
  rcases ps with _ | ⟨b, _ | ⟨a, rest⟩⟩
  · exact fun x y z hinfix => absurd hinfix.length_le (by simp [extend])
  · exact fun x y z hinfix => absurd hinfix.length_le (by simp [extend])
  · rw [extend]
    split_ifs with hforward
    · obtain ⟨s, hs, -, hb⟩ := (continuesForward_zero_iff.mp hforward).exists_along
      intro x y z hinfix
      rcases List.infix_cons_iff.mp hinfix with hfront | hrest
      · obtain ⟨others, heq⟩ := hfront
        simp only [List.cons_append, List.nil_append, List.cons.injEq] at heq
        obtain ⟨rfl, rfl, rfl⟩ := heq
        intro hstraight
        refine h x y b ⟨[], others, rfl⟩ ?_
        rw [hb]
        exact hstraight.of_along hs
      · exact h x y z (List.infix_cons hrest)
    · intro x y z hinfix
      rcases List.infix_cons_iff.mp hinfix with hfront | hrest
      · obtain ⟨others, heq⟩ := hfront
        simp only [List.cons_append, List.nil_append, List.cons.injEq] at heq
        obtain ⟨rfl, rfl, rfl, -⟩ := heq
        exact fun hstraight => hforward (continuesForward_zero_iff.mpr hstraight)
      · exact h x y z hrest

theorem angularBack_foldl_extend (points : List (Point ℚ)) {ps : List (Point ℚ)} (h : AngularBack ps) :
    AngularBack (points.foldl (extend 0) ps) := by
  induction points generalizing ps with
  | nil => exact h
  | cons p points ih => exact ih (angularBack_extend h p)

theorem angular_simplified (points : List (Point ℚ)) : Angular (simplified 0 points) := by
  rw [simplified, angular_reverse_iff]
  apply angularBack_foldl_extend
  intro a b c hinfix
  simpa using hinfix.length_le

/-- Where nothing is straight, nothing is taken away. -/
theorem foldl_extend_of_angularBack {points ps : List (Point ℚ)} (h : AngularBack (points.reverse ++ ps)) :
    points.foldl (extend 0) ps = points.reverse ++ ps := by
  induction points generalizing ps with
  | nil => rfl
  | cons p points ih =>
      rw [List.reverse_cons, List.append_assoc, List.singleton_append] at h ⊢
      have hstep : extend 0 ps p = p :: ps := by
        rcases ps with _ | ⟨b, _ | ⟨a, rest⟩⟩
        · rfl
        · rfl
        · rw [extend, if_neg]
          rw [continuesForward_zero_iff]
          exact h a b p ⟨points.reverse, rest, by simp⟩
      rw [List.foldl_cons, hstep]
      exact ih h

theorem simplified_of_angular {stored : List (Point ℚ)} (h : Angular stored) :
    simplified 0 stored = stored := by
  rw [← List.reverse_reverse stored, angular_reverse_iff] at h
  rw [simplified, foldl_extend_of_angularBack (by rwa [List.append_nil]), List.append_nil,
    List.reverse_reverse]

/-! ## The way along a polyline -/

/-- A place on a polyline: one of its points, and how much of the segment to the next one lies behind. -/
structure Place where
  index : ℕ
  part : ℚ

/-- A place is reached no later than another one. -/
def Place.NoLater (place other : Place) : Prop :=
  place.index < other.index ∨ place.index = other.index ∧ place.part ≤ other.part

/-- A point lies at a place of a polyline: it is a point of the polyline, or it divides a segment. -/
structure LiesAt (stored : List (Point ℚ)) (place : Place) (p : Point ℚ) : Prop where
  nonneg : 0 ≤ place.part
  le_one : place.part ≤ 1
  divides : ∃ a, stored[place.index]? = some a ∧
    (place.part = 0 ∧ p = a ∨ ∃ b, stored[place.index + 1]? = some b ∧ p = along a b place.part)

/-- Points are met one after the other on the way along a polyline. -/
def Follows (stored points : List (Point ℚ)) : Prop :=
  ∃ places : List Place, places.Pairwise Place.NoLater ∧
    List.Forall₂ (LiesAt stored) places points

section Way

variable {stored front points : List (Point ℚ)} {place other : Place} {places : List Place} {p : Point ℚ}

theorem LiesAt.lt_length (h : LiesAt stored place p) : place.index < stored.length := by
  obtain ⟨a, ha, -⟩ := h.divides
  exact (List.getElem?_eq_some_iff.mp ha).1

/-- A polyline that goes on keeps its places. -/
theorem LiesAt.of_prefix {longer : List (Point ℚ)} (h : LiesAt stored place p) (hlonger : stored <+: longer) :
    LiesAt longer place p := by
  obtain ⟨hnonneg, hle, a, ha, hp⟩ := h
  have hkept {i : ℕ} {x : Point ℚ} (hx : stored[i]? = some x) : longer[i]? = some x := by
    obtain ⟨back, rfl⟩ := hlonger
    rw [List.getElem?_append_left (List.getElem?_eq_some_iff.mp hx).1, hx]
  refine ⟨hnonneg, hle, a, hkept ha, hp.imp_right ?_⟩
  rintro ⟨b, hb, hp⟩
  exact ⟨b, hkept hb, hp⟩

theorem exists_liesAt_of_mem (h : List.Forall₂ (LiesAt stored) places points) (hplace : place ∈ places) :
    ∃ p, LiesAt stored place p := by
  induction h with
  | nil => simp at hplace
  | cons hfirst _ ih =>
      rcases List.mem_cons.mp hplace with rfl | hrest
      · exact ⟨_, hfirst⟩
      · exact ih hrest

/-- The way along a polyline to a new last point goes on behind all places so far. -/
theorem Follows.append (h : Follows stored points) (p : Point ℚ) :
    Follows (stored ++ [p]) (points ++ [p]) := by
  obtain ⟨places, hsorted, hplaces⟩ := h
  refine ⟨places ++ [⟨stored.length, 0⟩], ?_, ?_⟩
  · rw [List.pairwise_append]
    refine ⟨hsorted, List.pairwise_singleton _ _, ?_⟩
    intro place hplace other hother
    obtain ⟨q, hq⟩ := exists_liesAt_of_mem hplaces hplace
    rw [List.mem_singleton.mp hother]
    exact .inl hq.lt_length
  · refine List.rel_append ?_ (.cons ⟨le_rfl, zero_le_one, p, by simp, .inl ⟨rfl, rfl⟩⟩ .nil)
    exact hplaces.imp fun place q hq => hq.of_prefix (List.prefix_append _ _)

/-- The place of a point once the last segment, which starts at the `k`-th point, ends farther on, so that it
ended before at the part `s` of what it is now. -/
def Place.stretched (k : ℕ) (s : ℚ) (place : Place) : Place :=
  if place.index < k then place
  else if place.index = k then ⟨k, place.part * s⟩ else ⟨k, s⟩

theorem Place.NoLater.stretched {k : ℕ} (hs : 0 ≤ s) (hle : place.part ≤ 1) (h : place.NoLater other) :
    (place.stretched k s).NoLater (other.stretched k s) := by
  rw [Place.stretched, Place.stretched]
  by_cases hp : place.index < k
  · rw [if_pos hp]
    by_cases ho : other.index < k
    · rwa [if_pos ho]
    · rw [if_neg ho]
      split_ifs <;> exact .inl hp
  · have hother : ¬other.index < k := by
      rcases h with hlt | ⟨heq, -⟩ <;> omega
    rw [if_neg hp, if_neg hother]
    by_cases hpk : place.index = k
    · rw [if_pos hpk]
      by_cases hok : other.index = k
      · rw [if_pos hok]
        rcases h with hlt | ⟨-, hparts⟩
        · omega
        · exact .inr ⟨rfl, mul_le_mul_of_nonneg_right hparts hs⟩
      · rw [if_neg hok]
        exact .inr ⟨rfl, mul_le_of_le_one_left hs hle⟩
    · rw [if_neg hpk, if_neg]
      · exact .inr ⟨rfl, le_rfl⟩
      · rcases h with hlt | ⟨heq, -⟩ <;> omega

/-- What lay on the old last segment lies on the longer one. -/
theorem LiesAt.stretched (h : LiesAt (front ++ [a, along a c s]) place p) (hs : 0 ≤ s) (hle : s ≤ 1) :
    LiesAt (front ++ [a, c]) (place.stretched front.length s) p := by
  have hlt := h.lt_length
  have hfront {j : ℕ} (q : Point ℚ) (hj : j < front.length + 1) :
      (front ++ [a, q])[j]? = (front ++ [a])[j]? := by
    rw [List.append_cons, List.getElem?_append_left (by simpa using hj)]
  obtain ⟨i, t⟩ := place
  obtain ⟨hnonneg, hle', x, hx, hp⟩ := h
  simp only [List.length_append, List.length_cons, List.length_nil] at hnonneg hle' hlt hx hp
  rw [Place.stretched]
  rcases lt_trichotomy i front.length with hi | rfl | hi
  · -- a segment in front of the last one
    rw [if_pos hi]
    refine ⟨hnonneg, hle', x, ?_, hp.imp_right ?_⟩
    · rw [← hx, hfront _ (Nat.lt_succ_of_lt hi), hfront _ (Nat.lt_succ_of_lt hi)]
    · rintro ⟨b, hb, hp⟩
      refine ⟨b, ?_, hp⟩
      rw [← hb, hfront _ (Nat.succ_lt_succ hi), hfront _ (Nat.succ_lt_succ hi)]
  · -- the last segment itself
    rw [if_neg (lt_irrefl _), if_pos rfl]
    obtain rfl : a = x := by simpa using hx
    refine ⟨mul_nonneg hnonneg hs, mul_le_one₀ hle' hs hle, a, by simp, ?_⟩
    rcases hp with ⟨rfl, rfl⟩ | ⟨b, hb, rfl⟩
    · exact .inl ⟨zero_mul _, rfl⟩
    · obtain rfl : along a c s = b := by simpa using hb
      exact .inr ⟨c, by simp, along_along _ _ _ _⟩
  · -- the old end
    obtain rfl : i = front.length + 1 := by omega
    rw [if_neg (by simp), if_neg (by simp)]
    obtain rfl : along a c s = x := by simpa using hx
    refine ⟨hs, hle, a, by simp, .inr ⟨c, by simp, ?_⟩⟩
    rcases hp with ⟨-, rfl⟩ | ⟨b, hb, -⟩
    · rfl
    · simp at hb

/-- When the last point is moved straight on, everything on the old last segment lies on the longer one, in
the same order. -/
theorem Follows.stretch (h : Follows (front ++ [a, along a c s]) points) (hs : 0 ≤ s) (hle : s ≤ 1) :
    Follows (front ++ [a, c]) (points ++ [c]) := by
  obtain ⟨places, hsorted, hplaces⟩ := h
  refine ⟨places.map (·.stretched front.length s) ++ [⟨front.length + 1, 0⟩], ?_, ?_⟩
  · rw [List.pairwise_append, List.pairwise_map]
    refine ⟨hsorted.imp_of_mem ?_, List.pairwise_singleton _ _, ?_⟩
    · intro place other hplace _ hnoLater
      obtain ⟨q, hq⟩ := exists_liesAt_of_mem hplaces hplace
      exact hnoLater.stretched hs hq.le_one
    · intro place hplace other hother
      obtain ⟨old, -, rfl⟩ := List.mem_map.mp hplace
      rw [List.mem_singleton.mp hother, Place.stretched]
      left
      split_ifs with hlt
      · exact hlt.trans (Nat.lt_succ_self _)
      · exact Nat.lt_succ_self _
      · exact Nat.lt_succ_self _
  · refine List.rel_append (List.forall₂_map_left_iff.mpr (hplaces.imp ?_))
      (.cons ⟨le_rfl, zero_le_one, c, by simp, .inl ⟨rfl, rfl⟩⟩ .nil)
    exact fun place q hq => hq.stretched hs hle

end Way

theorem simplified_concat (points : List (Point ℚ)) (p : Point ℚ) :
    simplified 0 (points ++ [p]) = (extend 0 (simplified 0 points).reverse p).reverse := by
  simp [simplified]

/-- All points can be met on the way along the polyline that is left of them. -/
theorem follows_simplified (points : List (Point ℚ)) : Follows (simplified 0 points) points := by
  induction points using List.reverseRecOn with
  | nil => exact ⟨[], .nil, .nil⟩
  | append_singleton points p ih =>
      rw [simplified_concat]
      rcases extend_cases 0 (simplified 0 points).reverse p with
        ⟨heq, -⟩ | ⟨b, a, rest, hback, hforward, heq, -⟩
      · rw [heq, List.reverse_cons, List.reverse_reverse]
        exact ih.append p
      · obtain ⟨s, hs, hle, rfl⟩ := (continuesForward_zero_iff.mp hforward).exists_along
        rw [List.reverse_eq_iff.mp hback] at ih
        simp only [List.reverse_cons, List.append_assoc, List.singleton_append] at ih
        simp only [heq, List.reverse_cons, List.append_assoc, List.singleton_append]
        exact ih.stretch hs hle

/-! ## What stays -/

/-- A point behind which there is another one stays. -/
theorem suffix_foldl_extend (points : List (Point ℚ)) {qs ps : List (Point ℚ)} {e : Point ℚ}
    (h : qs <:+ ps) : qs <:+ points.foldl (extend 0) (e :: ps) := by
  induction points generalizing e ps with
  | nil => exact h.trans (List.suffix_cons _ _)
  | cons p points ih =>
      rw [List.foldl_cons]
      rcases extend_eq 0 (e :: ps) p with heq | heq <;> rw [heq]
      · exact ih (h.trans (List.suffix_cons _ _))
      · exact ih h

/-- Where a way that may rest at its end comes from: the point before lies on the last segment. -/
theorem foldl_extend_rest (ps : List (Point ℚ)) (a b : Point ℚ) (k : ℕ) :
    ∃ z rest t, t ≤ 1 ∧ a = along z b t ∧
      (List.replicate (k + 1) b).foldl (extend 0) (extend 0 ps a) = b :: z :: rest := by
  induction k with
  | zero =>
      obtain ⟨others, hps⟩ := List.head?_eq_some_iff.mp (head?_extend 0 ps a)
      rw [hps]
      rcases extend_cases 0 (a :: others) b with ⟨heq, -⟩ | ⟨_, z, rest, hback, hforward, heq, -⟩
      · exact ⟨a, others, 0, zero_le_one, (along_zero a b).symm, heq⟩
      · obtain ⟨rfl, rfl⟩ := List.cons.inj hback
        obtain ⟨s, -, hle, ha⟩ := (continuesForward_zero_iff.mp hforward).exists_along
        exact ⟨z, rest, s, hle, ha, heq⟩
  | succ k ih =>
      obtain ⟨z, rest, t, hle, ha, heq⟩ := ih
      refine ⟨z, rest, t, hle, ha, ?_⟩
      rw [List.replicate_succ', List.foldl_append, heq]
      exact if_pos (continuesForward_zero_iff.mpr (straight_self_right z b))

/-- A point at which the way turns or doubles back, after it may have rested there, stays on the polyline. -/
theorem simplified_prefix_of_not_straight (front back : List (Point ℚ)) (k : ℕ) (h : ¬Straight a b c) :
    simplified 0 (front ++ a :: List.replicate (k + 1) b) <+:
      simplified 0 (front ++ a :: (List.replicate (k + 1) b ++ c :: back)) := by
  obtain ⟨z, rest, t, hle, rfl, heq⟩ := foldl_extend_rest (front.foldl (extend 0) []) a b k
  have hturns : extend 0 (b :: z :: rest) c = c :: b :: z :: rest :=
    if_neg fun hforward => h ((continuesForward_zero_iff.mp hforward).from_along hle)
  rw [simplified, simplified, List.reverse_prefix]
  simp only [List.foldl_append, List.foldl_cons, heq, hturns]
  exact suffix_foldl_extend back List.suffix_rfl

/-- Whatever points an empty curve is extended by, without any tolerance: they are met in their order on the
way along the points that are stored; none of these lies straight between its neighbours; a curve that is
extended by them stores the same points again; and a point at which the way turns or doubles back, even after
it has rested there, is stored. -/
theorem extendTo_canonical (labelX labelY : String) (size : ℤ) (points : List (Point ℚ)) :
    let left (points : List (Point ℚ)) : List (Point ℚ) :=
      (points.foldl (Curve.extendTo 0) (.ofSize labelX labelY size)).points
    Follows (left points) points ∧ Angular (left points) ∧ left (left points) = left points ∧
      ∀ front a b k c back, points = front ++ a :: (List.replicate (k + 1) b ++ c :: back) →
        ¬Straight a b c →
          left (front ++ a :: List.replicate (k + 1) b) <+: left points ∧
            (left (front ++ a :: List.replicate (k + 1) b)).getLast? = some b := by
  simp only [Curve.points_foldl_extendTo]
  refine ⟨follows_simplified points, angular_simplified points,
    simplified_of_angular (angular_simplified points), ?_⟩
  rintro front a b k c back rfl hcorner
  refine ⟨simplified_prefix_of_not_straight front back k hcorner, ?_⟩
  rw [List.replicate_succ', ← List.cons_append, ← List.append_assoc]
  exact simplified_append_singleton 0 _ b

end RankingEval.Curve

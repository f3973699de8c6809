import GridFold.Rect.Axis
import GridFold.Proofs.Measure
import GridFold.Rect.Points
import Mathlib

/-!
# GridFold.Proofs.PointSets

Rectangles as sets of points: what emptiness, containment and inserted axes mean for the points of a
rectangle.

* `contains_iff`, `isEmpty_iff` — the comparisons of corners, as facts about points.
* `pointsOver_eq` — the points that differ on one axis alone.
* `Rect.Measures` — what a computed volume says about the points.
* `Rect.operations_on_points` — the operations on rectangles, as operations on their sets of points.
  `Rect.plane_volume_wraps` is a rectangle whose volume does not fit into a word.
-/

namespace GridFold

theorem Span.contains_iff {s : Span} {c : Int} : s.contains c = true ↔ s.lo ≤ c ∧ c ≤ s.hi := by
  simp [Span.contains]

theorem Span.mem_coords {s : Span} {c : Int} : c ∈ s.coords ↔ s.contains c = true := by
  simp only [Span.coords, List.mem_map, List.mem_range, Span.extent, Span.contains_iff,
    Int.ofNat_eq_natCast]
  constructor
  · rintro ⟨i, hi, rfl⟩
    omega
  · rintro ⟨h₁, h₂⟩
    exact ⟨(c - s.lo).toNat, by omega, by omega⟩

namespace Rect

theorem spansContain_cons {s : Span} {spans : List Span} {c : Int} {p : Point} :
    spansContain (s :: spans) (c :: p) = true ↔
      s.contains c = true ∧ spansContain spans p = true := by
  simp [spansContain]

theorem length_of_spansContain {spans : List Span} {p : Point}
    (h : spansContain spans p = true) : p.length = spans.length := by
  induction spans generalizing p with
  | nil =>
    cases p with
    | nil => rfl
    | cons _ _ => cases h
  | cons s spans ih =>
    cases p with
    | nil => cases h
    | cons c p =>
      rw [List.length_cons, List.length_cons, ih (spansContain_cons.mp h).2]

theorem mem_grid {spans : List Span} {p : Point} :
    p ∈ grid spans ↔ spansContain spans p = true := by
  induction spans generalizing p with
  | nil => cases p <;> simp [grid, spansContain]
  | cons s spans ih =>
    cases p with
    | nil => simp [grid, spansContain]
    | cons c p => simp [grid, spansContain_cons, Span.mem_coords, ih]

theorem mem_points {r : Rect} {p : Point} : p ∈ r.points ↔ r.containsPoint p = true := by
  rw [points_eq_grid, mem_grid]
  rfl

theorem spansContain_lo {spans : List Span} (h : ∀ s ∈ spans, s.isEmpty = false) :
    spansContain spans (spans.map Span.lo) = true := by
  induction spans with
  | nil => rfl
  | cons s spans ih =>
    have hs : ¬ s.hi < s.lo := by simpa [Span.isEmpty] using h s (by simp)
    rw [List.map_cons, spansContain_cons, Span.contains_iff]
    exact ⟨⟨Int.le_refl _, by omega⟩, ih fun t ht => h t (by simp [ht])⟩

theorem spans_nonempty {r : Rect} (h : r.isEmpty = false) : ∀ s ∈ r.spans, s.isEmpty = false := by
  simpa [isEmpty] using h

theorem containsPoint_lo {r : Rect} (h : r.isEmpty = false) : r.containsPoint r.lo = true :=
  spansContain_lo (spans_nonempty h)

theorem isEmpty_iff {r : Rect} : r.isEmpty = true ↔ ∀ p, r.containsPoint p = false := by
  constructor
  · intro h p
    cases hp : r.containsPoint p with
    | false => rfl
    | true =>
      rw [← mem_points] at hp
      have : r.points = [] := by
        rw [← List.length_eq_zero_iff, length_points, volume_eq_zero_iff]
        exact h
      rw [this] at hp
      cases hp
  · intro h
    cases he : r.isEmpty with
    | true => rfl
    | false => exact (h r.lo).symm.trans (containsPoint_lo he)

theorem isEmpty_eq_false {r : Rect} {p : Point} (h : r.containsPoint p = true) :
    r.isEmpty = false := by
  cases he : r.isEmpty with
  | false => rfl
  | true =>
    rw [isEmpty_iff.mp he p] at h
    cases h

/-- Spans that are not empty are covered exactly where their points are contained. -/
theorem spansCover_iff {outer spans : List Span} (h : ∀ s ∈ spans, s.isEmpty = false) :
    spansCover outer spans = true ↔ spans.length = outer.length ∧
      ∀ p, spansContain spans p = true → spansContain outer p = true := by
  induction spans generalizing outer with
  | nil =>
    cases outer with
    | nil => simp [spansCover]
    | cons _ _ => simp [spansCover]
  | cons t spans ih =>
    cases outer with
    | nil => simp [spansCover]
    | cons s outer =>
      have ht : ¬ t.hi < t.lo := by simpa [Span.isEmpty] using h t (by simp)
      have hrest : ∀ u ∈ spans, u.isEmpty = false := fun u hu => h u (by simp [hu])
      rw [spansCover, Bool.and_eq_true, ih hrest]
      constructor
      · rintro ⟨hst, hlen, hin⟩
        refine ⟨by simp [hlen], ?_⟩
        intro p hp
        cases p with
        | nil => cases hp
        | cons c p =>
          rw [spansContain_cons, Span.contains_iff] at hp ⊢
          simp only [Span.covers, Bool.and_eq_true, decide_eq_true_eq] at hst
          exact ⟨⟨by omega, by omega⟩, hin p hp.2⟩
      · rintro ⟨hlen, hin⟩
        have hhead : ∀ c, t.contains c = true → s.contains c = true := by
          intro c hc
          exact (spansContain_cons.mp (hin _ (spansContain_cons.mpr ⟨hc, spansContain_lo hrest⟩))).1
        have hlo := Span.contains_iff.mp (hhead t.lo (Span.contains_iff.mpr ⟨by omega, by omega⟩))
        have hhi := Span.contains_iff.mp (hhead t.hi (Span.contains_iff.mpr ⟨by omega, by omega⟩))
        refine ⟨by simp [Span.covers, hlo.1, hhi.2], by simpa using hlen, ?_⟩
        intro p hp
        have htlo : t.contains t.lo = true := Span.contains_iff.mpr ⟨by omega, by omega⟩
        exact (spansContain_cons.mp (hin _ (spansContain_cons.mpr ⟨htlo, hp⟩))).2

/-- Containment is containment of points. -/
theorem contains_iff {r other : Rect} :
    r.contains other = true ↔ other.rank = r.rank ∧
      ∀ p, other.containsPoint p = true → r.containsPoint p = true := by
  rw [contains, Bool.and_eq_true, decide_eq_true_eq, Bool.or_eq_true]
  constructor
  · rintro ⟨hrank, hempty | hcover⟩
    · refine ⟨hrank, ?_⟩
      intro p hp
      rw [isEmpty_iff.mp hempty p] at hp
      cases hp
    · refine ⟨hrank, ?_⟩
      intro p hp
      have hne := spans_nonempty (isEmpty_eq_false hp)
      exact ((spansCover_iff hne).mp hcover).2 p hp
  · rintro ⟨hrank, hin⟩
    refine ⟨hrank, ?_⟩
    cases he : other.isEmpty with
    | true => exact .inl rfl
    | false => exact .inr ((spansCover_iff (spans_nonempty he)).mpr ⟨hrank, hin⟩)

theorem contains_self (r : Rect) : r.contains r = true :=
  contains_iff.mpr ⟨rfl, fun _ h => h⟩

theorem spansContain_insertIdx {spans : List Span} {n : Nat} (h : n ≤ spans.length) (s : Span)
    (p : Point) (c : Int) :
    spansContain (spans.insertIdx n s) (p.insertIdx n c) = true ↔
      s.contains c = true ∧ spansContain spans p = true := by
  induction n generalizing spans p with
  | zero => simp [spansContain]
  | succ n ih =>
    cases spans with
    | nil => simp at h
    | cons t spans =>
      cases p with
      | nil => simp [spansContain]
      | cons d p =>
        simp only [List.insertIdx_succ_cons, spansContain_cons, ih (by simpa using h)]
        tauto

theorem exists_of_spansContain_insertIdx {spans : List Span} {n : Nat} (h : n ≤ spans.length)
    {s : Span} {q : Point} (hq : spansContain (spans.insertIdx n s) q = true) :
    ∃ c p, q = p.insertIdx n c ∧ s.contains c = true ∧ spansContain spans p = true := by
  induction n generalizing spans q with
  | zero =>
    cases q with
    | nil => cases hq
    | cons c p =>
      rw [List.insertIdx_zero, spansContain_cons] at hq
      exact ⟨c, p, rfl, hq⟩
  | succ n ih =>
    cases spans with
    | nil => simp at h
    | cons t spans =>
      cases q with
      | nil => cases hq
      | cons d q =>
        rw [List.insertIdx_succ_cons, spansContain_cons] at hq
        obtain ⟨c, p, rfl, hc, hp⟩ := ih (by simpa using h) hq.2
        exact ⟨c, d :: p, rfl, hc, spansContain_cons.mpr ⟨hq.1, hp⟩⟩

theorem insertAxis_ok {r : Rect} {axis : Nat} (haxis : axis ≤ r.rank)
    (hrank : r.rank + 1 ≤ maxStoreRank) (span : Span) :
    ∃ full, r.insertAxis axis span = .ok full ∧ full.spans = r.spans.insertIdx axis span := by
  have hlen : (r.spans.insertIdx axis span).length = r.spans.length + 1 :=
    List.length_insertIdx_of_le_length haxis _
  have hpos : 0 < (r.spans.insertIdx axis span).length := by omega
  have hle : (r.spans.insertIdx axis span).length ≤ maxStoreRank := by
    rw [hlen]
    exact hrank
  exact ⟨⟨_, hpos, hle⟩, by rw [insertAxis, if_pos haxis, ofSpans, dif_pos ⟨hpos, hle⟩], rfl⟩

theorem insertAxis_inv {r full : Rect} {axis : Nat} {span : Span}
    (h : r.insertAxis axis span = .ok full) :
    axis ≤ r.rank ∧ full.spans = r.spans.insertIdx axis span := by
  unfold insertAxis at h
  split at h
  · rename_i haxis
    exact ⟨haxis, spans_of_ofSpans h⟩
  · cases h

theorem removeAxis_ok {r : Rect} {axis : Nat} (haxis : axis < r.rank) (hrank : 1 < r.rank) :
    ∃ projected, r.removeAxis axis = .ok projected ∧
      projected.spans = r.spans.eraseIdx axis := by
  have hlen : (r.spans.eraseIdx axis).length + 1 = r.rank := List.length_eraseIdx_add_one haxis
  have hpos : 0 < (r.spans.eraseIdx axis).length := by omega
  have hle : (r.spans.eraseIdx axis).length ≤ maxStoreRank := by
    have : r.rank ≤ maxStoreRank := r.rank_le
    omega
  exact ⟨⟨_, hpos, hle⟩, by rw [removeAxis, if_pos haxis, ofSpans, dif_pos ⟨hpos, hle⟩], rfl⟩

theorem removeAxis_inv {r projected : Rect} {axis : Nat} (h : r.removeAxis axis = .ok projected) :
    axis < r.rank ∧ projected.spans = r.spans.eraseIdx axis := by
  unfold removeAxis at h
  split at h
  · rename_i haxis
    exact ⟨haxis, spans_of_ofSpans h⟩
  · cases h

theorem rank_of_removeAxis {r projected : Rect} {axis : Nat}
    (h : r.removeAxis axis = .ok projected) : projected.rank + 1 = r.rank := by
  obtain ⟨haxis, hspans⟩ := removeAxis_inv h
  rw [rank, hspans]
  exact List.length_eraseIdx_add_one haxis

/-- The point with one coordinate more lies in the rectangle exactly where both parts of it do. -/
theorem containsPoint_insertIdx {r : Rect} {axis : Nat} {span : Span}
    (h : r.spans[axis]? = some span) (p : Point) (c : Int) :
    r.containsPoint (p.insertIdx axis c) = true ↔
      span.contains c = true ∧ spansContain (r.spans.eraseIdx axis) p = true := by
  obtain ⟨haxis, hspan⟩ := List.getElem?_eq_some_iff.mp h
  have hspans : (r.spans.eraseIdx axis).insertIdx axis span = r.spans := by
    rw [← hspan]
    exact List.insertIdx_eraseIdx_getElem haxis
  have hlen : axis ≤ (r.spans.eraseIdx axis).length := by
    rw [List.length_eraseIdx_of_lt haxis]
    omega
  rw [containsPoint, ← spansContain_insertIdx hlen, hspans]

/-- Every point of the rectangle is a point of the remaining axes with a coordinate inserted. -/
theorem exists_eq_insertIdx {r : Rect} {axis : Nat} (h : axis < r.rank) {q : Point}
    (hq : r.containsPoint q = true) :
    ∃ (p : Point) (c : Int), q = p.insertIdx axis c ∧ p.length + 1 = r.rank := by
  have hlen : axis < q.length := by
    rw [length_of_spansContain hq]
    exact h
  refine ⟨q.eraseIdx axis, q[axis], (List.insertIdx_eraseIdx_getElem hlen).symm, ?_⟩
  rw [List.length_eraseIdx_add_one hlen, length_of_spansContain hq]
  rfl

/-- Without their coordinate on the axis, the points of the rectangle are points of its projection. -/
theorem containsPoint_of_removeAxis {r projected : Rect} {axis : Nat}
    (h : r.removeAxis axis = .ok projected) {q : Point} (hq : r.containsPoint q = true) :
    projected.containsPoint (q.eraseIdx axis) = true := by
  obtain ⟨haxis, hspans⟩ := removeAxis_inv h
  obtain ⟨p, c, rfl, _⟩ := exists_eq_insertIdx haxis hq
  have hspan : r.spans[axis]? = some r.spans[axis] := List.getElem?_eq_getElem haxis
  rw [List.eraseIdx_insertIdx_self, containsPoint, hspans]
  exact ((containsPoint_insertIdx hspan p c).mp hq).2

theorem nodup_coords (s : Span) : s.coords.Nodup := by
  refine List.Nodup.map_on ?_ List.nodup_range
  intro i _ j _ hij
  simp only [Int.ofNat_eq_natCast] at hij
  omega

theorem nodup_grid (spans : List Span) : (grid spans).Nodup := by
  induction spans with
  | nil => simp [grid]
  | cons s spans ih =>
    rw [grid, List.nodup_flatMap]
    refine ⟨fun c _ => ih.map (List.cons_injective), (nodup_coords s).imp ?_⟩
    intro c d hcd q hc hd
    obtain ⟨_, _, rfl⟩ := List.mem_map.mp hc
    obtain ⟨_, _, hq⟩ := List.mem_map.mp hd
    exact hcd (List.cons.inj hq).1.symm

theorem nodup_points (r : Rect) : r.points.Nodup := by
  rw [points_eq_grid]
  exact nodup_grid r.spans

theorem flatMap_single {ι β : Type} [DecidableEq ι] {xs : List ι} (h : xs.Nodup) (x : ι)
    (ys : List β) :
    (xs.flatMap fun y => if y = x then ys else []) = if x ∈ xs then ys else [] := by
  induction xs with
  | nil => rfl
  | cons y xs ih =>
    obtain ⟨hy, hxs⟩ := List.nodup_cons.mp h
    rw [List.flatMap_cons, ih hxs]
    by_cases hyx : y = x
    · subst hyx
      simp [hy]
    · have : ¬ x = y := fun h => hyx h.symm
      simp [hyx, this]

/-- The points over `p`: one for each coordinate on the inserted axis, in ascending order. -/
theorem filter_grid_insertIdx {spans : List Span} {n : Nat} (h : n ≤ spans.length) (span : Span)
    (p : Point) :
    (grid (spans.insertIdx n span)).filter (fun q => q.eraseIdx n == p) =
      if spansContain spans p then span.coords.map fun c => p.insertIdx n c else [] := by
  induction n generalizing spans p with
  | zero =>
    have hhead : ∀ c : Int, (fun q : Point => q.eraseIdx 0 == p) ∘ (c :: ·) = (· == p) := fun _ => rfl
    have hin : (grid spans).filter (· == p) = if spansContain spans p then [p] else [] := by
      rw [List.filter_beq, (nodup_grid spans).count]
      simp only [mem_grid]
      split <;> rfl
    simp only [List.insertIdx_zero, grid, List.filter_flatMap, List.filter_map, hhead, hin]
    split
    · simp [List.map_eq_flatMap]
    · simp
  | succ n ih =>
    cases spans with
    | nil => simp at h
    | cons s spans =>
      cases p with
      | nil => simp [grid, List.filter_flatMap, List.filter_map, Function.comp_def, spansContain]
      | cons d p =>
        have hinner : ∀ c : Int, ((grid (spans.insertIdx n span)).map (c :: ·)).filter
            (fun q => q.eraseIdx (n + 1) == d :: p) =
              if c = d then
                (if spansContain spans p then span.coords.map fun e => d :: p.insertIdx n e else [])
              else [] := by
          intro c
          by_cases hcd : c = d
          · subst hcd
            have hcomp : (fun q : Point => q.eraseIdx (n + 1) == c :: p) ∘ (c :: ·) =
                fun q => q.eraseIdx n == p := by
              funext q
              simp
            rw [List.filter_map, hcomp, ih (by simpa using h) p, if_pos rfl]
            split <;> simp
          · simp [List.filter_map, Function.comp_def, hcd]
        simp only [List.insertIdx_succ_cons, grid, List.filter_flatMap, hinner,
          flatMap_single (nodup_coords s), Span.mem_coords, spansContain, Bool.and_eq_true]
        by_cases hd : s.contains d = true <;> by_cases hp : spansContain spans p = true <;>
          simp [hd, hp]

/-- The points that are `p` without their coordinate on the axis. -/
def pointsOver (r : Rect) (axis : Nat) (p : Point) : List Point :=
  r.points.filter fun q => q.eraseIdx axis == p

theorem containsPoint_of_pointsOver {r : Rect} {axis : Nat} {p q : Point}
    (h : q ∈ r.pointsOver axis p) : r.containsPoint q = true :=
  mem_points.mp (List.mem_of_mem_filter h)

theorem pointsOver_eq_nil {r : Rect} {axis : Nat} (haxis : axis < r.rank) {p : Point}
    (h : ∀ c, r.containsPoint (p.insertIdx axis c) = false) : r.pointsOver axis p = [] := by
  rw [pointsOver, List.filter_eq_nil_iff]
  intro q hq hqp
  obtain ⟨p', c, rfl, _⟩ := exists_eq_insertIdx haxis (mem_points.mp hq)
  rw [List.eraseIdx_insertIdx_self, beq_iff_eq] at hqp
  rw [mem_points, hqp, h c] at hq
  cases hq

/-- Over a point of the other axes there is one point for each coordinate on the axis, and they come in
ascending order. -/
theorem pointsOver_eq {r : Rect} {axis : Nat} {span : Span} (hspan : r.spans[axis]? = some span)
    {p : Point} (hp : spansContain (r.spans.eraseIdx axis) p = true) :
    r.pointsOver axis p = span.coords.map fun c => p.insertIdx axis c := by
  obtain ⟨haxis, hget⟩ := List.getElem?_eq_some_iff.mp hspan
  have hspans : (r.spans.eraseIdx axis).insertIdx axis span = r.spans := by
    rw [← hget]
    exact List.insertIdx_eraseIdx_getElem haxis
  have hle : axis ≤ (r.spans.eraseIdx axis).length := by
    rw [List.length_eraseIdx_of_lt haxis]
    omega
  have hgrid := filter_grid_insertIdx hle span p
  rwa [hspans, if_pos hp, ← points_eq_grid] at hgrid

theorem pointsOver_eq_map {r : Rect} {axis : Nat} {span : Span} (hspan : r.spans[axis]? = some span)
    {p : Point} (h : ∃ c, r.containsPoint (p.insertIdx axis c) = true) :
    r.pointsOver axis p = span.coords.map fun c => p.insertIdx axis c := by
  obtain ⟨c, hc⟩ := h
  exact pointsOver_eq hspan ((containsPoint_insertIdx hspan p c).mp hc).2

/-! ## Sets of points -/

def pointSet (r : Rect) : Set Point := {p | p ∈ r.points}

theorem mem_pointSet {r : Rect} {p : Point} : p ∈ r.pointSet ↔ r.containsPoint p = true := mem_points

theorem contains_iff_subset {r other : Rect} (h : other.rank = r.rank) :
    r.contains other = true ↔ other.pointSet ⊆ r.pointSet := by
  rw [contains_iff, and_iff_right h]
  exact forall_congr' fun p => by rw [mem_pointSet, mem_pointSet]

theorem pointSet_eq_empty_iff {r : Rect} : r.pointSet = ∅ ↔ r.isEmpty = true := by
  rw [isEmpty_iff, Set.eq_empty_iff_forall_notMem]
  exact forall_congr' fun p => by rw [mem_pointSet, Bool.not_eq_true]

theorem pointSet_insertAxis {r full : Rect} {axis : Nat} {span : Span}
    (h : r.insertAxis axis span = .ok full) :
    full.pointSet =
      Set.image2 (fun p c => p.insertIdx axis c) r.pointSet (Set.Icc span.lo span.hi) := by
  obtain ⟨haxis, hspans⟩ := insertAxis_inv h
  ext q
  rw [mem_pointSet, containsPoint, hspans, Set.mem_image2]
  constructor
  · intro hq
    obtain ⟨c, p, rfl, hc, hp⟩ := exists_of_spansContain_insertIdx haxis hq
    exact ⟨p, mem_pointSet.mpr hp, c, Span.contains_iff.mp hc, rfl⟩
  · rintro ⟨p, hp, c, hc, rfl⟩
    exact (spansContain_insertIdx haxis span p c).mpr ⟨Span.contains_iff.mpr hc, mem_pointSet.mp hp⟩

theorem removeAxis_of_insertAxis {r full : Rect} {axis : Nat} {span : Span}
    (h : r.insertAxis axis span = .ok full) : full.removeAxis axis = .ok r := by
  obtain ⟨haxis, hspans⟩ := insertAxis_inv h
  have hlt : axis < full.rank := by
    rw [rank, hspans, List.length_insertIdx_of_le_length haxis]
    exact Nat.lt_succ_of_le haxis
  rw [removeAxis, if_pos hlt, hspans, List.eraseIdx_insertIdx_self, ofSpans_spans]

theorem insertAxis_of_removeAxis {r projected : Rect} {axis : Nat} {span : Span}
    (h : r.removeAxis axis = .ok projected) (hspan : r.spans[axis]? = some span) :
    projected.insertAxis axis span = .ok r := by
  have hrank := rank_of_removeAxis h
  obtain ⟨haxis, hspans⟩ := removeAxis_inv h
  obtain ⟨hlt, hget⟩ := List.getElem?_eq_some_iff.mp hspan
  rw [insertAxis, if_pos (by omega), hspans, ← hget, List.insertIdx_eraseIdx_getElem hlt, ofSpans_spans]

/-- A rectangle that is not empty has a point over each point of its projection. -/
theorem pointSet_removeAxis {r projected : Rect} {axis : Nat}
    (h : r.removeAxis axis = .ok projected) (hne : r.isEmpty = false) :
    projected.pointSet = (fun q => q.eraseIdx axis) '' r.pointSet := by
  obtain ⟨haxis, hspans⟩ := removeAxis_inv h
  have hspan : r.spans[axis]? = some r.spans[axis] := List.getElem?_eq_getElem haxis
  have hspanne : ¬ r.spans[axis].hi < r.spans[axis].lo := by
    simpa [Span.isEmpty] using spans_nonempty hne _ (List.getElem_mem haxis)
  ext p
  rw [Set.mem_image]
  constructor
  · intro hp
    rw [mem_pointSet, containsPoint, hspans] at hp
    have hlo : r.spans[axis].contains r.spans[axis].lo = true :=
      Span.contains_iff.mpr ⟨Int.le_refl _, by omega⟩
    refine ⟨p.insertIdx axis r.spans[axis].lo, ?_, List.eraseIdx_insertIdx_self _⟩
    exact mem_pointSet.mpr ((containsPoint_insertIdx hspan p _).mpr ⟨hlo, hp⟩)
  · rintro ⟨q, hq, rfl⟩
    exact mem_pointSet.mpr (containsPoint_of_removeAxis h (mem_pointSet.mp hq))

/-- The volume in words: wrapping arithmetic gives what is left of it, and checked arithmetic gives it
where all extents and products are words. A volume that was not reduced is the number of points. -/
structure Measures (r : Rect) : Prop where
  wrapping : r.volumeIn .wrapping = .ok (r.volume % 2 ^ 64)
  checked : ∀ n, r.volumeIn .checked = .ok n ↔ r.CountsInWords ∧ r.volume = n
  points : ∀ a n, r.volumeIn a = .ok n → (a = .wrapping → r.volume < 2 ^ 64) →
    n = r.points.length ∧ (n = 0 ↔ r.pointSet = ∅)

theorem measures (r : Rect) : r.Measures := by
  refine ⟨r.volumeIn_wrapping, fun _ => volumeIn_checked_iff, ?_⟩
  intro a n h hlt
  have hvolume : r.volume = n := by
    cases a with
    | exact => exact Except.ok.inj (r.volumeIn_exact.symm.trans h)
    | checked => exact (volumeIn_checked_iff.mp h).2
    | wrapping =>
      rw [r.volumeIn_wrapping, Nat.mod_eq_of_lt (hlt rfl)] at h
      exact Except.ok.inj h
  rw [← hvolume, length_points]
  exact ⟨rfl, (volume_eq_zero_iff r).trans pointSet_eq_empty_iff.symm⟩

end Rect

end GridFold

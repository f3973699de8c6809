import GridFold.Pass.Collapse
import GridFold.Proofs.Elementwise

/-!
# GridFold.Proofs.Collapse

Folding an axis of a source into a destination.

* `at_alongSource` — addressed with the coordinates of the source, the destination shows the point
  without its coordinate on the folded axis.
* `actsBy_foldInto` — two steps meet the same element only where their points differ on the folded
  axis alone, which costs nothing and is never cut.
* `foldAt_foldInto` — so each element has the source elements over its point folded into it, by
  ascending coordinate.
-/

namespace GridFold

variable {α : Type} {bounds : Rect}

/-! ## The projection of a source -/

theorem checkProjection_ok_iff {dest src : Rect} {axis : Nat} (hrank : dest.rank + 1 = src.rank)
    (haxis : axis < src.rank) :
    checkProjection dest src axis = .ok () ↔ ∀ (p : Point) (c : Int),
      src.containsPoint (p.insertIdx axis c) = true → dest.containsPoint p = true := by
  have hspan : src.spans[axis]? = some src.spans[axis] := List.getElem?_eq_getElem haxis
  have hdest : 0 < dest.rank := dest.rank_pos
  obtain ⟨projected, hproj, hspans⟩ := Rect.removeAxis_ok haxis (by omega)
  have hprank : projected.rank = dest.rank := by
    have := List.length_eraseIdx_add_one haxis
    rw [← hspans] at this
    have h : projected.rank + 1 = src.rank := this
    omega
  unfold checkProjection
  by_cases he : src.isEmpty = true
  · rw [if_pos he]
    constructor
    · intro _ p c h
      rw [Rect.isEmpty_iff.mp he] at h
      cases h
    · intro _
      rfl
  · have hne : src.isEmpty = false := by simpa using he
    have hlo : src.spans[axis].contains src.spans[axis].lo = true := by
      have := Rect.spans_nonempty hne _ (List.getElem_mem haxis)
      have : ¬ src.spans[axis].hi < src.spans[axis].lo := by simpa [Span.isEmpty] using this
      exact Span.contains_iff.mpr ⟨Int.le_refl _, by omega⟩
    have hcontains : dest.contains projected = true ↔ ∀ (p : Point) (c : Int),
        src.containsPoint (p.insertIdx axis c) = true → dest.containsPoint p = true := by
      rw [Rect.contains_iff, hprank]
      simp only [Rect.containsPoint_insertIdx hspan, true_and]
      constructor
      · intro h p c hpc
        exact h p (by rw [Rect.containsPoint, hspans]; exact hpc.2)
      · intro h p hp
        rw [Rect.containsPoint, hspans] at hp
        exact h p _ ⟨hlo, hp⟩
    rw [if_neg he, hproj, ← hcontains]
    simp only [bind, Except.bind]
    split
    · rename_i h
      exact ⟨fun _ => h, fun _ => rfl⟩
    · rename_i h
      constructor
      · intro h'
        cases h'
      · intro h'
        exact absurd h' h

/-! ## The destination along the source -/

theorem length_window {s : Store α} {rect : Rect} {slice : Option Slice} {w : Window}
    (h : s.window rect slice = .ok w) : w.strides.length = w.rect.rank := by
  have hrank := hasRank_of_window h
  obtain ⟨hrect, hstrides, _⟩ := window_inv h
  rw [hrect, hstrides]
  have hlen := length_strides s
  cases slice with
  | none => exact hlen.trans hrank
  | some slice =>
    obtain ⟨hr, haxis⟩ := hrank
    rw [← hlen] at haxis
    have := List.length_eraseIdx_add_one haxis
    simp only [sliceStrides]
    omega

theorem Target.IsCut.length_strides {s : Store α} {t : Target} (h : t.IsCut s) :
    t.window.strides.length = t.rect.rank := by
  obtain ⟨slice, hw⟩ := h.window
  exact length_window hw

theorem Window.broadcastAxis_inv {w w' : Window} {axis : Nat} {span : Span}
    (h : w.broadcastAxis axis span = .ok w') :
    axis ≤ w.rect.rank ∧ w'.rect.spans = w.rect.spans.insertIdx axis span ∧ w'.base = w.base ∧
      w'.strides = w.strides.insertIdx axis 0 := by
  unfold Window.broadcastAxis at h
  split at h
  · rename_i rect hrect
    cases h
    obtain ⟨haxis, hspans⟩ := Rect.insertAxis_inv hrect
    exact ⟨haxis, hspans, rfl, rfl⟩
  · cases h

theorem length_broadcastAxis {w w' : Window} (hw : w.strides.length = w.rect.rank) {axis : Nat}
    {span : Span} (h : w.broadcastAxis axis span = .ok w') : w'.strides.length = w'.rect.rank := by
  obtain ⟨haxis, hspans, _, hstrides⟩ := Window.broadcastAxis_inv h
  have hrank : w'.rect.rank = w.rect.rank + 1 := by
    rw [Rect.rank, hspans]
    exact List.length_insertIdx_of_le_length haxis _
  rw [hrank, hstrides, List.length_insertIdx_of_le_length (by omega), hw]

/-- A widened window shows at a point what it showed at the point without its new coordinate. -/
theorem at_broadcastAxis {w w' : Window} (hw : w.strides.length = w.rect.rank) {axis : Nat}
    {span : Span} (h : w.broadcastAxis axis span = .ok w') {p : Point}
    (hp : w.rect.containsPoint p = true) (c : Int) : w'.at (p.insertIdx axis c) = w.at p := by
  obtain ⟨haxis, hspans, hbase, hstrides⟩ := Window.broadcastAxis_inv h
  have hlo : w.rect.lo.length = w.rect.rank := List.length_map _
  have hlength : p.length = w.rect.rank := Rect.length_of_spansContain hp
  have hlo' : w'.rect.lo = w.rect.lo.insertIdx axis span.lo := by
    rw [Rect.lo, hspans, List.map_insertIdx]
    rfl
  rw [Window.at, Window.offsetOf, hbase, hlo', hstrides,
    offsetFrom_insertIdx_zero axis span.lo c (by omega) (by omega) (by omega)]
  rfl

theorem shows_broadcastAxis {w w' : Window} (hw : w.strides.length = w.rect.rank) {axis : Nat}
    {span : Span} (h : w.broadcastAxis axis span = .ok w') {length : Nat}
    (hshows : w.Shows w.rect length) : w'.Shows w'.rect length := by
  obtain ⟨haxis, hspans, _, _⟩ := Window.broadcastAxis_inv h
  intro q hq
  rw [Rect.containsPoint, hspans] at hq
  obtain ⟨c, p, rfl, _, hp⟩ := Rect.exists_of_spansContain_insertIdx haxis hq
  rw [at_broadcastAxis hw h hp]
  exact hshows p hp

/-- The destination as a window of the source's rectangle. -/
def Target.over (dest : Target) (src : Rect) (axis : Nat) (lo : Int) : Window where
  rect := src
  base := dest.window.base +
    offsetFrom (dest.rect.lo.insertIdx axis lo) (dest.window.strides.insertIdx axis 0) src.lo
  strides := dest.window.strides.insertIdx axis 0

theorem alongSource_ok {dest : Target} {src : Rect} {axis : Nat} (hrank : dest.rank + 1 = src.rank)
    (haxis : axis < src.rank) (span : Span) :
    ∃ full, dest.alongSource src axis span =
      .ok ⟨full, (dest.over src axis span.lo).base, (dest.over src axis span.lo).strides⟩ := by
  have hrank' : dest.window.rect.rank + 1 = src.rank := hrank
  have hmax : src.rank ≤ maxStoreRank := src.rank_le
  have hle : axis ≤ dest.window.rect.rank := by omega
  obtain ⟨full, hfull, hspans⟩ := Rect.insertAxis_ok hle (by omega) span
  have hlo : full.lo = dest.rect.lo.insertIdx axis span.lo := by
    rw [Rect.lo, hspans, List.map_insertIdx]
    rfl
  refine ⟨full, ?_⟩
  simp only [Target.alongSource, Window.broadcastAxis, hfull, Window.offsetOf, hlo, Target.over]

/-- Over a point of the source the destination shows the point without its coordinate on the folded
axis. -/
theorem at_over {dest : Target} {src : Rect} {axis : Nat} (hrank : dest.rank + 1 = src.rank)
    (haxis : axis < src.rank) (hstrides : dest.window.strides.length = dest.rect.rank) (lo : Int)
    {p : Point} (hp : p.length = dest.rank) (c : Int) :
    (dest.over src axis lo).at (p.insertIdx axis c) = dest.window.at p := by
  have hlo : dest.rect.lo.length = dest.rank := List.length_map _
  have hsrc : src.lo.length = src.rank := List.length_map _
  have hdest : (dest.rect.lo.insertIdx axis lo).length = src.rank := by
    rw [List.length_insertIdx_of_le_length (by omega)]
    omega
  have hpc : (p.insertIdx axis c).length = src.rank := by
    rw [List.length_insertIdx_of_le_length (by omega)]
    omega
  calc (dest.over src axis lo).at (p.insertIdx axis c)
      = dest.window.base + (offsetFrom (dest.rect.lo.insertIdx axis lo)
            (dest.window.strides.insertIdx axis 0) src.lo +
          offsetFrom src.lo (dest.window.strides.insertIdx axis 0) (p.insertIdx axis c)) := by
        simp only [Window.at, Window.offsetOf, Target.over, Int.add_assoc]
    _ = dest.window.base + offsetFrom (dest.rect.lo.insertIdx axis lo)
          (dest.window.strides.insertIdx axis 0) (p.insertIdx axis c) := by
        rw [offsetFrom_add _ (by omega) (by omega)]
    _ = dest.window.base + offsetFrom dest.rect.lo dest.window.strides p := by
        rw [offsetFrom_insertIdx_zero axis lo c (by omega) (by omega)
          (hstrides.trans hlo.symm)]
    _ = dest.window.at p := rfl

/-! ## The fold -/

/-- Indices that differ on one axis only, where the destination stands still, agree wherever the box
may be cut. -/
theorem agreeWhereCut_foldCost {k : Nat} {spans : List Span} {strides : Vector (List Int) (k + 1)}
    {n : Nat} (hstill : (destination strides).getD n 0 = 0) {i j : List Nat}
    (hi : i ∈ indices (spans.map Span.extent)) (hj : j ∈ indices (spans.map Span.extent))
    (h : (pointAt spans i).eraseIdx n = (pointAt spans j).eraseIdx n) :
    AgreeWhereCut (axesOf foldCost (spans.map Span.extent) strides) i j := by
  induction spans generalizing n strides i j with
  | nil => trivial
  | cons s spans ih =>
    obtain ⟨a, i, rfl, _, hi⟩ := eq_cons_of_mem_indices hi
    obtain ⟨b, j, rfl, _, hj⟩ := eq_cons_of_mem_indices hj
    simp only [List.map_cons, axesOf, AgreeWhereCut]
    cases n with
    | zero =>
      have hcost : foldCost (strides.map fun s => s.headD 0) = 0 := by
        have : (destination strides).headD 0 = 0 := by
          rw [← hstill]
          cases destination strides <;> rfl
        rw [foldCost, destination_map, if_pos this]
      refine ⟨fun hne => absurd hcost hne, ?_⟩
      have hij : pointAt spans i = pointAt spans j := h
      rw [pointAt_injective hi hj hij]
      exact agreeWhereCut_refl _ _
    | succ n =>
      simp only [pointAt, List.eraseIdx_cons_succ, List.cons.injEq, Int.ofNat_eq_natCast] at h
      refine ⟨fun _ => by omega, ih ?_ hi hj h.2⟩
      have htail : (destination strides).tail.getD n 0 = (destination strides).getD (n + 1) 0 := by
        cases destination strides <;> rfl
      rw [destination_map, htail, hstill]

variable {s : Store α} {dest : Target} {src : View α} {axis : Nat}

theorem foldInto_rect [Element α] (op : Operator α) (w : Window) (full : Rect) (src : View α) :
    Pass.foldInto op ⟨full, w.base, w.strides⟩ src = Pass.foldInto op w src := by
  simp [Pass.foldInto, Pass.through]

/-- Every point of the source lies over a point of the destination, and stands where that one does. -/
theorem exists_under (hd : dest.IsCut s) (hrank : dest.rank + 1 = src.rank)
    (haxis : axis < src.rank)
    (hproj : ∀ (p : Point) (c : Int),
      src.rect.containsPoint (p.insertIdx axis c) = true → dest.rect.containsPoint p = true)
    (lo : Int) {q : Point} (hq : src.rect.containsPoint q = true) :
    dest.rect.containsPoint (q.eraseIdx axis) = true ∧
      (dest.over src.rect axis lo).at q = dest.window.at (q.eraseIdx axis) := by
  obtain ⟨p, c, rfl, hp⟩ := Rect.exists_eq_insertIdx haxis hq
  have hlen : p.length = dest.rank := by
    have : dest.rank + 1 = src.rect.rank := hrank
    omega
  rw [List.eraseIdx_insertIdx_self]
  exact ⟨hproj p c hq, at_over hrank haxis hd.length_strides lo hlen c⟩

variable [Element α]

theorem actsBy_foldInto (hd : dest.IsCut s) (hs : src.Sound) (hrank : dest.rank + 1 = src.rank)
    (haxis : axis < src.rank)
    (hproj : ∀ (p : Point) (c : Int),
      src.rect.containsPoint (p.insertIdx axis c) = true → dest.rect.containsPoint p = true)
    (op : Operator α) (lo : Int) :
    (Pass.foldInto op (dest.over src.rect axis lo) src).ActsBy s.bounds
      fun (pos : Vector Int 2) =>
        src.feed (fun value acc => op.fold .exclusive acc value) (source pos) := by
  refine actsBy_windows (r := src.rect) ?_ ?_ ?_
  · simp [Target.over, View.rect]
  · intro i hi j hj hij
    change (dest.over src.rect axis lo).at _ = (dest.over src.rect axis lo).at _ at hij
    obtain ⟨hp, hpat⟩ := exists_under hd hrank haxis hproj lo (containsPoint_pointAt hi)
    obtain ⟨hq, hqat⟩ := exists_under hd hrank haxis hproj lo (containsPoint_pointAt hj)
    rw [hpat, hqat] at hij
    refine agreeWhereCut_foldCost (n := axis) ?_ hi hj (hd.faithful.apart _ _ hp hq hij)
    rw [destination_map]
    change (dest.window.strides.insertIdx axis 0).getD axis 0 = 0
    have hle : axis ≤ dest.window.strides.length := by
      have : dest.rect.rank + 1 = src.rank := hrank
      rw [hd.length_strides]
      omega
    simp [List.getElem?_insertIdx_self, hle]
  · intro q hq
    obtain ⟨hp, hat⟩ := exists_under hd hrank haxis hproj lo hq
    have hin := hd.faithful.inside _ hp
    rw [← hat] at hin
    obtain ⟨a, ha⟩ := hs.element hq
    simp only [destination_standing, source_standing]
    change Edit.Changes (Edit.readAt ((dest.over src.rect axis lo).at q) >>= fun acc =>
      Edit.ofExcept (src.element (src.window.at q)) >>= fun value =>
        Edit.writeAt ((dest.over src.rect axis lo).at q) (op.fold .exclusive acc value)) _ _
      (src.feed _ (src.window.at q))
    rw [View.feed_eq ha]
    refine Edit.changes_readAt hin (f := fun acc _ => op.fold .exclusive acc a) fun acc => ?_
    rw [Edit.ofExcept_bind ha]
    exact Edit.changes_writeAt hin _

omit [Element α] in
/-- The steps that meet a point of the destination are those of the source's points over it. -/
theorem filter_over (hd : dest.IsCut s) (hrank : dest.rank + 1 = src.rank)
    (haxis : axis < src.rank)
    (hproj : ∀ (p : Point) (c : Int),
      src.rect.containsPoint (p.insertIdx axis c) = true → dest.rect.containsPoint p = true)
    (lo : Int) {p : Point} (hp : dest.rect.containsPoint p = true) :
    (src.rect.points.map (standing #v[dest.over src.rect axis lo, src.window])).filter
        (fun pos => destination pos == dest.window.at p) =
      (src.rect.pointsOver axis p).map (standing #v[dest.over src.rect axis lo, src.window]) := by
  have hsame : ∀ q ∈ src.rect.points,
      (destination (standing #v[dest.over src.rect axis lo, src.window] q) ==
        dest.window.at p) = (q.eraseIdx axis == p) := by
    intro q hq
    obtain ⟨hin, hat⟩ := exists_under hd hrank haxis hproj lo (Rect.mem_points.mp hq)
    rw [destination_standing, Bool.eq_iff_iff, beq_iff_eq, beq_iff_eq]
    change (dest.over src.rect axis lo).at q = _ ↔ _
    rw [hat]
    constructor
    · exact hd.faithful.apart _ _ hin hp
    · rintro rfl
      rfl
  rw [List.filter_map, Function.comp_def, List.filter_congr hsame, Rect.pointsOver]

end GridFold

import GridFold.Proofs.Box
import GridFold.Proofs.PointSets
import GridFold.Store.View

/-!
# GridFold.Proofs.Layout

Where the elements of a window lie.

* `Store.Admits` — the rectangle, placed in its slice, lies in the store. `window_ok_iff` says that
  windows can be cut of exactly such rectangles.
* `offset_placed` — a window shows at each of its points the element that the store has at the
  placed point.
* `Window.Faithful` — all positions of a window lie in the data, and different points have different
  ones; `faithful_window` says this of the windows of a store.
-/

namespace GridFold

/-! ## Row-major offsets -/

/-- Offsets add up along a corner in between. -/
theorem offsetFrom_add {lo q p : Point} (strides : List Int) (hlo : lo.length = q.length)
    (hp : p.length = q.length) :
    offsetFrom lo strides q + offsetFrom q strides p = offsetFrom lo strides p := by
  induction q generalizing lo p strides with
  | nil =>
    rw [List.length_eq_zero_iff.mp hlo, List.length_eq_zero_iff.mp hp]
    rfl
  | cons c q ih =>
    cases lo with
    | nil => simp at hlo
    | cons l lo =>
      cases p with
      | nil => simp at hp
      | cons d p =>
        simp only [offsetFrom_cons]
        have h := ih strides.tail (by simpa using hlo) (by simpa using hp)
        have hmul : (c - l) * strides.headD 0 + (d - c) * strides.headD 0 =
            (d - l) * strides.headD 0 := by
          rw [← Int.add_mul]
          congr 1
          omega
        omega

/-- A coordinate that both points share does not count. -/
theorem offsetFrom_insertIdx {lo p : Point} (strides : List Int) (n : Nat) (c : Int)
    (hn : n ≤ lo.length) (hp : p.length = lo.length) :
    offsetFrom (lo.insertIdx n c) strides (p.insertIdx n c) =
      offsetFrom lo (strides.eraseIdx n) p := by
  induction n generalizing lo p strides with
  | zero =>
    simp only [List.insertIdx_zero, offsetFrom_cons]
    cases strides <;> simp
  | succ n ih =>
    cases lo with
    | nil => simp at hn
    | cons l lo =>
      cases p with
      | nil => simp at hp
      | cons d p =>
        simp only [List.insertIdx_succ_cons, offsetFrom_cons,
          ih strides.tail (by simpa using hn) (by simpa using hp)]
        cases strides <;> simp

/-- A coordinate on an axis of stride zero does not count. -/
theorem offsetFrom_insertIdx_zero {lo p : Point} {strides : List Int} (n : Nat) (l c : Int)
    (hn : n ≤ lo.length) (hp : p.length = lo.length) (hs : strides.length = lo.length) :
    offsetFrom (lo.insertIdx n l) (strides.insertIdx n 0) (p.insertIdx n c) =
      offsetFrom lo strides p := by
  induction n generalizing lo p strides with
  | zero => simp [offsetFrom_cons]
  | succ n ih =>
    cases lo with
    | nil => simp at hn
    | cons l' lo =>
      cases p with
      | nil => simp at hp
      | cons d p =>
        cases strides with
        | nil => simp at hs
        | cons s strides =>
          simp only [List.insertIdx_succ_cons, offsetFrom_cons, List.headD_cons, List.tail_cons,
            ih (by simpa using hn) (by simpa using hp) (by simpa using hs)]

def spanStrides (spans : List Span) : List Int :=
  rowMajorStrides ((spans.map Span.extent).map Int.ofNat)

theorem spanStrides_cons (s : Span) (spans : List Span) :
    spanStrides (s :: spans) =
      Int.ofNat (Rect.spansVolume spans) :: spanStrides spans := by
  have hvolume : ∀ spans : List Span, ((spans.map Span.extent).map Int.ofNat).foldr (· * ·) 1 =
      Int.ofNat (Rect.spansVolume spans) := by
    intro spans
    induction spans with
    | nil => rfl
    | cons s spans ih =>
      rw [List.map_cons, List.map_cons, List.foldr_cons, ih]
      rfl
  simp only [spanStrides, List.map_cons, rowMajorStrides, hvolume]

theorem length_spanStrides (spans : List Span) : (spanStrides spans).length = spans.length := by
  induction spans with
  | nil => rfl
  | cons s spans ih => rw [spanStrides_cons, List.length_cons, List.length_cons, ih]

/-- The offset of a point of the spans, its outermost coordinate apart from the others. -/
theorem spanOffset_cons (s : Span) (spans : List Span) (c : Int) (p : Point) :
    offsetFrom ((s :: spans).map Span.lo) (spanStrides (s :: spans)) (c :: p) =
      (c - s.lo) * Int.ofNat (Rect.spansVolume spans) +
        offsetFrom (spans.map Span.lo) (spanStrides spans) p := by
  rw [List.map_cons, spanStrides_cons, offsetFrom_cons, List.headD_cons, List.tail_cons]

/-- Row-major offsets of points lie below the number of points. -/
theorem spanOffset_bounds {spans : List Span} {p : Point}
    (h : Rect.spansContain spans p = true) :
    0 ≤ offsetFrom (spans.map Span.lo) (spanStrides spans) p ∧
      offsetFrom (spans.map Span.lo) (spanStrides spans) p <
        Int.ofNat (Rect.spansVolume spans) := by
  induction spans generalizing p with
  | nil =>
    cases p with
    | nil => simp [offsetFrom, Rect.spansVolume]
    | cons _ _ => cases h
  | cons s spans ih =>
    cases p with
    | nil => cases h
    | cons c p =>
      rw [Rect.spansContain_cons, Span.contains_iff] at h
      obtain ⟨hc, hp⟩ := h
      obtain ⟨h₀, h₁⟩ := ih hp
      have hext : Int.ofNat s.extent = s.hi - s.lo + 1 := by
        simp only [Span.extent, Int.ofNat_eq_natCast]
        omega
      rw [spanOffset_cons, Rect.spansVolume]
      generalize offsetFrom (spans.map Span.lo) (spanStrides spans) p = r at h₀ h₁ ⊢
      generalize Rect.spansVolume spans = v at h₁ ⊢
      have hv : (0 : Int) ≤ Int.ofNat v := Int.natCast_nonneg v
      constructor
      · exact Int.add_nonneg (Int.mul_nonneg (by omega) hv) h₀
      · calc (c - s.lo) * Int.ofNat v + r
            < (c - s.lo) * Int.ofNat v + Int.ofNat v := by omega
          _ = (c - s.lo + 1) * Int.ofNat v := by rw [Int.add_mul, Int.one_mul]
          _ ≤ (s.hi - s.lo + 1) * Int.ofNat v := Int.mul_le_mul_of_nonneg_right (by omega) hv
          _ = Int.ofNat (s.extent * v) := by rw [← hext]; rfl

/-- Two numbers in mixed radix are equal only digit by digit. -/
theorem digits_unique {a b r s v : Int} (hr : 0 ≤ r) (hrv : r < v) (hs : 0 ≤ s) (hsv : s < v)
    (h : a * v + r = b * v + s) : a = b ∧ r = s := by
  have hab : a = b := by
    have ha : (a * v + r) / v = a := by
      rw [Int.add_comm, Int.add_mul_ediv_right _ _ (by omega), Int.ediv_eq_zero_of_lt hr hrv]
      omega
    have hb : (b * v + s) / v = b := by
      rw [Int.add_comm, Int.add_mul_ediv_right _ _ (by omega), Int.ediv_eq_zero_of_lt hs hsv]
      omega
    rw [← ha, h, hb]
  subst hab
  exact ⟨rfl, by omega⟩

theorem spanOffset_injective {spans : List Span} {p q : Point}
    (hp : Rect.spansContain spans p = true) (hq : Rect.spansContain spans q = true)
    (h : offsetFrom (spans.map Span.lo) (spanStrides spans) p =
      offsetFrom (spans.map Span.lo) (spanStrides spans) q) : p = q := by
  induction spans generalizing p q with
  | nil =>
    rw [List.length_eq_zero_iff.mp (Rect.length_of_spansContain hp),
      List.length_eq_zero_iff.mp (Rect.length_of_spansContain hq)]
  | cons s spans ih =>
    cases p with
    | nil => cases hp
    | cons c p =>
      cases q with
      | nil => cases hq
      | cons d q =>
        rw [Rect.spansContain_cons] at hp hq
        rw [spanOffset_cons, spanOffset_cons] at h
        have hp₁ := spanOffset_bounds hp.2
        have hq₁ := spanOffset_bounds hq.2
        obtain ⟨hcd, hpq⟩ := digits_unique hp₁.1 hp₁.2 hq₁.1 hq₁.2 h
        rw [ih hp.2 hq.2 hpq, show c = d by omega]

/-! ## Placing points in a slice -/

/-- The point of the store that a point of a rectangle in a slice stands for. -/
def Point.placed (p : Point) : Option Slice → Point
  | some slice => p.insertIdx slice.axis slice.coord
  | none => p

variable {α : Type}

/-- The store has the rank that a rectangle in this slice asks for. -/
def Store.HasRank (s : Store α) (rect : Rect) : Option Slice → Prop
  | some slice => s.rank = rect.rank + 1 ∧ slice.axis < s.rank
  | none => s.rank = rect.rank

/-- The rectangle, placed in its slice, lies in the store. -/
def Store.Admits (s : Store α) (rect : Rect) (slice : Option Slice) : Prop :=
  s.HasRank rect slice ∧
    ∀ p : Point, rect.containsPoint p = true → s.bounds.containsPoint (p.placed slice) = true

theorem placed_injective {p q : Point} {slice : Option Slice} (h : p.placed slice = q.placed slice) :
    p = q := by
  cases slice with
  | none => exact h
  | some slice => exact List.insertIdx_injective _ _ h

theorem checkPlace_ok_iff {s : Store α} {rect : Rect} {slice : Option Slice} :
    s.checkPlace rect slice = .ok () ↔ s.HasRank rect slice := by
  cases slice with
  | none =>
    simp only [Store.checkPlace, Store.HasRank]
    split <;> simp_all
  | some slice =>
    simp only [Store.checkPlace, Store.HasRank]
    split
    · simp_all
    · split
      · simp_all
      · simp_all

theorem placed_ok {s : Store α} {rect : Rect} {slice : Option Slice} (h : s.HasRank rect slice) :
    ∃ full, rect.placed slice = .ok full ∧ full.rank = s.rank ∧
      full.lo = Point.placed rect.lo slice ∧
      ∀ q, full.containsPoint q = true ↔
        ∃ p : Point, q = p.placed slice ∧ rect.containsPoint p = true := by
  cases slice with
  | none => exact ⟨rect, rfl, h.symm, rfl, by simp [Point.placed]⟩
  | some slice =>
    obtain ⟨hrank, haxis⟩ := h
    have hle : slice.axis ≤ rect.rank := by omega
    have hmax : s.rank ≤ maxStoreRank := s.bounds.rank_le
    obtain ⟨full, hfull, hspans⟩ :=
      Rect.insertAxis_ok hle (by omega) ⟨slice.coord, slice.coord⟩
    refine ⟨full, hfull, ?_, ?_, ?_⟩
    · rw [hrank, Rect.rank, hspans]
      exact List.length_insertIdx_of_le_length hle _
    · rw [Rect.lo, hspans, List.map_insertIdx]
      rfl
    · intro q
      rw [Rect.containsPoint, hspans]
      constructor
      · intro hq
        obtain ⟨c, p, rfl, hc, hp⟩ := Rect.exists_of_spansContain_insertIdx hle hq
        rw [Span.contains_iff] at hc
        have : c = slice.coord := Int.le_antisymm hc.2 hc.1
        exact ⟨p, by rw [this]; rfl, hp⟩
      · rintro ⟨p, rfl, hp⟩
        exact (Rect.spansContain_insertIdx hle _ p _).mpr
          ⟨Span.contains_iff.mpr ⟨Int.le_refl _, Int.le_refl _⟩, hp⟩

/-! ## The windows of a store -/

theorem window_of_placed {s : Store α} {rect full : Rect} {slice : Option Slice}
    (hrank : s.HasRank rect slice) (hfull : rect.placed slice = .ok full) :
    s.window rect slice =
      if rect.isEmpty then .ok ⟨rect, 0, sliceStrides s.strides slice⟩
      else if s.bounds.contains full then
        .ok ⟨rect, offsetFrom s.bounds.lo s.strides full.lo, sliceStrides s.strides slice⟩
      else .error (.outOfBounds full s.bounds) := by
  simp only [Store.window, checkPlace_ok_iff.mpr hrank, hfull, bind, Except.bind]
  split
  · rfl
  · split <;> rfl

theorem hasRank_of_window {s : Store α} {rect : Rect} {slice : Option Slice} {w : Window}
    (h : s.window rect slice = .ok w) : s.HasRank rect slice := by
  rw [← checkPlace_ok_iff]
  cases hc : s.checkPlace rect slice with
  | ok => rfl
  | error e =>
    simp only [Store.window, hc, bind, Except.bind] at h
    cases h

/-- What has been cut is a window of the rectangle, with the strides of the store, and where there is
anything to show, the store contains the placed rectangle and the window starts at its corner. -/
theorem window_inv {s : Store α} {rect : Rect} {slice : Option Slice} {w : Window}
    (h : s.window rect slice = .ok w) :
    w.rect = rect ∧ w.strides = sliceStrides s.strides slice ∧
      (rect.isEmpty = false → w.base = offsetFrom s.bounds.lo s.strides (rect.lo.placed slice) ∧
        ∃ full, rect.placed slice = .ok full ∧ s.bounds.contains full = true) := by
  have hrank := hasRank_of_window h
  obtain ⟨full, hfull, _, hlo, _⟩ := placed_ok hrank
  rw [window_of_placed hrank hfull] at h
  split at h
  · rename_i hempty
    cases h
    refine ⟨rfl, rfl, ?_⟩
    intro hne
    rw [hne] at hempty
    cases hempty
  · split at h
    · rename_i hin
      cases h
      refine ⟨rfl, rfl, ?_⟩
      intro _
      exact ⟨by rw [← hlo], full, hfull, hin⟩
    · cases h

theorem window_ok_iff {s : Store α} {rect : Rect} {slice : Option Slice} :
    (∃ w, s.window rect slice = .ok w) ↔ s.Admits rect slice := by
  constructor
  · rintro ⟨w, h⟩
    have hrank := hasRank_of_window h
    refine ⟨hrank, ?_⟩
    intro p hp
    obtain ⟨_, full, hfull, hin⟩ := (window_inv h).2.2 (Rect.isEmpty_eq_false hp)
    obtain ⟨_, hplaced, _, _, hpoints⟩ := placed_ok hrank
    cases hfull.symm.trans hplaced
    exact (Rect.contains_iff.mp hin).2 _ ((hpoints _).mpr ⟨p, rfl, hp⟩)
  · rintro ⟨hrank, hin⟩
    obtain ⟨full, hfull, hfrank, _, hpoints⟩ := placed_ok hrank
    rw [window_of_placed hrank hfull]
    split
    · exact ⟨_, rfl⟩
    · have hcontains : s.bounds.contains full = true := by
        rw [Rect.contains_iff]
        refine ⟨hfrank, ?_⟩
        intro q hq
        obtain ⟨p, rfl, hp⟩ := (hpoints q).mp hq
        exact hin p hp
      rw [if_pos hcontains]
      exact ⟨_, rfl⟩

theorem window_rect {s : Store α} {rect : Rect} {slice : Option Slice} {w : Window}
    (h : s.window rect slice = .ok w) : w.rect = rect := (window_inv h).1

theorem length_strides (s : Store α) : s.strides.length = s.rank :=
  length_spanStrides s.bounds.spans

/-- Where the element of a point lies, for a point of the rectangle. -/
def Window.at (w : Window) (p : Point) : Int := w.base + w.offsetOf p

theorem offset_placed {s : Store α} {rect : Rect} {slice : Option Slice} {w : Window}
    (h : s.window rect slice = .ok w) {p : Point} (hp : rect.containsPoint p = true) :
    w.at p = offsetFrom s.bounds.lo s.strides (p.placed slice) := by
  have hrank := hasRank_of_window h
  obtain ⟨hrect, hstrides, hinside⟩ := window_inv h
  obtain ⟨hbase, _⟩ := hinside (Rect.isEmpty_eq_false hp)
  have hplen : p.length = rect.lo.length := by
    rw [Rect.length_of_spansContain hp, Rect.lo, List.length_map]
  have hlolen : rect.lo.length = rect.rank := List.length_map _
  have hblen : s.bounds.lo.length = s.rank := List.length_map _
  simp only [Window.at, Window.offsetOf, hrect, hstrides, hbase]
  cases slice with
  | none =>
    have : s.rank = rect.rank := hrank
    exact offsetFrom_add _ (show s.bounds.lo.length = rect.lo.length by omega) hplen
  | some slice =>
    obtain ⟨hr, haxis⟩ := hrank
    simp only [Point.placed, sliceStrides]
    have hle : slice.axis ≤ rect.lo.length := by omega
    rw [← offsetFrom_insertIdx s.strides slice.axis slice.coord hle hplen]
    apply offsetFrom_add
    · rw [List.length_insertIdx_of_le_length hle]
      omega
    · rw [List.length_insertIdx_of_le_length hle, List.length_insertIdx_of_le_length (by omega),
        hplen]

/-- All positions of the window lie in the data, and no two points share one. -/
structure Window.Faithful (w : Window) (bounds : Rect) : Prop where
  inside : ∀ p, w.rect.containsPoint p = true →
    0 ≤ w.at p ∧ (w.at p).toNat < bounds.volume
  apart : ∀ p q, w.rect.containsPoint p = true → w.rect.containsPoint q = true →
    w.at p = w.at q → p = q

theorem faithful_window {s : Store α} {rect : Rect} {slice : Option Slice} {w : Window}
    (h : s.window rect slice = .ok w) : w.Faithful s.bounds := by
  have hrect := window_rect h
  have hadmits := (window_ok_iff.mp ⟨w, h⟩).2
  constructor
  · intro p hp
    rw [hrect] at hp
    have hb := spanOffset_bounds (hadmits p hp)
    rw [offset_placed h hp]
    simp only [Int.ofNat_eq_natCast] at hb
    change 0 ≤ offsetFrom (s.bounds.spans.map Span.lo) (spanStrides s.bounds.spans) _ ∧ _ <
      Rect.spansVolume s.bounds.spans
    exact ⟨hb.1, (Int.toNat_lt hb.1).mpr hb.2⟩
  · intro p q hp hq hpq
    rw [hrect] at hp hq
    rw [offset_placed h hp, offset_placed h hq] at hpq
    exact placed_injective (spanOffset_injective (hadmits p hp) (hadmits q hq) hpq)

/-! ## Views and targets -/

theorem view_ok_iff {s : Store α} {rect : Rect} {slice : Option Slice} {v : View α} :
    s.view rect slice = .ok v ↔ s.window rect slice = .ok v.window ∧ v.store = s := by
  unfold Store.view
  cases hw : s.window rect slice with
  | ok w =>
    simp only [Except.ok.injEq]
    constructor
    · rintro rfl
      exact ⟨rfl, rfl⟩
    · rintro ⟨rfl, rfl⟩
      rfl
  | error cause => simp

theorem target_ok_iff {s : Store α} {rect : Rect} {slice : Option Slice} {privilege : Privilege}
    {t : Target} : s.target rect slice privilege = .ok t ↔
      privilege.canWrite = true ∧ t.privilege = privilege ∧ s.window rect slice = .ok t.window := by
  unfold Store.target
  by_cases hp : privilege.canWrite = true
  · rw [if_pos hp]
    cases hw : s.window rect slice with
    | ok w =>
      simp only [Except.ok.injEq, hp, true_and]
      constructor
      · rintro rfl
        exact ⟨rfl, rfl⟩
      · rintro ⟨rfl, rfl⟩
        rfl
    | error cause => simp
  · rw [if_neg hp]
    simp [hp]

theorem exists_view {s : Store α} {rect : Rect} {slice : Option Slice} :
    (∃ v, s.view rect slice = .ok v) ↔ s.Admits rect slice := by
  rw [← window_ok_iff]
  constructor
  · rintro ⟨v, hv⟩
    exact ⟨v.window, (view_ok_iff.mp hv).1⟩
  · rintro ⟨w, hw⟩
    exact ⟨⟨s, w⟩, view_ok_iff.mpr ⟨hw, rfl⟩⟩

theorem exists_target {s : Store α} {rect : Rect} {slice : Option Slice} {privilege : Privilege} :
    (∃ t, s.target rect slice privilege = .ok t) ↔
      privilege.canWrite = true ∧ s.Admits rect slice := by
  rw [← window_ok_iff]
  constructor
  · rintro ⟨t, ht⟩
    obtain ⟨hwrite, _, hw⟩ := target_ok_iff.mp ht
    exact ⟨hwrite, t.window, hw⟩
  · rintro ⟨hwrite, w, hw⟩
    exact ⟨⟨w, privilege⟩, target_ok_iff.mpr ⟨hwrite, rfl, hw⟩⟩

/-- The view was cut out of its store, plainly or as a slice. -/
def View.IsCut (v : View α) : Prop := ∃ rect slice, v.store.view rect slice = .ok v

/-- The target was cut out of the store `s`, plainly or as a slice. -/
def Target.IsCut (t : Target) (s : Store α) : Prop :=
  ∃ rect slice, s.target rect slice t.privilege = .ok t

theorem isCut_of_view {s : Store α} {rect : Rect} {slice : Option Slice} {v : View α}
    (h : s.view rect slice = .ok v) : v.store = s ∧ v.rect = rect ∧ v.IsCut := by
  obtain ⟨hw, hs⟩ := view_ok_iff.mp h
  exact ⟨hs, window_rect hw, rect, slice, by rw [hs]; exact h⟩

theorem isCut_of_target {s : Store α} {rect : Rect} {slice : Option Slice} {privilege : Privilege}
    {t : Target} (h : s.target rect slice privilege = .ok t) :
    t.privilege = privilege ∧ t.rect = rect ∧ t.IsCut s := by
  obtain ⟨_, hp, hw⟩ := target_ok_iff.mp h
  exact ⟨hp, window_rect hw, rect, slice, by rw [hp]; exact h⟩

theorem View.IsCut.window {v : View α} (h : v.IsCut) :
    ∃ slice, v.store.window v.rect slice = .ok v.window := by
  obtain ⟨rect, slice, h⟩ := h
  have hw := (view_ok_iff.mp h).1
  exact ⟨slice, by rw [View.rect, window_rect hw]; exact hw⟩

theorem Target.IsCut.window {s : Store α} {t : Target} (h : t.IsCut s) :
    ∃ slice, s.window t.rect slice = .ok t.window := by
  obtain ⟨rect, slice, h⟩ := h
  have hw := (target_ok_iff.mp h).2.2
  exact ⟨slice, by rw [Target.rect, window_rect hw]; exact hw⟩

theorem View.IsCut.faithful {v : View α} (h : v.IsCut) : v.window.Faithful v.store.bounds :=
  have ⟨_, hw⟩ := h.window
  faithful_window hw

theorem Target.IsCut.faithful {s : Store α} {t : Target} (h : t.IsCut s) :
    t.window.Faithful s.bounds :=
  have ⟨_, hw⟩ := h.window
  faithful_window hw

theorem View.get_eq {v : View α} {p : Point} (h : v.rect.containsPoint p = true) :
    v.get p = v.element (v.window.at p) := by
  have : v.window.rect.containsPoint p = true := h
  simp only [View.get, Window.position, this, if_true]
  rfl

/-- The window shows each point of the rectangle at one of `length` elements. -/
def Window.Shows (w : Window) (r : Rect) (length : Nat) : Prop :=
  ∀ p, r.containsPoint p = true → 0 ≤ w.at p ∧ (w.at p).toNat < length

/-- Every point of the view shows an element of its store. -/
def View.Sound (v : View α) : Prop := v.window.Shows v.rect v.store.length

theorem View.IsCut.sound {v : View α} (h : v.IsCut) : v.Sound := h.faithful.inside

theorem View.Sound.element {v : View α} (h : v.Sound) {p : Point}
    (hp : v.rect.containsPoint p = true) : ∃ a, v.element (v.window.at p) = .ok a := by
  have hin : 0 ≤ v.window.at p ∧ (v.window.at p).toNat < v.store.bounds.volume := h p hp
  exact ⟨_, by rw [View.element, Store.element, dif_pos hin]⟩

end GridFold

import GridFold.Rect.Basic

/-!
# GridFold.Rect.Points

The points of a rectangle in row-major order: the last coordinate moves fastest.

* `successor` — the point behind a point. A coordinate is only stepped up while it is below the
  upper end of its span, so no coordinate ever leaves its span.
* `firstPoints n` — the first `n` points, found one after the other from the lowest corner.
* `points` — all of them.
* `grid` — the same list as the product of the spans' coordinates; `points_eq_grid` says so, and
  `length_points` that there are `volume` points.
-/

namespace GridFold.Rect

/-- The last coordinate that is below its upper end steps up by one, and the coordinates behind it
go back to their lower ends. -/
def successor : List Span → Point → Option Point
  | s :: spans, c :: p =>
    match successor spans p with
    | some q => some (c :: q)
    | none => if c < s.hi then some ((c + 1) :: spans.map Span.lo) else none
  | _, _ => none

/-- At most `n` points, from the given one on. -/
def walk (spans : List Span) : Nat → Option Point → List Point
  | 0, _ => []
  | _ + 1, none => []
  | n + 1, some p => p :: walk spans n (successor spans p)

def first? (r : Rect) : Option Point := if r.isEmpty then none else some r.lo

def firstPoints (r : Rect) (n : Nat) : List Point := walk r.spans n r.first?

def points (r : Rect) : List Point := r.firstPoints r.volume

/-- The product of the spans' coordinates, the last axis varying fastest. -/
def grid : List Span → List Point
  | [] => [[]]
  | s :: spans => s.coords.flatMap fun c => (grid spans).map (c :: ·)

/-- Each point of the list is followed by its successor, and the last one has none. -/
def Consecutive (spans : List Span) : List Point → Prop
  | [] => True
  | [p] => successor spans p = none
  | p :: q :: ps => successor spans p = some q ∧ Consecutive spans (q :: ps)

theorem walk_of_consecutive {spans : List Span} {p : Point} {ps : List Point}
    (h : Consecutive spans (p :: ps)) (n : Nat) : walk spans n (some p) = (p :: ps).take n := by
  induction n generalizing p ps with
  | zero => rfl
  | succ n ih =>
    cases ps with
    | nil =>
      simp only [Consecutive] at h
      cases n <;> simp [walk, h]
    | cons q ps =>
      obtain ⟨hq, hps⟩ := h
      simp [walk, hq, ih hps]

/-- Consecutive points of the inner axes stay consecutive behind a fixed outer coordinate, and what
follows the last of them starts at the next outer coordinate. -/
theorem consecutive_append {s : Span} {spans : List Span} {c : Int} {inner outer : List Point}
    (hin : Consecutive spans inner) (hne : inner ≠ [])
    (hlast : outer = [] → s.hi ≤ c)
    (hnext : ∀ q ∈ outer.head?, c < s.hi ∧ q = (c + 1) :: spans.map Span.lo)
    (hout : Consecutive (s :: spans) outer) :
    Consecutive (s :: spans) (inner.map (c :: ·) ++ outer) := by
  induction inner with
  | nil => exact absurd rfl hne
  | cons p ps ih =>
    cases ps with
    | nil =>
      simp only [Consecutive] at hin
      cases outer with
      | nil =>
        have := hlast rfl
        simp only [List.map_cons, List.map_nil, List.append_nil, Consecutive, successor, hin]
        rw [if_neg (by omega)]
      | cons q qs =>
        obtain ⟨hc, rfl⟩ := hnext q (by simp)
        refine ⟨?_, hout⟩
        simp [successor, hin, hc]
    | cons q qs =>
      obtain ⟨hq, hqs⟩ := hin
      refine ⟨?_, ih hqs (by simp)⟩
      simp [successor, hq]

theorem head?_grid {spans : List Span} (h : ∀ s ∈ spans, s.isEmpty = false) :
    (grid spans).head? = some (spans.map Span.lo) := by
  induction spans with
  | nil => rfl
  | cons s spans ih =>
    have hs : s.isEmpty = false := h s (by simp)
    have hx : s.extent ≠ 0 := by
      simp only [Span.isEmpty, decide_eq_false_iff_not] at hs
      simp only [Span.extent]
      omega
    obtain ⟨e, he⟩ := Nat.exists_eq_succ_of_ne_zero hx
    have ih := ih fun t ht => h t (by simp [ht])
    simp [grid, Span.coords, he, List.range_succ_eq_map, List.head?_append, ih]

theorem consecutive_grid_from {s : Span} {spans : List Span}
    (hin : Consecutive spans (grid spans)) (hhead : (grid spans).head? = some (spans.map Span.lo))
    (n : Nat) (c : Int) (hc : c + Int.ofNat n = s.hi + 1) :
    Consecutive (s :: spans)
      (((List.range n).map fun i => c + Int.ofNat i).flatMap fun c => (grid spans).map (c :: ·)) := by
  induction n generalizing c with
  | zero => trivial
  | succ n ih =>
    have hne : grid spans ≠ [] := by
      intro h
      simp [h] at hhead
    have hstep := ih (c + 1) (by simp only [Int.ofNat_eq_natCast] at hc ⊢; omega)
    have hlist : (List.range (n + 1)).map (fun i => c + Int.ofNat i) =
        c :: (List.range n).map fun i => c + 1 + Int.ofNat i := by
      simp only [List.range_succ_eq_map, List.map_cons, List.map_map]
      congr 1
      · simp
      · apply List.map_congr_left
        intro i _
        simp only [Function.comp, Int.ofNat_eq_natCast]
        omega
    rw [hlist, List.flatMap_cons]
    refine consecutive_append hin hne ?_ ?_ hstep
    · intro hnil
      cases n with
      | zero => simp only [Int.ofNat_eq_natCast] at hc; omega
      | succ m =>
        simp only [List.flatMap_eq_nil_iff, List.map_eq_nil_iff] at hnil
        exact absurd (hnil _ (by simp [List.range_succ_eq_map]; exact Or.inl rfl)) hne
    · intro q hq
      cases n with
      | zero => simp at hq
      | succ m =>
        simp only [Int.ofNat_eq_natCast] at hc
        simp only [List.range_succ_eq_map, List.map_cons, List.flatMap_cons, List.head?_append,
          List.head?_map, hhead, Option.map_some, Option.some_or, Option.mem_some_iff] at hq
        refine ⟨by omega, ?_⟩
        rw [← hq]
        simp

theorem consecutive_grid {spans : List Span} (h : ∀ s ∈ spans, s.isEmpty = false) :
    Consecutive spans (grid spans) := by
  induction spans with
  | nil => rfl
  | cons s spans ih =>
    have hs : s.isEmpty = false := h s (by simp)
    have hin := ih fun t ht => h t (by simp [ht])
    refine consecutive_grid_from hin (head?_grid fun t ht => h t (by simp [ht])) s.extent s.lo ?_
    simp only [Span.isEmpty, decide_eq_false_iff_not] at hs
    simp only [Span.extent, Int.ofNat_eq_natCast]
    omega

theorem length_grid (spans : List Span) : (grid spans).length = spansVolume spans := by
  induction spans with
  | nil => rfl
  | cons s spans ih =>
    simp [grid, spansVolume, List.length_flatMap, Span.coords, ih, Function.comp_def, List.map_const']

theorem volume_eq_zero_iff (r : Rect) : r.volume = 0 ↔ r.isEmpty = true := by
  have : ∀ spans : List Span, spansVolume spans = 0 ↔ spans.any Span.isEmpty = true := by
    intro spans
    induction spans with
    | nil => simp [spansVolume]
    | cons s spans ih =>
      have hs : s.extent = 0 ↔ s.isEmpty = true := by
        simp only [Span.extent, Span.isEmpty, decide_eq_true_eq]
        omega
      rw [spansVolume, Nat.mul_eq_zero, ih, hs, List.any_cons, Bool.or_eq_true]
  exact this r.spans

theorem firstPoints_eq_take (r : Rect) (n : Nat) : r.firstPoints n = r.points.take n := by
  unfold points firstPoints first?
  by_cases he : r.isEmpty = true
  · have hv := (volume_eq_zero_iff r).mpr he
    rw [if_pos he, hv]
    cases n <;> simp [walk]
  · have hspans : ∀ s ∈ r.spans, s.isEmpty = false := by
      simpa [isEmpty] using he
    rw [if_neg he]
    have hhead := head?_grid hspans
    have hcon := consecutive_grid hspans
    cases hg : grid r.spans with
    | nil => simp [hg] at hhead
    | cons p ps =>
      rw [hg] at hhead hcon
      have hp : p = r.lo := by simpa [lo] using hhead
      subst hp
      have hlen : r.volume = (r.lo :: ps).length := by
        rw [← hg, length_grid]; rfl
      rw [walk_of_consecutive hcon, walk_of_consecutive hcon, hlen, List.take_length]

theorem points_eq_grid (r : Rect) : r.points = grid r.spans := by
  unfold points firstPoints first?
  by_cases he : r.isEmpty = true
  · have hv := (volume_eq_zero_iff r).mpr he
    have hl : (grid r.spans).length = 0 := by
      rw [length_grid]; exact hv
    rw [hv, List.eq_nil_of_length_eq_zero hl]
    rfl
  · have hspans : ∀ s ∈ r.spans, s.isEmpty = false := by
      simpa [isEmpty] using he
    rw [if_neg he]
    have hhead := head?_grid hspans
    have hcon := consecutive_grid hspans
    have hlen : r.volume = (grid r.spans).length := by
      rw [length_grid]; rfl
    cases hg : grid r.spans with
    | nil => simp [hg] at hhead
    | cons p ps =>
      rw [hg] at hhead hcon hlen
      have hp : p = r.lo := by simpa [lo] using hhead
      subst hp
      rw [walk_of_consecutive hcon, hlen, List.take_length]

theorem length_points (r : Rect) : r.points.length = r.volume := by
  rw [points_eq_grid, length_grid]
  rfl

end GridFold.Rect

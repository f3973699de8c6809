import GridFold.Proofs.Box
import GridFold.Proofs.PointSets

/-!
# GridFold.Proofs.Enumeration

Stepping through the points of a rectangle.

* `after` — where a number of steps leads, if none of them finds the end.
* `after_successor` — from the first point the steps meet the points of the rectangle one after the
  other, and behind the last one they find the end.
* `pairwise_lt_points` — so the points come in lexicographic order.
* `wordSuccessor` — the step on coordinates of 64 bits, where adding one wraps around.
  `map_wordSuccessor` says that it takes the exact step: a coordinate is only stepped up below the
  upper end of its span, and that end is a word.
-/

namespace GridFold

namespace Rect

/-! ## Steps -/

/-- Where `n` steps lead, if there is anything to start from and none of them finds the end. -/
def after {β : Type} (step : β → Option β) : Nat → Option β → Option β
  | 0, b => b
  | n + 1, b => after step n (b.bind step)

theorem after_none {β : Type} (step : β → Option β) (n : Nat) : after step n none = none := by
  induction n with
  | zero => rfl
  | succ n ih => exact ih

theorem map_after {β γ : Type} {f : β → γ} {step : β → Option β} {step' : γ → Option γ}
    (h : ∀ b, (step b).map f = step' (f b)) (n : Nat) (b : Option β) :
    (after step n b).map f = after step' n (b.map f) := by
  induction n generalizing b with
  | zero => rfl
  | succ n ih =>
    rw [after, after, ih]
    cases b with
    | none => rfl
    | some b => exact congrArg (after step' n) (h b)

theorem getElem?_walk (spans : List Span) {i n : Nat} (h : i < n) (p : Option Point) :
    (walk spans n p)[i]? = after (successor spans) i p := by
  induction i generalizing n p with
  | zero =>
    obtain ⟨n, rfl⟩ := Nat.exists_eq_add_one_of_ne_zero (Nat.ne_of_gt h)
    cases p <;> rfl
  | succ i ih =>
    obtain ⟨n, rfl⟩ := Nat.exists_eq_add_one_of_ne_zero (Nat.ne_of_gt (Nat.zero_lt_of_lt h))
    cases p with
    | none => exact (after_none _ (i + 1)).symm
    | some p =>
      rw [walk, List.getElem?_cons_succ]
      exact ih (Nat.lt_of_succ_lt_succ h) _

theorem after_successor (r : Rect) (n : Nat) :
    after (successor r.spans) n r.first? = r.points[n]? := by
  calc after (successor r.spans) n r.first?
      = (r.firstPoints (n + 1))[n]? := (getElem?_walk r.spans (Nat.lt_succ_self n) _).symm
    _ = (r.points.take (n + 1))[n]? := by rw [firstPoints_eq_take]
    _ = r.points[n]? := List.getElem?_take_of_lt (Nat.lt_succ_self n)

/-! ## Order and number -/

theorem pairwise_lt_coords (s : Span) : s.coords.Pairwise (· < ·) := by
  rw [Span.coords, List.pairwise_map]
  refine List.pairwise_lt_range.imp ?_
  intro i j hij
  simp only [Int.ofNat_eq_natCast]
  omega

theorem pairwise_lt_grid (spans : List Span) : (grid spans).Pairwise (· < ·) := by
  induction spans with
  | nil => exact List.pairwise_singleton _ _
  | cons s spans ih => exact pairwise_lt_flatMap_cons (pairwise_lt_coords s) ih

theorem pairwise_lt_points (r : Rect) : r.points.Pairwise (· < ·) := by
  rw [points_eq_grid]
  exact pairwise_lt_grid r.spans

theorem volume_eq_prod (r : Rect) :
    r.volume = (r.spans.map fun s => (s.hi - s.lo + 1).toNat).prod := by
  rw [volume]
  induction r.spans with
  | nil => rfl
  | cons s spans ih =>
    rw [spansVolume, ih, List.map_cons, List.prod_cons]
    rfl

theorem points_eq_nil_iff (r : Rect) : r.points = [] ↔ r.isEmpty = true := by
  rw [← List.length_eq_zero_iff, length_points, volume_eq_zero_iff]

/-! ## Coordinates of 64 bits -/

/-- A span whose ends are words of 64 bits. -/
structure WordSpan where
  lo : Int64
  hi : Int64

def WordSpan.exact (s : WordSpan) : Span := ⟨s.lo.toInt, s.hi.toInt⟩

def exactPoint (p : List Int64) : Point := p.map Int64.toInt

/-- The successor of a point, with a coordinate stepped up as a word. -/
def wordSuccessor : List WordSpan → List Int64 → Option (List Int64)
  | s :: spans, c :: p =>
    match wordSuccessor spans p with
    | some q => some (c :: q)
    | none => if c < s.hi then some ((c + 1) :: spans.map WordSpan.lo) else none
  | _, _ => none

def wordFirst? (spans : List WordSpan) : Option (List Int64) :=
  if spans.any fun s => s.hi < s.lo then none else some (spans.map WordSpan.lo)

theorem toInt_add_one {c d : Int64} (h : c < d) : (c + 1).toInt = c.toInt + 1 := by
  have hcd : c.toInt < d.toInt := Int64.lt_iff_toInt_lt.mp h
  have hmax : d.toInt ≤ Int64.maxValue.toInt := d.toInt_le
  have hmin : Int64.minValue.toInt ≤ c.toInt := c.minValue_le_toInt
  rw [Int64.toInt_add, show (1 : Int64).toInt = 1 from rfl]
  rw [show Int64.maxValue.toInt = 2 ^ 63 - 1 from rfl] at hmax
  rw [show Int64.minValue.toInt = -2 ^ 63 from rfl] at hmin
  exact Int.bmod_eq_of_le (by omega) (by omega)

theorem exactPoint_lo (spans : List WordSpan) :
    exactPoint (spans.map WordSpan.lo) = (spans.map WordSpan.exact).map Span.lo := by
  rw [exactPoint, List.map_map, List.map_map]
  rfl

/-- On words the step is the exact one, at every point. -/
theorem map_wordSuccessor (spans : List WordSpan) (p : List Int64) :
    (wordSuccessor spans p).map exactPoint =
      successor (spans.map WordSpan.exact) (exactPoint p) := by
  induction spans generalizing p with
  | nil => rfl
  | cons s spans ih =>
    cases p with
    | nil => rfl
    | cons c p =>
      have hp : exactPoint (c :: p) = c.toInt :: exactPoint p := rfl
      rw [List.map_cons, hp, successor, wordSuccessor, ← ih]
      cases wordSuccessor spans p with
      | some q => rfl
      | none =>
        simp only [Option.map_none, WordSpan.exact, ← Int64.lt_iff_toInt_lt]
        split
        -- The coordinate is below the upper end, a word, so there is a word above it.
        · rename_i hc
          rw [Option.map_some, ← toInt_add_one hc]
          exact congrArg (fun lo => some ((c + 1).toInt :: lo)) (exactPoint_lo spans)
        · rfl

theorem map_wordFirst? {r : Rect} {spans : List WordSpan}
    (h : r.spans = spans.map WordSpan.exact) :
    (wordFirst? spans).map exactPoint = r.first? := by
  have hempty : r.isEmpty = spans.any fun s => s.hi < s.lo := by
    rw [isEmpty, h, List.any_map]
    refine congrArg spans.any (funext fun s => ?_)
    exact decide_eq_decide.mpr Int64.lt_iff_toInt_lt.symm
  rw [wordFirst?, first?, hempty]
  split
  · rfl
  · rw [Option.map_some, exactPoint_lo, lo, h]

/-! ## Main result -/

/-- Stepping through a rectangle from its lowest corner comes to an end after `volume` points, the
product of the extents. These are the points it contains, each once and in lexicographic order; an
empty rectangle has none. Where the corners are words of 64 bits, steps on words meet the same
points, so no step up wraps around. -/
theorem points_in_order (r : Rect) :
    (∀ n, after (successor r.spans) n r.first? = r.points[n]?) ∧
    (∀ n, after (successor r.spans) n r.first? = none ↔ r.volume ≤ n) ∧
    r.points.length = r.volume ∧
    r.volume = (r.spans.map fun s => (s.hi - s.lo + 1).toNat).prod ∧
    (∀ p, p ∈ r.points ↔ r.containsPoint p = true) ∧
    r.points.Nodup ∧ r.points.Pairwise (· < ·) ∧
    (r.points = [] ↔ r.isEmpty = true) ∧
    ∀ spans : List WordSpan, r.spans = spans.map WordSpan.exact →
      ∀ n, (after (wordSuccessor spans) n (wordFirst? spans)).map exactPoint = r.points[n]? := by
  refine ⟨after_successor r, ?_, length_points r, volume_eq_prod r, fun _ => mem_points,
    nodup_points r, pairwise_lt_points r, points_eq_nil_iff r, ?_⟩
  · intro n
    rw [after_successor, List.getElem?_eq_none_iff, length_points]
  · intro spans h n
    rw [map_after (map_wordSuccessor spans), map_wordFirst? h, ← h, after_successor]

/-- Four points at both ends of the words of 64 bits. -/
theorem points_in_order_edge :
    let spans : List WordSpan :=
      [⟨Int64.maxValue - 1, Int64.maxValue⟩, ⟨Int64.minValue, Int64.minValue + 1⟩]
    let r : Rect := ⟨spans.map WordSpan.exact, by decide, by decide⟩
    r.volume = 4 ∧
      (after (wordSuccessor spans) 2 (wordFirst? spans)).map exactPoint =
        some [2 ^ 63 - 1, -2 ^ 63] ∧
      (after (wordSuccessor spans) 4 (wordFirst? spans)).map exactPoint = none := by
  intro spans r
  obtain ⟨_, _, _, hvolume, _, _, _, _, hwords⟩ := points_in_order r
  refine ⟨hvolume, ?_, ?_⟩
  · exact (hwords spans rfl 2).trans (by decide)
  · exact (hwords spans rfl 4).trans (by decide)

end Rect

end GridFold

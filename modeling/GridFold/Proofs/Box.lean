import GridFold.Rect.Points
import GridFold.Store.Basic
import GridFold.Sweep.Leaves
import Mathlib

/-!
# GridFold.Proofs.Box

What a walk through a box visits.

* `boxPositions` — the positions of the operands at every index of a box, in row-major order,
  written without the carry.
* `positions_runsOf` — the runs of a box, laid end to end, are its positions.
* `indices` and `positionAt` — the same positions named by their indices:
  `boxPositions_eq_map` and `getElem_positionAt` say that index `i` is met with every operand at its
  start plus the dot product of `i` with its steps.
* `boxPositions_axesOf` — where the extents are those of spans, the indices are the points of the
  spans and the operands stand at their offsets.
-/

namespace GridFold

/-- The positions of the operands at each index of a box, in row-major order. -/
def boxPositions {k : Nat} : List (Axis k) → Vector Int k → List (Vector Int k)
  | [], origin => [origin]
  | a :: axes, origin =>
    (List.range a.extent).flatMap fun i => boxPositions axes (advance origin a.steps (Int.ofNat i))

/-! ## The runs of a box -/

@[simp]
theorem getElem_advance {k : Nat} (positions steps : Vector Int k) (n : Int) (i : Nat) (h : i < k) :
    (advance positions steps n)[i] = positions[i] + n * steps[i] := by
  simp [advance]

@[simp]
theorem destination_advance {k : Nat} (positions steps : Vector Int (k + 1)) (n : Int) :
    destination (advance positions steps n) = destination positions + n * destination steps :=
  getElem_advance positions steps n 0 _

@[simp]
theorem source_advance {k : Nat} (positions steps : Vector Int (k + 2)) (n : Int) :
    source (advance positions steps n) = source positions + n * source steps :=
  getElem_advance positions steps n 1 _

theorem advance_comm {k : Nat} (positions s t : Vector Int k) (m n : Int) :
    advance (advance positions s m) t n = advance (advance positions t n) s m := by
  ext i hi
  simp only [getElem_advance]
  omega

/-- Rounds that return to their start make the same walk `n` times, one step further each time. -/
theorem rounds_eq {k : Nat} {inner : Vector Int k → List (Run k) × Vector Int k}
    (hback : ∀ p, (inner p).2 = p) (steps : Vector Int k) (n : Nat) (p : Vector Int k) :
    rounds inner steps n p =
      ((List.range n).flatMap fun i => (inner (advance p steps (Int.ofNat i))).1,
        advance p steps (Int.ofNat n)) := by
  induction n generalizing p with
  | zero => simp [rounds, advance_zero]
  | succ n ih =>
    have hstep : ∀ i : Nat,
        advance (advance p steps 1) steps (Int.ofNat i) = advance p steps (Int.ofNat (i + 1)) := by
      intro i
      rw [advance_advance]
      congr 1
      simp only [Int.ofNat_eq_natCast]
      omega
    simp only [rounds, hback, ih, hstep, List.range_succ_eq_map, List.flatMap_cons,
      List.flatMap_map]
    simp [advance_zero]

/-- The carry undoes itself: a sweep ends where it began. -/
theorem sweep_back {k : Nat} (axes : List (Axis k)) (p : Vector Int k) : (sweep axes p).2 = p := by
  induction axes generalizing p with
  | nil => rfl
  | cons a axes ih =>
    cases axes with
    | nil => rfl
    | cons b axes =>
      simp only [sweep]
      rw [rounds_eq ih, advance_advance]
      have : Int.ofNat a.extent + -Int.ofNat a.extent = 0 := by omega
      rw [this, advance_zero]

theorem positions_sweep {k : Nat} (axes : List (Axis k)) (p : Vector Int k) :
    (sweep axes p).1.flatMap Run.positions = boxPositions axes p := by
  induction axes generalizing p with
  | nil => simp [sweep, boxPositions, Run.positions, advance_zero]
  | cons a axes ih =>
    cases axes with
    | nil => simp [sweep, boxPositions, Run.positions, List.map_eq_flatMap]
    | cons b axes =>
      simp only [sweep]
      rw [rounds_eq (sweep_back (b :: axes)), boxPositions]
      simp only [List.flatMap_assoc, ih]

theorem boxPositions_of_empty {k : Nat} {axes : List (Axis k)} {p : Vector Int k}
    (h : axes.any (·.extent == 0) = true) : boxPositions axes p = [] := by
  induction axes generalizing p with
  | nil => simp at h
  | cons a axes ih =>
    rw [List.any_cons, Bool.or_eq_true] at h
    rcases h with ha | hrest
    · have : a.extent = 0 := by simpa using ha
      simp [boxPositions, this]
    · simp [boxPositions, ih hrest]

/-- The runs of a box visit its positions, each once and in row-major order. -/
theorem positions_runsOf {k : Nat} (axes : List (Axis k)) (p : Vector Int k) :
    (runsOf axes p).flatMap Run.positions = boxPositions axes p := by
  unfold runsOf
  split
  · rename_i h
    rw [boxPositions_of_empty h]
    rfl
  · exact positions_sweep axes p

theorem Leaf.positions_eq {k : Nat} (leaf : Leaf k) :
    leaf.positions = boxPositions leaf.axes leaf.origin :=
  positions_runsOf leaf.axes leaf.origin

/-! ## Indices -/

def indices : List Nat → List (List Nat)
  | [] => [[]]
  | n :: extents => (List.range n).flatMap fun i => (indices extents).map (i :: ·)

def positionAt {k : Nat} : List (Axis k) → Vector Int k → List Nat → Vector Int k
  | a :: axes, origin, i :: index => positionAt axes (advance origin a.steps (Int.ofNat i)) index
  | _, origin, _ => origin

theorem mem_indices_cons {n i : Nat} {extents index : List Nat} :
    i :: index ∈ indices (n :: extents) ↔ i < n ∧ index ∈ indices extents := by
  simp [indices]

theorem eq_cons_of_mem_indices {n : Nat} {extents index : List Nat}
    (h : index ∈ indices (n :: extents)) :
    ∃ i rest, index = i :: rest ∧ i < n ∧ rest ∈ indices extents := by
  simp only [indices, List.mem_flatMap, List.mem_range, List.mem_map] at h
  obtain ⟨i, hi, rest, hrest, rfl⟩ := h
  exact ⟨i, rest, rfl, hi, hrest⟩

theorem boxPositions_eq_map {k : Nat} (axes : List (Axis k)) (p : Vector Int k) :
    boxPositions axes p = (indices (axes.map Axis.extent)).map (positionAt axes p) := by
  induction axes generalizing p with
  | nil => rfl
  | cons a axes ih =>
    simp only [boxPositions, List.map_cons, indices, List.map_flatMap, List.map_map, ih]
    rfl

theorem positionAt_advance {k : Nat} (axes : List (Axis k)) (p steps : Vector Int k) (n : Int)
    (index : List Nat) :
    positionAt axes (advance p steps n) index = advance (positionAt axes p index) steps n := by
  induction axes generalizing p index with
  | nil => rfl
  | cons a axes ih =>
    cases index with
    | nil => rfl
    | cons i index => simp only [positionAt, advance_comm p steps, ih]

/-- The dot product of an index with the steps of operand `j`. -/
def dot {k : Nat} (axes : List (Axis k)) (index : List Nat) (j : Nat) (hj : j < k) : Int :=
  (axes.zipWith (fun a i => Int.ofNat i * a.steps[j]) index).sum

theorem getElem_positionAt {k : Nat} (axes : List (Axis k)) (origin : Vector Int k)
    (index : List Nat) (j : Nat) (hj : j < k) :
    (positionAt axes origin index)[j] = origin[j] + dot axes index j hj := by
  induction axes generalizing origin index with
  | nil => simp [positionAt, dot]
  | cons a axes ih =>
    cases index with
    | nil => simp [positionAt, dot]
    | cons i index =>
      rw [positionAt, ih, getElem_advance, dot, dot, List.zipWith_cons_cons, List.sum_cons, Int.add_assoc]

theorem mem_indices_iff {extents index : List Nat} :
    index ∈ indices extents ↔ List.Forall₂ (· < ·) index extents := by
  induction extents generalizing index with
  | nil => simp [indices]
  | cons n extents ih =>
    cases index with
    | nil => simp [indices]
    | cons i index => rw [mem_indices_cons, ih, List.forall₂_cons]

/-- Where an outer entry decides, and the inner ones do where it is the same, the order is
lexicographic. -/
theorem pairwise_lt_flatMap_cons {β : Type} [LT β] {xs : List β} {inner : List (List β)}
    (hxs : xs.Pairwise (· < ·)) (hinner : inner.Pairwise (· < ·)) :
    (xs.flatMap fun x => inner.map (x :: ·)).Pairwise (· < ·) := by
  rw [List.pairwise_flatMap]
  constructor
  · intro x _
    rw [List.pairwise_map]
    exact hinner.imp fun h => List.cons_lt_cons_iff.mpr (.inr ⟨rfl, h⟩)
  · refine hxs.imp ?_
    intro x y hxy p hp q hq
    obtain ⟨p, _, rfl⟩ := List.mem_map.mp hp
    obtain ⟨q, _, rfl⟩ := List.mem_map.mp hq
    exact List.cons_lt_cons_iff.mpr (.inl hxy)

theorem pairwise_lt_indices (extents : List Nat) : (indices extents).Pairwise (· < ·) := by
  induction extents with
  | nil => exact List.pairwise_singleton _ _
  | cons n extents ih => exact pairwise_lt_flatMap_cons List.pairwise_lt_range ih

/-! ## Points -/

def pointAt : List Span → List Nat → Point
  | s :: spans, i :: index => (s.lo + Int.ofNat i) :: pointAt spans index
  | _, _ => []

theorem grid_eq_map (spans : List Span) :
    Rect.grid spans = (indices (spans.map Span.extent)).map (pointAt spans) := by
  induction spans with
  | nil => rfl
  | cons s spans ih =>
    simp only [Rect.grid, Span.coords, List.flatMap_map, ih, List.map_cons, indices,
      List.map_flatMap, List.map_map]
    rfl

theorem pointAt_injective {spans : List Span} {i j : List Nat}
    (hi : i ∈ indices (spans.map Span.extent)) (hj : j ∈ indices (spans.map Span.extent))
    (h : pointAt spans i = pointAt spans j) : i = j := by
  induction spans generalizing i j with
  | nil =>
    rw [List.map_nil, indices, List.mem_singleton] at hi hj
    rw [hi, hj]
  | cons s spans ih =>
    obtain ⟨m, i, rfl, _, hi⟩ := eq_cons_of_mem_indices hi
    obtain ⟨n, j, rfl, _, hj⟩ := eq_cons_of_mem_indices hj
    simp only [pointAt, List.cons.injEq, Int.ofNat_eq_natCast] at h
    rw [ih hi hj h.2, show m = n by omega]

theorem offsetFrom_nil (lo : Point) (p : Point) : offsetFrom lo [] p = 0 := by
  cases lo <;> cases p <;> rfl

/-- The outermost coordinate counts with the outermost stride, or not at all without one. -/
theorem offsetFrom_cons (l c : Int) (lo p : Point) (strides : List Int) :
    offsetFrom (l :: lo) strides (c :: p) =
      (c - l) * strides.headD 0 + offsetFrom lo strides.tail p := by
  cases strides with
  | nil => simp [offsetFrom, offsetFrom_nil]
  | cons s strides => rfl

theorem extents_axesOf {k : Nat} (cost : Vector Int k → Nat) (extents : List Nat)
    (strides : Vector (List Int) k) :
    (axesOf cost extents strides).map Axis.extent = extents := by
  induction extents generalizing strides with
  | nil => rfl
  | cons n extents ih => simp [axesOf, ih]

theorem positionAt_axesOf {k : Nat} (cost : Vector Int k → Nat) (spans : List Span)
    (strides : Vector (List Int) k) (origin : Vector Int k) {index : List Nat}
    (h : index ∈ indices (spans.map Span.extent)) :
    positionAt (axesOf cost (spans.map Span.extent) strides) origin index =
      origin.zipWith (fun o s => o + offsetFrom (spans.map Span.lo) s (pointAt spans index))
        strides := by
  induction spans generalizing strides origin index with
  | nil =>
    ext i hi
    simp [axesOf, positionAt, offsetFrom]
  | cons s spans ih =>
    obtain ⟨n, index, rfl, _, hindex⟩ := eq_cons_of_mem_indices h
    have hn : s.lo + Int.ofNat n - s.lo = Int.ofNat n := by omega
    simp only [List.map_cons, axesOf, positionAt, ih _ _ hindex, pointAt]
    ext j hj
    simp only [Vector.getElem_zipWith, getElem_advance, Vector.getElem_map, offsetFrom_cons, hn,
      Int.add_assoc]

/-- A walk over the extents of spans meets the points of the spans in row-major order. -/
theorem boxPositions_axesOf {k : Nat} (cost : Vector Int k → Nat) (spans : List Span)
    (strides : Vector (List Int) k) (origin : Vector Int k) :
    boxPositions (axesOf cost (spans.map Span.extent) strides) origin =
      (Rect.grid spans).map fun p =>
        origin.zipWith (fun o s => o + offsetFrom (spans.map Span.lo) s p) strides := by
  rw [boxPositions_eq_map, extents_axesOf, grid_eq_map, List.map_map]
  apply List.map_congr_left
  intro index hindex
  exact positionAt_axesOf cost spans strides origin hindex

end GridFold

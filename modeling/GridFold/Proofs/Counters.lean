import GridFold.Proofs.Enumeration

/-!
# GridFold.Proofs.Counters

The walk through a box as a loop with counters.

* `carry` — the step from one run to the next. Every axis but the innermost one has a counter; where its
  rounds are over the counter starts again, the operands are taken back, and the axis around it counts on.
* `leads_rowsOf` — the counters meet the indices of these axes one after the other, with every operand at
  its place, and when the rounds of all axes are over everything stands where it stood at first.
* `runs_in_order` — so the runs of a box visit its indices in row-major order, and the loop ends.
-/

namespace GridFold

variable {k : Nat}

/-- The counters of the axes around the innermost one, and where the operands stand at the start of its
run. -/
structure Row (k : Nat) where
  index : List Nat
  positions : Vector Int k

namespace Row

/-- The row with the counter of one more axis around it. -/
def cons (i : Nat) (row : Row k) : Row k := ⟨i :: row.index, row.positions⟩

def run (inner : Axis k) (row : Row k) : Run k := ⟨row.positions, inner.extent, inner.steps⟩

end Row

/-- The axes inside have come round, and stand where they started. The axis counts on, with the operands one
step further; after its last round it starts again, and takes back all its steps. -/
def Axis.carryOver (a : Axis k) (i : Nat) (row : Row k) : Bool × Row k :=
  let moved := advance row.positions a.steps 1
  if i + 1 < a.extent then (false, ⟨(i + 1) :: row.index, moved⟩)
  else (true, ⟨0 :: row.index, advance moved a.steps (-Int.ofNat a.extent)⟩)

/-- Counts the innermost of the axes on by one, and where it comes round the axis around it. The answer
says whether the outermost axis has come round, too. -/
def carry : List (Axis k) → Row k → Bool × Row k
  | a :: axes, ⟨i :: index, positions⟩ =>
    match carry axes ⟨index, positions⟩ with
    | (false, row) => (false, row.cons i)
    | (true, row) => a.carryOver i row
  | _, row => (true, row)

/-- Where a step leads, unless it has come round. -/
def onward {β : Type} (step : β → Bool × β) (x : β) : Option β :=
  match step x with
  | (false, y) => some y
  | (true, _) => none

def firstRow (outer : List (Axis k)) (origin : Vector Int k) : Row k :=
  ⟨outer.map fun _ => 0, origin⟩

/-- One row for each index of the axes, without the carry. -/
def rowsOf (outer : List (Axis k)) (origin : Vector Int k) : List (Row k) :=
  (indices (outer.map Axis.extent)).map fun index => ⟨index, positionAt outer origin index⟩

theorem rowsOf_cons (a : Axis k) (outer : List (Axis k)) (origin : Vector Int k) :
    rowsOf (a :: outer) origin =
      (List.range a.extent).flatMap fun i =>
        (rowsOf outer (advance origin a.steps (Int.ofNat i))).map (Row.cons i) := by
  simp only [rowsOf, List.map_cons, indices, List.map_flatMap, List.map_map]
  rfl

theorem head?_rowsOf {outer : List (Axis k)} (h : ∀ a ∈ outer, 0 < a.extent) (origin : Vector Int k) :
    (rowsOf outer origin).head? = some (firstRow outer origin) := by
  induction outer generalizing origin with
  | nil => rfl
  | cons a outer ih =>
    obtain ⟨hfirst, hrest⟩ := List.forall_mem_cons.mp h
    obtain ⟨n, hn⟩ := Nat.exists_eq_add_one_of_ne_zero (Nat.ne_of_gt hfirst)
    have hzero : advance origin a.steps (Int.ofNat 0) = origin := advance_zero origin a.steps
    rw [rowsOf_cons, hn, List.range_succ_eq_map, List.flatMap_cons, List.head?_append, List.head?_map,
      ih hrest, hzero]
    rfl

/-! ## Steps in a row -/

/-- The steps lead from each entry to the next one, and from the last one to `last`. -/
def Leads {β : Type} (step : β → Bool × β) (last : Bool × β) : List β → Prop
  | [] => True
  | [x] => step x = last
  | x :: y :: xs => step x = (false, y) ∧ Leads step last (y :: xs)

theorem leads_append {β : Type} {step : β → Bool × β} {last : Bool × β} {xs ys : List β} {y : β}
    (hx : Leads step (false, y) xs) (hy : Leads step last (y :: ys)) :
    Leads step last (xs ++ y :: ys) := by
  induction xs with
  | nil => exact hy
  | cons x xs ih =>
    cases xs with
    | nil => exact ⟨hx, hy⟩
    | cons x' xs => exact ⟨hx.1, ih hx.2⟩

theorem after_of_leads {β : Type} {step : β → Bool × β} {back : β} {xs : List β}
    (h : Leads step (true, back) xs) (n : Nat) :
    Rect.after (onward step) n xs.head? = xs[n]? := by
  induction n generalizing xs with
  | zero => cases xs <;> rfl
  | succ n ih =>
    cases xs with
    | nil => exact Rect.after_none _ _
    | cons x xs =>
      rw [List.head?_cons, Rect.after, Option.bind_some, List.getElem?_cons_succ]
      cases xs with
      | nil =>
        have hx : onward step x = none := by
          rw [onward, show step x = (true, back) from h]
        rw [hx, Rect.after_none, List.getElem?_nil]
      | cons y xs =>
        have hx : onward step x = some y := by
          rw [onward, h.1]
        rw [hx]
        exact ih h.2

/-! ## Rows of a box -/

theorem carry_cons {a : Axis k} {outer : List (Axis k)} {row next : Row k} {round : Bool}
    (h : carry outer row = (round, next)) (i : Nat) :
    carry (a :: outer) (row.cons i) =
      if round then a.carryOver i next else (false, next.cons i) := by
  change carry (a :: outer) ⟨i :: row.index, row.positions⟩ = _
  rw [carry, show carry outer ⟨row.index, row.positions⟩ = (round, next) from h]
  cases round <;> rfl

/-- Around rows that lead back to their start, an outer counter is carried on. -/
theorem leads_cons {a : Axis k} {outer : List (Axis k)} {back : Row k} {rows : List (Row k)}
    (h : Leads (carry outer) (true, back) rows) (i : Nat) :
    Leads (carry (a :: outer)) (a.carryOver i back) (rows.map (Row.cons i)) := by
  induction rows with
  | nil => trivial
  | cons row rows ih =>
    cases rows with
    | nil => exact carry_cons h i
    | cons next rows => exact ⟨carry_cons h.1 i, ih h.2⟩

def roundRows (a : Axis k) (outer : List (Axis k)) (origin : Vector Int k) (i : Nat) : List (Row k) :=
  (rowsOf outer (advance origin a.steps (Int.ofNat i))).map (Row.cons i)

theorem leads_rounds {a : Axis k} {outer : List (Axis k)}
    (hrows : ∀ origin, Leads (carry outer) (true, firstRow outer origin) (rowsOf outer origin))
    (hpos : ∀ b ∈ outer, 0 < b.extent) (origin : Vector Int k) (n i : Nat)
    (hi : i + (n + 1) = a.extent) :
    Leads (carry (a :: outer)) (true, firstRow (a :: outer) origin)
      ((List.range' i (n + 1)).flatMap (roundRows a outer origin)) := by
  have hround : ∀ i : Nat, Leads (carry (a :: outer))
      (a.carryOver i (firstRow outer (advance origin a.steps (Int.ofNat i))))
      (roundRows a outer origin i) := fun i => leads_cons (hrows _) i
  have hon : ∀ i : Nat, advance (advance origin a.steps (Int.ofNat i)) a.steps 1 =
      advance origin a.steps (Int.ofNat (i + 1)) := by
    intro i
    rw [advance_advance]
    rfl
  -- on the rounds that are left: each leads to the first row of the next, the last one takes the operands back
  induction n generalizing i with
  | zero =>
    have hback : advance (advance origin a.steps (Int.ofNat a.extent)) a.steps
        (-Int.ofNat a.extent) = origin := by
      rw [advance_advance, Int.add_right_neg, advance_zero]
    have hlast := hround i
    rw [Axis.carryOver, if_neg (by omega)] at hlast
    simp only [firstRow, hon, show i + 1 = a.extent from hi, hback] at hlast
    rw [List.range'_succ, List.range'_zero, List.flatMap_cons, List.flatMap_nil, List.append_nil]
    exact hlast
  | succ n ih =>
    have hnext := hround i
    rw [Axis.carryOver, if_pos (by omega)] at hnext
    simp only [firstRow, hon] at hnext
    have hothers := ih (i + 1) (by omega)
    have hhead : ((List.range' (i + 1) (n + 1)).flatMap (roundRows a outer origin)).head? =
        some ⟨(i + 1) :: outer.map fun _ => 0, advance origin a.steps (Int.ofNat (i + 1))⟩ := by
      rw [List.range'_succ, List.flatMap_cons, List.head?_append, roundRows, List.head?_map,
        head?_rowsOf hpos]
      rfl
    obtain ⟨others, hothersEq⟩ := List.head?_eq_some_iff.mp hhead
    rw [List.range'_succ, List.flatMap_cons, hothersEq]
    rw [hothersEq] at hothers
    exact leads_append hnext hothers

theorem leads_rowsOf {outer : List (Axis k)} (h : ∀ a ∈ outer, 0 < a.extent) (origin : Vector Int k) :
    Leads (carry outer) (true, firstRow outer origin) (rowsOf outer origin) := by
  induction outer generalizing origin with
  | nil => rfl
  | cons a outer ih =>
    obtain ⟨hfirst, hrest⟩ := List.forall_mem_cons.mp h
    obtain ⟨n, hn⟩ := Nat.exists_eq_add_one_of_ne_zero (Nat.ne_of_gt hfirst)
    have hrounds := leads_rounds (a := a) (fun origin => ih hrest origin) hrest origin n 0 (by omega)
    rw [← hn, ← List.range_eq_range'] at hrounds
    rw [rowsOf_cons]
    exact hrounds

/-! ## Runs -/

theorem sweep_cons (a : Axis k) {axes : List (Axis k)} (h : axes ≠ []) (origin : Vector Int k) :
    (sweep (a :: axes) origin).1 =
      (List.range a.extent).flatMap fun i => (sweep axes (advance origin a.steps (Int.ofNat i))).1 := by
  cases axes with
  | nil => exact absurd rfl h
  | cons b axes =>
    simp only [sweep]
    rw [rounds_eq (sweep_back (b :: axes))]

theorem sweep_rows (outer : List (Axis k)) (inner : Axis k) (origin : Vector Int k) :
    (sweep (outer ++ [inner]) origin).1 = (rowsOf outer origin).map (Row.run inner) := by
  induction outer generalizing origin with
  | nil => rfl
  | cons a outer ih =>
    rw [List.cons_append, sweep_cons a (by simp), rowsOf_cons, List.map_flatMap]
    simp only [ih, List.map_map]
    rfl

theorem runsOf_rows {outer : List (Axis k)} {inner : Axis k}
    (h : ∀ a ∈ outer ++ [inner], 0 < a.extent) (origin : Vector Int k) :
    runsOf (outer ++ [inner]) origin = (rowsOf outer origin).map (Row.run inner) := by
  have hnone : ¬ (outer ++ [inner]).any (·.extent == 0) = true := by
    rw [List.any_eq_true]
    rintro ⟨a, ha, hzero⟩
    exact Nat.ne_of_gt (h a ha) (beq_iff_eq.mp hzero)
  rw [runsOf, if_neg hnone, sweep_rows]

theorem runsOf_eq_nil_iff (axes : List (Axis k)) (origin : Vector Int k) :
    runsOf axes origin = [] ↔ ∃ a ∈ axes, a.extent = 0 := by
  constructor
  · intro hnil
    by_contra hnone
    have hpos : ∀ a ∈ axes, 0 < a.extent := by
      intro a ha
      exact Nat.pos_of_ne_zero fun hzero => hnone ⟨a, ha, hzero⟩
    rcases List.eq_nil_or_concat' axes with rfl | ⟨outer, inner, rfl⟩
    · cases hnil
    · have hhead := head?_rowsOf (fun a ha => hpos a (List.mem_append_left _ ha)) origin
      rw [runsOf_rows hpos, List.map_eq_nil_iff] at hnil
      rw [hnil] at hhead
      cases hhead
  · rintro ⟨a, ha, hzero⟩
    exact if_pos (List.any_eq_true.mpr ⟨a, ha, by rw [hzero]; rfl⟩)

/-- The runs of a box, laid end to end, visit its indices, each once and in lexicographic order, with
every operand at its start plus the dot product of the index with its steps. There are none exactly if an
axis is empty. They come from counting: from one run to the next the counters are carried on, and behind
the last run their rounds are over. -/
theorem runs_in_order (axes : List (Axis k)) (origin : Vector Int k) :
    (runsOf axes origin = [] ↔ ∃ a ∈ axes, a.extent = 0) ∧
    (runsOf axes origin).flatMap Run.positions =
      (indices (axes.map Axis.extent)).map (positionAt axes origin) ∧
    (∀ index j, (hj : j < k) →
      (positionAt axes origin index)[j] = origin[j] + dot axes index j hj) ∧
    (∀ index, index ∈ indices (axes.map Axis.extent) ↔
      List.Forall₂ (· < ·) index (axes.map Axis.extent)) ∧
    (indices (axes.map Axis.extent)).Pairwise (· < ·) ∧
    ∀ outer inner, axes = outer ++ [inner] → (∀ a ∈ axes, 0 < a.extent) → ∀ n,
      (Rect.after (onward (carry outer)) n (some (firstRow outer origin))).map (Row.run inner) =
        (runsOf axes origin)[n]? := by
  refine ⟨runsOf_eq_nil_iff axes origin, ?_, getElem_positionAt axes origin, fun _ => mem_indices_iff,
    pairwise_lt_indices _, ?_⟩
  · rw [positions_runsOf, boxPositions_eq_map]
  · rintro outer inner rfl hpos n
    have houter : ∀ a ∈ outer, 0 < a.extent := fun a ha => hpos a (List.mem_append_left _ ha)
    rw [runsOf_rows hpos, List.getElem?_map, ← after_of_leads (leads_rowsOf houter origin) n,
      head?_rowsOf houter]

/-- Two rows of three, with an operand that lies in row-major order and one that is transposed and starts
at ten. -/
theorem runs_in_order_transposed :
    let axes : List (Axis 2) := [⟨2, #v[3, 1], 0⟩, ⟨3, #v[1, 2], 0⟩]
    (runsOf axes #v[0, 10]).flatMap Run.positions =
        [#v[0, 10], #v[1, 12], #v[2, 14], #v[3, 11], #v[4, 13], #v[5, 15]] ∧
      (runsOf axes #v[0, 10])[1]?.map Run.start = some #v[3, 11] ∧
      (Rect.after (onward (carry (axes.take 1))) 2 (some (firstRow (axes.take 1) #v[0, 10]))).isNone := by
  intro axes
  obtain ⟨_, hvisits, _, _, _, hloop⟩ := runs_in_order axes #v[0, 10]
  have hpos : ∀ a ∈ axes, 0 < a.extent := by
    intro a ha
    rcases List.mem_pair.mp ha with rfl | rfl <;> decide
  have hsteps := hloop (axes.take 1) ⟨3, #v[1, 2], 0⟩ rfl hpos
  refine ⟨hvisits.trans (by decide +kernel), ?_, ?_⟩
  · rw [← hsteps 1]
    decide +kernel
  · rw [← Option.isNone_map, hsteps 2]
    rfl

end GridFold

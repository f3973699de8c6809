import GridFold.Sweep.Axis

/-!
# GridFold.Sweep.Runs

The indices of a box in row-major order, as runs along its innermost axis. The positions of the
operands are carried from run to run: one step is added where an outer index moves on, and all its
steps are taken back where it returns to its start.
-/

namespace GridFold

/-- A stretch of indices along one axis. -/
structure Run (k : Nat) where
  start : Vector Int k
  length : Nat
  steps : Vector Int k

/-- The positions of the operands at each index of the run. -/
def Run.positions {k : Nat} (r : Run k) : List (Vector Int k) :=
  (List.range r.length).map fun i => advance r.start r.steps (Int.ofNat i)

/-- `n` rounds of `inner`, each from where the last one ended plus one step. The second component
is where the walk stands after the last step. -/
def rounds {k : Nat} (inner : Vector Int k → List (Run k) × Vector Int k)
    (steps : Vector Int k) : Nat → Vector Int k → List (Run k) × Vector Int k
  | 0, positions => ([], positions)
  | n + 1, positions =>
    let round := inner positions
    let others := rounds inner steps n (advance round.2 steps 1)
    (round.1 ++ others.1, others.2)

/-- The runs of a box without empty axes, and the positions after the walk has come back. -/
def sweep {k : Nat} : List (Axis k) → Vector Int k → List (Run k) × Vector Int k
  | [], positions => ([⟨positions, 1, Vector.replicate k 0⟩], positions)
  | [a], positions => ([⟨positions, a.extent, a.steps⟩], positions)
  | a :: b :: axes, positions =>
    let walked := rounds (sweep (b :: axes)) a.steps a.extent positions
    (walked.1, advance walked.2 a.steps (-Int.ofNat a.extent))

/-- The runs of a box. A box with an empty axis has none, and one without axes has a single index. -/
def runsOf {k : Nat} (axes : List (Axis k)) (origin : Vector Int k) : List (Run k) :=
  if axes.any (·.extent == 0) then [] else (sweep axes origin).1

end GridFold

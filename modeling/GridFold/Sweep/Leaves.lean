import GridFold.Sweep.Runs

/-!
# GridFold.Sweep.Leaves

Sharing a box out among workers. The box is halved along the axis that scores best, its workers are
halved with it, and so on until a piece has one worker, is small, or has no axis worth halving.
The pieces are the `Leaf`s of the box, in the order of their halves.

Workers are numbered from one. A leaf keeps the first number of its share as its `slot`, so leaves
have different slots.
-/

namespace GridFold

structure Leaf (k : Nat) where
  axes : List (Axis k)
  origin : Vector Int k
  slot : Nat

/-- The positions of the operands at each index of the leaf, in row-major order. -/
def Leaf.positions {k : Nat} (leaf : Leaf k) : List (Vector Int k) :=
  (runsOf leaf.axes leaf.origin).flatMap Run.positions

/-- Moves the destination on to the part of it that belongs to the leaf's slot, where the parts of
two slots in a row lie `spacing` elements apart. -/
def Leaf.inSlot {k : Nat} (spacing : Int) (leaf : Leaf (k + 1)) : Leaf (k + 1) :=
  let start := destination leaf.origin + spacing * (Int.ofNat leaf.slot - 1)
  { leaf with origin := leaf.origin.set 0 start }

/-- What halving an axis saves. -/
def Axis.score {k : Nat} (a : Axis k) : Nat := (a.extent - 1) * a.cost

structure Cut (k : Nat) where
  before : List (Axis k)
  axis : Axis k
  after : List (Axis k)

/-- The axes with the chosen one at another extent. -/
def Cut.resized {k : Nat} (c : Cut k) (extent : Nat) : List (Axis k) :=
  c.before ++ { c.axis with extent := extent } :: c.after

/-- The axis with the best score, the last one of those that share it. -/
def bestCut? {k : Nat} : List (Axis k) → Option (Cut k)
  | [] => none
  | a :: axes =>
    match bestCut? axes with
    | some c =>
      if a.score ≤ c.axis.score then some { c with before := a :: c.before }
      else some ⟨[], a, axes⟩
    | none => some ⟨[], a, axes⟩

/-- The leaves of a box that has `workers` workers, numbered from `slot` on. Boxes of at most
`minLength` indices stay whole. -/
def leavesOf {k : Nat} (minLength workers slot : Nat) (axes : List (Axis k))
    (origin : Vector Int k) : List (Leaf k) :=
  if workers ≤ 1 ∨ boxVolume axes ≤ minLength then [⟨axes, origin, slot⟩]
  else
    match bestCut? axes with
    | none => [⟨axes, origin, slot⟩]
    | some c =>
      if c.axis.cost = 0 ∨ c.axis.extent ≤ 1 then [⟨axes, origin, slot⟩]
      else
        let half := c.axis.extent / 2
        leavesOf minLength (workers / 2) slot (c.resized half) origin
          ++ leavesOf minLength (workers - workers / 2) (slot + workers / 2)
            (c.resized (c.axis.extent - half)) (advance origin c.axis.steps (Int.ofNat half))
termination_by workers

end GridFold

import GridFold.Store.View
import GridFold.Sweep.Executor

/-!
# GridFold.Pass.Basic

How a kernel changes a store. A kernel first makes a `Plan`, the passes over the destination that it
will take; where it refuses its operands there is no plan, and nothing has been touched. A `Pass` is
a box, a starting position for each operand, and the edit to make at each index.

An executor shares the box of a pass out into leaves and takes them one after the other.
`Pass.runLeaves` takes any list of leaves, so that other orders can be compared with it.
-/

namespace GridFold

structure Pass (α : Type) where
  sources : Nat
  axes : List (Axis (sources + 1))
  origin : Vector Int (sources + 1)
  body : Vector Int (sources + 1) → Edit α Unit

namespace Pass

variable {α : Type}

/-- A pass that moves through all the windows together. -/
def through {k : Nat} (cost : Vector Int (k + 1) → Nat) (extents : List Nat)
    (windows : Vector Window (k + 1)) (body : Vector Int (k + 1) → Edit α Unit) : Pass α where
  sources := k
  axes := axesOf cost extents (windows.map Window.strides)
  origin := windows.map Window.base
  body := body

def runLeaf (p : Pass α) (leaf : Leaf (p.sources + 1)) : Edit α Unit := leaf.positions.forM p.body

def runLeaves (p : Pass α) (leaves : List (Leaf (p.sources + 1))) : Edit α Unit :=
  leaves.forM p.runLeaf

def run (e : Executor) (p : Pass α) : Edit α Unit := p.runLeaves (e.schedule p.axes p.origin)

end Pass

/-- The passes to take, one after the other. -/
abbrev Plan (α : Type) := List (Pass α)

/-- A change to a store that can also be refused. -/
abbrev Kernel (α : Type) := EStateM (Failure GridError) (Store α)

def Executor.perform {α : Type} (e : Executor) (plan : Except GridError (Plan α)) :
    Kernel α Unit := fun s =>
  match plan with
  | .error cause => .error (.refused cause) s
  | .ok passes =>
    match passes.forM (Pass.run e) s with
    | .ok () s => .ok () s
    | .error t s => .error (.trapped t) s

/-- The cost of an axis where every operand may be split along it. -/
def sharedCost {k : Nat} (steps : Vector Int k) : Nat := costOfSteps steps.toList

def checkSameRect (a b : Rect) : Except GridError Unit :=
  if a.rank ≠ b.rank then .error (.rankMismatch a.rank b.rank)
  else if a ≠ b then .error (.rectMismatch a b)
  else .ok ()

def checkTaskRank (rank min : Nat) : Except GridError Unit :=
  if rank < min ∨ maxTaskRank < rank then .error (.unsupportedRank rank min maxTaskRank)
  else .ok ()

end GridFold

import GridFold.Sweep.Leaves
import GridFold.Sweep.Policy

/-!
# GridFold.Sweep.Executor

An executor is a policy and the number of workers there are. It schedules a box: the leaves of the
box where it is shared out, and otherwise the whole box as a single leaf.
-/

namespace GridFold

structure Executor where
  policy : Policy
  workers : Nat

namespace Executor

/-- The workers that share a box of `volume` indices, if it is shared out. -/
def parallelWorkers? (e : Executor) (volume : Nat) : Option Nat :=
  if e.policy.strategy = .parallel ∧ e.policy.minParallelLength < volume ∧ 1 < e.workers then
    some e.workers
  else none

def schedule {k : Nat} (e : Executor) (axes : List (Axis k)) (origin : Vector Int k) :
    List (Leaf k) :=
  match e.parallelWorkers? (boxVolume axes) with
  | some workers => leavesOf e.policy.minParallelLength workers 1 axes origin
  | none => [⟨axes, origin, 1⟩]

end Executor

end GridFold

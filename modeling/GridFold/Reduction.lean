import GridFold.Element.Basic

/-!
# GridFold.Reduction

A reduction folds elements with a binary operator that has an identity. The kernels take any
`Operator`; the four named ones are the values of `Reduction`.

* `Operator.fold` — one step of a fold. In `exclusive` mode the accumulator becomes the combined
  value. In `relaxed` mode an accumulator that compares equal to the combined value stays, so
  folding `0.0` into `-0.0` with a sum leaves `-0.0`.
* `Operator.max` and `Operator.min` pass an unordered value on: the left one if it is unordered,
  otherwise the right one. Of two values that compare equal they keep the left.
-/

namespace GridFold

inductive FoldMode where
  | exclusive
  | relaxed
  deriving DecidableEq

structure Operator (α : Type) where
  identity : α
  combine : α → α → α

namespace Operator

variable {α : Type} [Element α]

def fold (op : Operator α) (mode : FoldMode) (acc value : α) : α :=
  let next := op.combine acc value
  match mode with
  | .exclusive => next
  | .relaxed => if Element.same next acc then acc else next

/-- The right operand if it wins over the left one, otherwise the left. An unordered operand is
passed on before `wins` is asked, the left one first. -/
def choose (wins : α → α → Bool) (lhs rhs : α) : α :=
  if Element.isUnordered lhs then lhs
  else if Element.isUnordered rhs then rhs
  else if wins rhs lhs then rhs
  else lhs

def max : Operator α where
  identity := Element.lowest
  combine := choose fun a b => Element.less b a

def min : Operator α where
  identity := Element.highest
  combine := choose fun a b => Element.less a b

def sum : Operator α where
  identity := Element.zero
  combine := Element.add

def prod : Operator α where
  identity := Element.one
  combine := Element.mul

end Operator

inductive Reduction where
  | max
  | min
  | sum
  | prod
  deriving DecidableEq

namespace Reduction

/-- Every reduction, in the order of its operation codes. -/
def all : List Reduction := [max, min, sum, prod]

def name : Reduction → String
  | max => "max"
  | min => "min"
  | sum => "sum"
  | prod => "prod"

def ofName? (name : String) : Option Reduction := all.find? (·.name == name)

def operator {α : Type} [Element α] : Reduction → Operator α
  | max => .max
  | min => .min
  | sum => .sum
  | prod => .prod

end Reduction

end GridFold

import GridFold.Pass.Basic
import GridFold.Reduction

/-!
# GridFold.Pass.FanIn

One node of a reduction tree: the partial results of up to sixteen siblings are folded, in their
order, into one destination. The fold starts with the first sibling's element, so the identity takes
no part in it, and a sibling that is absent is simply not among the inputs.
-/

namespace GridFold

def maxFanIn : Nat := 16

def checkFanIn (inputs : Nat) : Except GridError Unit :=
  if maxFanIn < inputs then .error (.fanInTooWide inputs maxFanIn) else .ok ()

/-- The elements of several views, each at its own position. -/
def elementsAt {α : Type} (views : List (View α)) (positions : List Int) : Except Trap (List α) :=
  (views.zip positions).mapM fun vp => vp.1.element vp.2

def Pass.fanIn {α : Type} [Element α] (op : Operator α) (dest : Target) (first : View α)
    (others : List (View α)) : Pass α :=
  let windows : Vector Window (others.length + 2) :=
    ⟨(dest.window :: first.window :: others.map View.window).toArray, by simp⟩
  .through sharedCost dest.rect.extents windows fun pos => do
    let value ← Edit.ofExcept (first.element (source pos))
    let values ← Edit.ofExcept (elementsAt others (pos.toList.drop 2))
    Edit.writeAt (destination pos) (values.foldl (op.fold .exclusive) value)

def Plan.fanIn {α : Type} [Element α] (op : Operator α) (dest : Target) (inputs : List (View α)) :
    Except GridError (Plan α) :=
  if dest.isEmpty then .ok []
  else
    match inputs with
    | [] => .error .noFanInInputs
    | first :: others => do
      checkFanIn (others.length + 1)
      dest.require .writeDiscard
      (first :: others).forM fun v => checkSameRect dest.rect v.rect
      return [.fanIn op dest first others]

end GridFold

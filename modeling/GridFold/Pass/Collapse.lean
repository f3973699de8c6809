import GridFold.Pass.Elementwise

/-!
# GridFold.Pass.Collapse

Folding one axis of a source into a destination that does not have it. The destination is filled with
the seed first. Then it is walked with the coordinates of the source: it gets the folded axis with
step zero, so all source elements along that axis meet the same destination element, in ascending
order. An axis on which the destination stands still is never halved.
-/

namespace GridFold

/-- The cost of an axis that may only be split where the destination moves along it. -/
def foldCost {k : Nat} (steps : Vector Int (k + 1)) : Nat :=
  if destination steps = 0 then 0 else costOfSteps steps.toList

/-- The points of a source, without the folded axis, all lie in the destination. -/
def checkProjection (dest src : Rect) (axis : Nat) : Except GridError Unit :=
  if src.isEmpty then .ok ()
  else do
    let projected ← src.removeAxis axis
    if dest.contains projected then .ok ()
    else throw (.rectMismatch dest projected)

/-- The destination with the source's coordinates on the folded axis, seen from the source's lowest
corner. -/
def Target.alongSource (dest : Target) (src : Rect) (axis : Nat) (span : Span) :
    Except GridError Window :=
  match dest.window.broadcastAxis axis span with
  | .ok w => .ok { w with base := w.base + w.offsetOf src.lo }
  | .error e => .error e

/-- Folds the source elements over each point into the destination. -/
def Pass.foldInto {α : Type} [Element α] (op : Operator α) (folded : Window) (src : View α) :
    Pass α :=
  .through foldCost src.rect.extents #v[folded, src.window] fun pos => do
    let acc ← Edit.readAt (destination pos)
    let value ← Edit.ofExcept (src.element (source pos))
    Edit.writeAt (destination pos) (op.fold .exclusive acc value)

/-- Each destination point becomes the seed, or the identity without one, with the source elements
over it folded in. -/
def Plan.collapse {α : Type} [Element α] (op : Operator α) (dest : Target) (src : View α)
    (axis : Nat) (seed : Option α) : Except GridError (Plan α) :=
  if dest.isEmpty then .ok []
  else do
    checkTaskRank src.rank 2
    let some span := src.rect.spans[axis]? | throw (.invalidAxis axis src.rank)
    if dest.rank + 1 ≠ src.rank then
      throw (.rankMismatch (dest.rank + 1) src.rank)
    dest.require .readWrite
    checkProjection dest.rect src.rect axis
    let seeding := Pass.fill dest (seed.getD op.identity)
    if src.isEmpty then
      return [seeding]
    let folded ← dest.alongSource src.rect axis span
    return [seeding, .foldInto op folded src]

end GridFold

import GridFold.Store.Basic

/-!
# GridFold.Store.Window

A window shows a rectangle of a store: the position of its lowest corner and one stride for each of
its axes. The rectangle either has the rank of the store, or it lies in a `Slice`: one further axis
of the store is held at a fixed coordinate.

A window of an empty rectangle has nothing to show, so its corners are not looked at.
-/

namespace GridFold

/-- One axis of a store, held at a coordinate. -/
structure Slice where
  axis : Nat
  coord : Int
  deriving DecidableEq

structure Window where
  rect : Rect
  base : Int
  strides : List Int

namespace Window

def rank (w : Window) : Nat := w.rect.rank

def isEmpty (w : Window) : Bool := w.rect.isEmpty

/-- The distance of a point's element from the element of the lowest corner. The point is not
checked. -/
def offsetOf (w : Window) (p : Point) : Int := offsetFrom w.rect.lo w.strides p

/-- Where in the data the element of a point lies. -/
def position (w : Window) (p : Point) : Except Trap Int :=
  if w.rect.containsPoint p then .ok (w.base + w.offsetOf p)
  else .error (.pointOutside p w.rect)

/-- The window with one more axis, along which all coordinates of `span` show the same elements. -/
def broadcastAxis (w : Window) (axis : Nat) (span : Span) : Except GridError Window :=
  match w.rect.insertAxis axis span with
  | .ok rect => .ok ⟨rect, w.base, w.strides.insertIdx axis 0⟩
  | .error e => .error e

end Window

/-- The rectangle among the coordinates of the store. -/
def Rect.placed (rect : Rect) : Option Slice → Except GridError Rect
  | some slice => rect.insertAxis slice.axis ⟨slice.coord, slice.coord⟩
  | none => .ok rect

/-- The strides of the axes that a slice leaves. -/
def sliceStrides (strides : List Int) : Option Slice → List Int
  | some slice => strides.eraseIdx slice.axis
  | none => strides

namespace Store

variable {α : Type}

/-- The ranks of a rectangle and its slice fit the store. -/
def checkPlace (s : Store α) (rect : Rect) : Option Slice → Except GridError Unit
  | some slice =>
    if s.rank ≠ rect.rank + 1 then .error (.rankMismatch (rect.rank + 1) s.rank)
    else if s.rank ≤ slice.axis then .error (.invalidAxis slice.axis s.rank)
    else .ok ()
  | none =>
    if s.rank ≠ rect.rank then .error (.rankMismatch rect.rank s.rank)
    else .ok ()

def window (s : Store α) (rect : Rect) (slice : Option Slice) : Except GridError Window := do
  s.checkPlace rect slice
  let full ← rect.placed slice
  let strides := sliceStrides s.strides slice
  if rect.isEmpty then
    return ⟨rect, 0, strides⟩
  if s.bounds.contains full then
    return ⟨rect, offsetFrom s.bounds.lo s.strides full.lo, strides⟩
  throw (.outOfBounds full s.bounds)

end Store

end GridFold

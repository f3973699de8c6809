import GridFold.Rect.Measure
import GridFold.Store.Basic

/-!
# GridFold.Store.Allocation

Stores as they are made and looked at point by point, in a given arithmetic.

An `Allocation` has the strides and the number of elements that were computed for its bounds. Where these
are the exact ones it is a `Store`, and `store?` gives that store; windows and kernels work on stores.
-/

namespace GridFold

/-- Row-major strides of extents, worked out from the last axis on. -/
def rowMajorStridesIn (a : Arithmetic) : List Nat → Except Trap (List Int)
  | [] => .ok []
  | [_] => .ok [1]
  | _ :: extent :: inner => do
    let strides ← rowMajorStridesIn a (extent :: inner)
    let stride ← a.signed (strides.headD 1 * a.ofUnsigned extent)
    return stride :: strides

def Rect.stridesIn (a : Arithmetic) (r : Rect) : Except Trap (List Int) := do
  let extents ← r.extentsIn a
  rowMajorStridesIn a extents

/-- The distance of a point from the corner `lo`, each coordinate weighted by its stride and added to
`total`. -/
def offsetIn (a : Arithmetic) : Int → Point → List Int → Point → Except Trap Int
  | total, l :: lo, s :: strides, p :: point => do
    let distance ← a.signed (p - l)
    let step ← a.signed (distance * s)
    let total ← a.signed (total + step)
    offsetIn a total lo strides point
  | total, _, _, _ => .ok total

structure Allocation (α : Type) where
  bounds : Rect
  strides : List Int
  data : Array α

namespace Allocation

variable {α : Type}

def rank (s : Allocation α) : Nat := s.bounds.rank

def length (s : Allocation α) : Nat := s.data.size

def isEmpty (s : Allocation α) : Bool := s.length == 0

/-- Every element is the value. One row of memory must have room for them, at `itemSize` bytes each. -/
def filled (a : Arithmetic) (itemSize : Nat) (bounds : Rect) (value : α) :
    Except Trap (Allocation α) := do
  let strides ← bounds.stridesIn a
  let volume ← bounds.volumeIn a
  match Trap.ofRow? volume itemSize with
  | none => return ⟨bounds, strides, .replicate volume value⟩
  | some t => throw t

/-- The given elements, in row-major order. -/
def ofList (a : Arithmetic) (bounds : Rect) (elements : List α) :
    Except (Failure GridError) (Allocation α) := do
  let volume ← (bounds.volumeIn a).mapError .trapped
  if elements.length ≠ volume then
    throw (.refused (.lengthMismatch elements.length volume))
  let strides ← (bounds.stridesIn a).mapError .trapped
  return ⟨bounds, strides, elements.toArray⟩

/-- The element of each point `p` is `f p`. -/
def ofFn (a : Arithmetic) (bounds : Rect) (f : Point → α) : Except Trap (Allocation α) := do
  let strides ← bounds.stridesIn a
  return ⟨bounds, strides, (bounds.points.map f).toArray⟩

/-- Where in the data the element of a point lies. -/
def linearIndex (a : Arithmetic) (s : Allocation α) (p : Point) : Except Trap Nat :=
  if s.bounds.containsPoint p then do
    let offset ← offsetIn a 0 s.bounds.lo s.strides p
    return a.ofSigned offset
  else .error (.pointOutside p s.bounds)

def get (a : Arithmetic) (s : Allocation α) (p : Point) : Except Trap α := do
  let index ← s.linearIndex a p
  match s.data[index]? with
  | some value => return value
  | none => throw (.elementOutside index s.length)

def writeAt (index : Nat) (value : α) : EStateM Trap (Allocation α) Unit := fun s =>
  if h : index < s.data.size then .ok () { s with data := s.data.set index value h }
  else .error (.elementOutside index s.length) s

def set (a : Arithmetic) (p : Point) (value : α) : EStateM Trap (Allocation α) Unit := fun s =>
  match s.linearIndex a p with
  | .ok index => writeAt index value s
  | .error t => .error t s

/-- Bounds, strides and elements, with the elements written by `elementText`. -/
def text (elementText : α → String) (s : Allocation α) : String :=
  "Store \x7b bounds: " ++ s.bounds.text ++ ", strides: " ++ bracketed (s.strides.map toString)
    ++ ", data: " ++ bracketed (s.data.toList.map elementText) ++ " \x7d"

/-- The store with these elements, if there is one for each point and the strides are the exact ones. -/
def store? (s : Allocation α) : Option (Store α) :=
  if h : s.data.size = s.bounds.volume ∧
      s.strides = rowMajorStrides (s.bounds.extents.map Int.ofNat) then
    some ⟨s.bounds, ⟨s.data, h.1⟩⟩
  else none

end Allocation

def Store.allocation {α : Type} (s : Store α) : Allocation α := ⟨s.bounds, s.strides, s.data.toArray⟩

end GridFold

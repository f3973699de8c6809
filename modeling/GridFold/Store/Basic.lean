import GridFold.Rect.Axis
import GridFold.Rect.Points

/-!
# GridFold.Store.Basic

A `Store` holds one element for each point of its bounds, in row-major order; that there are exactly
as many is part of its type. A point's position is the dot product of its distance from the lowest
corner with the row-major strides.

Changing a store is an `Edit`: a step that reads and writes elements, and that leaves behind what
it has written also where it traps.
-/

namespace GridFold

/-- How far apart neighbours on each axis lie: one on the last axis, and the product of the extents
of all axes behind it on any other. -/
def rowMajorStrides : List Int → List Int
  | [] => []
  | _ :: inner => inner.foldr (· * ·) 1 :: rowMajorStrides inner

/-- The distance of a point from the corner `lo`, each coordinate weighted by its stride. Axes that
one of the three lists does not have count nothing. -/
def offsetFrom : Point → List Int → Point → Int
  | l :: lo, s :: strides, p :: point => (p - l) * s + offsetFrom lo strides point
  | _, _, _ => 0

structure Store (α : Type) where
  bounds : Rect
  data : Vector α bounds.volume

namespace Store

variable {α : Type}

def rank (s : Store α) : Nat := s.bounds.rank

def length (s : Store α) : Nat := s.bounds.volume

def strides (s : Store α) : List Int := rowMajorStrides (s.bounds.extents.map Int.ofNat)

def toList (s : Store α) : List α := s.data.toList

def filled (bounds : Rect) (value : α) : Store α := ⟨bounds, Vector.replicate bounds.volume value⟩

/-- Where in the data the element of a point lies. -/
def linearIndex (s : Store α) (p : Point) : Except Trap Int :=
  if s.bounds.containsPoint p then .ok (offsetFrom s.bounds.lo s.strides p)
  else .error (.pointOutside p s.bounds)

def element (s : Store α) (position : Int) : Except Trap α :=
  if h : 0 ≤ position ∧ position.toNat < s.bounds.volume then
    .ok s.data[position.toNat]
  else .error (.elementOutside position s.length)

def get (s : Store α) (p : Point) : Except Trap α :=
  match s.linearIndex p with
  | .ok position => s.element position
  | .error t => .error t

end Store

/-- A step that may change a store. -/
abbrev Edit (α : Type) := EStateM Trap (Store α)

namespace Edit

variable {α : Type}

/-- A result that does not depend on the store, or the trap met on the way to it. -/
def ofExcept {β : Type} : Except Trap β → Edit α β
  | .ok b => fun s => .ok b s
  | .error t => fun s => .error t s

def readAt (position : Int) : Edit α α := fun s =>
  match s.element position with
  | .ok v => .ok v s
  | .error t => .error t s

def writeAt (position : Int) (value : α) : Edit α Unit := fun s =>
  if h : 0 ≤ position ∧ position.toNat < s.bounds.volume then
    .ok () { s with data := s.data.set position.toNat value h.2 }
  else .error (.elementOutside position s.length) s

/-- A write inside the data changes the element at its position and nothing else. -/
theorem writeAt_inside {s : Store α} {i : Int} (h : 0 ≤ i ∧ i.toNat < s.bounds.volume)
    (v : α) : ∃ s', writeAt i v s = .ok () s' ∧ s'.bounds = s.bounds ∧
      ∀ j, s'.element j = if j = i then .ok v else s.element j := by
  refine ⟨{ s with data := s.data.set i.toNat v h.2 }, by rw [writeAt, dif_pos h], rfl, ?_⟩
  intro j
  simp only [Store.element, Store.length, Vector.getElem_set]
  by_cases hj : j = i
  · subst hj
    simp [h]
  · by_cases hin : 0 ≤ j ∧ j.toNat < s.bounds.volume
    · have : i.toNat ≠ j.toNat := by omega
      simp [hj, hin, this]
    · simp [hj, hin]

end Edit

end GridFold

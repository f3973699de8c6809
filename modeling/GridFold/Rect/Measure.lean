import GridFold.Arithmetic
import GridFold.Rect.Axis

/-!
# GridFold.Rect.Measure

Extents and volume as they are computed, in a given arithmetic. `Span.extent` and `Rect.volume` are the
exact numbers.
-/

namespace GridFold

namespace Span

/-- The ends are subtracted as signed words, and the sum is read as an unsigned one. -/
def extentIn (a : Arithmetic) (s : Span) : Except Trap Nat :=
  if s.isEmpty then .ok 0
  else do
    let distance ← a.signed (s.hi - s.lo)
    let count ← a.signed (distance + 1)
    return a.ofSigned count

end Span

namespace Rect

def extentIn (a : Arithmetic) (r : Rect) (axis : Nat) : Except Trap Nat :=
  match r.spans[axis]? with
  | some s => s.extentIn a
  | none => .error (.axisOutside axis r.rank)

def extentsIn (a : Arithmetic) (r : Rect) : Except Trap (List Nat) := r.spans.mapM (Span.extentIn a)

/-- The product with one more extent. -/
def timesExtent (a : Arithmetic) (volume : Nat) (s : Span) : Except Trap Nat := do
  let extent ← s.extentIn a
  a.unsigned (volume * extent)

def volumeIn (a : Arithmetic) (r : Rect) : Except Trap Nat := r.spans.foldlM (timesExtent a) 1

/-- The coordinates from zero up to an extent, which is given as an unsigned word and read as a signed
one. -/
def spanOfExtent (a : Arithmetic) (extent : Nat) : Except Trap Span := do
  let hi ← a.signed (a.ofUnsigned extent - 1)
  return ⟨0, hi⟩

/-- The rectangle of the given extents with its lowest corner at the origin. An axis whose extent
reads as a negative number is empty. -/
def ofExtents (a : Arithmetic) (extents : List Nat) : Except (Failure GridError) Rect := do
  let spans ← (extents.mapM (spanOfExtent a)).mapError .trapped
  (ofSpans spans).mapError .refused

end Rect

end GridFold

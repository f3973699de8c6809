import GridFold.Wire.Bytes

/-!
# GridFold.Wire.Field

The fields that arguments are made of. A `Field` is written as words; a `FieldKind` says which field
to read next.

* A *dimension* is a four-byte number. A negative one stands for no axis at all.
* A *coordinate* is an eight-byte number.
* A *rectangle* is its lowest corner followed by its highest. Its rank is not written with it.
* A *shape* is the rank, as a dimension, followed by the rectangle. Only ranks of task arrays can be
  read back.
-/

namespace GridFold.Wire

inductive Field where
  | int32 (value : Int32)
  | int64 (value : Int64)
  | dimension (axis : Option Nat)
  | rect (rect : Rect)
  | shape (rect : Rect)
  deriving DecidableEq

/-- The number a dimension is written as. An axis beyond 31 bits loses its high bits. -/
def dimensionCode : Option Nat → Int32
  | none => -1
  | some axis => Int32.ofNat axis

def coordinateSize : Nat := 8

def coordinateWords (r : Rect) : List Word := (r.lo ++ r.hi).map fun c => .int64 (Int64.ofInt c)

namespace Field

def words : Field → List Word
  | int32 value => [.int32 value]
  | int64 value => [.int64 value]
  | dimension axis => [.int32 (dimensionCode axis)]
  | rect r => coordinateWords r
  | shape r => .int32 (dimensionCode (some r.rank)) :: coordinateWords r

def append (buffer : List UInt8) (f : Field) : List UInt8 := f.words.foldl Word.append buffer

end Field

def encode (fields : List Field) : List UInt8 := fields.foldl Field.append []

namespace Reader

/-- A number that is not negative, if it is one. -/
def natOf? (raw : Int32) : Option Nat :=
  if raw.toInt < 0 then none else some raw.toInt.toNat

def dimension : Reader (Option Nat) := do
  let raw ← int32
  return natOf? raw

def rank : Reader Nat := do
  let raw ← int32
  match natOf? raw with
  | some r =>
    if 0 < r ∧ r ≤ maxTaskRank then return r
    else throw (.unsupportedRank raw)
  | none => throw (.unsupportedRank raw)

def coordinates : Nat → Reader Point
  | 0 => return []
  | n + 1 => do
    let c ← int64
    let others ← coordinates n
    return c.toInt :: others

def rect (rank : Nat) : Reader Rect := do
  let lo ← coordinates rank
  let hi ← coordinates rank
  match Rect.ofCorners lo hi with
  | .ok r => return r
  | .error cause => throw (.rect cause)

def shape : Reader Rect := do
  let r ← rank
  rect r

end Reader

inductive FieldKind where
  | int32
  | int64
  | dimension
  | rank
  | rect (rank : Nat)
  | shape
  deriving DecidableEq

namespace FieldKind

/-- Reads one field. A rank comes back as the dimension it is. -/
def read : FieldKind → Reader Field
  | int32 => do
    let value ← Reader.int32
    return .int32 value
  | int64 => do
    let value ← Reader.int64
    return .int64 value
  | dimension => do
    let axis ← Reader.dimension
    return .dimension axis
  | rank => do
    let r ← Reader.rank
    return .dimension (some r)
  | rect n => do
    let r ← Reader.rect n
    return .rect r
  | shape => do
    let r ← Reader.shape
    return .shape r

/-- A rectangle reserves a row for the coordinates of a corner before it is read, whatever the
buffer holds. -/
def trap? : FieldKind → Option Trap
  | rect n => Trap.ofRow? n coordinateSize
  | _ => none

/-- Reads fields one after the other, and goes on where one cannot be read. Each answer comes with
the offset it leaves. A field that traps leaves no answers at all. -/
def readAll : List FieldKind → Cursor → Except Trap (List (Except WireError Field × Nat))
  | [], _ => .ok []
  | k :: kinds, c =>
    match k.trap? with
    | some t => .error t
    | none =>
      match k.read c with
      | .ok f c => (readAll kinds c).map ((.ok f, c.offset) :: ·)
      | .error e c => (readAll kinds c).map ((.error e, c.offset) :: ·)

end FieldKind

end GridFold.Wire

import GridFold.Wire.Field

/-!
# GridFold.Wire.Args

The arguments of the task kinds, as fields in a fixed order. What lies behind the last field is not
looked at.
-/

namespace GridFold.Wire

/-- The result of a reader at the start of a buffer. -/
def decodeWith {β : Type} (reader : Reader β) (bytes : List UInt8) : Except WireError β :=
  match reader (Cursor.start bytes) with
  | .ok b _ => .ok b
  | .error e _ => .error e

/-- Which axis of `inRect` is folded, and the axis of the output store, if any, on which the launch
picks a coordinate. -/
structure CollapseArgs where
  axis : Nat
  collapseDim : Option Nat
  initRect : Rect
  inRect : Rect
  deriving DecidableEq

namespace CollapseArgs

def fields (a : CollapseArgs) : List Field :=
  [.int32 (Int32.ofNat a.axis), .dimension a.collapseDim, .shape a.initRect, .shape a.inRect]

def encode (a : CollapseArgs) : List UInt8 := Wire.encode a.fields

def read : Reader CollapseArgs := do
  let raw ← Reader.int32
  match Reader.natOf? raw with
  | none => throw (.negativeAxis raw)
  | some axis =>
    let collapseDim ← Reader.dimension
    let initRect ← Reader.shape
    let inRect ← Reader.shape
    return ⟨axis, collapseDim, initRect, inRect⟩

def decode (bytes : List UInt8) : Except WireError CollapseArgs := decodeWith read bytes

end CollapseArgs

structure ShapeArgs where
  rect : Rect
  deriving DecidableEq

namespace ShapeArgs

def fields (a : ShapeArgs) : List Field := [.shape a.rect]

def encode (a : ShapeArgs) : List UInt8 := Wire.encode a.fields

def read : Reader ShapeArgs := do
  let rect ← Reader.shape
  return ⟨rect⟩

def decode (bytes : List UInt8) : Except WireError ShapeArgs := decodeWith read bytes

end ShapeArgs

/-- How many siblings a node of a reduction tree has room for, and the axes of the output and the
input stores, if any, on which the launch picks coordinates. -/
structure RadixArgs where
  radix : Int32
  extraDimOut : Option Nat
  extraDimIn : Option Nat
  rect : Rect
  deriving DecidableEq

namespace RadixArgs

def fields (a : RadixArgs) : List Field :=
  [.int32 a.radix, .dimension a.extraDimOut, .dimension a.extraDimIn, .shape a.rect]

def encode (a : RadixArgs) : List UInt8 := Wire.encode a.fields

def read : Reader RadixArgs := do
  let radix ← Reader.int32
  let extraDimOut ← Reader.dimension
  let extraDimIn ← Reader.dimension
  let rect ← Reader.shape
  return ⟨radix, extraDimOut, extraDimIn, rect⟩

def decode (bytes : List UInt8) : Except WireError RadixArgs := decodeWith read bytes

end RadixArgs

end GridFold.Wire

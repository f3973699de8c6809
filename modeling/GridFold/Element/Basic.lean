import GridFold.Element.Type

/-!
# GridFold.Element.Basic

What a reduction needs to know about its elements:

* `lowest`, `highest`, `zero`, `one` — the identities of the four reductions;
* `less` and `same` — comparison of two values, which for floats is comparison of numbers: `same`
  holds of `0.0` and `-0.0` and of no pair with a NaN in it;
* `isUnordered` — the values `less` says nothing about, the NaNs;
* `add` and `mul` — sum and product of one pair. Integers wrap at their width, floats round, and
  for booleans they are `or` and `and`.
-/

namespace GridFold

class Element (α : Type) where
  elementType : ElementType
  lowest : α
  highest : α
  zero : α
  one : α
  isUnordered : α → Bool
  less : α → α → Bool
  same : α → α → Bool
  add : α → α → α
  mul : α → α → α

/-- Fixed-width integers: every value is ordered, equality is identity, and sums and products wrap. -/
@[reducible]
def Element.integer (α : Type) (elementType : ElementType) (lowest highest : α)
    [OfNat α 0] [OfNat α 1] [Add α] [Mul α] [LT α] [DecidableLT α] [DecidableEq α] : Element α where
  elementType := elementType
  lowest := lowest
  highest := highest
  zero := 0
  one := 1
  isUnordered _ := false
  less a b := decide (a < b)
  same a b := decide (a = b)
  add a b := a + b
  mul a b := a * b

instance : Element Int8 := .integer Int8 .int8 Int8.minValue Int8.maxValue

instance : Element Int16 := .integer Int16 .int16 Int16.minValue Int16.maxValue

instance : Element Int32 := .integer Int32 .int32 Int32.minValue Int32.maxValue

instance : Element Int64 := .integer Int64 .int64 Int64.minValue Int64.maxValue

instance : Element UInt8 := .integer UInt8 .uint8 0 0xff

instance : Element UInt16 := .integer UInt16 .uint16 0 0xffff

instance : Element UInt32 := .integer UInt32 .uint32 0 0xffffffff

instance : Element UInt64 := .integer UInt64 .uint64 0 0xffffffffffffffff

/-- Booleans with `false` below `true`. -/
instance : Element Bool where
  elementType := .bool
  lowest := false
  highest := true
  zero := false
  one := true
  isUnordered _ := false
  less a b := !a && b
  same a b := a == b
  add a b := a || b
  mul a b := a && b

/-- Single precision floats between the infinities. -/
instance : Element Float32 where
  elementType := .float32
  lowest := -1.0 / 0.0
  highest := 1.0 / 0.0
  zero := 0.0
  one := 1.0
  isUnordered := Float32.isNaN
  less a b := decide (a < b)
  same a b := a == b
  add a b := a + b
  mul a b := a * b

/-- Double precision floats between the infinities. -/
instance : Element Float where
  elementType := .float64
  lowest := -1.0 / 0.0
  highest := 1.0 / 0.0
  zero := 0.0
  one := 1.0
  isUnordered := Float.isNaN
  less a b := decide (a < b)
  same a b := a == b
  add a b := a + b
  mul a b := a * b

end GridFold

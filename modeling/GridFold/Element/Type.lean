/-!
# GridFold.Element.Type

The eleven element types a reduction can be run on. Each type has a *code*, its position in
`ElementType.all`; the code is part of every task id, so the order of `all` is a wire value.
-/

namespace GridFold

inductive ElementType where
  | bool
  | int8
  | int16
  | int32
  | int64
  | uint8
  | uint16
  | uint32
  | uint64
  | float32
  | float64
  deriving DecidableEq

namespace ElementType

/-- Every element type, in the order of its code. -/
def all : List ElementType :=
  [bool, int8, int16, int32, int64, uint8, uint16, uint32, uint64, float32, float64]

def count : Nat := 11

def code : ElementType → Nat
  | bool => 0
  | int8 => 1
  | int16 => 2
  | int32 => 3
  | int64 => 4
  | uint8 => 5
  | uint16 => 6
  | uint32 => 7
  | uint64 => 8
  | float32 => 9
  | float64 => 10

def ofCode? (code : Nat) : Option ElementType := all[code]?

/-- Bytes one element takes. -/
def size : ElementType → Nat
  | bool | int8 | uint8 => 1
  | int16 | uint16 => 2
  | int32 | uint32 | float32 => 4
  | int64 | uint64 | float64 => 8

/-- The short name, the one task names and messages use. -/
def name : ElementType → String
  | bool => "bool"
  | int8 => "i8"
  | int16 => "i16"
  | int32 => "i32"
  | int64 => "i64"
  | uint8 => "u8"
  | uint16 => "u16"
  | uint32 => "u32"
  | uint64 => "u64"
  | float32 => "f32"
  | float64 => "f64"

def label : ElementType → String
  | bool => "Bool"
  | int8 => "Int8"
  | int16 => "Int16"
  | int32 => "Int32"
  | int64 => "Int64"
  | uint8 => "UInt8"
  | uint16 => "UInt16"
  | uint32 => "UInt32"
  | uint64 => "UInt64"
  | float32 => "Float32"
  | float64 => "Float64"

def ofName? (name : String) : Option ElementType := all.find? (·.name == name)

theorem length_all : all.length = count := rfl

theorem ofCode?_code (t : ElementType) : ofCode? t.code = some t := by
  cases t <;> rfl

theorem code_of_ofCode? {c : Nat} {t : ElementType} (h : ofCode? c = some t) : t.code = c := by
  obtain ⟨hc, rfl⟩ := List.getElem?_eq_some_iff.mp h
  match c, hc with
  | 0, _ | 1, _ | 2, _ | 3, _ | 4, _ | 5, _ | 6, _ | 7, _ | 8, _ | 9, _ | 10, _ => rfl

end ElementType

end GridFold

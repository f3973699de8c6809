/-!
# GridFold.Privilege

What a holder of a store may do with it. `writeDiscard` promises to overwrite without looking at
what was there before, so it allows writing only.
-/

namespace GridFold

inductive Privilege where
  | readOnly
  | writeDiscard
  | readWrite
  deriving DecidableEq

namespace Privilege

def canRead : Privilege → Bool
  | writeDiscard => false
  | readOnly | readWrite => true

def canWrite : Privilege → Bool
  | readOnly => false
  | writeDiscard | readWrite => true

/-- Whether holding `p` is enough where `required` is asked for. -/
def grants (p required : Privilege) : Bool :=
  match required with
  | readOnly => p.canRead
  | writeDiscard => p.canWrite
  | readWrite => p.canRead && p.canWrite

def name : Privilege → String
  | readOnly => "ReadOnly"
  | writeDiscard => "WriteDiscard"
  | readWrite => "ReadWrite"

end Privilege

end GridFold

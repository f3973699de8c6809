import GridFold.Rect.Basic
import GridFold.Privilege

/-!
# GridFold.Failure

Two ways in which an operation ends without a result:

* it is *refused*: its inputs do not fit together. For rectangles, stores, views and kernels the
  cause is a `GridError`; it can be reported and the caller goes on.
* it *traps*: it was asked for an element that does not exist or may not be looked at, for more items
  than one row of memory can hold, or for a number that is no word. A trap that has a message of its
  own gives it in `Trap.message?`.
-/

namespace GridFold

inductive GridError where
  | rankMismatch (left right : Nat)
  | unsupportedRank (rank min max : Nat)
  | rectMismatch (left right : Rect)
  | outOfBounds (rect bounds : Rect)
  | invalidAxis (axis rank : Nat)
  | privilegeMismatch (required actual : Privilege)
  | lengthMismatch (length volume : Nat)
  | noFanInInputs
  | fanInTooWide (inputs limit : Nat)
  deriving DecidableEq

def GridError.message : GridError → String
  | rankMismatch left right => s!"rank mismatch: {left} vs {right}"
  | unsupportedRank rank min max => s!"unsupported rank {rank} (supported {min}..={max})"
  | rectMismatch left right => s!"rectangle mismatch: {left.text} vs {right.text}"
  | outOfBounds rect bounds => s!"rectangle {rect.text} is outside store bounds {bounds.text}"
  | invalidAxis axis rank => s!"invalid axis {axis} for rank {rank}"
  | privilegeMismatch required actual =>
    s!"{required.name} access required, binding is {actual.name}"
  | lengthMismatch length volume =>
    s!"data length {length} does not match rectangle volume {volume}"
  | noFanInInputs => "radix fan-in has no present inputs"
  | fanInTooWide inputs limit =>
    s!"radix fan-in of {inputs} inputs exceeds the maximum of {limit}"

inductive Trap where
  /-- A point outside the rectangle it was looked up in. -/
  | pointOutside (point : Point) (rect : Rect)
  /-- A read through a binding that only allows writing. -/
  | unreadable
  /-- A position outside the elements of a store. -/
  | elementOutside (position : Int) (length : Nat)
  /-- An axis that a rectangle does not have. -/
  | axisOutside (axis rank : Nat)
  /-- More items of the given size than one row of memory can hold. -/
  | rowTooLong (count itemSize : Nat)
  /-- A number that is no word where one was needed. -/
  | overflow
  /-- A task that was launched without a way to report failure, and failed. -/
  | taskAborted (id : Nat) (reason : String)

def Trap.message? : Trap → Option String
  | pointOutside point rect => some s!"point {point.text} out of bounds {rect.text}"
  | unreadable => some "view is write-discard"
  | elementOutside _ _ => none
  | axisOutside _ _ => none
  | rowTooLong _ _ => none
  | overflow => none
  | taskAborted id reason => some s!"task {id} aborted: {reason}"

/-- The most bytes that one row of items may take. -/
def maxRowBytes : Nat := 0x7fff_ffff_ffff_ffff

/-- The trap that reserving a row of `count` items runs into, if it does. -/
def Trap.ofRow? (count itemSize : Nat) : Option Trap :=
  if count * itemSize ≤ maxRowBytes then none else some (.rowTooLong count itemSize)

inductive Failure (ε : Type) where
  | refused (cause : ε)
  | trapped (trap : Trap)

def Failure.map {ε δ : Type} (f : ε → δ) : Failure ε → Failure δ
  | refused cause => refused (f cause)
  | trapped trap => trapped trap

end GridFold

import GridFold.Store.View
import GridFold.Task.Id
import GridFold.Wire.Args

/-!
# GridFold.Task.Context

What a launch is given, and what it may be refused for.

* A `Region` is a store with the privilege it was bound with, or an absent one.
* A `Future` is a scalar that is already there. It remembers whether it was read.
* The `TaskContext` also carries the argument bytes and the point of the launch.

A task body is a `Launch`: it works on the context, and what it has changed there stays where it
fails.
-/

namespace GridFold

inductive TaskError where
  | arguments (cause : Wire.WireError)
  | regionCount (expected : String) (actual : Nat)
  | futureCount (expected : String) (actual : Nat)
  | malformedRadix (radix : Int32) (slots : Nat)
  | regionPrivilege (index : Nat) (required actual : Privilege)
  | absentRegion (index : Nat)
  | indexPoint (axis rank : Nat)
  | unknownTask (id : TaskId)
  | elementMismatch (id : TaskId) (registered launched : ElementType)
  | duplicateTask (id : TaskId)
  | grid (cause : GridError)
  deriving DecidableEq

def TaskError.message : TaskError → String
  | arguments cause => cause.message
  | regionCount expected actual => s!"expected {expected} regions, got {actual}"
  | futureCount expected actual => s!"expected {expected} futures, got {actual}"
  | malformedRadix radix slots => s!"malformed radix {radix.toInt} for {slots} input slots"
  | regionPrivilege index required actual =>
    s!"region {index}: {required.name} access required, binding is {actual.name}"
  | absentRegion index => s!"region {index} is absent"
  | indexPoint axis rank => s!"launch index point of rank {rank} has no axis {axis}"
  | unknownTask id => s!"unknown task id {id.text}"
  | elementMismatch id registered launched =>
    s!"task {id.text} is registered for {registered.name}, launched with {launched.name}"
  | duplicateTask id => s!"task {id.text} is already registered"
  | grid cause => cause.message

inductive Region (α : Type) where
  | readOnly (store : Store α)
  | writeDiscard (store : Store α)
  | readWrite (store : Store α)
  | absent

namespace Region

variable {α : Type}

def isAbsent : Region α → Bool
  | absent => true
  | _ => false

/-- The store, and the privilege it is bound with. -/
def binding? : Region α → Option (Store α × Privilege)
  | readOnly s => some (s, .readOnly)
  | writeDiscard s => some (s, .writeDiscard)
  | readWrite s => some (s, .readWrite)
  | absent => none

def withStore (s : Store α) : Region α → Region α
  | readOnly _ => readOnly s
  | writeDiscard _ => writeDiscard s
  | readWrite _ => readWrite s
  | absent => absent

/-- A view for reading region `index`. -/
def input (r : Region α) (index : Nat) (rect : Rect) (slice : Option Slice) :
    Except TaskError (View α) :=
  match r.binding? with
  | none => .error (.absentRegion index)
  | some (s, privilege) =>
    if privilege.grants .readOnly then
      match s.view rect slice with
      | .ok v => .ok v
      | .error cause => .error (.grid cause)
    else .error (.regionPrivilege index .readOnly privilege)

/-- A target for writing region `index`. It has the privilege of the binding, which must grant what
is required. -/
def output (r : Region α) (index : Nat) (rect : Rect) (slice : Option Slice)
    (required : Privilege) : Except TaskError Target :=
  match r.binding? with
  | none => .error (.absentRegion index)
  | some (s, privilege) =>
    if privilege.canWrite && privilege.grants required then
      match s.target rect slice privilege with
      | .ok t => .ok t
      | .error cause => .error (.grid cause)
    else .error (.regionPrivilege index required privilege)

end Region

structure Future (α : Type) where
  value : α
  consumed : Bool

structure TaskContext (α : Type) where
  args : List UInt8
  regions : List (Region α)
  futures : List (Future α)
  indexPoint : Point

inductive TaskOutput (α : Type) where
  | done
  | scalar (value : α)

abbrev Launch (α : Type) := EStateM (Failure TaskError) (TaskContext α)

end GridFold

import GridFold.Pass.Basic
import GridFold.Reduction

/-!
# GridFold.Pass.Elementwise

Kernels that write each point of the destination from what lies at the same point: a value, the old
element, or the elements of one or two sources. An empty destination is left alone before anything
else is looked at.

The `combine` plans apply a reduction's operator this way, to two arrays or to an array and a scalar,
into a fresh destination or in place.
-/

namespace GridFold

variable {α β δ : Type}

namespace Pass

def fill (dest : Target) (value : δ) : Pass δ :=
  through sharedCost dest.rect.extents #v[dest.window] fun pos =>
    Edit.writeAt (destination pos) value

def modify (dest : Target) (f : δ → δ) : Pass δ :=
  through sharedCost dest.rect.extents #v[dest.window] fun pos => do
    let old ← Edit.readAt (destination pos)
    Edit.writeAt (destination pos) (f old)

def map (dest : Target) (src : View α) (f : α → δ) : Pass δ :=
  through sharedCost dest.rect.extents #v[dest.window, src.window] fun pos => do
    let a ← Edit.ofExcept (src.element (source pos))
    Edit.writeAt (destination pos) (f a)

def modifyWith (dest : Target) (src : View α) (f : δ → α → δ) : Pass δ :=
  through sharedCost dest.rect.extents #v[dest.window, src.window] fun pos => do
    let old ← Edit.readAt (destination pos)
    let a ← Edit.ofExcept (src.element (source pos))
    Edit.writeAt (destination pos) (f old a)

def zip (dest : Target) (a : View α) (b : View β) (f : α → β → δ) : Pass δ :=
  through sharedCost dest.rect.extents #v[dest.window, a.window, b.window] fun pos => do
    let x ← Edit.ofExcept (a.element (source pos))
    let y ← Edit.ofExcept (b.element (secondSource pos))
    Edit.writeAt (destination pos) (f x y)

end Pass

namespace Plan

def fill (dest : Target) (value : δ) : Except GridError (Plan δ) :=
  if dest.isEmpty then .ok [] else .ok [.fill dest value]

def modify (dest : Target) (f : δ → δ) : Except GridError (Plan δ) :=
  if dest.isEmpty then .ok []
  else do
    dest.require .readWrite
    return [.modify dest f]

def map (dest : Target) (src : View α) (f : α → δ) : Except GridError (Plan δ) :=
  if dest.isEmpty then .ok []
  else do
    checkSameRect dest.rect src.rect
    return [.map dest src f]

def modifyWith (dest : Target) (src : View α) (f : δ → α → δ) : Except GridError (Plan δ) :=
  if dest.isEmpty then .ok []
  else do
    dest.require .readWrite
    checkSameRect dest.rect src.rect
    return [.modifyWith dest src f]

def zip (dest : Target) (a : View α) (b : View β) (f : α → β → δ) : Except GridError (Plan δ) :=
  if dest.isEmpty then .ok []
  else do
    checkSameRect dest.rect a.rect
    checkSameRect dest.rect b.rect
    return [.zip dest a b f]

variable [Element α]

def combine (op : Operator α) (dest : Target) (lhs rhs : View α) : Except GridError (Plan α) :=
  zip dest lhs rhs op.combine

def combineInPlace (op : Operator α) (dest : Target) (rhs : View α) : Except GridError (Plan α) :=
  modifyWith dest rhs (op.fold .exclusive)

/-- The elements of an array combined with a scalar on their right. -/
def combineScalar (op : Operator α) (dest : Target) (lhs : View α) (scalar : α) :
    Except GridError (Plan α) :=
  map dest lhs fun a => op.combine a scalar

/-- Folds a scalar into every point of the destination. -/
def combineScalarInPlace (op : Operator α) (dest : Target) (scalar : α) :
    Except GridError (Plan α) :=
  modify dest fun old => op.fold .exclusive old scalar

end Plan

end GridFold

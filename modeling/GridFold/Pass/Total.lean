import GridFold.Pass.Basic
import GridFold.Reduction

/-!
# GridFold.Pass.Total

Folding a whole view into one scalar. Where the view is shared out, each leaf folds its part into a
scratch element of its own, starting from the identity; the scratch elements are a cache line apart,
one for each worker. At the end they are folded in the order of their slots, in relaxed mode, also
those that no leaf has used.
-/

namespace GridFold.Total

variable {α : Type} [Element α]

/-- The number of bytes that scratch elements of different slots lie apart. -/
def cacheLine : Nat := 64

/-- The number of scratch elements from one slot to the next. -/
def spacing (α : Type) [Element α] : Nat :=
  max 1 (cacheLine / (Element.elementType α).size)

/-- The source alone, as a box with one operand. -/
def serialAxes (src : View α) : List (Axis 1) :=
  axesOf sharedCost src.rect.extents #v[src.window.strides]

/-- The scratch element, which stands still, and the source. Only the source's steps count for the
cost. -/
def parallelAxes (src : View α) : List (Axis 2) :=
  axesOf (fun steps => costOfSteps [source steps]) src.rect.extents
    #v[List.replicate src.rank 0, src.window.strides]

/-- The leaves of the view, each with its scratch element as the destination. -/
def parallelLeaves (minLength workers : Nat) (src : View α) : List (Leaf 2) :=
  (leavesOf minLength workers 1 (parallelAxes src) #v[0, src.window.base]).map
    (Leaf.inSlot (Int.ofNat (spacing α)))

def foldAt (op : Operator α) (src : View α) (scratch : Array α) (pos : Vector Int 2) :
    Except Trap (Array α) :=
  match src.element (source pos) with
  | .error t => .error t
  | .ok value =>
    let i := destination pos
    if h : 0 ≤ i ∧ i.toNat < scratch.size then
      .ok (scratch.set i.toNat (op.fold .exclusive scratch[i.toNat] value) h.2)
    else .error (.elementOutside i scratch.size)

def foldLeaf (op : Operator α) (src : View α) (scratch : Array α) (leaf : Leaf 2) :
    Except Trap (Array α) :=
  leaf.positions.foldlM (foldAt op src) scratch

def foldLeaves (op : Operator α) (src : View α) (leaves : List (Leaf 2)) (scratch : Array α) :
    Except Trap (Array α) :=
  leaves.foldlM (foldLeaf op src) scratch

def emptyScratch (op : Operator α) (workers : Nat) : Array α :=
  Array.replicate (spacing α * workers) op.identity

/-- The scratch elements of all slots, in the order of the slots. -/
def partials (workers : Nat) (scratch : Array α) : List α :=
  (List.range workers).filterMap fun i => scratch[i * spacing α]?

def merge (op : Operator α) (workers : Nat) (scratch : Array α) : α :=
  (partials workers scratch).foldl (op.fold .relaxed) op.identity

def parallel (op : Operator α) (src : View α) (minLength workers : Nat) : Except Trap α :=
  match foldLeaves op src (parallelLeaves minLength workers src) (emptyScratch op workers) with
  | .ok scratch => .ok (merge op workers scratch)
  | .error t => .error t

def serial (op : Operator α) (src : View α) : Except Trap α :=
  (Leaf.mk (serialAxes src) #v[src.window.base] 1).positions.foldlM
    (fun acc pos =>
      match src.element (getElem pos 0 Nat.zero_lt_one) with
      | .ok value => .ok (op.fold .exclusive acc value)
      | .error t => .error t)
    op.identity

end GridFold.Total

namespace GridFold

def Executor.total {α : Type} [Element α] (e : Executor) (op : Operator α) (src : View α) :
    Except (Failure GridError) α :=
  match checkTaskRank src.rank 1 with
  | .error cause => .error (.refused cause)
  | .ok () =>
    if src.isEmpty then .ok op.identity
    else
      let folded :=
        match e.parallelWorkers? src.rect.volume with
        | some workers => Total.parallel op src e.policy.minParallelLength workers
        | none => Total.serial op src
      match folded with
      | .ok value => .ok value
      | .error t => .error (.trapped t)

end GridFold

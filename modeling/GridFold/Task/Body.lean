import GridFold.Arithmetic
import GridFold.Pass.Collapse
import GridFold.Pass.FanIn
import GridFold.Pass.Total
import GridFold.Task.Context

/-!
# GridFold.Task.Body

The bodies of the seven task kinds. Each decodes its arguments, counts futures and regions, makes
views of the bound stores and hands them to a kernel. A body whose output rectangle is empty ends
before it touches a region or a future. `bodyIn` runs a body in a given arithmetic, and `body` in exact
arithmetic.

Region 0 is the output of every body that has one.
-/

namespace GridFold.Launch

open Wire

variable {α : Type}

def refuse {β : Type} (cause : TaskError) : Launch α β := fun ctx => .error (.refused cause) ctx

def ofExcept {β : Type} : Except TaskError β → Launch α β
  | .ok b => fun ctx => .ok b ctx
  | .error cause => refuse cause

def ofFailing {β : Type} : Except (Failure TaskError) β → Launch α β
  | .ok b => fun ctx => .ok b ctx
  | .error failure => fun ctx => .error failure ctx

def arguments {β : Type} (decode : List UInt8 → Except WireError β) : Launch α β := fun ctx =>
  match decode ctx.args with
  | .ok args => .ok args ctx
  | .error cause => .error (.refused (.arguments cause)) ctx

def expectFutures (allowed : List Nat) (expected : String) : Launch α Unit := fun ctx =>
  if allowed.contains ctx.futures.length then .ok () ctx
  else .error (.refused (.futureCount expected ctx.futures.length)) ctx

def consumeFutures : Launch α Unit := fun ctx =>
  .ok () { ctx with futures := ctx.futures.map fun f => { f with consumed := true } }

def indexCoord (axis : Nat) : Launch α Int := fun ctx =>
  match ctx.indexPoint[axis]? with
  | some c => .ok c ctx
  | none => .error (.refused (.indexPoint axis ctx.indexPoint.length)) ctx

/-- The slice that the launch point picks, where an axis is given. -/
def indexSlice : Option Nat → Launch α (Option Slice)
  | some axis => do
    let coord ← indexCoord axis
    return some ⟨axis, coord⟩
  | none => return none

/-- Runs a kernel on the store of region 0. -/
def onOutput (kernel : Kernel α Unit) : Launch α Unit := fun ctx =>
  match ctx.regions with
  | [] => .error (.refused (.absentRegion 0)) ctx
  | out :: inputs =>
    match out.binding? with
    | none => .error (.refused (.absentRegion 0)) ctx
    | some (store, _) =>
      match kernel store with
      | .ok () s => .ok () { ctx with regions := out.withStore s :: inputs }
      | .error f s => .error (f.map .grid) { ctx with regions := out.withStore s :: inputs }

variable [Element α]

/-- Folds an axis of region 1 into region 0, from the future as seed if there is one. -/
def axisCollapse (op : Operator α) (e : Executor) : Launch α Unit := do
  let args ← arguments CollapseArgs.decode
  expectFutures [0, 1] "0 or 1"
  let ctx ← get
  match ctx.regions with
  | [out, source] =>
    if args.initRect.isEmpty then
      return ()
    let slice ← indexSlice args.collapseDim
    consumeFutures
    let dest ← ofExcept (out.output 0 args.initRect slice .readWrite)
    let src ← ofExcept (source.input 1 args.inRect none)
    onOutput (e.perform (Plan.collapse op dest src args.axis (ctx.futures.head?.map Future.value)))
  | regions => refuse (.regionCount "2" regions.length)

/-- Folds the only region into a scalar. -/
def wholePartition (op : Operator α) (e : Executor) : Launch α α := do
  let args ← arguments ShapeArgs.decode
  expectFutures [0] "0"
  let ctx ← get
  match ctx.regions with
  | [source] =>
    let src ← ofExcept (source.input 0 args.rect none)
    match e.total op src with
    | .ok value => return value
    | .error f => throw (f.map .grid)
  | regions => refuse (.regionCount "1" regions.length)

/-- The two futures of a task without regions. -/
def scalarPair : Launch α (α × α) := do
  let ctx ← get
  match ctx.regions with
  | [] =>
    match ctx.futures with
    | [a, b] =>
      consumeFutures
      return (a.value, b.value)
    | futures => refuse (.futureCount "2" futures.length)
  | regions => refuse (.regionCount "0" regions.length)

/-- Combines two arrays: two regions in place, three into a fresh output. -/
def combine (op : Operator α) (e : Executor) : Launch α Unit := do
  let args ← arguments ShapeArgs.decode
  expectFutures [0] "0"
  let ctx ← get
  match ctx.regions with
  | [out, rhs] =>
    if args.rect.isEmpty then
      return ()
    let dest ← ofExcept (out.output 0 args.rect none .readWrite)
    let b ← ofExcept (rhs.input 1 args.rect none)
    onOutput (e.perform (Plan.combineInPlace op dest b))
  | [out, lhs, rhs] =>
    if args.rect.isEmpty then
      return ()
    let dest ← ofExcept (out.output 0 args.rect none .writeDiscard)
    let a ← ofExcept (lhs.input 1 args.rect none)
    let b ← ofExcept (rhs.input 2 args.rect none)
    onOutput (e.perform (Plan.combine op dest a b))
  | regions => refuse (.regionCount "2 or 3" regions.length)

/-- Combines an array with the future: one region in place, two into a fresh output. -/
def combineBroadcast (op : Operator α) (e : Executor) : Launch α Unit := do
  let args ← arguments ShapeArgs.decode
  let ctx ← get
  match ctx.futures with
  | [scalar] =>
    match ctx.regions with
    | [out] =>
      if args.rect.isEmpty then
        return ()
      let dest ← ofExcept (out.output 0 args.rect none .readWrite)
      consumeFutures
      onOutput (e.perform (Plan.combineScalarInPlace op dest scalar.value))
    | [out, lhs] =>
      if args.rect.isEmpty then
        return ()
      let dest ← ofExcept (out.output 0 args.rect none .writeDiscard)
      let a ← ofExcept (lhs.input 1 args.rect none)
      consumeFutures
      onOutput (e.perform (Plan.combineScalar op dest a scalar.value))
    | regions => refuse (.regionCount "1 or 2" regions.length)
  | futures => refuse (.futureCount "1" futures.length)

/-- The number that the coordinates of a node's slices are counted from. -/
def nodeOffset (a : Arithmetic) (radix : Nat) : Option Slice → Except Trap Int
  | some node => a.signed (node.coord * Int.ofNat radix)
  | none => .ok 0

/-- The slice of the candidate in a slot, where candidates lie in slices. Slots are numbered from one
on. -/
def candidateSlice (a : Arithmetic) (axis : Option Nat) (offset : Int) (slot : Nat) :
    Except Trap (Option Slice) :=
  match axis with
  | some axis => do
    let next ← a.signed (offset + Int.ofNat slot)
    let coord ← a.signed (next - 1)
    return some ⟨axis, coord⟩
  | none => .ok none

/-- The views of the candidates that are there, from the one in `slot` on. An absent one keeps its
slot. -/
def presentInputs (rect : Rect) (sliceOf : Nat → Except Trap (Option Slice)) :
    Nat → List (Region α) → Except (Failure TaskError) (List (View α))
  | _, [] => .ok []
  | slot, region :: regions =>
    if region.isAbsent then presentInputs rect sliceOf (slot + 1) regions
    else do
      let slice ← (sliceOf slot).mapError .trapped
      let view ← (region.input slot rect slice).mapError .refused
      let others ← presentInputs rect sliceOf (slot + 1) regions
      return view :: others

/-- How many candidates the node has room for. -/
def fanInWidth (args : RadixArgs) (slots : Nat) : Except TaskError Nat :=
  match Reader.natOf? args.radix with
  | some radix =>
    if radix = 0 ∨ maxFanIn < radix ∨ radix < slots then
      .error (.malformedRadix args.radix slots)
    else .ok radix
  | none => .error (.malformedRadix args.radix slots)

/-- Folds the candidates, the regions behind the output, into region 0. -/
def radixFanIn (a : Arithmetic) (op : Operator α) (e : Executor) : Launch α Unit := do
  let args ← arguments RadixArgs.decode
  expectFutures [0] "0"
  let ctx ← get
  match ctx.regions with
  | [] => refuse (.regionCount "at least 1" 0)
  | out :: candidates =>
    let radix ← ofExcept (fanInWidth args candidates.length)
    if args.rect.isEmpty then
      return ()
    let node ← indexSlice args.extraDimIn
    let offset ← ofFailing ((nodeOffset a radix node).mapError .trapped)
    let slice ← indexSlice args.extraDimOut
    let inputs ← ofFailing
      (presentInputs args.rect (candidateSlice a args.extraDimIn offset) 1 candidates)
    let dest ← ofExcept (out.output 0 args.rect slice .writeDiscard)
    onOutput (e.perform (Plan.fanIn op dest inputs))

/-- The body of a task kind. Only a fan-in computes coordinates. -/
def bodyIn (a : Arithmetic) (op : Operator α) (e : Executor) : TaskKind → Launch α (TaskOutput α)
  | .axisCollapse => do
    axisCollapse op e
    return .done
  | .wholePartition => do
    let value ← wholePartition op e
    return .scalar value
  | .reductionScalar => do
    let (a, b) ← scalarPair
    return .scalar (op.fold .exclusive a b)
  | .combine => do
    combine op e
    return .done
  | .combineBroadcast => do
    combineBroadcast op e
    return .done
  | .combineScalar => do
    let (a, b) ← scalarPair
    return .scalar (op.combine a b)
  | .radixFanIn => do
    radixFanIn a op e
    return .done

def body (op : Operator α) (e : Executor) (kind : TaskKind) : Launch α (TaskOutput α) :=
  bodyIn .exact op e kind

end GridFold.Launch

import GridFold.Task.Body

/-!
# GridFold.Task.Registry

The tasks a host can launch. A registry is built from a row of requests: each pair of a reduction
and an element type that is asked for brings all seven task kinds, and no pair may be asked for
twice. Launching looks a task up by its id and runs its body with the registry's policy.
-/

namespace GridFold

structure TaskDescriptor where
  id : TaskId
  kind : TaskKind
  reduction : Reduction
  elementType : ElementType
  deriving DecidableEq

namespace TaskDescriptor

def of (reduction : Reduction) (kind : TaskKind) (elementType : ElementType) : TaskDescriptor :=
  ⟨.of reduction kind elementType, kind, reduction, elementType⟩

def name (d : TaskDescriptor) : String :=
  d.reduction.name ++ "_" ++ d.kind.name ++ "_" ++ d.elementType.name

end TaskDescriptor

structure Registry where
  /-- The tasks in the order of their registration. -/
  tasks : List TaskDescriptor
  policy : Policy

/-- One step in building a registry. -/
inductive RegistryRequest where
  | policy (policy : Policy)
  | register (reduction : Reduction) (elementType : ElementType)
  | registerDefaults

namespace Registry

def empty : Registry := ⟨[], .standard⟩

def get? (r : Registry) (id : TaskId) : Option TaskDescriptor := r.tasks.find? (·.id = id)

def add (r : Registry) (d : TaskDescriptor) : Except TaskError Registry :=
  match r.get? d.id with
  | some _ => .error (.duplicateTask d.id)
  | none => .ok { r with tasks := r.tasks ++ [d] }

/-- Adds every task kind of a reduction on an element type. -/
def register (r : Registry) (reduction : Reduction) (elementType : ElementType) :
    Except TaskError Registry :=
  TaskKind.all.foldlM (fun r kind => r.add (.of reduction kind elementType)) r

def allPairs : List (Reduction × ElementType) :=
  Reduction.all.flatMap fun reduction => ElementType.all.map fun t => (reduction, t)

def registerDefaults (r : Registry) : Except TaskError Registry :=
  allPairs.foldlM (fun r pair => r.register pair.1 pair.2) r

def apply (r : Registry) : RegistryRequest → Except TaskError Registry
  | .policy policy => .ok { r with policy := policy }
  | .register reduction elementType => r.register reduction elementType
  | .registerDefaults => r.registerDefaults

def build (requests : List RegistryRequest) : Except TaskError Registry :=
  requests.foldlM apply empty

variable {α : Type} [Element α]

def launchIn (a : Arithmetic) (r : Registry) (workers : Nat) (id : TaskId) : Launch α (TaskOutput α) :=
  match r.get? id with
  | none => .refuse (.unknownTask id)
  | some d =>
    if d.elementType = Element.elementType α then
      .bodyIn a d.reduction.operator ⟨r.policy, workers⟩ d.kind
    else .refuse (.elementMismatch id d.elementType (Element.elementType α))

/-- A launch in exact arithmetic. -/
def launch (r : Registry) (workers : Nat) (id : TaskId) : Launch α (TaskOutput α) :=
  r.launchIn .exact workers id

/-- A launch that traps where it would be refused. -/
def launchOrAbort (a : Arithmetic) (r : Registry) (workers : Nat) (id : TaskId) :
    Launch α (TaskOutput α) := fun ctx =>
  match r.launchIn a workers id ctx with
  | .error (.refused cause) ctx => .error (.trapped (.taskAborted id.value cause.message)) ctx
  | result => result

end Registry

end GridFold

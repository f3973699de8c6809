import GridFold.Store.Window

/-!
# GridFold.Store.View

Two ways to look through a window:

* a `View` carries the store it looks at and can only be read;
* a `Target` is a window on a store that is about to be changed, with the privilege that was asked
  for. Its operations are edits of that store.
-/

namespace GridFold

structure View (α : Type) where
  store : Store α
  window : Window

namespace View

variable {α : Type}

def rect (v : View α) : Rect := v.window.rect

def rank (v : View α) : Nat := v.rect.rank

def isEmpty (v : View α) : Bool := v.rect.isEmpty

def element (v : View α) (position : Int) : Except Trap α := v.store.element position

def get (v : View α) (p : Point) : Except Trap α :=
  match v.window.position p with
  | .ok position => v.element position
  | .error t => .error t

def elements (v : View α) : Except Trap (List α) := v.rect.points.mapM v.get

def text (v : View α) : String :=
  "OperandView \x7b rect: " ++ v.rect.text
    ++ ", strides: " ++ bracketed (v.window.strides.map toString) ++ " \x7d"

end View

def Store.view {α : Type} (s : Store α) (rect : Rect) (slice : Option Slice) :
    Except GridError (View α) :=
  match s.window rect slice with
  | .ok w => .ok ⟨s, w⟩
  | .error e => .error e

structure Target where
  window : Window
  privilege : Privilege

namespace Target

variable {α : Type}

def rect (t : Target) : Rect := t.window.rect

def rank (t : Target) : Nat := t.rect.rank

def isEmpty (t : Target) : Bool := t.rect.isEmpty

def require (t : Target) (required : Privilege) : Except GridError Unit :=
  if t.privilege.grants required then .ok ()
  else .error (.privilegeMismatch required t.privilege)

/-- The same window of the store as it is now, for reading. -/
def asView (t : Target) (s : Store α) : Except GridError (View α) :=
  match t.require .readOnly with
  | .ok () => .ok ⟨s, t.window⟩
  | .error e => .error e

def broadcastAxis (t : Target) (axis : Nat) (span : Span) : Except GridError Target :=
  match t.window.broadcastAxis axis span with
  | .ok w => .ok ⟨w, t.privilege⟩
  | .error e => .error e

def get (t : Target) (p : Point) : Edit α α := do
  if !t.privilege.canRead then
    throw .unreadable
  let position ← Edit.ofExcept (t.window.position p)
  Edit.readAt position

def set (t : Target) (p : Point) (value : α) : Edit α Unit := do
  let position ← Edit.ofExcept (t.window.position p)
  Edit.writeAt position value

def text (t : Target) : String :=
  "OperandViewMut \x7b rect: " ++ t.rect.text
    ++ ", strides: " ++ bracketed (t.window.strides.map toString)
    ++ ", privilege: " ++ t.privilege.name ++ " \x7d"

end Target

/-- A target must be writable; what else it allows is asked for by what is done with it. -/
def Store.target {α : Type} (s : Store α) (rect : Rect) (slice : Option Slice)
    (privilege : Privilege) : Except GridError Target :=
  if privilege.canWrite then
    match s.window rect slice with
    | .ok w => .ok ⟨w, privilege⟩
    | .error e => .error e
  else .error (.privilegeMismatch .writeDiscard privilege)

end GridFold

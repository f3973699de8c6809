import GridFold.Reduction

/-!
# GridFold.Task.Id

Task ids. A reduction is offered in three roles, and each role in some of four variants; the seven
pairs in use are the task kinds. An `OpCode` numbers reduction and role, and a `TaskId` packs an
operation code, an element type and a variant into one number:

`id = op * typeOffset + element type * variantCount + variant`
-/

namespace GridFold

inductive Role where
  | reduce
  | elementwise
  | radix
  deriving DecidableEq

namespace Role

/-- Every role, in the order of the operation codes of one reduction. -/
def all : List Role := [reduce, elementwise, radix]

def code : Role → Nat
  | reduce => 0
  | elementwise => 1
  | radix => 2

def name : Role → String
  | reduce => "Reduce"
  | elementwise => "Elementwise"
  | radix => "Radix"

def ofName? (name : String) : Option Role := all.find? (·.name == name)

end Role

inductive Variant where
  | normal
  | scalar
  | broadcast
  | reduction
  deriving DecidableEq

namespace Variant

/-- Every variant, in the order of its code. -/
def all : List Variant := [normal, scalar, broadcast, reduction]

def count : Nat := 4

def code : Variant → Nat
  | normal => 0
  | scalar => 1
  | broadcast => 2
  | reduction => 3

def ofCode? (code : Nat) : Option Variant := all[code]?

def name : Variant → String
  | normal => "Normal"
  | scalar => "Scalar"
  | broadcast => "Broadcast"
  | reduction => "Reduction"

def ofName? (name : String) : Option Variant := all.find? (·.name == name)

theorem ofCode?_code (v : Variant) : ofCode? v.code = some v := by
  cases v <;> rfl

theorem code_of_ofCode? {c : Nat} {v : Variant} (h : ofCode? c = some v) : v.code = c := by
  obtain ⟨hc, rfl⟩ := List.getElem?_eq_some_iff.mp h
  match c, hc with
  | 0, _ | 1, _ | 2, _ | 3, _ => rfl

end Variant

inductive TaskKind where
  | axisCollapse
  | wholePartition
  | reductionScalar
  | combine
  | combineBroadcast
  | combineScalar
  | radixFanIn
  deriving DecidableEq

namespace TaskKind

/-- Every task kind, in the order of registration. -/
def all : List TaskKind :=
  [axisCollapse, wholePartition, reductionScalar, combine, combineBroadcast, combineScalar,
    radixFanIn]

def role : TaskKind → Role
  | axisCollapse | wholePartition | reductionScalar => .reduce
  | combine | combineBroadcast | combineScalar => .elementwise
  | radixFanIn => .radix

def variant : TaskKind → Variant
  | axisCollapse | combine | radixFanIn => .normal
  | reductionScalar | combineScalar => .scalar
  | combineBroadcast => .broadcast
  | wholePartition => .reduction

def ofParts? (role : Role) (variant : Variant) : Option TaskKind :=
  all.find? fun k => k.role = role ∧ k.variant = variant

def name : TaskKind → String
  | axisCollapse => "axis_collapse"
  | wholePartition => "whole_partition"
  | reductionScalar => "reduction_scalar"
  | combine => "combine"
  | combineBroadcast => "combine_broadcast"
  | combineScalar => "combine_scalar"
  | radixFanIn => "radix_fan_in"

def ofName? (name : String) : Option TaskKind := all.find? (·.name == name)

theorem ofParts?_eq_some_iff {role : Role} {variant : Variant} {kind : TaskKind} :
    ofParts? role variant = some kind ↔ kind.role = role ∧ kind.variant = variant := by
  constructor
  · intro h
    simpa using List.find?_some h
  · rintro ⟨rfl, rfl⟩
    cases kind <;> rfl

end TaskKind

/-- A reduction in one of its roles. -/
structure OpCode where
  reduction : Reduction
  role : Role
  deriving DecidableEq

namespace OpCode

/-- The code of the first role of each reduction. -/
def base : Reduction → Nat
  | .max => 1
  | .min => 4
  | .sum => 7
  | .prod => 10

def code (op : OpCode) : Nat := base op.reduction + op.role.code

/-- Codes start at one; three in a row belong to one reduction. -/
def ofCode? : Nat → Option OpCode
  | 0 => none
  | n + 1 =>
    match Reduction.all[n / 3]?, Role.all[n % 3]? with
    | some reduction, some role => some ⟨reduction, role⟩
    | _, _ => none

def name (op : OpCode) : String :=
  match op.reduction, op.role with
  | .max, .reduce => "Max"
  | .max, .elementwise => "Maximum"
  | .max, .radix => "MaxRadix"
  | .min, .reduce => "Min"
  | .min, .elementwise => "Minimum"
  | .min, .radix => "MinRadix"
  | .sum, .reduce => "Sum"
  | .sum, .elementwise => "Add"
  | .sum, .radix => "SumRadix"
  | .prod, .reduce => "Prod"
  | .prod, .elementwise => "Multiply"
  | .prod, .radix => "ProdRadix"

theorem ofCode?_code (op : OpCode) : ofCode? op.code = some op := by
  obtain ⟨reduction, role⟩ := op
  cases reduction <;> cases role <;> rfl

theorem code_of_ofCode? {c : Nat} {op : OpCode} (h : ofCode? c = some op) : op.code = c := by
  match c with
  | 0 => cases h
  | n + 1 =>
    by_cases hn : n < 12
    · match n, hn with
      | 0, _ | 1, _ | 2, _ | 3, _ | 4, _ | 5, _ | 6, _ | 7, _ | 8, _ | 9, _ | 10, _ | 11, _ => cases h; rfl
    · have hq : Reduction.all[n / 3]? = none :=
        List.getElem?_eq_none (by simp [Reduction.all]; omega)
      simp [ofCode?, hq] at h

end OpCode

structure TaskId where
  value : Nat
  deriving DecidableEq

namespace TaskId

/-- How far apart the ids of neighbouring operation codes lie. -/
def typeOffset : Nat := ElementType.count * Variant.count

def encode (op : OpCode) (elementType : ElementType) (variant : Variant) : TaskId :=
  ⟨op.code * typeOffset + elementType.code * Variant.count + variant.code⟩

def of (reduction : Reduction) (kind : TaskKind) (elementType : ElementType) : TaskId :=
  encode ⟨reduction, kind.role⟩ elementType kind.variant

def decode? (id : TaskId) : Option (OpCode × ElementType × Variant) := do
  let op ← OpCode.ofCode? (id.value / typeOffset)
  let rest := id.value % typeOffset
  let elementType ← ElementType.ofCode? (rest / Variant.count)
  let variant ← Variant.ofCode? (rest % Variant.count)
  return (op, elementType, variant)

def text (id : TaskId) : String := toString id.value

theorem decode?_encode (op : OpCode) (t : ElementType) (v : Variant) :
    (encode op t v).decode? = some (op, t, v) := by
  have ht : t.code < ElementType.count := by cases t <;> decide
  have hv : v.code < Variant.count := by cases v <;> decide
  simp only [ElementType.count, Variant.count] at ht hv
  have h1 : (op.code * 44 + t.code * 4 + v.code) / 44 = op.code := by omega
  have h2 : (op.code * 44 + t.code * 4 + v.code) % 44 / 4 = t.code := by omega
  have h3 : (op.code * 44 + t.code * 4 + v.code) % 44 % 4 = v.code := by omega
  simp only [decode?, encode, typeOffset, ElementType.count, Variant.count, Nat.reduceMul, h1, h2,
    h3, OpCode.ofCode?_code, ElementType.ofCode?_code, Variant.ofCode?_code]
  rfl

theorem decode?_eq_some_iff {id : TaskId} {op : OpCode} {t : ElementType} {v : Variant} :
    id.decode? = some (op, t, v) ↔ id = encode op t v := by
  constructor
  · intro h
    simp only [decode?, Option.bind_eq_bind, Option.bind_eq_some_iff, Option.pure_def,
      Option.some.injEq, Prod.mk.injEq] at h
    obtain ⟨op', hop, t', ht, v', hv, rfl, rfl, rfl⟩ := h
    have hop := OpCode.code_of_ofCode? hop
    have ht := ElementType.code_of_ofCode? ht
    have hv := Variant.code_of_ofCode? hv
    obtain ⟨value⟩ := id
    rw [encode, hop, ht, hv, TaskId.mk.injEq]
    simp only [Variant.count]
    have := Nat.div_add_mod' value typeOffset
    have := Nat.div_add_mod' (value % typeOffset) 4
    omega
  · rintro rfl
    exact decode?_encode op t v

theorem of_injective {reduction reduction' : Reduction} {kind kind' : TaskKind}
    {t t' : ElementType} (h : of reduction kind t = of reduction' kind' t') :
    reduction = reduction' ∧ kind = kind' ∧ t = t' := by
  have hdecode := (decode?_encode ⟨reduction, kind.role⟩ t kind.variant).symm.trans
    ((congrArg decode? h).trans (decode?_encode ⟨reduction', kind'.role⟩ t' kind'.variant))
  simp only [Option.some.injEq, Prod.mk.injEq, OpCode.mk.injEq] at hdecode
  obtain ⟨⟨rfl, hrole⟩, rfl, hvariant⟩ := hdecode
  have hkind := (TaskKind.ofParts?_eq_some_iff.mpr ⟨hrole, hvariant⟩).symm.trans
    (TaskKind.ofParts?_eq_some_iff.mpr ⟨rfl, rfl⟩)
  exact ⟨rfl, Option.some.inj hkind, rfl⟩

end TaskId

end GridFold

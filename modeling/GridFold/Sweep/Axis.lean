/-!
# GridFold.Sweep.Axis

A kernel walks a box of indices with several operands at once. Each `Axis` of the box has an
extent, the step every operand takes along it, and a cost: how much is gained by halving the axis
when the box is shared out. An axis of cost zero is never halved.

Positions of `k` operands are a `Vector Int k`, in exact arithmetic. Operand 0 is the destination,
the sources come behind it.
-/

namespace GridFold

structure Axis (k : Nat) where
  extent : Nat
  steps : Vector Int k
  cost : Nat

section Operands

variable {β δ : Type} {k : Nat}

/-- The entry of the destination, among the entries of all operands. -/
def destination (entries : Vector β (k + 1)) : β := getElem entries 0 (Nat.zero_lt_succ k)

def source (entries : Vector β (k + 2)) : β := getElem entries 1 (Nat.one_lt_succ_succ k)

def secondSource (entries : Vector β (k + 3)) : β := entries[2]

theorem destination_mem (entries : Vector β (k + 1)) : destination entries ∈ entries :=
  Vector.getElem_mem _

@[simp]
theorem destination_map (f : β → δ) (entries : Vector β (k + 1)) :
    destination (entries.map f) = f (destination entries) := by
  simp [destination]

@[simp]
theorem source_map (f : β → δ) (entries : Vector β (k + 2)) :
    source (entries.map f) = f (source entries) := by
  simp [source]

@[simp]
theorem secondSource_map (f : β → δ) (entries : Vector β (k + 3)) :
    secondSource (entries.map f) = f (secondSource entries) := by
  simp [secondSource]

end Operands

/-- The positions after `n` steps. -/
def advance {k : Nat} (positions steps : Vector Int k) (n : Int) : Vector Int k :=
  positions.zipWith (fun p s => p + n * s) steps

theorem advance_zero {k : Nat} (positions steps : Vector Int k) :
    advance positions steps 0 = positions := by
  ext i hi
  simp [advance]

theorem advance_advance {k : Nat} (positions steps : Vector Int k) (m n : Int) :
    advance (advance positions steps m) steps n = advance positions steps (m + n) := by
  ext i hi
  simp only [advance, Vector.getElem_zipWith]
  rw [Int.add_mul, Int.add_assoc]

/-- The number of indices in a box. -/
def boxVolume {k : Nat} (axes : List (Axis k)) : Nat := (axes.map Axis.extent).foldr (· * ·) 1

/-- Twice the shortest of the steps, and one where an operand does not move at all. -/
def costOfSteps (steps : List Int) : Nat :=
  match (steps.map Int.natAbs).min? with
  | some 0 | none => 1
  | some m => 2 * m

/-- The axes with the given extents, where each operand's strides say how it steps along them. -/
def axesOf {k : Nat} (cost : Vector Int k → Nat) :
    List Nat → Vector (List Int) k → List (Axis k)
  | [], _ => []
  | extent :: extents, strides =>
    let steps := strides.map fun s => s.headD 0
    ⟨extent, steps, cost steps⟩ :: axesOf cost extents (strides.map List.tail)

end GridFold

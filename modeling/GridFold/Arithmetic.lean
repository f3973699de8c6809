import GridFold.Failure

/-!
# GridFold.Arithmetic

The arithmetic of coordinates, extents and positions. They are words of 64 bits, and what becomes of
a result that is no word depends on how the program was built:

* `checked` — it traps;
* `wrapping` — it is reduced modulo `2 ^ 64`.

`exact` arithmetic has no words. The other two agree with it as long as every result is a word.
-/

namespace GridFold

/-- The number is a signed word: at least `-2 ^ 63` and below `2 ^ 63`. -/
def IsSigned (n : Int) : Prop := -0x8000_0000_0000_0000 ≤ n ∧ n < 0x8000_0000_0000_0000

instance (n : Int) : Decidable (IsSigned n) := inferInstanceAs (Decidable (_ ∧ _))

inductive Arithmetic where
  | exact
  | checked
  | wrapping
  deriving DecidableEq

namespace Arithmetic

/-- What is left of a result. -/
def reduced : Arithmetic → Int → Int
  | wrapping, n => n.bmod 0x1_0000_0000_0000_0000
  | exact, n | checked, n => n

def signed (a : Arithmetic) (n : Int) : Except Trap Int :=
  if a = checked ∧ ¬ IsSigned n then .error .overflow else .ok (a.reduced n)

def unsigned : Arithmetic → Nat → Except Trap Nat
  | exact, n => .ok n
  | checked, n => if n < 0x1_0000_0000_0000_0000 then .ok n else .error .overflow
  | wrapping, n => .ok (n % 0x1_0000_0000_0000_0000)

/-- A signed word read as an unsigned one. -/
def ofSigned : Arithmetic → Int → Nat
  | exact, n => n.toNat
  | checked, n | wrapping, n => (n % 0x1_0000_0000_0000_0000).toNat

/-- An unsigned word read as a signed one. -/
def ofUnsigned : Arithmetic → Nat → Int
  | exact, n => n
  | checked, n | wrapping, n => (n : Int).bmod 0x1_0000_0000_0000_0000

variable {a : Arithmetic} {n m : Int}

theorem bmod_of_isSigned (h : IsSigned n) : n.bmod 0x1_0000_0000_0000_0000 = n := by
  obtain ⟨hlo, hhi⟩ := h
  exact Int.bmod_eq_of_le (by omega) (by omega)

theorem reduced_of_isSigned (h : IsSigned n) : a.reduced n = n := by
  cases a with
  | wrapping => exact bmod_of_isSigned h
  | exact | checked => rfl

theorem reduced_of_ne (h : a ≠ wrapping) : a.reduced n = n := by
  cases a with
  | wrapping => exact absurd rfl h
  | exact | checked => rfl

@[simp]
theorem reduced_add_reduced (a : Arithmetic) (n m : Int) :
    a.reduced (a.reduced n + m) = a.reduced (n + m) := by
  cases a with
  | wrapping => exact Int.bmod_add_bmod
  | exact | checked => rfl

theorem signed_ok_iff :
    a.signed n = .ok m ↔ (a = checked → IsSigned n) ∧ a.reduced n = m := by
  unfold signed
  split
  · rename_i h
    simp [h]
  · rename_i h
    rw [Except.ok.injEq, iff_and_self]
    intro _ ha
    exact Decidable.byContradiction fun hn => h ⟨ha, hn⟩

theorem signed_of_isSigned (h : IsSigned n) : a.signed n = .ok n :=
  signed_ok_iff.mpr ⟨fun _ => h, reduced_of_isSigned h⟩

@[simp]
theorem signed_exact (n : Int) : exact.signed n = .ok n := signed_ok_iff.mpr ⟨nofun, rfl⟩

@[simp]
theorem signed_wrapping (n : Int) : wrapping.signed n = .ok (n.bmod 0x1_0000_0000_0000_0000) :=
  signed_ok_iff.mpr ⟨nofun, rfl⟩

theorem unsigned_checked_iff {n m : Nat} :
    checked.unsigned n = .ok m ↔ n < 0x1_0000_0000_0000_0000 ∧ n = m := by
  change (if n < 0x1_0000_0000_0000_0000 then Except.ok n else .error Trap.overflow) = .ok m ↔ _
  split
  · rename_i h
    rw [Except.ok.injEq]
    exact ⟨fun hm => ⟨h, hm⟩, And.right⟩
  · rename_i h
    exact ⟨nofun, fun hm => absurd hm.1 h⟩

theorem ofSigned_of_nonneg (h : IsSigned n) (hn : 0 ≤ n) : a.ofSigned n = n.toNat := by
  have hmod : n % 0x1_0000_0000_0000_0000 = n := Int.emod_eq_of_lt hn (by have := h.2; omega)
  cases a with
  | exact => rfl
  | checked | wrapping => exact congrArg Int.toNat hmod

theorem ofUnsigned_of_lt {n : Nat} (h : n < 0x8000_0000_0000_0000) : a.ofUnsigned n = n := by
  have hword : (n : Int).bmod 0x1_0000_0000_0000_0000 = n := bmod_of_isSigned ⟨by omega, by omega⟩
  cases a with
  | exact => rfl
  | checked | wrapping => exact hword

end Arithmetic

end GridFold

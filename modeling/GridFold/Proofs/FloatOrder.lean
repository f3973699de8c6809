import GridFold.Proofs.Laws

/-!
# GridFold.Proofs.FloatOrder

Comparison of floats is that of IEEE 754. Two floats that are numbers are compared by their kind, from
minus infinity over the negative numbers, the zeros and the positive numbers to infinity, then by
exponent and mantissa. Each infinity has a single bit pattern.
-/

namespace GridFold

open Float.Model Float.Model.UnpackedFloat

/-- Kind, exponent and mantissa, the negative ones turned around. -/
def floatKey : UnpackedFloat → Int ×ₗ Int ×ₗ Int
  | .infinity .negative => toLex (-2, toLex (0, 0))
  | .finite .negative m e _ => toLex (-1, toLex (-e, -Int.ofNat m))
  | .zero _ | .notANumber => toLex (0, toLex (0, 0))
  | .finite .positive m e _ => toLex (1, toLex (e, Int.ofNat m))
  | .infinity .positive => toLex (2, toLex (0, 0))

theorem not_isNaN_of_compare {u v : UnpackedFloat} {o : Ordering}
    (h : UnpackedFloat.compare u v = some o) : u.isNaN = false ∧ v.isNaN = false := by
  cases u <;> cases v <;> first | exact ⟨rfl, rfl⟩ | simp [UnpackedFloat.compare] at h

theorem compare_eq_lt_iff {u v : UnpackedFloat} (hu : u.isNaN = false) (hv : v.isNaN = false) :
    UnpackedFloat.compare u v = some .lt ↔ floatKey u < floatKey v := by
  cases u with
  | notANumber => cases hu
  | infinity s =>
    cases v with
    | notANumber => cases hv
    | infinity t => cases s <;> cases t <;> decide
    | zero t => cases s <;> simp [UnpackedFloat.compare, floatKey, Prod.Lex.toLex_lt_toLex]
    | finite t =>
      cases s <;> cases t <;> simp [UnpackedFloat.compare, floatKey, Prod.Lex.toLex_lt_toLex]
  | zero s =>
    cases v with
    | notANumber => cases hv
    | infinity t => cases t <;> simp [UnpackedFloat.compare, floatKey, Prod.Lex.toLex_lt_toLex]
    | zero t => simp [UnpackedFloat.compare, floatKey]
    | finite t => cases t <;> simp [UnpackedFloat.compare, floatKey, Prod.Lex.toLex_lt_toLex]
  | finite s m e =>
    cases v with
    | notANumber => cases hv
    | infinity t =>
      cases s <;> cases t <;> simp [UnpackedFloat.compare, floatKey, Prod.Lex.toLex_lt_toLex]
    | zero t => cases s <;> simp [UnpackedFloat.compare, floatKey, Prod.Lex.toLex_lt_toLex]
    | finite t n f =>
      cases s <;> cases t <;>
        simp [UnpackedFloat.compare, floatKey, Prod.Lex.toLex_lt_toLex, Ordering.then_eq_lt,
          Ordering.swap_eq_lt, Ordering.then_eq_gt, compare_gt_iff_gt, compare_lt_iff_lt]

theorem compare_eq_eq_iff {u v : UnpackedFloat} (hu : u.isNaN = false) (hv : v.isNaN = false) :
    UnpackedFloat.compare u v = some .eq ↔ floatKey u = floatKey v := by
  cases u with
  | notANumber => cases hu
  | infinity s =>
    cases v with
    | notANumber => cases hv
    | infinity t => cases s <;> cases t <;> decide
    | zero t => cases s <;> simp [UnpackedFloat.compare, floatKey]
    | finite t => cases s <;> cases t <;> simp [UnpackedFloat.compare, floatKey]
  | zero s =>
    cases v with
    | notANumber => cases hv
    | infinity t => cases t <;> simp [UnpackedFloat.compare, floatKey]
    | zero t => simp [UnpackedFloat.compare, floatKey]
    | finite t => cases t <;> simp [UnpackedFloat.compare, floatKey]
  | finite s m e =>
    cases v with
    | notANumber => cases hv
    | infinity t => cases s <;> cases t <;> simp [UnpackedFloat.compare, floatKey]
    | zero t => cases s <;> simp [UnpackedFloat.compare, floatKey]
    | finite t n f =>
      cases s <;> cases t <;>
        simp [UnpackedFloat.compare, floatKey, Ordering.then_eq_eq, Ordering.swap_eq_eq]

theorem floatKey_bounds (u : UnpackedFloat) :
    floatKey (.infinity .negative) ≤ floatKey u ∧ floatKey u ≤ floatKey (.infinity .positive) := by
  cases u with
  | notANumber => decide
  | infinity s => cases s <;> decide
  | zero s => simp [floatKey, Prod.Lex.toLex_le_toLex]
  | finite s => cases s <;> simp [floatKey, Prod.Lex.toLex_le_toLex]

theorem eq_infinity_of_floatKey {u : UnpackedFloat} {s : Sign}
    (h : floatKey u = floatKey (.infinity s)) : u = .infinity s := by
  cases u with
  | notANumber => cases s <;> simp [floatKey] at h
  | infinity t => cases s <;> cases t <;> simp [floatKey] at h ⊢
  | zero t => cases s <;> simp [floatKey] at h
  | finite t => cases s <;> cases t <;> simp [floatKey] at h

theorem sign_of_unpackSign (v : BitVec 1) : (Sign.ofBitVec v).toBitVec = v := by
  revert v
  decide

theorem bits_of_infinity {spec : Format} {b : BitVec spec.numBits} {s : Sign}
    (h : UnpackedFloat.unpack spec b = .infinity s) : b = packedInfinity spec s := by
  rw [UnpackedFloat.unpack] at h
  split at h
  · rename_i hexp
    split at h
    · rename_i hmant
      cases h
      rw [packedInfinity, packComponents, sign_of_unpackSign, ← hexp]
      change b = unpackSign b ++ unpackExponent b ++ (0#_)
      rw [← hmant]
      simp only [unpackSign, unpackExponent, unpackMantissa, BitVec.extractLsb]
      ext i hi
      grind
    · cases h
  · split at h
    · split at h <;> cases h
    · cases h

theorem unpack_infinity (spec : Format) (s : Sign) :
    UnpackedFloat.unpack spec (packedInfinity spec s) = .infinity s := by
  have hsign : unpackSign (packedInfinity spec s) = s.toBitVec := by
    simp only [packedInfinity, packComponents, unpackSign, BitVec.extractLsb]
    ext i hi
    grind
  rw [UnpackedFloat.unpack, hsign]
  simp only [packedInfinity, unpackExponent_packComponents, unpackMantissa_packComponents, if_true]
  cases s <;> rfl

/-! ## Comparison of bit patterns -/

section Bits

variable {α : Type} [Element α] {spec : Format} {bits : α → BitVec spec.numBits}

/-- Values are bit patterns of an IEEE format and are compared as it says. Several of them may be NaNs,
and there are two zeros. -/
structure ComparesAs (spec : Format) (bits : α → BitVec spec.numBits) : Prop where
  faithful : Function.Injective bits
  isUnordered_eq : ∀ a, Element.isUnordered a = (UnpackedFloat.unpack spec (bits a)).isNaN
  less_eq : ∀ a b, Element.less a b =
    (UnpackedFloat.unpack spec (bits a)).lt (UnpackedFloat.unpack spec (bits b))
  same_eq : ∀ a b, Element.same a b =
    (UnpackedFloat.unpack spec (bits a)).beq (UnpackedFloat.unpack spec (bits b))
  lowest_eq : bits Element.lowest = packedInfinity spec .negative
  highest_eq : bits Element.highest = packedInfinity spec .positive

theorem ComparesAs.less_iff (h : ComparesAs spec bits) {a b : α} (ha : Element.isUnordered a = false)
    (hb : Element.isUnordered b = false) :
    Element.less a b = true ↔
      floatKey (UnpackedFloat.unpack spec (bits a)) < floatKey (UnpackedFloat.unpack spec (bits b)) := by
  rw [h.isUnordered_eq] at ha hb
  rw [h.less_eq, UnpackedFloat.lt, beq_iff_eq]
  exact compare_eq_lt_iff ha hb

theorem ComparesAs.same_iff (h : ComparesAs spec bits) (a b : α) :
    Element.same a b = true ↔
      (Element.isUnordered a = false ∧ Element.isUnordered b = false) ∧
        floatKey (UnpackedFloat.unpack spec (bits a)) =
          floatKey (UnpackedFloat.unpack spec (bits b)) := by
  rw [h.same_eq, UnpackedFloat.beq, beq_iff_eq, h.isUnordered_eq, h.isUnordered_eq]
  constructor
  · intro hab
    obtain ⟨ha, hb⟩ := not_isNaN_of_compare hab
    exact ⟨⟨ha, hb⟩, (compare_eq_eq_iff ha hb).mp hab⟩
  · rintro ⟨⟨ha, hb⟩, hab⟩
    exact (compare_eq_eq_iff ha hb).mpr hab

theorem ComparesAs.comparison (h : ComparesAs spec bits) : Comparison α := by
  have hlow : UnpackedFloat.unpack spec (bits Element.lowest) = .infinity .negative := by
    rw [h.lowest_eq, unpack_infinity]
  have hhigh : UnpackedFloat.unpack spec (bits Element.highest) = .infinity .positive := by
    rw [h.highest_eq, unpack_infinity]
  refine comparison_of_key (fun a => floatKey (UnpackedFloat.unpack spec (bits a)))
    (fun a b => h.less_iff) (fun a b => (h.same_iff a b).mp) ?_ ?_ ?_ ?_ ?_ ?_
  · rw [h.isUnordered_eq, hlow]
    rfl
  · rw [h.isUnordered_eq, hhigh]
    rfl
  · intro a _
    rw [hlow]
    exact (floatKey_bounds _).1
  · intro a _
    rw [hhigh]
    exact (floatKey_bounds _).2
  · intro a _ ha
    rw [hlow] at ha
    exact h.faithful ((bits_of_infinity (eq_infinity_of_floatKey ha)).trans h.lowest_eq.symm)
  · intro a _ ha
    rw [hhigh] at ha
    exact h.faithful ((bits_of_infinity (eq_infinity_of_floatKey ha)).trans h.highest_eq.symm)

end Bits

/-- All bit patterns of a format, NaNs of any payload included, with any sums and products. -/
@[reducible]
def Element.ofFormat (spec : Format) (elementType : ElementType) (zero one : BitVec spec.numBits)
    (add mul : BitVec spec.numBits → BitVec spec.numBits → BitVec spec.numBits) :
    Element (BitVec spec.numBits) where
  elementType := elementType
  lowest := packedInfinity spec .negative
  highest := packedInfinity spec .positive
  zero := zero
  one := one
  isUnordered a := (UnpackedFloat.unpack spec a).isNaN
  less a b := (UnpackedFloat.unpack spec a).lt (UnpackedFloat.unpack spec b)
  same a b := (UnpackedFloat.unpack spec a).beq (UnpackedFloat.unpack spec b)
  add := add
  mul := mul

theorem comparesAs_ofFormat (spec : Format) (elementType : ElementType)
    (zero one : BitVec spec.numBits)
    (add mul : BitVec spec.numBits → BitVec spec.numBits → BitVec spec.numBits) :
    @ComparesAs _ (.ofFormat spec elementType zero one add mul) spec id :=
  let _ := Element.ofFormat spec elementType zero one add mul
  ⟨fun _ _ h => h, fun _ => rfl, fun _ _ => rfl, fun _ _ => rfl, rfl, rfl⟩

theorem comparison_ofFormat (spec : Format) (elementType : ElementType)
    (zero one : BitVec spec.numBits)
    (add mul : BitVec spec.numBits → BitVec spec.numBits → BitVec spec.numBits) :
    @Comparison _ (.ofFormat spec elementType zero one add mul) :=
  let _ := Element.ofFormat spec elementType zero one add mul
  (comparesAs_ofFormat spec elementType zero one add mul).comparison

theorem comparesAs_float : ComparesAs .binary64 fun a : Float => a.toBits.toBitVec where
  faithful := by
    rintro ⟨⟨a, _⟩⟩ ⟨⟨b, _⟩⟩ h
    cases UInt64.toBitVec_inj.mp (show a.toBitVec = b.toBitVec from h)
    rfl
  isUnordered_eq := fun _ => rfl
  less_eq := fun _ _ => Bool.eq_iff_iff.mpr (decide_eq_true_iff.trans decide_eq_true_iff)
  same_eq := fun _ _ => rfl
  lowest_eq := rfl
  highest_eq := rfl

theorem comparison_float : Comparison Float := comparesAs_float.comparison

theorem comparesAs_float32 : ComparesAs .binary32 fun a : Float32 => a.toBits.toBitVec where
  faithful := by
    rintro ⟨⟨a, _⟩⟩ ⟨⟨b, _⟩⟩ h
    cases UInt32.toBitVec_inj.mp (show a.toBitVec = b.toBitVec from h)
    rfl
  isUnordered_eq := fun _ => rfl
  less_eq := fun _ _ => Bool.eq_iff_iff.mpr (decide_eq_true_iff.trans decide_eq_true_iff)
  same_eq := fun _ _ => rfl
  lowest_eq := rfl
  highest_eq := rfl

theorem comparison_float32 : Comparison Float32 := comparesAs_float32.comparison

end GridFold

import GridFold.Reduction
import Mathlib

/-!
# GridFold.Proofs.Laws

What an operator must satisfy for its folds not to depend on how they are grouped.

* `Operator.Monoidal` — folds may be grouped: `Operator.Monoidal.foldl_blocks` folds block by block.
* `Operator.Lawful` — the mode of the folds does not show either.
* `Comparison` — what `max` and `min` ask of comparison; `lawful_max` and `lawful_min`.
* `exchangeable_int8`, … , `exchangeable_bool` — every reduction on the integers and on `Bool` is
  lawful, and its operands may change places.
-/

namespace GridFold

variable {α : Type}

/-- Combining is associative and has a neutral identity. -/
structure Operator.Monoidal (op : Operator α) : Prop where
  assoc : ∀ a b c, op.combine (op.combine a b) c = op.combine a (op.combine b c)
  identity_left : ∀ a, op.combine op.identity a = a
  identity_right : ∀ a, op.combine a op.identity = a

def Operator.Commutes (op : Operator α) : Prop := ∀ a b, op.combine a b = op.combine b a

/-- The fold of some values, starting from the first of them. -/
def Operator.foldFirst (op : Operator α) : List α → α
  | [] => op.identity
  | a :: as => as.foldl op.combine a

namespace Operator.Monoidal

variable {op : Operator α}

theorem foldl_eq (h : op.Monoidal) (a : α) (xs : List α) :
    xs.foldl op.combine a = op.combine a (xs.foldl op.combine op.identity) := by
  induction xs generalizing a with
  | nil => exact (h.identity_right a).symm
  | cons x xs ih =>
    rw [List.foldl_cons, List.foldl_cons, ih (op.combine a x), ih (op.combine op.identity x),
      h.identity_left, h.assoc]

/-- Folding the folds of blocks is folding the blocks laid end to end. -/
theorem foldl_blocks (h : op.Monoidal) (a : α) (blocks : List (List α)) :
    (blocks.map fun b => b.foldl op.combine op.identity).foldl op.combine a =
      blocks.flatten.foldl op.combine a := by
  induction blocks generalizing a with
  | nil => rfl
  | cons b blocks ih =>
    rw [List.map_cons, List.foldl_cons, List.flatten_cons, List.foldl_append, ih, ← h.foldl_eq a b]

theorem foldFirst_eq (h : op.Monoidal) (xs : List α) :
    op.foldFirst xs = xs.foldl op.combine op.identity := by
  cases xs with
  | nil => rfl
  | cons x xs => rw [Operator.foldFirst, List.foldl_cons, h.identity_left]

theorem foldl_perm (h : op.Monoidal) (hc : op.Commutes) {xs ys : List α} (hperm : xs.Perm ys)
    (a : α) : xs.foldl op.combine a = ys.foldl op.combine a := by
  have : RightCommutative op.combine := ⟨fun a b c => by rw [h.assoc, hc b c, h.assoc]⟩
  exact hperm.foldl_eq a

end Operator.Monoidal

/-- Combining is associative and has a neutral identity, and a value that compares equal to the one it
was combined from is that value. -/
structure Operator.Lawful [Element α] (op : Operator α) : Prop where
  assoc : ∀ a b c, op.combine (op.combine a b) c = op.combine a (op.combine b c)
  identity_left : ∀ a, op.combine op.identity a = a
  identity_right : ∀ a, op.combine a op.identity = a
  absorbed : ∀ a b, Element.same (op.combine a b) a = true → op.combine a b = a

namespace Operator.Lawful

variable [Element α] {op : Operator α}

theorem monoidal (h : op.Lawful) : op.Monoidal := ⟨h.assoc, h.identity_left, h.identity_right⟩

theorem fold_eq (h : op.Lawful) (mode : FoldMode) (acc value : α) :
    op.fold mode acc value = op.combine acc value := by
  cases mode with
  | exclusive => rfl
  | relaxed =>
    simp only [Operator.fold]
    split
    · rename_i hsame
      exact (h.absorbed acc value hsame).symm
    · rfl

theorem foldl_blocks (h : op.Lawful) (mode : FoldMode) (a : α) (blocks : List (List α)) :
    (blocks.map fun b => b.foldl op.combine op.identity).foldl (op.fold mode) a =
      blocks.flatten.foldl op.combine a := by
  have hfold : op.fold mode = op.combine := funext fun acc => funext (h.fold_eq mode acc)
  rw [hfold, h.monoidal.foldl_blocks]

end Operator.Lawful

/-- A lawful operator whose operands may change places. -/
structure Operator.Exchangeable [Element α] (op : Operator α) : Prop extends op.Lawful where
  comm : op.Commutes

/-! ## Greatest and least values -/

/-- Values that are not unordered are compared by a strict weak order, and the bounds are the only
values at its ends. -/
structure WeaklyOrdered (α : Type) [Element α] : Prop where
  lowest_ordered : Element.isUnordered (Element.lowest : α) = false
  highest_ordered : Element.isUnordered (Element.highest : α) = false
  irrefl : ∀ a : α, Element.isUnordered a = false → Element.less a a = false
  trans : ∀ a b c : α, Element.isUnordered a = false → Element.isUnordered b = false →
    Element.isUnordered c = false → Element.less a b = true → Element.less b c = true →
      Element.less a c = true
  cotrans : ∀ a b c : α, Element.isUnordered a = false → Element.isUnordered b = false →
    Element.isUnordered c = false → Element.less a c = true →
      Element.less a b = true ∨ Element.less b c = true
  not_less_lowest : ∀ a : α, Element.isUnordered a = false →
    Element.less a Element.lowest = false
  eq_lowest : ∀ a : α, Element.isUnordered a = false →
    Element.less Element.lowest a = false → a = Element.lowest
  not_highest_less : ∀ a : α, Element.isUnordered a = false →
    Element.less Element.highest a = false
  eq_highest : ∀ a : α, Element.isUnordered a = false →
    Element.less a Element.highest = false → a = Element.highest

/-- Comparison as of IEEE numbers: besides the order, values that compare equal are not unordered, and
neither is less than the other. -/
structure Comparison (α : Type) [Element α] : Prop extends WeaklyOrdered α where
  same_ordered : ∀ a b : α, Element.same a b = true →
    Element.isUnordered a = false ∧ Element.isUnordered b = false
  same_not_less : ∀ a b : α, Element.same a b = true →
    Element.less a b = false ∧ Element.less b a = false

/-- `wins` is the strict part of a preference between values that are not unordered, in which nothing
but the identity is beaten by nothing worse. -/
structure Preference [Element α] (wins : α → α → Bool) (identity : α) : Prop where
  ordered : Element.isUnordered identity = false
  trans : ∀ a b c : α, Element.isUnordered a = false → Element.isUnordered b = false →
    Element.isUnordered c = false → wins a b = true → wins b c = true → wins a c = true
  cotrans : ∀ a b c : α, Element.isUnordered a = false → Element.isUnordered b = false →
    Element.isUnordered c = false → wins a c = true → wins a b = true ∨ wins b c = true
  not_wins : ∀ a : α, Element.isUnordered a = false → wins identity a = false
  eq_identity : ∀ a : α, Element.isUnordered a = false → wins a identity = false → a = identity

namespace Preference

variable [Element α] {wins : α → α → Bool} {identity : α}

theorem choose_ordered {a b : α} (ha : Element.isUnordered a = false)
    (hb : Element.isUnordered b = false) :
    Operator.choose wins a b = if wins b a then b else a := by
  simp [Operator.choose, ha, hb]

theorem choose_unordered_left {a : α} (ha : Element.isUnordered a = true) (b : α) :
    Operator.choose wins a b = a := by
  simp [Operator.choose, ha]

theorem choose_unordered_right {a b : α} (ha : Element.isUnordered a = false)
    (hb : Element.isUnordered b = true) : Operator.choose wins a b = b := by
  simp [Operator.choose, ha, hb]

theorem isUnordered_choose {a b : α} (ha : Element.isUnordered a = false)
    (hb : Element.isUnordered b = false) :
    Element.isUnordered (Operator.choose wins a b) = false := by
  rw [choose_ordered ha hb]
  split
  · exact hb
  · exact ha

/-- Where one of any two values wins, it wins from either side. -/
theorem choose_comm (hordered : ∀ a : α, Element.isUnordered a = false)
    (hasymm : ∀ a b, wins a b = true → wins b a = false)
    (heven : ∀ a b, wins a b = false → wins b a = false → a = b) (a b : α) :
    Operator.choose wins a b = Operator.choose wins b a := by
  rw [choose_ordered (hordered a) (hordered b), choose_ordered (hordered b) (hordered a)]
  cases hba : wins b a with
  | true => rw [hasymm b a hba]; rfl
  | false =>
    cases hab : wins a b with
    | true => rfl
    | false => rw [heven a b hab hba]

theorem choose_assoc_ordered (h : Preference wins identity) {a b c : α}
    (ha : Element.isUnordered a = false) (hb : Element.isUnordered b = false)
    (hc : Element.isUnordered c = false) :
    Operator.choose wins (Operator.choose wins a b) c =
      Operator.choose wins a (Operator.choose wins b c) := by
  rw [choose_ordered (isUnordered_choose ha hb) hc, choose_ordered ha (isUnordered_choose hb hc),
    choose_ordered ha hb, choose_ordered hb hc]
  by_cases hba : wins b a = true
  · by_cases hcb : wins c b = true
    · simp [hba, hcb, h.trans c b a hc hb ha hcb hba]
    · simp [hba, hcb]
  · by_cases hcb : wins c b = true
    · simp [hba, hcb]
    · have hca : ¬ wins c a = true := fun hca =>
        (h.cotrans c b a hc hb ha hca).elim hcb hba
      simp [hba, hcb, hca]

/-- The first unordered operand decides; without one the preference does. -/
theorem choose_assoc (h : Preference wins identity) (a b c : α) :
    Operator.choose wins (Operator.choose wins a b) c =
      Operator.choose wins a (Operator.choose wins b c) := by
  cases ha : Element.isUnordered a with
  | true => simp only [choose_unordered_left ha]
  | false =>
    cases hb : Element.isUnordered b with
    | true =>
      rw [choose_unordered_right ha hb, choose_unordered_left hb, choose_unordered_right ha hb]
    | false =>
      cases hc : Element.isUnordered c with
      | true =>
        rw [choose_unordered_right (isUnordered_choose ha hb) hc, choose_unordered_right hb hc,
          choose_unordered_right ha hc]
      | false => exact h.choose_assoc_ordered ha hb hc

theorem choose_identity_left (h : Preference wins identity) (a : α) :
    Operator.choose wins identity a = a := by
  cases ha : Element.isUnordered a with
  | true => exact choose_unordered_right h.ordered ha
  | false =>
    rw [choose_ordered h.ordered ha]
    split
    · rfl
    · rename_i hwins
      exact (h.eq_identity a ha (by simpa using hwins)).symm

theorem choose_identity_right (h : Preference wins identity) (a : α) :
    Operator.choose wins a identity = a := by
  cases ha : Element.isUnordered a with
  | true => exact choose_unordered_left ha _
  | false =>
    rw [choose_ordered ha h.ordered, h.not_wins a ha]
    rfl

/-- A preference in which values that compare equal are even makes a lawful operator. -/
theorem lawful (h : Preference wins identity)
    (hsame : ∀ a b : α, Element.same a b = true → (Element.isUnordered a = false ∧
      Element.isUnordered b = false) ∧ wins a b = false) :
    (⟨identity, Operator.choose wins⟩ : Operator α).Lawful where
  assoc := h.choose_assoc
  identity_left := h.choose_identity_left
  identity_right := h.choose_identity_right
  absorbed := by
    intro a b habsorbed
    change Element.same (Operator.choose wins a b) a = true at habsorbed
    change Operator.choose wins a b = a
    obtain ⟨⟨hchosen, ha⟩, heven⟩ := hsame _ _ habsorbed
    cases hb : Element.isUnordered b with
    | true =>
      rw [choose_unordered_right ha hb, hb] at hchosen
      cases hchosen
    | false =>
      rw [choose_ordered ha hb] at heven ⊢
      split
      · rename_i hwins
        rw [if_pos hwins, hwins] at heven
        cases heven
      · rfl

end Preference

section Choice

variable [Element α]

theorem WeaklyOrdered.preference_max (h : WeaklyOrdered α) :
    Preference (fun a b : α => Element.less b a) Element.lowest where
  ordered := h.lowest_ordered
  trans a b c ha hb hc hab hbc := h.trans c b a hc hb ha hbc hab
  cotrans a b c ha hb hc hac := (h.cotrans c b a hc hb ha hac).symm
  not_wins := h.not_less_lowest
  eq_identity := h.eq_lowest

theorem WeaklyOrdered.preference_min (h : WeaklyOrdered α) :
    Preference (fun a b : α => Element.less a b) Element.highest where
  ordered := h.highest_ordered
  trans := h.trans
  cotrans := h.cotrans
  not_wins := h.not_highest_less
  eq_identity := h.eq_highest

theorem lawful_max (h : Comparison α) : (Operator.max : Operator α).Lawful :=
  h.preference_max.lawful fun a b hab => ⟨h.same_ordered a b hab, (h.same_not_less a b hab).2⟩

theorem lawful_min (h : Comparison α) : (Operator.min : Operator α).Lawful :=
  h.preference_min.lawful fun a b hab => ⟨h.same_ordered a b hab, (h.same_not_less a b hab).1⟩

theorem comparison_of_key {κ : Type} [LinearOrder κ] (key : α → κ)
    (hless : ∀ a b : α, Element.isUnordered a = false → Element.isUnordered b = false →
      (Element.less a b = true ↔ key a < key b))
    (hsame : ∀ a b : α, Element.same a b = true →
      (Element.isUnordered a = false ∧ Element.isUnordered b = false) ∧ key a = key b)
    (hlowest : Element.isUnordered (Element.lowest : α) = false)
    (hhighest : Element.isUnordered (Element.highest : α) = false)
    (hleast : ∀ a : α, Element.isUnordered a = false → key Element.lowest ≤ key a)
    (hgreatest : ∀ a : α, Element.isUnordered a = false → key a ≤ key Element.highest)
    (hfirst : ∀ a : α, Element.isUnordered a = false → key a = key Element.lowest →
      a = Element.lowest)
    (hlast : ∀ a : α, Element.isUnordered a = false → key a = key Element.highest →
      a = Element.highest) : Comparison α := by
  have hnot : ∀ a b : α, Element.isUnordered a = false → Element.isUnordered b = false →
      (Element.less a b = false ↔ key b ≤ key a) := by
    intro a b ha hb
    rw [← not_lt, ← hless a b ha hb, Bool.not_eq_true]
  exact {
    lowest_ordered := hlowest
    highest_ordered := hhighest
    irrefl := fun a ha => (hnot a a ha ha).mpr (le_refl _)
    trans := fun a b c ha hb hc hab hbc => (hless a c ha hc).mpr
      (lt_trans ((hless a b ha hb).mp hab) ((hless b c hb hc).mp hbc))
    cotrans := fun a b c ha hb hc hac => by
      rw [hless a b ha hb, hless b c hb hc]
      rcases lt_or_ge (key a) (key b) with hab | hba
      · exact .inl hab
      · exact .inr (lt_of_le_of_lt hba ((hless a c ha hc).mp hac))
    not_less_lowest := fun a ha => (hnot a _ ha hlowest).mpr (hleast a ha)
    eq_lowest := fun a ha h =>
      hfirst a ha (le_antisymm ((hnot _ a hlowest ha).mp h) (hleast a ha))
    not_highest_less := fun a ha => (hnot _ a hhighest ha).mpr (hgreatest a ha)
    eq_highest := fun a ha h =>
      hlast a ha (le_antisymm (hgreatest a ha) ((hnot a _ ha hhighest).mp h))
    same_ordered := fun a b hab => (hsame a b hab).1
    same_not_less := fun a b hab => by
      obtain ⟨⟨ha, hb⟩, hkey⟩ := hsame a b hab
      exact ⟨(hnot a b ha hb).mpr hkey.ge, (hnot b a hb ha).mpr hkey.le⟩ }

end Choice

/-! ## Integers and booleans -/

theorem Operator.lawful_of_same_eq [Element α] {op : Operator α}
    (hsame : ∀ a b : α, Element.same a b = true → a = b)
    (hassoc : ∀ a b c, op.combine (op.combine a b) c = op.combine a (op.combine b c))
    (hleft : ∀ a, op.combine op.identity a = a) (hright : ∀ a, op.combine a op.identity = a) :
    op.Lawful where
  assoc := hassoc
  identity_left := hleft
  identity_right := hright
  absorbed _ _ h := hsame _ _ h

section Integer

variable {lowest highest : α} [LT α]

/-- Fixed-width integers are compared through the integers they stand for, and no two stand for the
same. -/
structure Keyed (key : α → Int) (lowest highest : α) : Prop where
  inj : ∀ a b, key a = key b → a = b
  lt_iff : ∀ a b : α, a < b ↔ key a < key b
  lowest_le : ∀ a, key lowest ≤ key a
  le_highest : ∀ a, key a ≤ key highest

theorem Keyed.ofNat {toNat : α → Nat} (hinj : ∀ a b, toNat a = toNat b → a = b)
    (hlt : ∀ a b : α, a < b ↔ toNat a < toNat b) (hlowest : toNat lowest = 0)
    (hhighest : ∀ a, toNat a ≤ toNat highest) :
    Keyed (fun a => Int.ofNat (toNat a)) lowest highest where
  inj a b h := hinj a b (Int.ofNat.inj h)
  lt_iff a b := (hlt a b).trans Int.ofNat_lt.symm
  lowest_le a := by
    rw [hlowest]
    exact Int.natCast_nonneg _
  le_highest a := Int.ofNat_le.mpr (hhighest a)

/-- Sums and products as of integers that wrap at their width. -/
structure Wrapping (α : Type) [OfNat α 0] [OfNat α 1] [Add α] [Mul α] : Prop where
  add_assoc : ∀ a b c : α, a + b + c = a + (b + c)
  add_comm : ∀ a b : α, a + b = b + a
  zero_add : ∀ a : α, 0 + a = a
  mul_assoc : ∀ a b c : α, a * b * c = a * (b * c)
  mul_comm : ∀ a b : α, a * b = b * a
  one_mul : ∀ a : α, 1 * a = a

variable {t : ElementType} [OfNat α 0] [OfNat α 1] [Add α] [Mul α] [DecidableLT α] [DecidableEq α]

theorem Keyed.comparison {key : α → Int} (h : Keyed key lowest highest) :
    @Comparison α (.integer α t lowest highest) :=
  let _ : Element α := .integer α t lowest highest
  comparison_of_key key (fun a b _ _ => by simp [Element.less, h.lt_iff])
    (fun a b hab => ⟨⟨rfl, rfl⟩, congrArg key (of_decide_eq_true hab)⟩) rfl rfl
    (fun a _ => h.lowest_le a) (fun a _ => h.le_highest a) (fun a _ => h.inj _ _)
    (fun a _ => h.inj _ _)

theorem Keyed.commutes {key : α → Int} (h : Keyed key lowest highest) :
    @Operator.Commutes α (@Operator.max α (.integer α t lowest highest)) ∧
      @Operator.Commutes α (@Operator.min α (.integer α t lowest highest)) := by
  let _ : Element α := .integer α t lowest highest
  have hless : ∀ a b : α, Element.less a b = true ↔ key a < key b := fun a b =>
    decide_eq_true_iff.trans (h.lt_iff a b)
  have hasymm : ∀ a b : α, Element.less a b = true → Element.less b a = false := by
    intro a b hab
    rw [← Bool.not_eq_true, hless]
    exact lt_asymm ((hless a b).mp hab)
  have heven : ∀ a b : α, Element.less a b = false → Element.less b a = false → a = b := by
    intro a b hab hba
    rw [← Bool.not_eq_true, hless, not_lt] at hab hba
    exact h.inj a b (le_antisymm hba hab)
  exact ⟨Preference.choose_comm (fun _ => rfl) (fun a b => hasymm b a) fun a b hab hba =>
    heven a b hba hab, Preference.choose_comm (fun _ => rfl) hasymm heven⟩

theorem exchangeable_integer {key : α → Int} (hkey : Keyed key lowest highest) (hw : Wrapping α)
    (r : Reduction) :
    @Operator.Exchangeable α (.integer α t lowest highest)
      (@Reduction.operator α (.integer α t lowest highest) r) := by
  let _ : Element α := .integer α t lowest highest
  have hsame : ∀ a b : α, Element.same a b = true → a = b := fun a b h => of_decide_eq_true h
  cases r with
  | max => exact ⟨lawful_max hkey.comparison, hkey.commutes.1⟩
  | min => exact ⟨lawful_min hkey.comparison, hkey.commutes.2⟩
  | sum =>
    refine ⟨Operator.lawful_of_same_eq hsame hw.add_assoc hw.zero_add ?_, hw.add_comm⟩
    intro a
    exact (hw.add_comm a 0).trans (hw.zero_add a)
  | prod =>
    refine ⟨Operator.lawful_of_same_eq hsame hw.mul_assoc hw.one_mul ?_, hw.mul_comm⟩
    intro a
    exact (hw.mul_comm a 1).trans (hw.one_mul a)

end Integer

theorem keyed_int8 : Keyed Int8.toInt Int8.minValue Int8.maxValue :=
  ⟨fun _ _ => Int8.toInt.inj, fun _ _ => Int8.lt_iff_toInt_lt, Int8.minValue_le_toInt,
    Int8.toInt_le⟩

theorem exchangeable_int8 (r : Reduction) : (r.operator : Operator Int8).Exchangeable :=
  exchangeable_integer keyed_int8 ⟨Int8.add_assoc, Int8.add_comm, fun a => a.zero_add,
    Int8.mul_assoc, Int8.mul_comm, fun a => a.one_mul⟩ r

theorem lawful_int8 (r : Reduction) : (r.operator : Operator Int8).Lawful :=
  (exchangeable_int8 r).toLawful

theorem keyed_int16 : Keyed Int16.toInt Int16.minValue Int16.maxValue :=
  ⟨fun _ _ => Int16.toInt.inj, fun _ _ => Int16.lt_iff_toInt_lt, Int16.minValue_le_toInt,
    Int16.toInt_le⟩

theorem exchangeable_int16 (r : Reduction) : (r.operator : Operator Int16).Exchangeable :=
  exchangeable_integer keyed_int16 ⟨Int16.add_assoc, Int16.add_comm, fun a => a.zero_add,
    Int16.mul_assoc, Int16.mul_comm, fun a => a.one_mul⟩ r

theorem lawful_int16 (r : Reduction) : (r.operator : Operator Int16).Lawful :=
  (exchangeable_int16 r).toLawful

theorem keyed_int32 : Keyed Int32.toInt Int32.minValue Int32.maxValue :=
  ⟨fun _ _ => Int32.toInt.inj, fun _ _ => Int32.lt_iff_toInt_lt, Int32.minValue_le_toInt,
    Int32.toInt_le⟩

theorem exchangeable_int32 (r : Reduction) : (r.operator : Operator Int32).Exchangeable :=
  exchangeable_integer keyed_int32 ⟨Int32.add_assoc, Int32.add_comm, fun a => a.zero_add,
    Int32.mul_assoc, Int32.mul_comm, fun a => a.one_mul⟩ r

theorem lawful_int32 (r : Reduction) : (r.operator : Operator Int32).Lawful :=
  (exchangeable_int32 r).toLawful

theorem keyed_int64 : Keyed Int64.toInt Int64.minValue Int64.maxValue :=
  ⟨fun _ _ => Int64.toInt.inj, fun _ _ => Int64.lt_iff_toInt_lt, Int64.minValue_le_toInt,
    Int64.toInt_le⟩

theorem exchangeable_int64 (r : Reduction) : (r.operator : Operator Int64).Exchangeable :=
  exchangeable_integer keyed_int64 ⟨Int64.add_assoc, Int64.add_comm, fun a => a.zero_add,
    Int64.mul_assoc, Int64.mul_comm, fun a => a.one_mul⟩ r

theorem lawful_int64 (r : Reduction) : (r.operator : Operator Int64).Lawful :=
  (exchangeable_int64 r).toLawful

theorem keyed_uint8 : Keyed (fun a : UInt8 => Int.ofNat a.toNat) 0 0xff :=
  .ofNat (fun _ _ => UInt8.toNat_inj.mp) (fun _ _ => Iff.rfl) rfl
    fun a => Nat.le_of_lt_succ a.toNat_lt

theorem exchangeable_uint8 (r : Reduction) : (r.operator : Operator UInt8).Exchangeable :=
  exchangeable_integer keyed_uint8 ⟨UInt8.add_assoc, UInt8.add_comm, fun a => a.zero_add,
    UInt8.mul_assoc, UInt8.mul_comm, fun a => a.one_mul⟩ r

theorem lawful_uint8 (r : Reduction) : (r.operator : Operator UInt8).Lawful :=
  (exchangeable_uint8 r).toLawful

theorem keyed_uint16 : Keyed (fun a : UInt16 => Int.ofNat a.toNat) 0 0xffff :=
  .ofNat (fun _ _ => UInt16.toNat_inj.mp) (fun _ _ => Iff.rfl) rfl
    fun a => Nat.le_of_lt_succ a.toNat_lt

theorem exchangeable_uint16 (r : Reduction) : (r.operator : Operator UInt16).Exchangeable :=
  exchangeable_integer keyed_uint16 ⟨UInt16.add_assoc, UInt16.add_comm, fun a => a.zero_add,
    UInt16.mul_assoc, UInt16.mul_comm, fun a => a.one_mul⟩ r

theorem lawful_uint16 (r : Reduction) : (r.operator : Operator UInt16).Lawful :=
  (exchangeable_uint16 r).toLawful

theorem keyed_uint32 : Keyed (fun a : UInt32 => Int.ofNat a.toNat) 0 0xffffffff :=
  .ofNat (fun _ _ => UInt32.toNat_inj.mp) (fun _ _ => Iff.rfl) rfl
    fun a => Nat.le_of_lt_succ a.toNat_lt

theorem exchangeable_uint32 (r : Reduction) : (r.operator : Operator UInt32).Exchangeable :=
  exchangeable_integer keyed_uint32 ⟨UInt32.add_assoc, UInt32.add_comm, fun a => a.zero_add,
    UInt32.mul_assoc, UInt32.mul_comm, fun a => a.one_mul⟩ r

theorem lawful_uint32 (r : Reduction) : (r.operator : Operator UInt32).Lawful :=
  (exchangeable_uint32 r).toLawful

theorem keyed_uint64 : Keyed (fun a : UInt64 => Int.ofNat a.toNat) 0 0xffffffffffffffff :=
  .ofNat (fun _ _ => UInt64.toNat_inj.mp) (fun _ _ => Iff.rfl) rfl
    fun a => Nat.le_of_lt_succ a.toNat_lt

theorem exchangeable_uint64 (r : Reduction) : (r.operator : Operator UInt64).Exchangeable :=
  exchangeable_integer keyed_uint64 ⟨UInt64.add_assoc, UInt64.add_comm, fun a => a.zero_add,
    UInt64.mul_assoc, UInt64.mul_comm, fun a => a.one_mul⟩ r

theorem lawful_uint64 (r : Reduction) : (r.operator : Operator UInt64).Lawful :=
  (exchangeable_uint64 r).toLawful

theorem exchangeable_bool (r : Reduction) : (r.operator : Operator Bool).Exchangeable := by
  have hsame : ∀ a b : Bool, Element.same a b = true → a = b := by decide
  cases r <;>
    exact ⟨Operator.lawful_of_same_eq hsame (by decide) (by decide) (by decide),
      by unfold Operator.Commutes; decide⟩

theorem lawful_bool (r : Reduction) : (r.operator : Operator Bool).Lawful :=
  (exchangeable_bool r).toLawful

end GridFold

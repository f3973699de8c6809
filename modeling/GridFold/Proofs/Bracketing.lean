import GridFold.Proofs.FloatOrder

/-!
# GridFold.Proofs.Bracketing

What `max` and `min` pick out of a list, however the list is bracketed.

* `Bracketing` — a way to combine the operands of a list in pairs.
* `firstBest?` — the first unordered value of a list or, without one, the first that none beats.
* `firstBest?_append` — of two lists laid end to end, the one to choose from the two of them.
* `bracketings_select` — all bracketings pick it, whatever the element type, and what follows for
  the identity and for lists in another order.
-/

namespace GridFold

variable {α : Type}

/-- A list of operands with brackets around pairs. -/
inductive Bracketing (α : Type) where
  | operand (value : α)
  | pair (lhs rhs : Bracketing α)

namespace Bracketing

def operands : Bracketing α → List α
  | .operand a => [a]
  | .pair t u => t.operands ++ u.operands

def combined (op : Operator α) : Bracketing α → α
  | .operand a => a
  | .pair t u => op.combine (t.combined op) (u.combined op)

theorem combined_eq_foldl {op : Operator α} (h : op.Monoidal) (t : Bracketing α) :
    t.combined op = t.operands.foldl op.combine op.identity := by
  induction t with
  | operand a => exact (h.identity_left a).symm
  | pair t u iht ihu =>
    rw [combined, operands, List.foldl_append, iht, ihu, ← h.foldl_eq]

end Bracketing

theorem Operator.Monoidal.foldl_insert {op : Operator α} (h : op.Monoidal) (xs ys : List α) (a : α) :
    (xs ++ op.identity :: ys).foldl op.combine a = (xs ++ ys).foldl op.combine a := by
  rw [List.foldl_append, List.foldl_cons, h.identity_right, ← List.foldl_append]

/-! ## The best of a list -/

variable {wins : α → α → Bool}

def unbeaten (wins : α → α → Bool) (xs : List α) (a : α) : Bool := xs.all fun b => !wins b a

theorem unbeaten_iff {xs : List α} {a : α} :
    unbeaten wins xs a = true ↔ ∀ b ∈ xs, wins b a = false := by
  simp [unbeaten]

theorem unbeaten_append (xs ys : List α) (a : α) :
    unbeaten wins (xs ++ ys) a = (unbeaten wins xs a && unbeaten wins ys a) := List.all_append

section Choice

variable [Element α]

/-- The first unordered value or, if there is none, the first value that no other one beats. -/
def firstBest? (wins : α → α → Bool) (xs : List α) : Option α :=
  (xs.find? Element.isUnordered).or (xs.find? (unbeaten wins xs))

theorem firstBest?_cases {xs : List α} {a : α} (h : firstBest? wins xs = some a) :
    (Element.isUnordered a = true ∧ xs.find? Element.isUnordered = some a) ∨
      ((∀ b ∈ xs, Element.isUnordered b = false) ∧ xs.find? (unbeaten wins xs) = some a) := by
  rw [firstBest?, Option.or_eq_some_iff] at h
  rcases h with hfirst | ⟨hnone, hbest⟩
  · exact .inl ⟨List.find?_some hfirst, hfirst⟩
  · refine .inr ⟨?_, hbest⟩
    simpa using hnone

theorem firstBest?_of_ordered {xs : List α} (h : ∀ b ∈ xs, Element.isUnordered b = false) :
    firstBest? wins xs = xs.find? (unbeaten wins xs) := by
  have hnone : xs.find? Element.isUnordered = none := by
    simpa using h
  rw [firstBest?, hnone, Option.none_or]

namespace Preference

variable {identity : α}

theorem monoidal (h : Preference wins identity) :
    (⟨identity, Operator.choose wins⟩ : Operator α).Monoidal :=
  ⟨h.choose_assoc, h.choose_identity_left, h.choose_identity_right⟩

/-- What wins over a value wins over all that the value does not lose to. -/
theorem wins_of_not_wins (h : Preference wins identity) {a b c : α}
    (ha : Element.isUnordered a = false) (hb : Element.isUnordered b = false)
    (hc : Element.isUnordered c = false) (hac : wins a c = true) (hbc : wins b c = false) :
    wins a b = true := by
  rcases h.cotrans a b c ha hb hc hac with hab | hwins
  · exact hab
  · rw [hbc] at hwins
    cases hwins

/-- Where the best of `ys` does not win over the best of `xs`, nothing in `ys` wins over it or its
equals. -/
theorem unbeaten_of_best (h : Preference wins identity) {xs ys : List α} {a b : α}
    (hxs : ∀ c ∈ xs, Element.isUnordered c = false) (hys : ∀ c ∈ ys, Element.isUnordered c = false)
    (ha : a ∈ xs) (hb : b ∈ ys) (hbest : unbeaten wins ys b = true) (hba : wins b a = false) :
    ∀ c ∈ xs, (unbeaten wins xs c && unbeaten wins ys c) = unbeaten wins xs c := by
  intro c hc
  rw [Bool.and_eq_left_iff_imp, unbeaten_iff, unbeaten_iff]
  intro hbestc d hd
  rw [← Bool.not_eq_true]
  intro hdc
  have hda : wins d a = true :=
    h.wins_of_not_wins (hys d hd) (hxs a ha) (hxs c hc) hdc (hbestc a ha)
  have hdb : wins d b = true := h.wins_of_not_wins (hys d hd) (hys b hb) (hxs a ha) hda hba
  rw [unbeaten_iff.mp hbest d hd] at hdb
  cases hdb

/-- Among ordered values. If the best of `ys` wins, it wins over all of `xs`, and if not, the best of
`xs` is still the first that nothing beats. -/
theorem firstBest?_append_ordered (h : Preference wins identity) {xs ys : List α} {a b : α}
    (hxs : ∀ c ∈ xs, Element.isUnordered c = false) (hys : ∀ c ∈ ys, Element.isUnordered c = false)
    (ha : xs.find? (unbeaten wins xs) = some a) (hb : ys.find? (unbeaten wins ys) = some b) :
    (xs ++ ys).find? (unbeaten wins (xs ++ ys)) = some (Operator.choose wins a b) := by
  have hmema := List.mem_of_find?_eq_some ha
  have hmemb := List.mem_of_find?_eq_some hb
  have hbesta := List.find?_some ha
  have hbestb := List.find?_some hb
  rw [choose_ordered (hxs a hmema) (hys b hmemb), List.find?_append, funext (unbeaten_append xs ys)]
  cases hba : wins b a with
  | true =>
    have hab : wins a b = false := by
      rw [← Bool.not_eq_true]
      intro hab
      have hbb := h.trans b a b (hys b hmemb) (hxs a hmema) (hys b hmemb) hba hab
      rw [unbeaten_iff.mp hbestb b hmemb] at hbb
      cases hbb
    have hleft : xs.find? (fun c => unbeaten wins xs c && unbeaten wins ys c) = none := by
      rw [List.find?_eq_none]
      intro c hc hbestc
      rw [Bool.and_eq_true, unbeaten_iff, unbeaten_iff] at hbestc
      have hbc : wins b c = true := h.wins_of_not_wins (hys b hmemb) (hxs c hc) (hxs a hmema) hba
        (unbeaten_iff.mp hbesta c hc)
      rw [hbestc.2 b hmemb] at hbc
      cases hbc
    have hright : ys.find? (fun c => unbeaten wins xs c && unbeaten wins ys c) =
        ys.find? (unbeaten wins ys) := by
      refine List.find?_congr fun c hc => ?_
      rw [Bool.and_comm]
      exact h.unbeaten_of_best hys hxs hmemb hmema hbesta hab c hc
    rw [hleft, hright, Option.none_or, hb, if_pos rfl]
  | false =>
    have hleft : xs.find? (fun c => unbeaten wins xs c && unbeaten wins ys c) =
        xs.find? (unbeaten wins xs) :=
      List.find?_congr (h.unbeaten_of_best hxs hys hmema hmemb hbestb hba)
    rw [hleft, ha, Option.some_or, if_neg Bool.false_ne_true]

theorem firstBest?_append (h : Preference wins identity) {xs ys : List α} {a b : α}
    (ha : firstBest? wins xs = some a) (hb : firstBest? wins ys = some b) :
    firstBest? wins (xs ++ ys) = some (Operator.choose wins a b) := by
  rcases firstBest?_cases ha with ⟨hunordered, hfirst⟩ | ⟨hxs, hbesta⟩
  · rw [firstBest?, List.find?_append, hfirst, choose_unordered_left hunordered]
    rfl
  · have ha := hxs a (List.mem_of_find?_eq_some hbesta)
    rcases firstBest?_cases hb with ⟨hunordered, hfirst⟩ | ⟨hys, hbestb⟩
    · have hnone : xs.find? Element.isUnordered = none := by
        simpa using hxs
      rw [firstBest?, List.find?_append, hnone, hfirst, choose_unordered_right ha hunordered]
      rfl
    · rw [firstBest?_of_ordered, h.firstBest?_append_ordered hxs hys hbesta hbestb]
      intro c hc
      exact (List.mem_append.mp hc).elim (hxs c) (hys c)

/-- Every bracketing picks the best of its operands, by induction on the brackets. -/
theorem firstBest?_combined (h : Preference wins identity)
    (hirrefl : ∀ a : α, Element.isUnordered a = false → wins a a = false) (t : Bracketing α) :
    firstBest? wins t.operands = some (t.combined ⟨identity, Operator.choose wins⟩) := by
  induction t with
  | operand a =>
    cases ha : Element.isUnordered a with
    | true => simp [firstBest?, Bracketing.operands, Bracketing.combined, ha]
    | false =>
      simp [firstBest?, Bracketing.operands, Bracketing.combined, unbeaten, ha, hirrefl a ha]
  | pair t u iht ihu => exact h.firstBest?_append iht ihu

end Preference

/-! ## What the brackets, the identity and the order change -/

def ComparesEqual (a b : α) : Prop :=
  (Element.isUnordered a = false ∧ Element.isUnordered b = false) ∧
    Element.less a b = false ∧ Element.less b a = false

/-- An operator that picks one of its operands, a value that loses to none or an unordered one. -/
structure Operator.Selects (op : Operator α) (wins : α → α → Bool) : Prop where
  /-- Every bracketing picks the first unordered operand or else the first one that none beats. -/
  first : ∀ t : Bracketing α, firstBest? wins t.operands = some (t.combined op)
  grouping : ∀ t u : Bracketing α, t.operands = u.operands → t.combined op = u.combined op
  identity : ∀ (t u : Bracketing α) (xs ys : List α), t.operands = xs ++ ys →
    u.operands = xs ++ op.identity :: ys → u.combined op = t.combined op
  order : ∀ t u : Bracketing α, t.operands.Perm u.operands →
    ComparesEqual (t.combined op) (u.combined op) ∨
      Element.isUnordered (t.combined op) = true ∧ Element.isUnordered (u.combined op) = true

/-- In another order of the values another one may come first, but it is no better. -/
theorem firstBest?_perm {xs ys : List α} (hperm : xs.Perm ys) {a b : α}
    (ha : firstBest? wins xs = some a) (hb : firstBest? wins ys = some b) :
    (Element.isUnordered a = true ∧ Element.isUnordered b = true) ∨
      ((Element.isUnordered a = false ∧ Element.isUnordered b = false) ∧
        wins a b = false ∧ wins b a = false) := by
  rcases firstBest?_cases ha with ⟨hunordered, hfirst⟩ | ⟨hxs, hbesta⟩
  · rcases firstBest?_cases hb with ⟨hunordered', _⟩ | ⟨hys, _⟩
    · exact .inl ⟨hunordered, hunordered'⟩
    · rw [hys a (hperm.mem_iff.mp (List.mem_of_find?_eq_some hfirst))] at hunordered
      cases hunordered
  · rcases firstBest?_cases hb with ⟨hunordered, hfirst⟩ | ⟨hys, hbestb⟩
    · rw [hxs b (hperm.mem_iff.mpr (List.mem_of_find?_eq_some hfirst))] at hunordered
      cases hunordered
    · have hmema := List.mem_of_find?_eq_some hbesta
      have hmemb := List.mem_of_find?_eq_some hbestb
      exact .inr ⟨⟨hxs a hmema, hys b hmemb⟩,
        unbeaten_iff.mp (List.find?_some hbestb) a (hperm.mem_iff.mp hmema),
        unbeaten_iff.mp (List.find?_some hbesta) b (hperm.mem_iff.mpr hmemb)⟩

theorem Preference.selects {identity : α} (h : Preference wins identity)
    (hirrefl : ∀ a : α, Element.isUnordered a = false → wins a a = false)
    (heven : ∀ a b : α, wins a b = false ∧ wins b a = false →
      Element.less a b = false ∧ Element.less b a = false) :
    (⟨identity, Operator.choose wins⟩ : Operator α).Selects wins where
  first := h.firstBest?_combined hirrefl
  grouping t u htu := by
    rw [t.combined_eq_foldl h.monoidal, u.combined_eq_foldl h.monoidal, htu]
  identity t u xs ys ht hu := by
    rw [t.combined_eq_foldl h.monoidal, u.combined_eq_foldl h.monoidal, ht, hu,
      h.monoidal.foldl_insert]
  order t u htu := by
    rcases firstBest?_perm htu (h.firstBest?_combined hirrefl t)
      (h.firstBest?_combined hirrefl u) with hunordered | ⟨hordered, hwins⟩
    · exact .inr hunordered
    · exact .inl ⟨hordered, heven _ _ hwins⟩

/-- An element type with a strict weak order, in which values compare equal as the order has it. -/
structure Comparable (α : Type) [Element α] : Prop extends WeaklyOrdered α where
  same_iff : ∀ a b : α, Element.same a b = true ↔ ComparesEqual a b

theorem Comparison.comparable {κ : Type} [LinearOrder κ] (h : Comparison α) (key : α → κ)
    (hless : ∀ a b : α, Element.isUnordered a = false → Element.isUnordered b = false →
      (Element.less a b = true ↔ key a < key b))
    (hsame : ∀ a b : α, Element.isUnordered a = false → Element.isUnordered b = false →
      key a = key b → Element.same a b = true) : Comparable α where
  toWeaklyOrdered := h.toWeaklyOrdered
  same_iff a b := by
    constructor
    · intro hab
      exact ⟨h.same_ordered a b hab, h.same_not_less a b hab⟩
    · rintro ⟨⟨ha, hb⟩, hab, hba⟩
      rw [← Bool.not_eq_true, hless _ _ ‹_› ‹_›, not_lt] at hab hba
      exact hsame a b ha hb (le_antisymm hba hab)

end Choice

theorem Keyed.comparable {lowest highest : α} {t : ElementType} [LT α] [OfNat α 0] [OfNat α 1]
    [Add α] [Mul α] [DecidableLT α] [DecidableEq α] {key : α → Int}
    (h : Keyed key lowest highest) : @Comparable α (.integer α t lowest highest) :=
  let _ : Element α := .integer α t lowest highest
  h.comparison.comparable key (fun a b _ _ => decide_eq_true_iff.trans (h.lt_iff a b))
    fun a b _ _ hab => decide_eq_true (h.inj a b hab)

theorem ComparesAs.comparable [Element α] {spec : Float.Model.Format}
    {bits : α → BitVec spec.numBits} (h : ComparesAs spec bits) : Comparable α :=
  h.comparison.comparable _ (fun _ _ => h.less_iff)
    fun a b ha hb hab => (h.same_iff a b).mpr ⟨⟨ha, hb⟩, hab⟩

theorem comparable_bool : Comparable Bool where
  lowest_ordered := rfl
  highest_ordered := rfl
  irrefl := by decide
  trans := by decide
  cotrans := by decide
  not_less_lowest := by decide
  eq_lowest := by decide
  not_highest_less := by decide
  eq_highest := by decide
  same_iff := by
    unfold ComparesEqual
    decide

/-- For every element type with a strict weak order, all ways to bracket a list pick its first
unordered value or else the first value that none exceeds, and for `min` the first one that exceeds
none. So the brackets and the identity do not show, and the order of the list shows only among values
that compare equal and among unordered ones. Every type of elements has such an order. -/
theorem bracketings_select :
    (∀ (α : Type) [Element α], WeaklyOrdered α →
      (Operator.max : Operator α).Selects (fun a b => Element.less b a) ∧
        (Operator.min : Operator α).Selects fun a b => Element.less a b) ∧
      (Comparable Bool ∧
        (Comparable Int8 ∧ Comparable Int16 ∧ Comparable Int32 ∧ Comparable Int64) ∧
        (Comparable UInt8 ∧ Comparable UInt16 ∧ Comparable UInt32 ∧ Comparable UInt64) ∧
        Comparable Float32 ∧ Comparable Float) ∧
      ∀ spec elementType zero one add mul,
        @Comparable _ (.ofFormat spec elementType zero one add mul) := by
  refine ⟨?_, ?_, ?_⟩
  · intro α _ h
    exact ⟨h.preference_max.selects h.irrefl fun _ _ => And.symm,
      h.preference_min.selects h.irrefl fun _ _ => id⟩
  · exact ⟨comparable_bool,
      ⟨keyed_int8.comparable, keyed_int16.comparable, keyed_int32.comparable,
        keyed_int64.comparable⟩,
      ⟨keyed_uint8.comparable, keyed_uint16.comparable, keyed_uint32.comparable,
        keyed_uint64.comparable⟩,
      comparesAs_float32.comparable, comparesAs_float.comparable⟩
  · intro spec elementType zero one add mul
    let _ := Element.ofFormat spec elementType zero one add mul
    exact (comparesAs_ofFormat spec elementType zero one add mul).comparable

/-- The greatest of the two zeros is the one that comes first, and minus infinity among them makes no
difference. -/
theorem bracketings_select_zeros :
    let zeros : Bracketing Float := .pair (.operand (-0.0)) (.operand 0.0)
    let padded : Bracketing Float :=
      .pair (.operand (-0.0)) (.pair (.operand (-1.0 / 0.0)) (.operand 0.0))
    let swapped : Bracketing Float := .pair (.operand 0.0) (.operand (-0.0))
    WeaklyOrdered Float ∧ zeros.combined .max = -0.0 ∧ padded.combined .max = -0.0 ∧
      swapped.combined .max = 0.0 ∧
      (ComparesEqual (zeros.combined .max) (swapped.combined .max) ∨
        Element.isUnordered (zeros.combined .max) = true ∧
          Element.isUnordered (swapped.combined .max) = true) := by
  intro zeros padded swapped
  have h : WeaklyOrdered Float := comparison_float.toWeaklyOrdered
  obtain ⟨hmax, _⟩ := bracketings_select.1 Float h
  have hzeros : zeros.combined .max = -0.0 := by
    have hfirst : firstBest? (fun a b => Element.less b a) zeros.operands = some (-0.0 : Float) := by
      decide
    rw [hmax.first zeros] at hfirst
    exact Option.some.inj hfirst
  have hpadded := hmax.identity zeros padded [-0.0] [0.0] rfl rfl
  exact ⟨h, hzeros, hpadded.trans hzeros, by decide, hmax.order zeros swapped (.swap _ _ _)⟩

end GridFold

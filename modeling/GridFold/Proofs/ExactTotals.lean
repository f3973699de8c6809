import GridFold.Proofs.AxisFold
import GridFold.Proofs.Totals

/-!
# GridFold.Proofs.ExactTotals

Sums and products of fixed-width integers are exact up to one reduction at the end.

Mathematical meaning: an element stands for an integer of its type's range. The sum of a list is the
exact sum of these integers, reduced to the range once, although the machine reduces at every step
and for every worker. The same goes for products.

* `IntegerRange.reduce` — the integer of the range that differs from a given one by a multiple of
  two to the width (`reduce_eq_iff`).
* `StandsFor` — elements stand for integers, and their sums and products for reduced ones.
* `Operator.Yields` — what an operator makes of the elements of a view, in total and along an axis.
* `totals_exact` — all integer types, and `or` and `and` of booleans.
-/

namespace GridFold

/-! ## Reduction to a range -/

/-- The integers that a fixed-width type has. -/
structure IntegerRange where
  bits : Nat
  signed : Bool

namespace IntegerRange

def least (r : IntegerRange) : Int := if r.signed then -(2 ^ r.bits / 2) else 0

/-- Reduces an integer modulo two to the width, into the range. -/
def reduce (r : IntegerRange) (n : Int) : Int :=
  if r.signed then n.bmod (2 ^ r.bits) else n % 2 ^ r.bits

theorem reduce_eq_iff {r : IntegerRange} {n m : Int} :
    r.reduce n = m ↔ (r.least ≤ m ∧ m < r.least + 2 ^ r.bits) ∧ (2 ^ r.bits : Int) ∣ n - m := by
  obtain ⟨width, hwidth⟩ : ∃ width : Nat, width = 2 ^ r.bits := ⟨_, rfl⟩
  have hpos : 0 < width := hwidth ▸ Nat.two_pow_pos r.bits
  have hcast : (2 ^ r.bits : Int) = width := by
    rw [hwidth]
    simp
  rw [reduce, least, hcast, ← hwidth]
  cases r.signed with
  | true =>
    rw [if_pos rfl, if_pos rfl, Int.bmod_eq_iff hpos, dvd_sub_comm, ← and_assoc]
    refine and_congr_left fun _ => and_congr_right fun _ => ?_
    omega
  | false =>
    rw [if_neg Bool.false_ne_true, if_neg Bool.false_ne_true, Int.emod_eq_iff (by omega),
      Int.natAbs_natCast, Int.zero_add, dvd_sub_comm, ← and_assoc]

theorem reduce_congr {r : IntegerRange} {m n : Int} (h : (2 ^ r.bits : Int) ∣ m - n) :
    r.reduce m = r.reduce n := by
  obtain ⟨hrange, hdvd⟩ := reduce_eq_iff.mp (rfl : r.reduce n = r.reduce n)
  refine reduce_eq_iff.mpr ⟨hrange, ?_⟩
  have : m - r.reduce n = (m - n) + (n - r.reduce n) := by omega
  rw [this]
  exact dvd_add h hdvd

theorem dvd_reduce_sub (r : IntegerRange) (n : Int) : (2 ^ r.bits : Int) ∣ r.reduce n - n :=
  (dvd_sub_comm).mp (reduce_eq_iff.mp rfl).2

theorem reduce_add (r : IntegerRange) (m n : Int) : r.reduce (r.reduce m + n) = r.reduce (m + n) := by
  apply reduce_congr
  have : r.reduce m + n - (m + n) = r.reduce m - m := by omega
  rw [this]
  exact r.dvd_reduce_sub m

theorem reduce_mul (r : IntegerRange) (m n : Int) : r.reduce (r.reduce m * n) = r.reduce (m * n) := by
  apply reduce_congr
  rw [← Int.sub_mul]
  exact dvd_mul_of_dvd_left (r.dvd_reduce_sub m) n

end IntegerRange

/-! ## Elements that stand for integers -/

section Integers

variable {α : Type} {value : α → Int} {range : IntegerRange}

/-- Reducing where the exact fold starts does not show in its reduced end. -/
theorem reduce_foldl {exact : Int → Int → Int}
    (hreduce : ∀ m n, range.reduce (exact (range.reduce m) n) = range.reduce (exact m n))
    (ns : List Int) {m n : Int} (h : range.reduce m = range.reduce n) :
    range.reduce (ns.foldl exact m) = range.reduce (ns.foldl exact n) := by
  induction ns generalizing m n with
  | nil => exact h
  | cons k ns ih =>
    refine ih ?_
    rw [← hreduce m, h, hreduce]

/-- A fold that reduces at every step ends where the exact fold ends after a single reduction. -/
theorem value_foldl {combine : α → α → α} {exact : Int → Int → Int}
    (hreduced : ∀ a, range.reduce (value a) = value a)
    (hcombine : ∀ a b, value (combine a b) = range.reduce (exact (value a) (value b)))
    (hreduce : ∀ m n, range.reduce (exact (range.reduce m) n) = range.reduce (exact m n))
    (xs : List α) (a : α) :
    value (xs.foldl combine a) = range.reduce ((xs.map value).foldl exact (value a)) := by
  induction xs generalizing a with
  | nil => exact (hreduced a).symm
  | cons x xs ih =>
    rw [List.foldl_cons, ih, List.map_cons, List.foldl_cons]
    refine reduce_foldl hreduce _ ?_
    rw [hreduced, hcombine]

variable [Element α]

/-- Elements stand for the integers of a range, and compute with them modulo its width. -/
structure StandsFor (value : α → Int) (range : IntegerRange) : Prop where
  reduced : ∀ a, range.reduce (value a) = value a
  zero : value Element.zero = 0
  one : value Element.one = 1
  add : ∀ a b, value (Element.add a b) = range.reduce (value a + value b)
  mul : ∀ a b, value (Element.mul a b) = range.reduce (value a * value b)

theorem StandsFor.ofNat {toNat : α → Nat} {bits : Nat} (hlt : ∀ a, toNat a < 2 ^ bits)
    (hzero : toNat Element.zero = 0) (hone : toNat Element.one = 1)
    (hadd : ∀ a b, toNat (Element.add a b) = (toNat a + toNat b) % 2 ^ bits)
    (hmul : ∀ a b, toNat (Element.mul a b) = toNat a * toNat b % 2 ^ bits) :
    StandsFor (fun a => (toNat a : Int)) ⟨bits, false⟩ where
  reduced a := by
    rw [IntegerRange.reduce, if_neg Bool.false_ne_true]
    exact_mod_cast Nat.mod_eq_of_lt (hlt a)
  zero := congrArg Nat.cast hzero
  one := congrArg Nat.cast hone
  add a b := by
    rw [IntegerRange.reduce, if_neg Bool.false_ne_true]
    exact_mod_cast hadd a b
  mul a b := by
    rw [IntegerRange.reduce, if_neg Bool.false_ne_true]
    exact_mod_cast hmul a b

theorem StandsFor.value_sum (h : StandsFor value range) (xs : List α) :
    value (xs.foldl Element.add Element.zero) = range.reduce (xs.map value).sum := by
  rw [value_foldl h.reduced h.add range.reduce_add, h.zero, List.sum_eq_foldl]

theorem StandsFor.value_prod (h : StandsFor value range) (xs : List α) :
    value (xs.foldl Element.mul Element.one) = range.reduce (xs.map value).prod := by
  rw [value_foldl h.reduced h.mul range.reduce_mul, h.one, List.prod_eq_foldl]

end Integers

/-! ## Totals and collapsed axes -/

section Yields

variable {α κ : Type} [Element α]

/-- Whatever the executor, the total of a view has the value that `exact` says for its elements, and
where an axis is folded, each point of the destination has the one for the seed and the elements
over it. -/
structure Operator.Yields (op : Operator α) (value : α → κ) (exact : List α → κ) : Prop where
  total : ∀ {s : Store α} {rect : Rect} {slice : Option Slice} {src : View α},
    s.view rect slice = .ok src → src.rank ≤ maxTaskRank → ∀ e : Executor,
      ∃ xs a, src.elements = .ok xs ∧ e.total op src = .ok a ∧ value a = exact xs
  collapse : ∀ {s t : Store α} {rect rect' : Rect} {slice slice' : Option Slice}
    {privilege : Privilege} {dest : Target} {src : View α} {axis : Nat} {seed : Option α}
    {plan : Plan α}, s.target rect slice privilege = .ok dest → t.view rect' slice' = .ok src →
      Plan.collapse op dest src axis seed = .ok plan →
        ∃ s', (∀ e : Executor, e.perform (.ok plan) s = .ok () s') ∧
          ∀ p, rect.containsPoint p = true → ∃ values a,
            (rect'.pointsOver axis p).mapM src.get = .ok values ∧
              View.get ⟨s', dest.window⟩ p = .ok a ∧ value a = exact (seed.toList ++ values)

theorem collapse_folds {op : Operator α} {s : Store α} {dest : Target} {src : View α} {axis : Nat}
    {seed : Option α} {plan : Plan α} (hd : dest.IsCut s) (hs : src.IsCut)
    (hplan : Plan.collapse op dest src axis seed = .ok plan) :
    ∃ s', (∀ e : Executor, e.perform (.ok plan) s = .ok () s') ∧
      ∀ p, dest.rect.containsPoint p = true → ∃ values,
        (src.rect.pointsOver axis p).mapM src.get = .ok values ∧
          View.get ⟨s', dest.window⟩ p =
            .ok (values.foldl op.combine (seed.getD op.identity)) := by
  obtain ⟨s', _, hall⟩ := (KernelPlan.collapse hd hs hplan).perform
  refine ⟨s', hall, ?_⟩
  intro p hp
  have hne : ¬ dest.isEmpty = true := by
    intro hempty
    rw [Rect.isEmpty_iff.mp hempty p] at hp
    cases hp
  rw [collapse_ok_iff, if_neg hne] at hplan
  obtain ⟨_, _, hrank, _, span, hspan, hproj, rfl⟩ := hplan
  have haxis : axis < src.rank := (List.getElem?_eq_some_iff.mp hspan).1
  exact collapse_element hd hs hrank haxis hproj (perform_ok.mp (hall ⟨.serial, 0⟩)) hp

/-- A lawful operator yields the fold from its identity, however it is worked out. -/
theorem Operator.Lawful.yields {op : Operator α} (h : op.Lawful) {value : α → κ}
    {exact : List α → κ}
    (hexact : ∀ xs, value (xs.foldl op.combine op.identity) = exact xs) :
    op.Yields value exact where
  total hsrc hrank e := by
    obtain ⟨xs, helements, htotal⟩ := total_eq h (isCut_of_view hsrc).2.2 hrank e
    exact ⟨xs, _, helements, htotal, hexact xs⟩
  collapse {_ _ _ _ _ _ _ _ _ _ seed _} hd hsrc hplan := by
    obtain ⟨_, rfl, hdcut⟩ := isCut_of_target hd
    obtain ⟨_, rfl, hscut⟩ := isCut_of_view hsrc
    obtain ⟨s', hall, hfold⟩ := collapse_folds hdcut hscut hplan
    refine ⟨s', hall, ?_⟩
    intro p hp
    obtain ⟨values, hvalues, hget⟩ := hfold p hp
    refine ⟨values, _, hvalues, hget, ?_⟩
    cases seed with
    | none => exact hexact values
    | some a =>
      rw [← hexact, Option.toList_some, List.singleton_append, List.foldl_cons, h.identity_left]
      rfl

/-- Sums and products yield what exact arithmetic yields, reduced once. -/
structure ExactTotals (value : α → Int) (range : IntegerRange) : Prop where
  sum : (Operator.sum : Operator α).Yields value fun xs => range.reduce (xs.map value).sum
  prod : (Operator.prod : Operator α).Yields value fun xs => range.reduce (xs.map value).prod

theorem StandsFor.exactTotals {value : α → Int} {range : IntegerRange} (h : StandsFor value range)
    (hlawful : ∀ r : Reduction, (r.operator : Operator α).Lawful) : ExactTotals value range where
  sum := (hlawful .sum).yields h.value_sum
  prod := (hlawful .prod).yields h.value_prod

end Yields

/-! ## The integer types and the booleans -/

theorem standsFor_int8 : StandsFor Int8.toInt ⟨8, true⟩ :=
  ⟨Int8.toInt_bmod, rfl, rfl, Int8.toInt_add, Int8.toInt_mul⟩

theorem standsFor_int16 : StandsFor Int16.toInt ⟨16, true⟩ :=
  ⟨Int16.toInt_bmod, rfl, rfl, Int16.toInt_add, Int16.toInt_mul⟩

theorem standsFor_int32 : StandsFor Int32.toInt ⟨32, true⟩ :=
  ⟨Int32.toInt_bmod, rfl, rfl, Int32.toInt_add, Int32.toInt_mul⟩

theorem standsFor_int64 : StandsFor Int64.toInt ⟨64, true⟩ :=
  ⟨Int64.toInt_bmod, rfl, rfl, Int64.toInt_add, Int64.toInt_mul⟩

theorem standsFor_uint8 : StandsFor (fun a : UInt8 => (a.toNat : Int)) ⟨8, false⟩ :=
  .ofNat UInt8.toNat_lt rfl rfl UInt8.toNat_add UInt8.toNat_mul

theorem standsFor_uint16 : StandsFor (fun a : UInt16 => (a.toNat : Int)) ⟨16, false⟩ :=
  .ofNat UInt16.toNat_lt rfl rfl UInt16.toNat_add UInt16.toNat_mul

theorem standsFor_uint32 : StandsFor (fun a : UInt32 => (a.toNat : Int)) ⟨32, false⟩ :=
  .ofNat UInt32.toNat_lt rfl rfl UInt32.toNat_add UInt32.toNat_mul

theorem standsFor_uint64 : StandsFor (fun a : UInt64 => (a.toNat : Int)) ⟨64, false⟩ :=
  .ofNat UInt64.toNat_lt rfl rfl UInt64.toNat_add UInt64.toNat_mul

theorem foldl_or (xs : List Bool) (a : Bool) : xs.foldl or a = (a || xs.any id) := by
  induction xs generalizing a with
  | nil => exact (Bool.or_false a).symm
  | cons x xs ih => rw [List.foldl_cons, ih, List.any_cons, Bool.or_assoc, id]

theorem foldl_and (xs : List Bool) (a : Bool) : xs.foldl and a = (a && xs.all id) := by
  induction xs generalizing a with
  | nil => exact (Bool.and_true a).symm
  | cons x xs ih => rw [List.foldl_cons, ih, List.all_cons, Bool.and_assoc, id]

/-- On every integer type the totals and the collapsed axes of a sum are those of exact integers,
reduced once to the range of the type, and so are those of a product. On booleans a sum asks whether
any element is true, and a product whether all of them are. -/
theorem totals_exact :
    (ExactTotals Int8.toInt ⟨8, true⟩ ∧ ExactTotals Int16.toInt ⟨16, true⟩ ∧
      ExactTotals Int32.toInt ⟨32, true⟩ ∧ ExactTotals Int64.toInt ⟨64, true⟩) ∧
      (ExactTotals (fun a : UInt8 => (a.toNat : Int)) ⟨8, false⟩ ∧
        ExactTotals (fun a : UInt16 => (a.toNat : Int)) ⟨16, false⟩ ∧
        ExactTotals (fun a : UInt32 => (a.toNat : Int)) ⟨32, false⟩ ∧
        ExactTotals (fun a : UInt64 => (a.toNat : Int)) ⟨64, false⟩) ∧
      (Operator.sum : Operator Bool).Yields id (fun xs => xs.any id) ∧
      (Operator.prod : Operator Bool).Yields id fun xs => xs.all id :=
  ⟨⟨standsFor_int8.exactTotals lawful_int8, standsFor_int16.exactTotals lawful_int16,
      standsFor_int32.exactTotals lawful_int32, standsFor_int64.exactTotals lawful_int64⟩,
    ⟨standsFor_uint8.exactTotals lawful_uint8, standsFor_uint16.exactTotals lawful_uint16,
      standsFor_uint32.exactTotals lawful_uint32, standsFor_uint64.exactTotals lawful_uint64⟩,
    (lawful_bool .sum).yields fun xs => foldl_or xs false,
    (lawful_bool .prod).yields fun xs => foldl_and xs true⟩

/-- Two rows of three whose sums leave the range. Their total does not and is exact, and each row is
reduced once, together with the seed. -/
theorem totals_exact_rows :
    let line : Rect := ⟨[⟨0, 1⟩], by decide, by decide⟩
    let rows : Rect := ⟨[⟨0, 1⟩, ⟨0, 2⟩], by decide, by decide⟩
    let s : Store Int8 := .filled line 0
    let t : Store Int8 := ⟨rows, ⟨#[100, 100, 100, -100, -100, -93], rfl⟩⟩
    let dest : Target := ⟨⟨line, 0, [1]⟩, .readWrite⟩
    let src : View Int8 := ⟨t, ⟨rows, 0, [3, 1]⟩⟩
    let e : Executor := ⟨⟨.parallel, 0⟩, 4⟩
    s.target line none .readWrite = .ok dest ∧ t.view rows none = .ok src ∧
      (∃ a, e.total .sum src = .ok a ∧ a.toInt = 7) ∧
      ∃ plan s' a, Plan.collapse .sum dest src 1 (some (-3)) = .ok plan ∧
        e.perform (.ok plan) s = .ok () s' ∧ View.get ⟨s', dest.window⟩ [0] = .ok a ∧
          a.toInt = (-3 + (100 + 100 + 100)) - 256 := by
  intro line rows s t dest src e
  have hd : s.target line none .readWrite = .ok dest := rfl
  have hs : t.view rows none = .ok src := rfl
  have h : ExactTotals Int8.toInt ⟨8, true⟩ := totals_exact.1.1
  refine ⟨hd, hs, ?_, ?_⟩
  · obtain ⟨xs, a, hxs, htotal, hvalue⟩ := h.sum.total hs (by decide) e
    obtain rfl : xs = [100, 100, 100, -100, -100, -93] := by
      have : src.elements = .ok [100, 100, 100, -100, -100, -93] := rfl
      rw [hxs] at this
      exact Except.ok.inj this
    exact ⟨a, htotal, hvalue.trans (by decide)⟩
  · obtain ⟨plan, hplan⟩ : ∃ plan, Plan.collapse .sum dest src 1 (some (-3)) = .ok plan := ⟨_, rfl⟩
    obtain ⟨s', hperform, hget⟩ := h.sum.collapse hd hs hplan
    obtain ⟨values, a, hvalues, ha, hvalue⟩ := hget [0] (by decide)
    obtain rfl : values = [100, 100, 100] := by
      have : (rows.pointsOver 1 [0]).mapM src.get = .ok [100, 100, 100] := rfl
      rw [hvalues] at this
      exact Except.ok.inj this
    exact ⟨plan, s', a, hplan, hperform e, ha, hvalue.trans (by decide)⟩

end GridFold

import GridFold.Proofs.Contents
import GridFold.Proofs.Measure
import GridFold.Store.Allocation

/-!
# GridFold.Proofs.Cells

Which element of a store belongs to which point, whatever the arithmetic.

* `map_offset_points` — the offsets of the points, in row-major order, are the numbers below the
  volume. The order of the points and the strides are two descriptions of the same numbering.
* `Rect.FitsWords` — everything that is computed for the bounds is a word, and then it is exact. Bounds
  that have points fit if their volume is a signed word.
* `Allocation.Packed` — the strides are those of the bounds, and there is one element for each point.
  Where the bounds have points, such an allocation is a store with the same elements
  (`Packed.exists_store`), and all that holds of windows and kernels holds of it.
* `store_by_points` — what the constructors make, and which elements are read and written.
-/

namespace GridFold

/-! ## Offsets -/

theorem range_mul (m n : Nat) :
    List.range (m * n) = (List.range m).flatMap fun i => (List.range n).map (i * n + ·) := by
  induction m with
  | zero => simp
  | succ m ih =>
    rw [Nat.succ_mul, List.range_add, ih, List.range_succ, List.flatMap_append,
      List.flatMap_singleton]

/-- By induction on the axes: each outer coordinate moves the offsets of the inner axes on by their
number. -/
theorem map_offset_grid (spans : List Span) :
    (Rect.grid spans).map (offsetFrom (spans.map Span.lo) (spanStrides spans)) =
      (List.range (Rect.spansVolume spans)).map Int.ofNat := by
  induction spans with
  | nil => rfl
  | cons s spans ih =>
    -- The block of one outer coordinate is the numbering of the inner axes, moved on.
    have hblock : ∀ i : Nat, ((Rect.grid spans).map ((s.lo + Int.ofNat i) :: ·)).map
        (offsetFrom ((s :: spans).map Span.lo) (spanStrides (s :: spans))) =
          ((List.range (Rect.spansVolume spans)).map (i * Rect.spansVolume spans + ·)).map
            Int.ofNat := by
      intro i
      have hmoved := congrArg
        (List.map (Int.ofNat i * Int.ofNat (Rect.spansVolume spans) + ·)) ih
      rw [List.map_map, List.map_map] at hmoved
      rw [List.map_map, List.map_map]
      refine Eq.trans (List.map_congr_left fun p _ => ?_) hmoved
      rw [Function.comp_apply, spanOffset_cons, show s.lo + Int.ofNat i - s.lo = Int.ofNat i by omega]
      rfl
    rw [Rect.grid, Span.coords, List.flatMap_map, List.map_flatMap]
    simp only [hblock]
    rw [Rect.spansVolume, range_mul, List.map_flatMap]

namespace Rect

variable {bounds : Rect}

theorem map_offset_points (bounds : Rect) :
    bounds.points.map bounds.offset = (List.range bounds.volume).map Int.ofNat := by
  rw [points_eq_grid]
  exact map_offset_grid bounds.spans

theorem exists_getElem?_points {p : Point} (h : bounds.containsPoint p = true) :
    ∃ k : Nat, bounds.points[k]? = some p :=
  List.mem_iff_getElem?.mp (mem_points.mpr h)

theorem lt_volume_of_getElem? {k : Nat} {p : Point} (h : bounds.points[k]? = some p) :
    k < bounds.volume := by
  rw [← length_points]
  exact (List.getElem?_eq_some_iff.mp h).1

theorem getElem?_points_iff {k : Nat} {p : Point} :
    bounds.points[k]? = some p ↔
      bounds.containsPoint p = true ∧ bounds.offset p = Int.ofNat k := by
  have hoffset : ∀ {k q}, bounds.points[k]? = some q → bounds.offset q = Int.ofNat k := by
    intro k q hq
    have hmap := congrArg (·[k]?) (map_offset_points bounds)
    simp only [List.getElem?_map, hq, Option.map_some,
      List.getElem?_range (lt_volume_of_getElem? hq)] at hmap
    exact Option.some.inj hmap
  constructor
  · intro h
    exact ⟨mem_points.mp (List.mem_of_getElem? h), hoffset h⟩
  · rintro ⟨hp, hk⟩
    obtain ⟨j, hj⟩ := exists_getElem?_points hp
    have : j = k := Int.ofNat.inj ((hoffset hj).symm.trans hk)
    rw [← this, hj]

end Rect

/-! ## Strides and offsets in words -/

namespace Rect

/-- The extents, and the products of the first and of the last of them, are words. -/
structure FitsWords (r : Rect) : Prop extends r.CountsInWords where
  strides : ∀ n, spansVolume (r.spans.drop (n + 1)) < 2 ^ 63

/-- Leaving out axes that have coordinates leaves no more points. -/
theorem spansVolume_le_of_sublist {spans others : List Span} (h : spans.Sublist others)
    (hne : ∀ s ∈ others, s.isEmpty = false) : spansVolume spans ≤ spansVolume others := by
  induction h with
  | slnil => exact Nat.le_refl _
  | @cons spans others s _ ih =>
    have hpos : 1 ≤ s.extent := by
      have hs := hne s (by simp)
      have hextent := Span.extent_of_nonempty hs
      simp only [Span.isEmpty, decide_eq_false_iff_not] at hs
      omega
    calc spansVolume spans ≤ spansVolume others := ih fun t ht => hne t (by simp [ht])
      _ = 1 * spansVolume others := (Nat.one_mul _).symm
      _ ≤ s.extent * spansVolume others := Nat.mul_le_mul_right _ hpos
  | cons_cons s _ ih => exact Nat.mul_le_mul_left _ (ih fun t ht => hne t (by simp [ht]))

/-- Every number that is computed for a rectangle with points is the volume at most. -/
theorem fitsWords_of_volume {r : Rect} (hne : r.isEmpty = false) (h : r.volume < 2 ^ 63) :
    r.FitsWords := by
  have hle : ∀ spans : List Span, spans.Sublist r.spans → spansVolume spans < 2 ^ 63 := by
    intro spans hspans
    exact Nat.lt_of_le_of_lt (spansVolume_le_of_sublist hspans (spans_nonempty hne)) h
  refine ⟨⟨?_, ?_⟩, fun n => hle _ (List.drop_sublist _ _)⟩
  · intro s hs
    have hsingle := hle [s] (List.singleton_sublist.mpr hs)
    rwa [spansVolume, spansVolume, Nat.mul_one] at hsingle
  · intro n
    have hfirst := hle _ (List.take_sublist n _)
    omega

end Rect

/-- By induction from the last axis on: each stride is the product of the extents behind its axis. -/
theorem rowMajorStridesIn_extents (a : Arithmetic) {spans : List Span}
    (hextents : ∀ s ∈ spans, s.extent < 2 ^ 63)
    (hstrides : ∀ n, Rect.spansVolume (spans.drop (n + 1)) < 2 ^ 63) :
    rowMajorStridesIn a (spans.map Span.extent) = .ok (spanStrides spans) := by
  induction spans with
  | nil => rfl
  | cons s spans ih =>
    cases spans with
    | nil => rfl
    | cons t spans =>
      have hinner := ih (fun u hu => hextents u (by simp [hu])) fun n => hstrides (n + 1)
      have hvolume : Rect.spansVolume (t :: spans) < 2 ^ 63 := hstrides 0
      have hstride : a.signed ((spanStrides (t :: spans)).headD 1 * a.ofUnsigned t.extent) =
          .ok (Int.ofNat (Rect.spansVolume (t :: spans))) := by
        have hproduct : Int.ofNat (Rect.spansVolume spans) * (t.extent : Int) =
            Int.ofNat (Rect.spansVolume (t :: spans)) := by
          rw [Rect.spansVolume, Nat.mul_comm]
          rfl
        rw [spanStrides_cons, List.headD_cons, Arithmetic.ofUnsigned_of_lt (hextents t (by simp)),
          hproduct]
        refine Arithmetic.signed_of_isSigned ⟨?_, ?_⟩ <;> simp only [Int.ofNat_eq_natCast] <;> omega
      rw [spanStrides_cons s]
      exact bind_eq_ok.mpr ⟨_, hinner, bind_eq_ok.mpr ⟨_, hstride, rfl⟩⟩

theorem Rect.FitsWords.stridesIn_eq {r : Rect} (h : r.FitsWords) (a : Arithmetic) :
    r.stridesIn a = .ok (spanStrides r.spans) :=
  bind_eq_ok.mpr ⟨_, h.extentsIn_eq a, rowMajorStridesIn_extents a h.extents h.strides⟩

theorem exists_signed {a : Arithmetic} (h : a ≠ .checked) (n : Int) : ∃ m, a.signed n = .ok m :=
  ⟨_, Arithmetic.signed_ok_iff.mpr ⟨fun ha => absurd ha h, rfl⟩⟩

theorem exists_stridesIn {a : Arithmetic} (h : a ≠ .checked) (r : Rect) :
    ∃ strides, r.stridesIn a = .ok strides := by
  have hextent : ∀ s : Span, ∃ n, s.extentIn a = .ok n := by
    intro s
    cases a with
    | exact => exact ⟨_, s.extentIn_exact⟩
    | wrapping => exact ⟨_, s.extentIn_wrapping⟩
    | checked => exact absurd rfl h
  choose extent hextent using hextent
  have hextents : r.extentsIn a = .ok (r.spans.map extent) := mapM_eq_map fun s _ => hextent s
  have hstrides : ∀ extents, ∃ strides, rowMajorStridesIn a extents = .ok strides := by
    intro extents
    induction extents with
    | nil => exact ⟨[], rfl⟩
    | cons _ extents ih =>
      cases extents with
      | nil => exact ⟨[1], rfl⟩
      | cons extent' extents =>
        obtain ⟨strides, hstrides⟩ := ih
        obtain ⟨stride, hstride⟩ := exists_signed h (strides.headD 1 * a.ofUnsigned extent')
        exact ⟨_, bind_eq_ok.mpr ⟨_, hstrides, bind_eq_ok.mpr ⟨_, hstride, rfl⟩⟩⟩
  obtain ⟨strides, hstrides⟩ := hstrides (r.spans.map extent)
  exact ⟨strides, bind_eq_ok.mpr ⟨_, hextents, hstrides⟩⟩

/-- No step on the way to an offset is larger than where it leads. -/
theorem offsetIn_spans (a : Arithmetic) {spans : List Span} {p : Point}
    (hp : Rect.spansContain spans p = true) {total : Int} (hpos : 0 ≤ total)
    (hlt : total + offsetFrom (spans.map Span.lo) (spanStrides spans) p < 2 ^ 63) :
    offsetIn a total (spans.map Span.lo) (spanStrides spans) p =
      .ok (total + offsetFrom (spans.map Span.lo) (spanStrides spans) p) := by
  induction spans generalizing p total with
  | nil =>
    cases p with
    | nil => exact congrArg Except.ok (Int.add_zero total).symm
    | cons _ _ => cases hp
  | cons s spans ih =>
    cases p with
    | nil => cases hp
    | cons c p =>
      rw [Rect.spansContain_cons, Span.contains_iff] at hp
      obtain ⟨hc, hp⟩ := hp
      obtain ⟨hinner, hbelow⟩ := spanOffset_bounds hp
      have hdistance : 0 ≤ c - s.lo := by omega
      rw [spanOffset_cons] at hlt ⊢
      have hstep : c - s.lo ≤ (c - s.lo) * Int.ofNat (Rect.spansVolume spans) :=
        le_mul_of_one_le_right hdistance (by omega)
      have hsigned : ∀ n : Int, 0 ≤ n → n ≤ total + (c - s.lo) * Int.ofNat (Rect.spansVolume spans) →
          a.signed n = .ok n := fun n h₀ h₁ =>
        Arithmetic.signed_of_isSigned ⟨by omega, by omega⟩
      have htotal : 0 ≤ total + (c - s.lo) * Int.ofNat (Rect.spansVolume spans) := by omega
      have hrest := ih hp htotal (by omega)
      rw [Int.add_assoc] at hrest
      rw [spanStrides_cons]
      exact bind_eq_ok.mpr ⟨_, hsigned _ hdistance (by omega), bind_eq_ok.mpr
        ⟨_, hsigned _ (by omega) (by omega), bind_eq_ok.mpr ⟨_, hsigned _ (by omega) (le_refl _), hrest⟩⟩⟩

/-! ## Linear indices -/

namespace Allocation

variable {α : Type} {a : Arithmetic} {bounds : Rect} {s : Allocation α} {p : Point}

/-- The strides are those of the bounds, and there is one element for each point. -/
structure Packed (a : Arithmetic) (bounds : Rect) (s : Allocation α) : Prop where
  bounds_eq : s.bounds = bounds
  strides : bounds.stridesIn a = .ok s.strides
  length : s.length = bounds.volume

theorem linearIndex_outside (hb : s.bounds = bounds) (hp : bounds.containsPoint p = false) :
    s.linearIndex a p = .error (.pointOutside p bounds) := by
  rw [linearIndex, hb, if_neg (by simp [hp])]

theorem linearIndex_inside (hb : s.bounds = bounds) (hstrides : s.strides = spanStrides bounds.spans)
    (hvolume : bounds.volume < 2 ^ 63) (hp : bounds.containsPoint p = true) :
    s.linearIndex a p = .ok (bounds.offset p).toNat := by
  obtain ⟨hpos, hlt⟩ := spanOffset_bounds hp
  change 0 ≤ bounds.offset p at hpos
  change bounds.offset p < Int.ofNat bounds.volume at hlt
  simp only [Int.ofNat_eq_natCast] at hlt
  have hoffset : offsetIn a 0 bounds.lo (spanStrides bounds.spans) p = .ok (bounds.offset p) := by
    have hspans := offsetIn_spans a hp (le_refl 0) (by rw [Int.zero_add]; change bounds.offset p < _; omega)
    rwa [Int.zero_add] at hspans
  rw [linearIndex, hb, hstrides, if_pos hp, hoffset]
  exact congrArg Except.ok (Arithmetic.ofSigned_of_nonneg ⟨by omega, by omega⟩ hpos)

theorem Packed.linearIndex_inside (h : s.Packed a bounds) (hvolume : bounds.volume < 2 ^ 63)
    (hp : bounds.containsPoint p = true) : s.linearIndex a p = .ok (bounds.offset p).toNat := by
  have hne : bounds.isEmpty = false := by
    by_contra hempty
    rw [Bool.not_eq_false, Rect.isEmpty_iff] at hempty
    rw [hempty p] at hp
    cases hp
  have hstrides := h.strides
  rw [(Rect.fitsWords_of_volume hne hvolume).stridesIn_eq a] at hstrides
  exact Allocation.linearIndex_inside h.bounds_eq (Except.ok.inj hstrides).symm hvolume hp

theorem Packed.linearIndex_ok_iff (h : s.Packed a bounds) (hvolume : bounds.volume < 2 ^ 63) {k : Nat} :
    s.linearIndex a p = .ok k ↔ bounds.points[k]? = some p := by
  rw [Rect.getElem?_points_iff]
  cases hp : bounds.containsPoint p with
  | true =>
    have hpos : 0 ≤ bounds.offset p := (spanOffset_bounds hp).1
    rw [h.linearIndex_inside hvolume hp, Except.ok.injEq]
    simp only [Int.ofNat_eq_natCast, true_and]
    omega
  | false => simp [linearIndex_outside h.bounds_eq hp]

/-- The linear indices of the points of the bounds are the numbers below the volume, each of one point,
and they follow the row-major order. No other point has one. -/
structure Numbered (a : Arithmetic) (bounds : Rect) (s : Allocation α) : Prop where
  inside : ∀ p, bounds.containsPoint p = true → ∃ k < bounds.volume, s.linearIndex a p = .ok k
  onto : ∀ k < bounds.volume, ∃! p, s.linearIndex a p = .ok k
  order : ∀ (k : Nat) (p : Point), bounds.points[k]? = some p → s.linearIndex a p = .ok k
  outside : ∀ p, bounds.containsPoint p = false →
    s.linearIndex a p = .error (.pointOutside p bounds)

theorem Packed.numbered (h : s.Packed a bounds) (hvolume : bounds.volume < 2 ^ 63) :
    s.Numbered a bounds where
  inside p hp := by
    obtain ⟨k, hk⟩ := Rect.exists_getElem?_points hp
    exact ⟨k, Rect.lt_volume_of_getElem? hk, (h.linearIndex_ok_iff hvolume).mpr hk⟩
  onto k hk := by
    rw [← Rect.length_points] at hk
    refine ⟨bounds.points[k], (h.linearIndex_ok_iff hvolume).mpr (List.getElem?_eq_getElem hk), ?_⟩
    intro q hq
    exact (List.getElem_of_getElem? ((h.linearIndex_ok_iff hvolume).mp hq)).2.symm
  order k p hk := (h.linearIndex_ok_iff hvolume).mpr hk
  outside p hp := linearIndex_outside h.bounds_eq hp

/-! ## Elements -/

theorem get_of_linearIndex {k : Nat} (h : s.linearIndex a p = .ok k) {value : α}
    (hvalue : s.data[k]? = some value) : s.get a p = .ok value := by
  refine bind_eq_ok.mpr ⟨k, h, ?_⟩
  rw [hvalue]
  rfl

/-- Every entry of the data belongs to a point. -/
theorem Packed.get_inside (h : s.Packed a bounds) (hvolume : bounds.volume < 2 ^ 63)
    (hp : bounds.containsPoint p = true) :
    ∃ k value, s.linearIndex a p = .ok k ∧ s.data[k]? = some value ∧ s.get a p = .ok value := by
  obtain ⟨k, hlt, hk⟩ := (h.numbered hvolume).inside p hp
  have hsize : k < s.data.size := by
    rw [← h.length] at hlt
    exact hlt
  exact ⟨k, _, hk, Array.getElem?_eq_getElem hsize, get_of_linearIndex hk (Array.getElem?_eq_getElem hsize)⟩

theorem get_outside (hb : s.bounds = bounds) (hp : bounds.containsPoint p = false) :
    s.get a p = .error (.pointOutside p bounds) := by
  rw [get, linearIndex_outside hb hp]
  rfl

theorem get_of_store? {t : Store α} (h : s.store? = some t) (hvolume : t.bounds.volume < 2 ^ 63) :
    s.get a p = t.get p := by
  unfold store? at h
  split at h
  · rename_i hstore
    cases h
    cases hp : s.bounds.containsPoint p with
    | false =>
      have hout : ¬ s.bounds.containsPoint p = true := by simp [hp]
      exact (get_outside rfl hp).trans
        (Store.get_outside (s := ⟨s.bounds, ⟨s.data, hstore.1⟩⟩) hout).symm
    | true =>
      obtain ⟨hpos, hlt⟩ := spanOffset_bounds hp
      change 0 ≤ s.bounds.offset p at hpos
      change s.bounds.offset p < (s.bounds.volume : Int) at hlt
      have hin : 0 ≤ s.bounds.offset p ∧ (s.bounds.offset p).toNat < s.bounds.volume :=
        ⟨hpos, by omega⟩
      rw [Store.get_inside hp, Store.element, dif_pos hin]
      refine get_of_linearIndex (linearIndex_inside rfl hstore.2 hvolume hp) ?_
      exact Array.getElem?_eq_getElem (by rw [hstore.1]; exact hin.2)
  · cases h

theorem Packed.exists_store (h : s.Packed a bounds) (hne : bounds.isEmpty = false)
    (hvolume : bounds.volume < 2 ^ 63) :
    ∃ t, s.store? = some t ∧ t.bounds = bounds ∧ ∀ p, s.get a p = t.get p := by
  obtain ⟨rfl, hstrides, hlength⟩ := h
  rw [(Rect.fitsWords_of_volume hne hvolume).stridesIn_eq a, Except.ok.injEq] at hstrides
  have hstore : s.store? = some ⟨s.bounds, ⟨s.data, hlength⟩⟩ := dif_pos ⟨hlength, hstrides.symm⟩
  exact ⟨_, hstore, rfl, fun p => get_of_store? hstore hvolume⟩

/-- Setting the element of a point of the bounds changes that element and no other; at other points it
traps, and getting does, and nothing changes. -/
structure SetsByPoint (a : Arithmetic) (bounds : Rect) (s : Allocation α) : Prop where
  inside : ∀ p, bounds.containsPoint p = true → ∀ value, ∃ s',
    Allocation.set a p value s = .ok () s' ∧ s'.Packed a bounds ∧
      ∀ q, s'.get a q = if q = p then .ok value else s.get a q
  outside : ∀ p, bounds.containsPoint p = false →
    s.get a p = .error (.pointOutside p bounds) ∧
      ∀ value, Allocation.set a p value s = .error (.pointOutside p bounds) s

theorem Packed.setsByPoint (h : s.Packed a bounds) (hvolume : bounds.volume < 2 ^ 63) :
    s.SetsByPoint a bounds where
  inside p hp value := by
    obtain ⟨k, hlt, hk⟩ := (h.numbered hvolume).inside p hp
    have hsize : k < s.data.size := by
      rw [← h.length] at hlt
      exact hlt
    have hset : Allocation.set a p value s = .ok () { s with data := s.data.set k value hsize } := by
      rw [Allocation.set, hk]
      exact dif_pos hsize
    have hpacked : ({ s with data := s.data.set k value hsize } : Allocation α).Packed a bounds :=
      ⟨h.bounds_eq, h.strides, (Array.size_set hsize).trans h.length⟩
    refine ⟨_, hset, hpacked, fun q => ?_⟩
    cases hq : bounds.containsPoint q with
    | false =>
      have hqp : q ≠ p := by
        rintro rfl
        rw [hq] at hp
        cases hp
      rw [if_neg hqp, get_outside hpacked.bounds_eq hq, get_outside h.bounds_eq hq]
    | true =>
      obtain ⟨j, old, hj, hold, hget⟩ := h.get_inside hvolume hq
      split
      · rename_i hqp
        subst hqp
        exact get_of_linearIndex (s := { s with data := s.data.set k value hsize }) hk
          (Array.getElem?_set_self hsize)
      · rename_i hqp
        -- Different points have different indices.
        have hjk : k ≠ j := by
          rintro rfl
          exact hqp (((h.numbered hvolume).onto k hlt).unique hj hk)
        rw [hget]
        exact get_of_linearIndex (s := { s with data := s.data.set k value hsize }) hj
          ((Array.getElem?_set_ne hsize hjk).trans hold)
  outside p hp := by
    refine ⟨get_outside h.bounds_eq hp, fun value => ?_⟩
    rw [Allocation.set, linearIndex_outside h.bounds_eq hp]

/-! ## Constructors -/

theorem computed {itemSize : Nat} (hitem : 0 < itemSize) (hrow : bounds.volume * itemSize ≤ maxRowBytes)
    (hwords : a = .checked → bounds.isEmpty = true → bounds.FitsWords) :
    bounds.volume < 2 ^ 63 ∧ bounds.volumeIn a = .ok bounds.volume ∧
      ∃ strides, bounds.stridesIn a = .ok strides := by
  have hvolume : bounds.volume < 2 ^ 63 := by
    have hle := Nat.le_mul_of_pos_right bounds.volume hitem
    simp only [maxRowBytes] at hrow
    omega
  refine ⟨hvolume, ?_⟩
  by_cases hfits : bounds.FitsWords
  · exact ⟨hfits.volumeIn_eq a, _, hfits.stridesIn_eq a⟩
  · have hempty : bounds.isEmpty = true := by
      by_contra hne
      exact hfits (Rect.fitsWords_of_volume (by simpa using hne) hvolume)
    have ha : a ≠ .checked := fun ha => hfits (hwords ha hempty)
    refine ⟨?_, exists_stridesIn ha bounds⟩
    cases a with
    | exact => exact bounds.volumeIn_exact
    | wrapping => rw [bounds.volumeIn_wrapping, Nat.mod_eq_of_lt (by omega)]
    | checked => exact absurd rfl ha

end Allocation

/-! ## Main result -/

/-- For bounds whose elements fit into one row of memory, and whose index arithmetic does not overflow
where there are no points: the points of the bounds, in row-major order, have the linear indices from zero
up to the volume, and there are as many elements. A filled store holds the value everywhere, one made of a
function its value at each point, and one made of a list the `k`-th entry at the `k`-th point; lists of
other lengths are refused. Getting and setting go by points. -/
theorem store_by_points {α : Type} (a : Arithmetic) (itemSize : Nat) (bounds : Rect)
    (hitem : 0 < itemSize) (hrow : bounds.volume * itemSize ≤ maxRowBytes)
    (hwords : a = .checked → bounds.isEmpty = true → bounds.FitsWords) :
    (∀ s : Allocation α, s.Packed a bounds → s.Numbered a bounds ∧ s.SetsByPoint a bounds) ∧
    (∀ value : α, ∃ s, Allocation.filled a itemSize bounds value = .ok s ∧ s.Packed a bounds ∧
      ∀ p, bounds.containsPoint p = true → s.get a p = .ok value) ∧
    (∀ f : Point → α, ∃ s, Allocation.ofFn a bounds f = .ok s ∧ s.Packed a bounds ∧
      ∀ p, bounds.containsPoint p = true → s.get a p = .ok (f p)) ∧
    ∀ data : List α,
      (data.length = bounds.volume → ∃ s, Allocation.ofList a bounds data = .ok s ∧
        s.Packed a bounds ∧ ∀ (k : Nat) (p : Point), bounds.points[k]? = some p →
          ∃ value, data[k]? = some value ∧ s.get a p = .ok value) ∧
      (data.length ≠ bounds.volume → Allocation.ofList a bounds data =
        .error (.refused (.lengthMismatch data.length bounds.volume))) := by
  obtain ⟨hvolume, hcount, strides, hstrides⟩ := Allocation.computed hitem hrow hwords
  refine ⟨fun s h => ⟨h.numbered hvolume, h.setsByPoint hvolume⟩, ?_, ?_, ?_⟩
  · intro value
    have hpacked : (⟨bounds, strides, .replicate bounds.volume value⟩ : Allocation α).Packed a bounds :=
      ⟨rfl, hstrides, Array.size_replicate⟩
    refine ⟨_, ?_, hpacked, ?_⟩
    · refine bind_eq_ok.mpr ⟨_, hstrides, bind_eq_ok.mpr ⟨_, hcount, ?_⟩⟩
      rw [Trap.ofRow?, if_pos hrow]
      rfl
    · intro p hp
      obtain ⟨k, value', _, hvalue', hget⟩ := hpacked.get_inside hvolume hp
      obtain ⟨hk, rfl⟩ := Array.getElem?_eq_some_iff.mp hvalue'
      rw [hget, Array.getElem_replicate]
  · intro f
    have hpacked : (⟨bounds, strides, (bounds.points.map f).toArray⟩ : Allocation α).Packed a bounds :=
      ⟨rfl, hstrides, by simp [Allocation.length, Rect.length_points]⟩
    refine ⟨_, bind_eq_ok.mpr ⟨_, hstrides, rfl⟩, hpacked, ?_⟩
    intro p hp
    obtain ⟨k, hk⟩ := Rect.exists_getElem?_points hp
    refine Allocation.get_of_linearIndex ((hpacked.numbered hvolume).order k p hk) ?_
    rw [List.getElem?_toArray, List.getElem?_map, hk]
    rfl
  · intro data
    refine ⟨?_, ?_⟩
    · intro hlength
      have hpacked : (⟨bounds, strides, data.toArray⟩ : Allocation α).Packed a bounds :=
        ⟨rfl, hstrides, by simpa [Allocation.length] using hlength⟩
      refine ⟨_, ?_, hpacked, ?_⟩
      · refine bind_eq_ok.mpr ⟨_, mapError_eq_ok.mpr hcount, ?_⟩
        rw [if_neg (by simpa using hlength)]
        exact bind_eq_ok.mpr ⟨_, mapError_eq_ok.mpr hstrides, rfl⟩
      · intro k p hk
        have hlt : k < data.length := by
          rw [hlength]
          exact Rect.lt_volume_of_getElem? hk
        refine ⟨_, List.getElem?_eq_getElem hlt,
          Allocation.get_of_linearIndex ((hpacked.numbered hvolume).order k p hk) ?_⟩
        rw [List.getElem?_toArray, List.getElem?_eq_getElem hlt]
    · intro hlength
      rw [Allocation.ofList, hcount]
      exact if_pos hlength

/-- Two rows of three with a negative corner. -/
theorem store_by_points_rows :
    let rows : Rect := ⟨[⟨-1, 0⟩, ⟨4, 6⟩], by decide, by decide⟩
    let f : Point → UInt8 := fun p => if p = [0, 4] then 7 else 9
    rows.volume * 1 ≤ maxRowBytes ∧ ∃ s s' t : Allocation UInt8,
      Allocation.ofList .checked rows [1, 2, 3, 4, 5, 6] = .ok s ∧
      s.linearIndex .checked [0, 5] = .ok 4 ∧ s.get .checked [0, 5] = .ok 5 ∧
      Allocation.set .checked [0, 5] 8 s = .ok () s' ∧ s'.get .checked [0, 5] = .ok 8 ∧
      s'.get .checked [0, 6] = .ok 6 ∧ s.get .checked [1, 4] = .error (.pointOutside [1, 4] rows) ∧
      Allocation.ofFn .checked rows f = .ok t ∧ t.get .checked [0, 4] = .ok 7 := by
  intro rows f
  obtain ⟨hpacked, _, hofFn, hofList⟩ := store_by_points (α := UInt8) .checked 1 rows (by decide)
    (by decide) fun _ hempty => nomatch hempty
  obtain ⟨s, hs, hsp, hget⟩ := (hofList [1, 2, 3, 4, 5, 6]).1 (by decide)
  obtain ⟨t, ht, _, hgett⟩ := hofFn f
  obtain ⟨hnumbered, hsets⟩ := hpacked s hsp
  obtain ⟨a, ha, hgeta⟩ := hget 4 [0, 5] (by decide)
  obtain ⟨b, hb, hgetb⟩ := hget 5 [0, 6] (by decide)
  cases ha
  cases hb
  obtain ⟨s', hset, _, hafter⟩ := hsets.inside [0, 5] (by decide) 8
  exact ⟨by decide, s, s', t, hs, hnumbered.order 4 _ (by decide), hgeta, hset,
    (hafter _).trans (if_pos rfl), ((hafter _).trans (if_neg (by decide))).trans hgetb,
    (hsets.outside [1, 4] (by decide)).1, ht, hgett _ (by decide)⟩

/-- Two columns of `2 ^ 62` elements are more than one row of memory can hold, in any arithmetic. -/
theorem columns_too_long :
    let columns : Rect := ⟨[⟨0, 4611686018427387903⟩, ⟨0, 1⟩], by decide, by decide⟩
    columns.containsPoint [0, 0] = true ∧ columns.volume = 2 ^ 63 ∧
      Allocation.filled .checked 1 columns (0 : UInt8) = .error (.rowTooLong (2 ^ 63) 1) ∧
      Allocation.filled .wrapping 1 columns (0 : UInt8) = .error (.rowTooLong (2 ^ 63) 1) :=
  ⟨rfl, rfl, rfl, rfl⟩

end GridFold

import GridFold.Proofs.Outcomes
import GridFold.Rect.Measure

/-!
# GridFold.Proofs.Measure

What computed extents and volumes have to do with the exact ones.

* `Rect.volumeIn_wrapping` — wrapping arithmetic gives the volume modulo `2 ^ 64`.
* `Rect.volumeIn_checked_iff` — checked arithmetic gives the volume or nothing, and gives it where all
  extents and all products on the way are words.
* `Rect.CountsInWords` — then all arithmetic gives the exact numbers.
* `Rect.exists_ofExtents` — extents that are signed words are those of a rectangle at the origin.
-/

namespace GridFold

/-! ## Extents -/

namespace Span

variable {s : Span}

theorem extent_of_isEmpty (h : s.isEmpty = true) : s.extent = 0 := by
  simp only [isEmpty, decide_eq_true_eq] at h
  simp only [extent]
  omega

theorem extent_of_nonempty (h : s.isEmpty = false) : (s.extent : Int) = s.hi - s.lo + 1 := by
  simp only [isEmpty, decide_eq_false_iff_not] at h
  simp only [extent]
  omega

theorem extentIn_of_isEmpty (h : s.isEmpty = true) (a : Arithmetic) : s.extentIn a = .ok 0 :=
  if_pos h

theorem extentIn_of_lt (h : s.extent < 2 ^ 63) (a : Arithmetic) : s.extentIn a = .ok s.extent := by
  cases hempty : s.isEmpty with
  | true => rw [extentIn_of_isEmpty hempty, extent_of_isEmpty hempty]
  | false =>
    have hextent := extent_of_nonempty hempty
    have hnonneg : 0 ≤ s.hi - s.lo := by
      simp only [isEmpty, decide_eq_false_iff_not] at hempty
      omega
    have hdistance : IsSigned (s.hi - s.lo) := ⟨by omega, by omega⟩
    have hcount : IsSigned (s.hi - s.lo + 1) := ⟨by omega, by omega⟩
    rw [extentIn, hempty, Arithmetic.signed_of_isSigned hdistance]
    change (do let count ← a.signed (s.hi - s.lo + 1); pure (a.ofSigned count)) = _
    rw [Arithmetic.signed_of_isSigned hcount, ← Int.toNat_natCast s.extent, hextent]
    exact congrArg Except.ok (Arithmetic.ofSigned_of_nonneg hcount (by omega))

theorem extentIn_checked_iff {n : Nat} :
    s.extentIn .checked = .ok n ↔ s.extent < 2 ^ 63 ∧ s.extent = n := by
  constructor
  · intro h
    have hlt : s.extent < 2 ^ 63 := by
      cases hempty : s.isEmpty with
      | true =>
        rw [extent_of_isEmpty hempty]
        decide
      | false =>
        rw [extentIn, hempty, if_neg Bool.false_ne_true] at h
        obtain ⟨distance, hdistance, h⟩ := bind_eq_ok.mp h
        obtain ⟨count, hcount, _⟩ := bind_eq_ok.mp h
        obtain ⟨_, rfl⟩ := Arithmetic.signed_ok_iff.mp hdistance
        have hword := ((Arithmetic.signed_ok_iff.mp hcount).1 rfl).2
        rw [Arithmetic.reduced, ← extent_of_nonempty hempty] at hword
        omega
    rw [extentIn_of_lt hlt] at h
    exact ⟨hlt, Except.ok.inj h⟩
  · rintro ⟨hlt, rfl⟩
    exact extentIn_of_lt hlt _

theorem extentIn_exact (s : Span) : s.extentIn .exact = .ok s.extent := by
  cases hempty : s.isEmpty with
  | true => rw [extentIn_of_isEmpty hempty, extent_of_isEmpty hempty]
  | false =>
    rw [extentIn, hempty]
    rfl

theorem extentIn_wrapping (s : Span) : s.extentIn .wrapping = .ok (s.extent % 2 ^ 64) := by
  cases hempty : s.isEmpty with
  | true =>
    rw [extentIn_of_isEmpty hempty, extent_of_isEmpty hempty]
    rfl
  | false =>
    have hextent := extent_of_nonempty hempty
    have hleft : (s.hi - s.lo + 1).bmod 0x1_0000_0000_0000_0000 % 0x1_0000_0000_0000_0000 =
        (s.hi - s.lo + 1) % 0x1_0000_0000_0000_0000 := Int.bmod_emod
    rw [extentIn, hempty, if_neg Bool.false_ne_true, Arithmetic.signed_wrapping]
    change (do let count ← Arithmetic.signed .wrapping _; pure (Arithmetic.ofSigned .wrapping count)) = _
    rw [Arithmetic.signed_wrapping, Int.bmod_add_bmod]
    refine congrArg Except.ok ?_
    rw [Arithmetic.ofSigned]
    omega

end Span

/-! ## Volumes -/

namespace Rect

theorem timesExtent_checked_iff {volume product : Nat} {s : Span} :
    timesExtent .checked volume s = .ok product ↔
      s.extent < 2 ^ 63 ∧ volume * s.extent < 2 ^ 64 ∧ volume * s.extent = product := by
  rw [timesExtent, bind_eq_ok]
  simp only [Span.extentIn_checked_iff, Arithmetic.unsigned_checked_iff]
  constructor
  · rintro ⟨_, ⟨hextent, rfl⟩, hproduct⟩
    exact ⟨hextent, hproduct⟩
  · rintro ⟨hextent, hproduct⟩
    exact ⟨_, ⟨hextent, rfl⟩, hproduct⟩

theorem timesExtent_wrapping (volume : Nat) (s : Span) :
    timesExtent .wrapping volume s = .ok (volume * s.extent % 2 ^ 64) := by
  rw [timesExtent, Span.extentIn_wrapping]
  exact congrArg Except.ok (Nat.mul_mod_mod _ _ _)

theorem foldlM_timesExtent_exact (spans : List Span) (volume : Nat) :
    spans.foldlM (timesExtent .exact) volume = .ok (volume * spansVolume spans) := by
  induction spans generalizing volume with
  | nil => rw [List.foldlM_nil, spansVolume, Nat.mul_one]; rfl
  | cons s spans ih =>
    have hstep : timesExtent .exact volume s = .ok (volume * s.extent) := by
      rw [timesExtent, Span.extentIn_exact]
      rfl
    rw [List.foldlM_cons, hstep, spansVolume, ← Nat.mul_assoc]
    exact ih _

/-- Reducing on the way does not change what is left of the product. -/
theorem foldlM_timesExtent_wrapping (spans : List Span) {volume : Nat} (h : volume < 2 ^ 64) :
    spans.foldlM (timesExtent .wrapping) volume = .ok (volume * spansVolume spans % 2 ^ 64) := by
  induction spans generalizing volume with
  | nil => rw [List.foldlM_nil, spansVolume, Nat.mul_one, Nat.mod_eq_of_lt h]; rfl
  | cons s spans ih =>
    rw [List.foldlM_cons, timesExtent_wrapping, spansVolume, ← Nat.mul_assoc]
    refine (ih (Nat.mod_lt _ (by decide))).trans ?_
    rw [Nat.mod_mul_mod]

theorem foldlM_timesExtent_checked_iff {spans : List Span} {volume product : Nat}
    (h : volume < 2 ^ 64) :
    spans.foldlM (timesExtent .checked) volume = .ok product ↔
      (∀ s ∈ spans, s.extent < 2 ^ 63) ∧ (∀ n, volume * spansVolume (spans.take n) < 2 ^ 64) ∧
        volume * spansVolume spans = product := by
  induction spans generalizing volume with
  | nil =>
    rw [List.foldlM_nil, pure_eq_ok]
    simp only [List.take_nil, spansVolume, Nat.mul_one]
    exact ⟨fun hp => ⟨nofun, fun _ => h, hp⟩, fun hp => hp.2.2⟩
  | cons s spans ih =>
    have hprefix : (∀ n, volume * spansVolume ((s :: spans).take n) < 2 ^ 64) ↔
        ∀ n, volume * s.extent * spansVolume (spans.take n) < 2 ^ 64 := by
      constructor
      · intro hall n
        have := hall (n + 1)
        rwa [List.take_succ_cons, spansVolume, ← Nat.mul_assoc] at this
      · intro hall n
        cases n with
        | zero => simpa [spansVolume] using h
        | succ n =>
          rw [List.take_succ_cons, spansVolume, ← Nat.mul_assoc]
          exact hall n
    rw [List.foldlM_cons, hprefix, spansVolume, ← Nat.mul_assoc, List.forall_mem_cons]
    constructor
    · intro hrun
      obtain ⟨_, hstep, hrun⟩ := bind_eq_ok.mp hrun
      obtain ⟨hextent, hlt, rfl⟩ := timesExtent_checked_iff.mp hstep
      obtain ⟨hextents, hproducts, hproduct⟩ := (ih hlt).mp hrun
      exact ⟨⟨hextent, hextents⟩, hproducts, hproduct⟩
    · rintro ⟨⟨hextent, hextents⟩, hproducts, hproduct⟩
      have hlt : volume * s.extent < 2 ^ 64 := by simpa [spansVolume] using hproducts 0
      rw [timesExtent_checked_iff.mpr ⟨hextent, hlt, rfl⟩]
      exact (ih hlt).mpr ⟨hextents, hproducts, hproduct⟩

/-- The extents, and the products of the first of them, are words. -/
structure CountsInWords (r : Rect) : Prop where
  extents : ∀ s ∈ r.spans, s.extent < 2 ^ 63
  products : ∀ n, spansVolume (r.spans.take n) < 2 ^ 64

theorem volumeIn_exact (r : Rect) : r.volumeIn .exact = .ok r.volume :=
  (foldlM_timesExtent_exact r.spans 1).trans (by rw [Nat.one_mul, volume])

theorem volumeIn_wrapping (r : Rect) : r.volumeIn .wrapping = .ok (r.volume % 2 ^ 64) :=
  (foldlM_timesExtent_wrapping r.spans (by decide)).trans (by rw [Nat.one_mul, volume])

theorem volumeIn_checked_iff {r : Rect} {n : Nat} :
    r.volumeIn .checked = .ok n ↔ r.CountsInWords ∧ r.volume = n := by
  rw [volumeIn, foldlM_timesExtent_checked_iff (by decide)]
  simp only [Nat.one_mul]
  constructor
  · rintro ⟨hextents, hproducts, hvolume⟩
    exact ⟨⟨hextents, hproducts⟩, hvolume⟩
  · rintro ⟨⟨hextents, hproducts⟩, hvolume⟩
    exact ⟨hextents, hproducts, hvolume⟩

/-- As long as everything is a word, the arithmetic does not matter. -/
theorem CountsInWords.volumeIn_eq {r : Rect} (h : r.CountsInWords) (a : Arithmetic) :
    r.volumeIn a = .ok r.volume := by
  have hlt : r.volume < 2 ^ 64 := by
    have := h.products r.spans.length
    rwa [List.take_length] at this
  cases a with
  | exact => exact volumeIn_exact r
  | checked => exact volumeIn_checked_iff.mpr ⟨h, rfl⟩
  | wrapping => rw [volumeIn_wrapping, Nat.mod_eq_of_lt hlt]

theorem CountsInWords.extentsIn_eq {r : Rect} (h : r.CountsInWords) (a : Arithmetic) :
    r.extentsIn a = .ok r.extents :=
  mapM_eq_map fun s hs => Span.extentIn_of_lt (h.extents s hs) a

theorem spanOfExtent_of_lt {extent : Nat} (h : extent < 2 ^ 63) (a : Arithmetic) :
    spanOfExtent a extent = .ok ⟨0, extent - 1⟩ := by
  have hsigned : IsSigned ((extent : Int) - 1) := ⟨by omega, by omega⟩
  rw [spanOfExtent, Arithmetic.ofUnsigned_of_lt h, Arithmetic.signed_of_isSigned hsigned]
  rfl

theorem exists_ofExtents {extents : List Nat} (h : ∀ extent ∈ extents, extent < 2 ^ 63)
    (hpos : 0 < extents.length) (hle : extents.length ≤ maxStoreRank) (a : Arithmetic) :
    ∃ r, ofExtents a extents = .ok r ∧ r.extents = extents ∧ r.lo = extents.map fun _ => 0 := by
  obtain ⟨spans, hspans⟩ : ∃ spans : List Span, spans = extents.map fun e => ⟨0, (e : Int) - 1⟩ :=
    ⟨_, rfl⟩
  have hlength : spans.length = extents.length := by rw [hspans, List.length_map]
  have hmade : extents.mapM (spanOfExtent a) = .ok spans := by
    rw [hspans]
    exact mapM_eq_map fun extent hextent => spanOfExtent_of_lt (h extent hextent) a
  have hrect : ofSpans spans = .ok ⟨spans, by omega, by omega⟩ := dif_pos ⟨by omega, by omega⟩
  refine ⟨_, bind_eq_ok.mpr ⟨_, mapError_eq_ok.mpr hmade, mapError_eq_ok.mpr hrect⟩, ?_, ?_⟩
  · change spans.map Span.extent = extents
    rw [hspans, List.map_map]
    refine (List.map_congr_left fun extent _ => ?_).trans (List.map_id _)
    simp only [Function.comp_apply, Span.extent, id_eq]
    omega
  · change spans.map Span.lo = _
    rw [hspans, List.map_map]
    rfl

end Rect

end GridFold

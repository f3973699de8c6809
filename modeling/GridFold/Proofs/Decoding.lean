import GridFold.Proofs.Outcomes
import GridFold.Wire.Args

/-!
# GridFold.Proofs.Decoding

What can be said of arguments that have been decoded, whatever the bytes were: a rectangle has the rank
that was read before it, and that is the rank of a task array.
-/

namespace GridFold.Wire

/-- The bytes keep the number modulo the range they span. -/
theorem ofLittleEndian_littleEndian (n value : Nat) :
    ofLittleEndian (littleEndian n value) = value % 256 ^ n := by
  induction n generalizing value with
  | zero => simp [littleEndian, ofLittleEndian, Nat.mod_one]
  | succ n ih =>
    simp only [littleEndian, ofLittleEndian, ih, UInt8.toNat_ofNat']
    rw [Nat.pow_succ 256 n, Nat.mul_comm (256 ^ n) 256, Nat.mod_mul]

variable {c c' : Cursor} {bytes : List UInt8}

theorem length_coordinates {n : Nat} {p : Point} (h : Reader.coordinates n c = .ok p c') :
    p.length = n := by
  induction n generalizing c c' p with
  | zero =>
    cases h
    rfl
  | succ n ih =>
    simp only [Reader.coordinates, run_bind_eq_ok, run_pure_eq_ok] at h
    obtain ⟨_, _, _, others, c₁, hothers, rfl, _⟩ := h
    rw [List.length_cons, ih hothers]

theorem rank_rect {n : Nat} {r : Rect} (h : Reader.rect n c = .ok r c') : r.rank = n := by
  simp only [Reader.rect, run_bind_eq_ok] at h
  obtain ⟨lo, _, hlo, hi, _, hhi, h⟩ := h
  cases hcorners : Rect.ofCorners lo hi with
  | error cause =>
    rw [hcorners] at h
    exact (run_throw_eq_ok.mp h).elim
  | ok r' =>
    rw [hcorners] at h
    obtain ⟨rfl, _⟩ := run_pure_eq_ok.mp h
    unfold Rect.ofCorners at hcorners
    split at hcorners
    · rw [Rect.rank, Rect.spans_of_ofSpans hcorners, List.length_zipWith, length_coordinates hlo,
        length_coordinates hhi, Nat.min_self]
    · cases hcorners

theorem rank_le_of_read {n : Nat} (h : Reader.rank c = .ok n c') : n ≤ maxTaskRank := by
  simp only [Reader.rank, run_bind_eq_ok] at h
  obtain ⟨raw, _, _, h⟩ := h
  cases hraw : Reader.natOf? raw with
  | none =>
    rw [hraw] at h
    exact (run_throw_eq_ok.mp h).elim
  | some m =>
    rw [hraw] at h
    by_cases hm : 0 < m ∧ m ≤ maxTaskRank
    · simp only [if_pos hm, run_pure_eq_ok] at h
      exact h.1 ▸ hm.2
    · simp only [if_neg hm, run_throw_eq_ok] at h

theorem rank_shape {r : Rect} (h : Reader.shape c = .ok r c') : r.rank ≤ maxTaskRank := by
  simp only [Reader.shape, run_bind_eq_ok] at h
  obtain ⟨n, _, hn, hrect⟩ := h
  rw [rank_rect hrect]
  exact rank_le_of_read hn

theorem decodeWith_ok_iff {β : Type} {reader : Reader β} {b : β} :
    decodeWith reader bytes = .ok b ↔ ∃ c, reader (Cursor.start bytes) = .ok b c := by
  unfold decodeWith
  cases reader (Cursor.start bytes) <;> simp

theorem ShapeArgs.rank_le {args : ShapeArgs} (h : ShapeArgs.decode bytes = .ok args) :
    args.rect.rank ≤ maxTaskRank := by
  obtain ⟨_, h⟩ := decodeWith_ok_iff.mp h
  simp only [ShapeArgs.read, run_bind_eq_ok, run_pure_eq_ok] at h
  obtain ⟨rect, _, hrect, rfl, _⟩ := h
  exact rank_shape hrect

theorem CollapseArgs.rank_le {args : CollapseArgs} (h : CollapseArgs.decode bytes = .ok args) :
    args.inRect.rank ≤ maxTaskRank := by
  obtain ⟨_, h⟩ := decodeWith_ok_iff.mp h
  simp only [CollapseArgs.read, run_bind_eq_ok] at h
  obtain ⟨raw, _, _, h⟩ := h
  cases hraw : Reader.natOf? raw with
  | none =>
    rw [hraw] at h
    exact (run_throw_eq_ok.mp h).elim
  | some axis =>
    simp only [hraw, run_bind_eq_ok, run_pure_eq_ok] at h
    obtain ⟨_, _, _, _, _, _, inRect, _, hrect, rfl, _⟩ := h
    exact rank_shape hrect

end GridFold.Wire

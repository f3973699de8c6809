import GridFold.Proofs.Lockstep

/-!
# GridFold.Proofs.Positions

What lies at a position of a buffer, and what a reader makes of it.

* `int32_ok_iff` to `shape_ok_iff` — a reader succeeds exactly if its bytes are there, and what it returns
  is read off them.
* `append_dimension`, `append_shape` — what was read is written back as the same bytes, up to what is put
  for a missing axis and into the gaps.
-/

namespace GridFold

theorem Rect.ofCorners_ok_iff {lo hi : Point} {r : Rect} :
    ofCorners lo hi = .ok r ↔ r.lo = lo ∧ r.hi = hi := by
  constructor
  · intro h
    unfold ofCorners at h
    split at h
    · rename_i hlength
      have hspans := spans_of_ofSpans h
      rw [Rect.lo, Rect.hi, hspans, ← List.map_uncurry_zip_eq_zipWith, List.map_map, List.map_map]
      exact ⟨List.map_fst_zip hlength.le, List.map_snd_zip hlength.ge⟩
    · cases h
  · rintro ⟨rfl, rfl⟩
    exact r.ofCorners_lo_hi

theorem Rect.exists_corners (lo hi : Point) (h : lo.length = hi.length) (hpos : 0 < lo.length)
    (hle : lo.length ≤ maxStoreRank) : ∃ r : Rect, r.lo = lo ∧ r.hi = hi := by
  have hlength : (lo.zipWith Span.mk hi).length = lo.length := by
    rw [List.length_zipWith, ← h, Nat.min_self]
  refine ⟨⟨lo.zipWith Span.mk hi, by omega, by omega⟩, Rect.ofCorners_ok_iff.mp ?_⟩
  rw [Rect.ofCorners, if_pos h, Rect.ofSpans, dif_pos (by omega)]

namespace Wire

/-! ## Positions -/

def int32At (bytes : List UInt8) (start : Nat) : Int32 :=
  Int32.ofNat (ofLittleEndian (bytesAt bytes start 4))

def int64At (bytes : List UInt8) (start : Nat) : Int64 :=
  Int64.ofNat (ofLittleEndian (bytesAt bytes start 8))

def rankAt (bytes : List UInt8) (start : Nat) : Nat := (int32At bytes start).toInt.toNat

def coordinatesAt (bytes : List UInt8) : Nat → Nat → Point
  | _, 0 => []
  | start, n + 1 => (int64At bytes start).toInt :: coordinatesAt bytes (start + 8) n

/-- The rank of a task array lies at `start`, and from `corners` on there is room for two corners of as
many coordinates. -/
structure HasShape (bytes : List UInt8) (start corners : Nat) : Prop where
  rank_inside : start + 4 ≤ bytes.length
  rank_pos : 1 ≤ (int32At bytes start).toInt
  rank_le : (int32At bytes start).toInt ≤ maxTaskRank
  corners_inside : corners + 16 * rankAt bytes start ≤ bytes.length

/-- The rectangle with the rank at `start` and with the corners from `corners` on. -/
structure IsShape (bytes : List UInt8) (start corners : Nat) (r : Rect) : Prop where
  rank : r.rank = rankAt bytes start
  lo : r.lo = coordinatesAt bytes corners r.rank
  hi : r.hi = coordinatesAt bytes (corners + 8 * r.rank) r.rank

variable {bytes : List UInt8} {start corners offset n : Nat} {c : Cursor}

theorem alignUp_eq {size : Nat} (h : offset % size = 0) : alignUp offset size = offset := if_pos h

theorem length_bytesAt {size : Nat} (h : start + size ≤ bytes.length) :
    (bytesAt bytes start size).length = size := by
  rw [bytesAt, List.length_take, List.length_drop]
  omega

theorem bytesAt_add (bytes : List UInt8) (start m n : Nat) :
    bytesAt bytes start (m + n) = bytesAt bytes start m ++ bytesAt bytes (start + m) n := by
  rw [bytesAt, List.take_add, List.drop_drop]
  rfl

@[simp]
theorem length_coordinatesAt (bytes : List UInt8) (start n : Nat) :
    (coordinatesAt bytes start n).length = n := by
  induction n generalizing start with
  | zero => rfl
  | succ n ih => rw [coordinatesAt, List.length_cons, ih]

theorem HasShape.rankAt_pos (h : HasShape bytes start corners) : 0 < rankAt bytes start := by
  have := h.rank_pos
  unfold rankAt
  omega

theorem HasShape.rankAt_le (h : HasShape bytes start corners) : rankAt bytes start ≤ maxTaskRank := by
  have := h.rank_le
  unfold rankAt
  omega

theorem HasShape.exists_isShape (h : HasShape bytes start corners) :
    ∃ r, IsShape bytes start corners r := by
  have hpos := h.rankAt_pos
  have hle := h.rankAt_le
  have hmax : maxTaskRank ≤ maxStoreRank := Nat.le_succ _
  obtain ⟨r, hlo, hhi⟩ := Rect.exists_corners (coordinatesAt bytes corners (rankAt bytes start))
    (coordinatesAt bytes (corners + 8 * rankAt bytes start) (rankAt bytes start))
    (by simp) (by simpa using hpos) (by simpa using hle.trans hmax)
  have hrank : r.rank = rankAt bytes start := by
    rw [← length_coordinatesAt bytes corners (rankAt bytes start), ← hlo, Rect.lo, List.length_map,
      Rect.rank]
  exact ⟨r, hrank, by rw [hrank, hlo], by rw [hrank, hhi]⟩

theorem IsShape.rank_le {r : Rect} (hr : IsShape bytes start corners r)
    (h : HasShape bytes start corners) : r.rank ≤ maxTaskRank :=
  hr.rank.trans_le h.rankAt_le

theorem IsShape.isCoded {r : Rect} (h : IsShape bytes start corners r) : r.IsCoded := by
  have hcoordinates : ∀ n start c, c ∈ coordinatesAt bytes start n → -2 ^ 63 ≤ c ∧ c < 2 ^ 63 := by
    intro n
    induction n with
    | zero =>
      intro start c hc
      cases hc
    | succ n ih =>
      intro start c hc
      rcases List.mem_cons.mp hc with rfl | hc
      · exact ⟨Int64.le_toInt _, Int64.toInt_lt _⟩
      · exact ih _ c hc
  intro c hc
  rw [h.lo, h.hi] at hc
  rcases List.mem_append.mp hc with hc | hc
  · exact hcoordinates _ _ c hc
  · exact hcoordinates _ _ c hc

/-! ## Readers -/

theorem word_ok_iff {size : Nat} {word : List UInt8} :
    Reader.word size ⟨bytes, offset⟩ = .ok word c ↔
      alignUp offset size + size ≤ bytes.length ∧ word = bytesAt bytes (alignUp offset size) size ∧
        c = ⟨bytes, alignUp offset size + size⟩ := by
  unfold Reader.word
  by_cases h : alignUp offset size + size ≤ bytes.length
  · rw [if_pos h, EStateM.Result.ok.injEq, and_iff_right h]
    exact and_congr eq_comm eq_comm
  · simp [h]

theorem map_ok_iff {β γ : Type} {x : Reader β} {g : β → γ} {s after : Cursor} {value : β} {result : γ}
    {inside : Prop} (h : ∀ {b c}, x s = .ok b c ↔ inside ∧ b = value ∧ c = after) :
    (x >>= fun b => pure (g b)) s = .ok result c ↔ inside ∧ result = g value ∧ c = after := by
  simp only [run_bind_eq_ok, run_pure_eq_ok, h]
  constructor
  · rintro ⟨_, _, ⟨hinside, rfl, rfl⟩, rfl, rfl⟩
    exact ⟨hinside, rfl, rfl⟩
  · rintro ⟨hinside, rfl, rfl⟩
    exact ⟨_, _, ⟨hinside, rfl, rfl⟩, rfl, rfl⟩

theorem int32_ok_iff {v : Int32} (offset : Nat) (h : offset % 4 = 0) :
    Reader.int32 ⟨bytes, offset⟩ = .ok v c ↔
      offset + 4 ≤ bytes.length ∧ v = int32At bytes offset ∧ c = ⟨bytes, offset + 4⟩ := by
  refine map_ok_iff fun {word c} => ?_
  rw [word_ok_iff, alignUp_eq h]

theorem int64_ok_iff {v : Int64} (h : offset % 8 = 0) :
    Reader.int64 ⟨bytes, offset⟩ = .ok v c ↔
      offset + 8 ≤ bytes.length ∧ v = int64At bytes offset ∧ c = ⟨bytes, offset + 8⟩ := by
  refine map_ok_iff fun {word c} => ?_
  rw [word_ok_iff, alignUp_eq h]

theorem dimension_ok_iff {axis : Option Nat} (offset : Nat) (h : offset % 4 = 0) :
    Reader.dimension ⟨bytes, offset⟩ = .ok axis c ↔
      offset + 4 ≤ bytes.length ∧ axis = Reader.natOf? (int32At bytes offset) ∧
        c = ⟨bytes, offset + 4⟩ :=
  map_ok_iff (int32_ok_iff offset h)

theorem natOf?_eq_some {v : Int32} {a : Nat} :
    Reader.natOf? v = some a ↔ 0 ≤ v.toInt ∧ a = v.toInt.toNat := by
  unfold Reader.natOf?
  by_cases h : v.toInt < 0
  · rw [if_pos h]
    constructor
    · intro hnone
      cases hnone
    · rintro ⟨hpos, _⟩
      omega
  · rw [if_neg h, Option.some.injEq, eq_comm]
    exact (and_iff_right (Int.not_lt.mp h)).symm

theorem natOf?_lt {v : Int32} : ∀ a ∈ Reader.natOf? v, a < 2 ^ 31 := by
  intro a ha
  obtain ⟨_, rfl⟩ := natOf?_eq_some.mp ha
  have hlt : v.toInt < 2 ^ 31 := v.toInt_lt
  omega

theorem rank_ok_iff (h : offset % 4 = 0) :
    Reader.rank ⟨bytes, offset⟩ = .ok n c ↔
      offset + 4 ≤ bytes.length ∧ 1 ≤ (int32At bytes offset).toInt ∧
        (int32At bytes offset).toInt ≤ maxTaskRank ∧ n = rankAt bytes offset ∧
        c = ⟨bytes, offset + 4⟩ := by
  simp only [Reader.rank, run_bind_eq_ok, int32_ok_iff offset h]
  constructor
  · rintro ⟨_, _, ⟨hlength, rfl, rfl⟩, hrank⟩
    cases hm : Reader.natOf? (int32At bytes offset) with
    | none =>
      rw [hm] at hrank
      exact (run_throw_eq_ok.mp hrank).elim
    | some m =>
      rw [hm] at hrank
      obtain ⟨hnonneg, hm'⟩ := natOf?_eq_some.mp hm
      by_cases hbounds : 0 < m ∧ m ≤ maxTaskRank
      · simp only [if_pos hbounds, run_pure_eq_ok] at hrank
        obtain ⟨rfl, rfl⟩ := hrank
        exact ⟨hlength, by omega, by omega, hm', rfl⟩
      · simp only [if_neg hbounds, run_throw_eq_ok] at hrank
  · rintro ⟨hlength, hpos, hle, rfl, rfl⟩
    refine ⟨_, _, ⟨hlength, rfl, rfl⟩, ?_⟩
    have hsome : Reader.natOf? (int32At bytes offset) = some (rankAt bytes offset) :=
      natOf?_eq_some.mpr ⟨by omega, rfl⟩
    have hbounds : 0 < rankAt bytes offset ∧ rankAt bytes offset ≤ maxTaskRank := by
      unfold rankAt
      omega
    rw [hsome]
    simp only [if_pos hbounds, run_pure_eq_ok, and_self]

theorem coordinates_ok_iff {p : Point} (h : start % 8 = 0) :
    Reader.coordinates n ⟨bytes, start⟩ = .ok p c ↔
      (n = 0 ∨ start + 8 * n ≤ bytes.length) ∧ p = coordinatesAt bytes start n ∧
        c = ⟨bytes, start + 8 * n⟩ := by
  induction n generalizing start p c with
  | zero =>
    simp only [Reader.coordinates, run_pure_eq_ok, coordinatesAt, true_or, true_and]
    exact and_congr eq_comm eq_comm
  | succ n ih =>
    simp only [Reader.coordinates, run_bind_eq_ok, int64_ok_iff h, run_pure_eq_ok, coordinatesAt]
    constructor
    · rintro ⟨_, _, ⟨hlength, rfl, rfl⟩, others, _, hothers, rfl, rfl⟩
      obtain ⟨hrest, rfl, rfl⟩ := (ih (by omega)).mp hothers
      refine ⟨.inr (by omega), rfl, ?_⟩
      rw [show start + 8 + 8 * n = start + 8 * (n + 1) by omega]
    · rintro ⟨hlength, rfl, rfl⟩
      have hall : start + 8 * (n + 1) ≤ bytes.length := hlength.resolve_left (Nat.succ_ne_zero n)
      refine ⟨_, _, ⟨by omega, rfl, rfl⟩, _, _, (ih (by omega)).mpr ⟨.inr (by omega), rfl, rfl⟩, rfl, ?_⟩
      rw [show start + 8 + 8 * n = start + 8 * (n + 1) by omega]

/-- The first coordinate may start a few bytes behind the cursor. -/
theorem rect_alignUp (hn : 0 < n) :
    Reader.rect n ⟨bytes, offset⟩ = Reader.rect n ⟨bytes, alignUp offset 8⟩ := by
  obtain ⟨n, rfl⟩ : ∃ m, n = m + 1 := ⟨n - 1, by omega⟩
  have hword : Reader.word 8 ⟨bytes, offset⟩ = Reader.word 8 ⟨bytes, alignUp offset 8⟩ := by
    have hmod : alignUp offset 8 % 8 = 0 := alignUp_mod offset (by decide)
    simp only [Reader.word, alignUp_eq hmod]
  simp only [Reader.rect, Reader.coordinates, Reader.int64, bind, EStateM.bind, hword]

theorem rect_ok_iff {r : Rect} (hn : 0 < n) (h : start % 8 = 0) :
    Reader.rect n ⟨bytes, start⟩ = .ok r c ↔
      start + 16 * n ≤ bytes.length ∧ r.lo = coordinatesAt bytes start n ∧
        r.hi = coordinatesAt bytes (start + 8 * n) n ∧ c = ⟨bytes, start + 16 * n⟩ := by
  have hmid : (start + 8 * n) % 8 = 0 := by omega
  simp only [Reader.rect, run_bind_eq_ok, coordinates_ok_iff h]
  constructor
  · rintro ⟨_, _, ⟨_, rfl, rfl⟩, hi, _, hhi, hrect⟩
    obtain ⟨hlength, rfl, rfl⟩ := (coordinates_ok_iff hmid).mp hhi
    cases hcorners : Rect.ofCorners (coordinatesAt bytes start n)
        (coordinatesAt bytes (start + 8 * n) n) with
    | error cause =>
      rw [hcorners] at hrect
      exact (run_throw_eq_ok.mp hrect).elim
    | ok r' =>
      rw [hcorners] at hrect
      obtain ⟨rfl, rfl⟩ := run_pure_eq_ok.mp hrect
      obtain ⟨hlo, hhi⟩ := Rect.ofCorners_ok_iff.mp hcorners
      refine ⟨by omega, hlo, hhi, ?_⟩
      rw [show start + 8 * n + 8 * n = start + 16 * n by omega]
  · rintro ⟨hlength, hlo, hhi, rfl⟩
    refine ⟨_, _, ⟨.inr (by omega), rfl, rfl⟩, _, _,
      (coordinates_ok_iff hmid).mpr ⟨.inr (by omega), rfl, rfl⟩, ?_⟩
    rw [Rect.ofCorners_ok_iff.mpr ⟨hlo, hhi⟩, show start + 8 * n + 8 * n = start + 16 * n by omega]
    rfl

/-- A shape is read where its rank starts at a multiple of four bytes; its corners start at the next
multiple of eight. -/
theorem shape_ok_iff {r : Rect} (start corners : Nat) (h : start % 4 = 0)
    (hcorners : alignUp (start + 4) 8 = corners) :
    Reader.shape ⟨bytes, start⟩ = .ok r c ↔
      HasShape bytes start corners ∧ IsShape bytes start corners r ∧
        c = ⟨bytes, corners + 16 * rankAt bytes start⟩ := by
  have hmod : corners % 8 = 0 := hcorners ▸ alignUp_mod (start + 4) (by decide)
  simp only [Reader.shape, run_bind_eq_ok, rank_ok_iff h]
  constructor
  · rintro ⟨_, _, ⟨hlength, hpos, hle, rfl, rfl⟩, hrect⟩
    have hn : 0 < rankAt bytes start := by
      unfold rankAt
      omega
    rw [rect_alignUp hn, hcorners] at hrect
    have hrank := rank_rect hrect
    obtain ⟨hinside, hlo, hhi, rfl⟩ := (rect_ok_iff hn hmod).mp hrect
    exact ⟨⟨hlength, hpos, hle, hinside⟩, ⟨hrank, by rw [hrank, hlo], by rw [hrank, hhi]⟩, rfl⟩
  · rintro ⟨hshape, hr, rfl⟩
    refine ⟨_, _, ⟨hshape.rank_inside, hshape.rank_pos, hshape.rank_le, rfl, rfl⟩, ?_⟩
    rw [rect_alignUp hshape.rankAt_pos, hcorners, rect_ok_iff hshape.rankAt_pos hmod, ← hr.rank]
    exact ⟨hr.rank ▸ hshape.corners_inside, hr.lo, hr.hi, rfl⟩

/-! ## Writing back what was read -/

/-- What is written for the dimension at `start`: its own bytes, and one and the same number for
everything that stands for no axis. -/
def canonicalDimension (bytes : List UInt8) (start : Nat) : List UInt8 :=
  if (int32At bytes start).toInt < 0 then [0xff, 0xff, 0xff, 0xff] else bytesAt bytes start 4

theorem int32_ofNat_toNat {v : Int32} (h : 0 ≤ v.toInt) : Int32.ofNat v.toInt.toNat = v := by
  rw [← Int32.ofInt_eq_ofNat, Int.toNat_of_nonneg h, Int32.ofInt_toInt]

theorem bytes_int32At (h : start + 4 ≤ bytes.length) :
    (Word.int32 (int32At bytes start)).bytes = bytesAt bytes start 4 :=
  bytes_int32 (length_bytesAt h)

theorem length_canonicalDimension (h : start + 4 ≤ bytes.length) :
    (canonicalDimension bytes start).length = 4 := by
  unfold canonicalDimension
  split
  · rfl
  · exact length_bytesAt h

theorem bytes_dimension (h : start + 4 ≤ bytes.length) :
    (Word.int32 (dimensionCode (Reader.natOf? (int32At bytes start)))).bytes =
      canonicalDimension bytes start := by
  unfold canonicalDimension Reader.natOf?
  by_cases hneg : (int32At bytes start).toInt < 0
  · rw [if_pos hneg, if_pos hneg]
    rfl
  · rw [if_neg hneg, if_neg hneg, dimensionCode, int32_ofNat_toNat (Int.not_lt.mp hneg),
      bytes_int32At h]

theorem bytes_coordinates (h : start + 8 * n ≤ bytes.length) :
    ((coordinatesAt bytes start n).map fun c => Word.int64 (Int64.ofInt c)).flatMap Word.bytes =
      bytesAt bytes start (8 * n) := by
  induction n generalizing start with
  | zero => rfl
  | succ n ih =>
    have hword : (Word.int64 (int64At bytes start)).bytes = bytesAt bytes start 8 :=
      bytes_int64 (length_bytesAt (by omega))
    rw [coordinatesAt, List.map_cons, List.flatMap_cons, Int64.ofInt_toInt, hword, ih (by omega),
      ← bytesAt_add, show 8 + 8 * n = 8 * (n + 1) by omega]

/-- A word at a multiple of its size follows without a gap. -/
theorem append_eq {buffer : List UInt8} {w : Word} (h : buffer.length % w.size = 0) :
    Word.append buffer w = buffer ++ w.bytes := by
  rw [Word.append, alignUp_eq h, Nat.sub_self, List.replicate_zero, List.append_nil]

/-- So do words of one size, one after the other. -/
theorem foldl_append_eq {buffer : List UInt8} {ws : List Word} {size : Nat}
    (hws : ∀ w ∈ ws, w.size = size) (h : buffer.length % size = 0) : ws.foldl Word.append buffer = buffer ++ ws.flatMap Word.bytes := by
  induction ws generalizing buffer with
  | nil => simp
  | cons w ws ih =>
    have hsize := hws w (by simp)
    have hlength : (buffer ++ w.bytes).length % size = 0 := by
      rw [List.length_append, Word.length_bytes, hsize, Nat.add_mod_right, h]
    rw [List.foldl_cons, append_eq (by rw [hsize, h]), ih (fun w' hw' => hws w' (by simp [hw'])) hlength,
      List.flatMap_cons, List.append_assoc]

/-- The gap in front of the first of them can be filled beforehand. -/
theorem foldl_append_gap {buffer : List UInt8} {ws : List Word} {size : Nat}
    (hws : ∀ w ∈ ws, w.size = size) (hne : ws ≠ []) :
    ws.foldl Word.append buffer =
      ws.foldl Word.append (buffer ++ List.replicate (alignUp buffer.length size - buffer.length) 0) := by
  cases ws with
  | nil => exact absurd rfl hne
  | cons w ws =>
    have hsize := hws w (by simp)
    have hlength : (buffer ++ List.replicate (alignUp buffer.length w.size - buffer.length)
        (0 : UInt8)).length % w.size = 0 := by
      have hle := le_alignUp buffer.length w.size
      rw [List.length_append, List.length_replicate, Nat.add_sub_cancel' hle]
      exact alignUp_mod _ w.size_pos
    rw [List.foldl_cons, List.foldl_cons, ← hsize, append_eq hlength, Word.append]

theorem bytes_shape {r : Rect} (h : HasShape bytes start corners) (hr : IsShape bytes start corners r) :
    (coordinateWords r).flatMap Word.bytes = bytesAt bytes corners (16 * rankAt bytes start) := by
  have hinside := h.corners_inside
  rw [← hr.rank] at hinside ⊢
  rw [coordinateWords, List.map_append, List.flatMap_append, hr.lo, hr.hi, bytes_coordinates (by omega),
    bytes_coordinates (by omega), ← bytesAt_add, show 8 * r.rank + 8 * r.rank = 16 * r.rank by omega]

/-- A number that was read is written back as its bytes. -/
theorem append_int32 {buffer : List UInt8} (hbuffer : buffer.length % 4 = 0)
    (h : start + 4 ≤ bytes.length) :
    (Field.int32 (int32At bytes start)).append buffer = buffer ++ bytesAt bytes start 4 := by
  rw [← bytes_int32At h]
  exact append_eq hbuffer

theorem append_dimension {buffer : List UInt8} (hbuffer : buffer.length % 4 = 0)
    (h : start + 4 ≤ bytes.length) :
    (Field.dimension (Reader.natOf? (int32At bytes start))).append buffer =
      buffer ++ canonicalDimension bytes start := by
  rw [← bytes_dimension h]
  exact append_eq hbuffer

theorem append_shape {buffer : List UInt8} {r : Rect} (gap : Nat) (hbuffer : buffer.length % 4 = 0)
    (hgap : alignUp (buffer.length + 4) 8 = buffer.length + 4 + gap) (h : HasShape bytes start corners)
    (hr : IsShape bytes start corners r) :
    (Field.shape r).append buffer = buffer ++ bytesAt bytes start 4 ++ List.replicate gap 0 ++
      bytesAt bytes corners (16 * rankAt bytes start) := by
  have hsizes : ∀ w ∈ coordinateWords r, w.size = 8 := by
    intro w hw
    obtain ⟨c, _, rfl⟩ := List.mem_map.mp hw
    rfl
  have hne : coordinateWords r ≠ [] := by
    have hpos := r.rank_pos
    intro hnil
    have hlength : (coordinateWords r).length = r.spans.length + r.spans.length := by
      simp [coordinateWords, Rect.lo, Rect.hi]
    rw [hnil, List.length_nil] at hlength
    omega
  have hrank : dimensionCode (some r.rank) = int32At bytes start := by
    rw [hr.rank]
    exact int32_ofNat_toNat (by have := h.rank_pos; omega)
  have hfirst : Word.append buffer (.int32 (int32At bytes start)) = buffer ++ bytesAt bytes start 4 :=
    append_int32 hbuffer h.rank_inside
  have hlength : (buffer ++ bytesAt bytes start 4).length = buffer.length + 4 := by
    rw [List.length_append, length_bytesAt h.rank_inside]
  rw [Field.append, Field.words, List.foldl_cons, hrank, hfirst, foldl_append_gap hsizes hne, hlength, hgap,
    Nat.add_sub_cancel_left, foldl_append_eq hsizes, bytes_shape h hr]
  rw [List.length_append, hlength, List.length_replicate, ← hgap]
  exact alignUp_mod _ (by decide)

end Wire

end GridFold

import GridFold.Proofs.Words

/-!
# GridFold.Proofs.Lockstep

Reading what was written, field by field.

* `Follows` — a reader keeps pace with the words that were written: where they are all there it returns
  what they stand for and ends where the last of them ends, and where they are cut off it reports the first
  one that is not there. `Follows.bind` puts readers together.
* `follows_field` — every kind of field follows its fields.
* `read_in_lockstep` — so does any row of fields.
-/

namespace GridFold

/-- Every coordinate fits eight bytes. -/
def Rect.IsCoded (r : Rect) : Prop := ∀ c ∈ r.lo ++ r.hi, -2 ^ 63 ≤ c ∧ c < 2 ^ 63

theorem Rect.ofCorners_lo_hi (r : Rect) : ofCorners r.lo r.hi = .ok r := by
  have hspans : ∀ spans : List Span, (spans.map Span.lo).zipWith Span.mk (spans.map Span.hi) = spans := by
    intro spans
    induction spans with
    | nil => rfl
    | cons s spans ih => rw [List.map_cons, List.map_cons, List.zipWith_cons_cons, ih]
  rw [ofCorners, if_pos (by simp [lo, hi]), lo, hi, hspans]
  exact ofSpans_spans r

namespace Wire

variable {β γ : Type}

/-! ## Readers and words -/

/-- The reader reads `words` back as `value`. -/
structure Follows (reader : Reader β) (words : List Word) (value : β) : Prop where
  /-- Where all words are there, it ends with the last of them. -/
  whole : ∀ buffer bytes, words.foldl Word.append buffer <+: bytes →
    reader ⟨bytes, buffer.length⟩ = .ok value ⟨bytes, (words.foldl Word.append buffer).length⟩
  /-- Where they are cut off, it stops at the first one that is not all there. -/
  cut : ∀ buffer bytes, buffer <+: bytes → bytes <+: words.foldl Word.append buffer →
    bytes.length < (words.foldl Word.append buffer).length →
    ∃ start w, (Word.starts buffer.length words).find?
        (fun p => decide (bytes.length < p.1 + p.2.size)) = some (start, w) ∧
      reader ⟨bytes, buffer.length⟩ =
        .error (.truncated start w.size bytes.length) ⟨bytes, start⟩

namespace Follows

theorem pure (value : β) : Follows (Pure.pure value) [] value := by
  refine ⟨fun _ _ _ => rfl, ?_⟩
  intro buffer bytes hfrom _ hlength
  have := hfrom.length_le
  rw [List.foldl_nil] at hlength
  omega

theorem bind {x : Reader β} {f : β → Reader γ} {ws ws' : List Word} {b : β} {c : γ}
    (hx : Follows x ws b) (hf : Follows (f b) ws' c) : Follows (x >>= f) (ws ++ ws') c := by
  constructor
  · intro buffer bytes hall
    rw [List.foldl_append] at hall ⊢
    have hfirst := hx.whole buffer bytes ((Word.prefix_foldl _ ws').trans hall)
    simp only [Bind.bind, EStateM.bind, hfirst]
    exact hf.whole _ bytes hall
  · intro buffer bytes hfrom hto hlength
    rw [List.foldl_append] at hto hlength
    rw [Word.starts_append, List.find?_append]
    by_cases hmid : bytes.length < (ws.foldl Word.append buffer).length
    · -- cut off inside the words of the first reader
      have hto' : bytes <+: ws.foldl Word.append buffer :=
        List.prefix_of_prefix_length_le hto (Word.prefix_foldl _ ws') (Nat.le_of_lt hmid)
      obtain ⟨start, w, hfind, hrun⟩ := hx.cut buffer bytes hfrom hto' hmid
      refine ⟨start, w, by rw [hfind, Option.some_or], ?_⟩
      simp only [Bind.bind, EStateM.bind, hrun]
    · have hfrom' : ws.foldl Word.append buffer <+: bytes :=
        List.prefix_of_prefix_length_le (Word.prefix_foldl _ ws') hto (Nat.not_lt.mp hmid)
      obtain ⟨start, w, hfind, hrun⟩ := hf.cut _ bytes hfrom' hto hlength
      have hnone := Word.find?_inside buffer hfrom'
      refine ⟨start, w, by rw [hnone, Option.none_or, hfind], ?_⟩
      simp only [Bind.bind, EStateM.bind, hx.whole buffer bytes hfrom']
      exact hrun

theorem map {x : Reader β} {ws : List Word} {b : β} (hx : Follows x ws b) (g : β → γ) :
    Follows (x >>= fun b => Pure.pure (g b)) ws (g b) := by
  have h := hx.bind (f := fun b => Pure.pure (g b)) (.pure (g b))
  rwa [List.append_nil] at h

theorem word {w : Word} {g : List UInt8 → β} {size : Nat} (hsize : w.size = size) :
    Follows (Reader.word size >>= fun bytes => Pure.pure (g bytes)) [w] (g w.bytes) := by
  subst hsize
  constructor
  · intro buffer bytes hall
    have hmem : (alignUp buffer.length w.size, w) ∈ Word.starts buffer.length [w] :=
      List.mem_cons_self ..
    obtain ⟨_, hle, hbytes⟩ := Word.mem_starts buffer hmem
    rw [← bytesAt_mono hall hle] at hbytes
    rw [List.foldl_cons, List.foldl_nil] at hall ⊢
    have hlength := hall.length_le
    rw [Word.length_append] at hlength
    simp only [Bind.bind, EStateM.bind, Reader.word, if_pos hlength]
    rw [Word.length_append, ← hbytes]
    rfl
  · intro buffer bytes _ _ hlength
    rw [List.foldl_cons, List.foldl_nil, Word.length_append] at hlength
    refine ⟨alignUp buffer.length w.size, w, ?_, ?_⟩
    · rw [Word.starts, List.find?_cons_of_pos (by simpa using hlength)]
    · simp only [Bind.bind, EStateM.bind, Reader.word, if_neg (Nat.not_le.mpr hlength)]

theorem int32 (v : Int32) : Follows Reader.int32 [.int32 v] v := by
  have h := word (w := .int32 v) (g := fun bytes => Int32.ofNat (ofLittleEndian bytes)) rfl
  rwa [int32_bytes] at h

theorem int64 (v : Int64) : Follows Reader.int64 [.int64 v] v := by
  have h := word (w := .int64 v) (g := fun bytes => Int64.ofNat (ofLittleEndian bytes)) rfl
  rwa [int64_bytes] at h

end Follows

/-! ## Fields -/

namespace Field

/-- What can be written without losing anything, and read back. -/
def Packable : Field → Prop
  | int32 _ | int64 _ | dimension none => True
  | dimension (some axis) => axis < 2 ^ 31
  | rect r => r.IsCoded
  | shape r => r.IsCoded ∧ r.rank ≤ maxTaskRank

/-- What has to be asked for to read the field back. -/
def kind : Field → FieldKind
  | int32 _ => .int32
  | int64 _ => .int64
  | dimension _ => .dimension
  | rect r => .rect r.rank
  | shape _ => .shape

end Field

theorem natOf?_dimensionCode {axis : Option Nat} (h : ∀ a ∈ axis, a < 2 ^ 31) :
    Reader.natOf? (dimensionCode axis) = axis := by
  cases axis with
  | none => rfl
  | some a =>
    have hint : (Int32.ofNat a).toInt = a := Int32.toInt_ofNat_of_lt (h a rfl)
    simp [dimensionCode, Reader.natOf?, hint]

theorem follows_dimension {axis : Option Nat} (h : ∀ a ∈ axis, a < 2 ^ 31) :
    Follows Reader.dimension [.int32 (dimensionCode axis)] axis := by
  have hread := (Follows.int32 (dimensionCode axis)).map Reader.natOf?
  rwa [natOf?_dimensionCode h] at hread

theorem follows_rank {n : Nat} (hpos : 0 < n) (hmax : n ≤ maxTaskRank) :
    Follows Reader.rank [.int32 (dimensionCode (some n))] n := by
  have hcode : Reader.natOf? (dimensionCode (some n)) = some n := by
    apply natOf?_dimensionCode
    rintro _ ⟨⟩
    have : maxTaskRank = 3 := rfl
    omega
  refine (Follows.int32 (dimensionCode (some n))).bind ?_
  rw [hcode]
  simp only [if_pos (And.intro hpos hmax)]
  exact .pure n

theorem follows_coordinates {p : Point} (h : ∀ c ∈ p, -2 ^ 63 ≤ c ∧ c < 2 ^ 63) :
    Follows (Reader.coordinates p.length) (p.map fun c => .int64 (Int64.ofInt c)) p := by
  induction p with
  | nil => exact .pure []
  | cons c p ih =>
    obtain ⟨hlo, hhi⟩ := h c (by simp)
    have hc : (Int64.ofInt c).toInt = c := Int64.toInt_ofInt_of_le hlo hhi
    have hrest := (ih fun d hd => h d (by simp [hd])).map ((Int64.ofInt c).toInt :: ·)
    rw [hc] at hrest
    have hread := (Follows.int64 (Int64.ofInt c)).bind
      (f := fun v => Reader.coordinates p.length >>= fun others => Pure.pure (v.toInt :: others))
      (by rw [hc]; exact hrest)
    exact hread

theorem follows_rect {r : Rect} (h : r.IsCoded) :
    Follows (Reader.rect r.rank) (coordinateWords r) r := by
  have hlo := follows_coordinates fun c hc => h c (List.mem_append_left _ hc)
  have hhi := follows_coordinates fun c hc => h c (List.mem_append_right _ hc)
  rw [Rect.lo, List.length_map] at hlo
  rw [Rect.hi, List.length_map] at hhi
  rw [coordinateWords, List.map_append]
  refine hlo.bind ?_
  rw [← List.append_nil (r.hi.map _)]
  refine hhi.bind ?_
  have hcorners : Rect.ofCorners (r.spans.map Span.lo) (r.spans.map Span.hi) = .ok r :=
    r.ofCorners_lo_hi
  rw [hcorners]
  exact .pure r

theorem follows_shape {r : Rect} (h : r.IsCoded) (hrank : r.rank ≤ maxTaskRank) :
    Follows Reader.shape (.int32 (dimensionCode (some r.rank)) :: coordinateWords r) r :=
  (follows_rank r.rank_pos hrank).bind (follows_rect h)

theorem follows_field {f : Field} (h : f.Packable) : Follows f.kind.read f.words f := by
  cases f with
  | int32 v => exact (Follows.int32 v).map Field.int32
  | int64 v => exact (Follows.int64 v).map Field.int64
  | dimension axis =>
    refine Follows.map (follows_dimension ?_) Field.dimension
    rintro a ⟨⟩
    exact h
  | rect r => exact (follows_rect h).map Field.rect
  | shape r => exact (follows_shape h.1 h.2).map Field.shape

/-! ## Rows of fields -/

theorem foldl_words (buffer : List UInt8) (fs : List Field) :
    fs.foldl Field.append buffer = (fs.flatMap Field.words).foldl Word.append buffer := by
  rw [List.foldl_flatMap]
  rfl

theorem encode_eq (fs : List Field) : encode fs = (fs.flatMap Field.words).foldl Word.append [] :=
  foldl_words [] fs

/-- The fields as they are written behind a buffer, each with the length that the buffer then has. -/
def written : List UInt8 → List Field → List (Except WireError Field × Nat)
  | _, [] => []
  | buffer, f :: fs => (.ok f, (f.append buffer).length) :: written (f.append buffer) fs

theorem trap?_kind (f : Field) : f.kind.trap? = none := by
  cases f with
  | rect r =>
    have hrank : r.rank * coordinateSize ≤ maxStoreRank * coordinateSize :=
      Nat.mul_le_mul_right _ r.rank_le
    have hmax : maxStoreRank * coordinateSize ≤ maxRowBytes := by decide
    exact if_pos (hrank.trans hmax)
  | int32 _ => rfl
  | int64 _ => rfl
  | dimension _ => rfl
  | shape _ => rfl

theorem readAll_ok {f g : Field} {kinds : List FieldKind} {c c' : Cursor}
    (h : f.kind.read c = .ok g c') :
    FieldKind.readAll (f.kind :: kinds) c =
      (FieldKind.readAll kinds c').map ((.ok g, c'.offset) :: ·) := by
  simp only [FieldKind.readAll, trap?_kind, h]

theorem readAll_error {f : Field} {kinds : List FieldKind} {c c' : Cursor} {e : WireError}
    (h : f.kind.read c = .error e c') :
    FieldKind.readAll (f.kind :: kinds) c =
      (FieldKind.readAll kinds c').map ((.error e, c'.offset) :: ·) := by
  simp only [FieldKind.readAll, trap?_kind, h]

theorem exists_readAll (fs : List Field) (c : Cursor) :
    ∃ answers, FieldKind.readAll (fs.map Field.kind) c = .ok answers := by
  induction fs generalizing c with
  | nil => exact ⟨[], rfl⟩
  | cons f fs ih =>
    rw [List.map_cons]
    cases hread : f.kind.read c with
    | ok g c' =>
      obtain ⟨answers, hrest⟩ := ih c'
      exact ⟨_, by rw [readAll_ok hread, hrest]; rfl⟩
    | error e c' =>
      obtain ⟨answers, hrest⟩ := ih c'
      exact ⟨_, by rw [readAll_error hread, hrest]; rfl⟩

/-- By induction on the fields: each leaves the cursor where the next one was written. -/
theorem readAll_whole {fs : List Field} (h : ∀ f ∈ fs, f.Packable) (buffer : List UInt8)
    {bytes : List UInt8}
    (hall : fs.foldl Field.append buffer <+: bytes) (kinds : List FieldKind) :
    FieldKind.readAll (fs.map Field.kind ++ kinds) ⟨bytes, buffer.length⟩ =
      (FieldKind.readAll kinds ⟨bytes, (fs.foldl Field.append buffer).length⟩).map
        (written buffer fs ++ ·) := by
  induction fs generalizing buffer with
  | nil =>
    simp only [List.map_nil, List.nil_append, List.foldl_nil, written]
    cases FieldKind.readAll kinds ⟨bytes, buffer.length⟩ <;> rfl
  | cons f fs ih =>
    have hfirst : f.append buffer <+: bytes := by
      refine List.IsPrefix.trans ?_ hall
      rw [List.foldl_cons, foldl_words]
      exact Word.prefix_foldl _ _
    have hread := (follows_field (h f (by simp))).whole buffer bytes hfirst
    rw [List.map_cons, List.cons_append, readAll_ok hread]
    have hrest := ih (fun g hg => h g (by simp [hg])) _ hall
    rw [show (f.words.foldl Word.append buffer).length = (f.append buffer).length from rfl, hrest,
      written, List.foldl_cons]
    cases FieldKind.readAll kinds ⟨bytes, (fs.foldl Field.append (f.append buffer)).length⟩ <;> rfl

/-- The field that the first word belongs to which is not all there, and what reading it reports. -/
theorem readAll_cut {fs : List Field} (h : ∀ f ∈ fs, f.Packable) (buffer : List UInt8)
    {bytes : List UInt8}
    (hfrom : buffer <+: bytes) (hto : bytes <+: fs.foldl Field.append buffer)
    (hlength : bytes.length < (fs.foldl Field.append buffer).length) :
    ∃ before f after start w, fs = before ++ f :: after ∧
      (Word.starts buffer.length (fs.flatMap Field.words)).find?
        (fun p => decide (bytes.length < p.1 + p.2.size)) = some (start, w) ∧
      (start, w) ∈ Word.starts (before.foldl Field.append buffer).length f.words ∧
      before.foldl Field.append buffer <+: bytes ∧
      f.kind.read ⟨bytes, (before.foldl Field.append buffer).length⟩ =
        .error (.truncated start w.size bytes.length) ⟨bytes, start⟩ := by
  induction fs generalizing buffer with
  | nil =>
    have := hfrom.length_le
    rw [List.foldl_nil] at hlength
    omega
  | cons f fs ih =>
    have hfollows := follows_field (h f (by simp))
    rw [List.flatMap_cons, Word.starts_append, List.find?_append]
    by_cases hmid : bytes.length < (f.append buffer).length
    · have hto' : bytes <+: f.append buffer := by
        refine List.prefix_of_prefix_length_le hto ?_ (Nat.le_of_lt hmid)
        rw [List.foldl_cons, foldl_words]
        exact Word.prefix_foldl _ _
      obtain ⟨start, w, hfind, hrun⟩ := hfollows.cut buffer bytes hfrom hto' hmid
      exact ⟨[], f, fs, start, w, rfl, by rw [hfind, Option.some_or], List.mem_of_find?_eq_some hfind,
        hfrom, hrun⟩
    · have hfrom' : f.append buffer <+: bytes := by
        refine List.prefix_of_prefix_length_le ?_ hto (Nat.not_lt.mp hmid)
        rw [List.foldl_cons, foldl_words]
        exact Word.prefix_foldl _ _
      obtain ⟨before, g, after, start, w, rfl, hfind, hmem, hbefore, hrun⟩ :=
        ih (fun g hg => h g (by simp [hg])) _ hfrom' hto hlength
      have hnone : ((Word.starts buffer.length f.words).find?
          fun p => decide (bytes.length < p.1 + p.2.size)) = none := Word.find?_inside buffer hfrom'
      exact ⟨f :: before, g, after, start, w, rfl, by rw [hnone, Option.none_or]; exact hfind, hmem,
        hbefore, hrun⟩

/-- Any row of fields is read back from what was written of it, whatever follows, and behind each field
the cursor stands where the buffer ended when the field had been written. Every word starts at a
multiple of its size, and all bytes between the words are zero. Where the bytes are cut off, the fields
are read up to the first word that is not all there; the field it belongs to reports where the word
would start, how many bytes it takes and how many bytes there are. -/
theorem read_in_lockstep (fs : List Field) (h : ∀ f ∈ fs, f.Packable) :
    (∀ suffix, FieldKind.readAll (fs.map Field.kind) (Cursor.start (encode fs ++ suffix)) =
      .ok (written [] fs)) ∧
    (∀ start w, (start, w) ∈ Word.starts 0 (fs.flatMap Field.words) →
      start % w.size = 0 ∧ bytesAt (encode fs) start w.size = w.bytes) ∧
    (∀ i, i < (encode fs).length →
      (∀ start w, (start, w) ∈ Word.starts 0 (fs.flatMap Field.words) →
        ¬(start ≤ i ∧ i < start + w.size)) → (encode fs)[i]? = some 0) ∧
    ∀ k, k < (encode fs).length → ∃ before f after start w later, fs = before ++ f :: after ∧
      (Word.starts 0 (fs.flatMap Field.words)).find? (fun p => decide (k < p.1 + p.2.size)) =
        some (start, w) ∧
      (start, w) ∈ Word.starts (encode before).length f.words ∧
      FieldKind.readAll (fs.map Field.kind) (Cursor.start ((encode fs).take k)) =
        .ok (written [] before ++ (.error (.truncated start w.size k), start) :: later) := by
  refine ⟨?_, ?_, ?_, ?_⟩
  · intro suffix
    have hread := readAll_whole h [] (List.prefix_append (encode fs) suffix) []
    rw [List.append_nil] at hread
    refine hread.trans ?_
    simp only [FieldKind.readAll, Except.map, List.append_nil]
  · intro start w hmem
    rw [encode_eq]
    obtain ⟨haligned, _, hbytes⟩ := Word.mem_starts [] hmem
    exact ⟨haligned, hbytes⟩
  · intro i hi hnone
    rw [encode_eq] at hi ⊢
    exact Word.zero_between [] (Nat.zero_le i) hi hnone
  · intro k hk
    have hlength : ((encode fs).take k).length = k := List.length_take_of_le (Nat.le_of_lt hk)
    have hto : (encode fs).take k <+: fs.foldl Field.append [] := List.take_prefix k _
    generalize (encode fs).take k = bytes at hlength hto ⊢
    subst hlength
    obtain ⟨before, f, after, start, w, rfl, hfind, hmem, hbefore, hrun⟩ :=
      readAll_cut h [] List.nil_prefix hto hk
    obtain ⟨later, hlater⟩ := exists_readAll after ⟨bytes, start⟩
    have hread := readAll_whole (fun g hg => h g (by simp [hg])) [] hbefore ((f :: after).map Field.kind)
    rw [List.map_cons, readAll_error hrun, hlater, ← List.map_cons, ← List.map_append] at hread
    exact ⟨before, f, after, start, w, later, rfl, hfind, hmem, hread⟩

/-- Two numbers, a missing axis, a shape and one more number; and the same cut off inside the highest
coordinate of the shape. -/
theorem read_in_lockstep_shape :
    let r : Rect := ⟨[⟨-2, 9⟩], by decide, by decide⟩
    let fs : List Field := [.int32 2, .int64 (-3), .dimension none, .shape r, .int32 7]
    (∀ f ∈ fs, f.Packable) ∧
    FieldKind.readAll [.int32, .int64, .dimension, .shape, .int32] (Cursor.start (encode fs ++ [5])) =
      .ok [(.ok (.int32 2), 4), (.ok (.int64 (-3)), 16), (.ok (.dimension none), 20),
        (.ok (.shape r), 40), (.ok (.int32 7), 44)] ∧
    bytesAt (encode fs) 8 8 = [0xfd, 0xff, 0xff, 0xff, 0xff, 0xff, 0xff, 0xff] ∧
    (encode fs)[6]? = some 0 ∧
    ∃ answers later, FieldKind.readAll [.int32, .int64, .dimension, .shape, .int32]
      (Cursor.start ((encode fs).take 35)) =
        .ok (answers ++ (.error (.truncated 32 8 35), 32) :: later) := by
  intro r fs
  have h : ∀ f ∈ fs, f.Packable := by
    have hcoded : r.IsCoded := by
      intro c hc
      have hmem : c = -2 ∨ c = 9 := by simpa [r, Rect.lo, Rect.hi] using hc
      omega
    simp only [fs, List.forall_mem_cons, List.not_mem_nil, false_implies, implies_true, and_true]
    exact ⟨trivial, trivial, trivial, ⟨hcoded, by decide⟩, trivial⟩
  obtain ⟨hwhole, hword, hgap, hcut⟩ := read_in_lockstep fs h
  have hstarts : Word.starts 0 (fs.flatMap Field.words) =
      [(0, .int32 2), (8, .int64 (-3)), (16, .int32 (-1)), (20, .int32 1), (24, .int64 (-2)),
        (32, .int64 9), (40, .int32 7)] := by decide
  rw [hstarts] at hword hgap hcut
  have hsix : ∀ start w, (start, w) ∈ [(0, Word.int32 2), (8, .int64 (-3)), (16, .int32 (-1)),
      (20, .int32 1), (24, .int64 (-2)), (32, .int64 9), (40, .int32 7)] →
        ¬(start ≤ 6 ∧ 6 < start + w.size) := by
    intro start w hmem
    simp only [List.mem_cons, Prod.mk.injEq, List.not_mem_nil, or_false] at hmem
    rcases hmem with ⟨rfl, rfl⟩ | ⟨rfl, rfl⟩ | ⟨rfl, rfl⟩ | ⟨rfl, rfl⟩ | ⟨rfl, rfl⟩ | ⟨rfl, rfl⟩ |
      ⟨rfl, rfl⟩ <;> simp [Word.size]
  have hwritten : written [] fs = [(.ok (.int32 2), 4), (.ok (.int64 (-3)), 16),
      (.ok (.dimension none), 20), (.ok (.shape r), 40), (.ok (.int32 7), 44)] := by decide
  obtain ⟨before, f, after, start, w, later, _, hfirst, _, hread⟩ := hcut 35 (by decide)
  obtain ⟨rfl, rfl⟩ : 32 = start ∧ .int64 9 = w := by simpa [Word.size] using hfirst
  exact ⟨h, (hwhole [5]).trans (by rw [hwritten]), (hword 8 (.int64 (-3)) (by decide)).2.trans (by decide),
    hgap 6 (by decide) hsix, _, later, hread⟩

end Wire

end GridFold

import GridFold.Proofs.Positions

/-!
# GridFold.Proofs.RoundTrip

The arguments of the task kinds and their bytes.

* `InverseUpToForm` — which values come back from their bytes, which bytes are those of a value, and what
  the bytes become if they are read and written again.
* `inverse_collapse`, `inverse_shape`, `inverse_radix` — the three kinds of arguments, from where their
  fields lie.
-/

namespace GridFold.Wire

section

variable {β : Type}

/-- Writing and reading undo each other, up to bytes in canonical form. -/
structure InverseUpToForm (encode : β → List UInt8) (decode : List UInt8 → Except WireError β)
    (read : Reader β) (IsCoded IsPlain : β → Prop) (LaidOut : List UInt8 → Prop)
    (canonical : List UInt8 → List UInt8) : Prop where
  /-- Exactly the plain values come back, whatever bytes follow. -/
  decode_encode : ∀ x suffix, IsCoded x → (decode (encode x ++ suffix) = .ok x ↔ IsPlain x)
  /-- Exactly the buffers laid out as a value can be read. -/
  decode_iff : ∀ bytes, (∃ x, decode bytes = .ok x) ↔ LaidOut bytes
  /-- What was read is written as the canonical form of the bytes that were read. -/
  encode_decode : ∀ bytes x, decode bytes = .ok x → encode x = canonical bytes ∧
    read (Cursor.start bytes) = .ok x ⟨bytes, (canonical bytes).length⟩ ∧
    (canonical bytes).length ≤ bytes.length
  /-- From these it is read again. -/
  decode_again : ∀ bytes x, decode bytes = .ok x → decode (encode x) = .ok x

/-- It is enough to know what the reader returns where it succeeds, and that it follows what was written of
the plain values. -/
theorem InverseUpToForm.of_read (fields : β → List Field) {read : Reader β} {IsCoded IsPlain : β → Prop}
    {LaidOut : List UInt8 → Prop} {canonical : List UInt8 → List UInt8}
    (hfollows : ∀ x, IsCoded x → IsPlain x → Follows read ((fields x).flatMap Field.words) x)
    (hread : ∀ bytes x c, read (Cursor.start bytes) = .ok x c → IsCoded x ∧ IsPlain x ∧ LaidOut bytes ∧
      encode (fields x) = canonical bytes ∧ c = ⟨bytes, (canonical bytes).length⟩ ∧
      (canonical bytes).length ≤ bytes.length)
    (hexists : ∀ bytes, LaidOut bytes → ∃ x c, read (Cursor.start bytes) = .ok x c) :
    InverseUpToForm (fun x => encode (fields x)) (decodeWith read) read IsCoded IsPlain LaidOut
      canonical := by
  have hwhole : ∀ x suffix, IsCoded x → IsPlain x →
      decodeWith read (encode (fields x) ++ suffix) = .ok x := by
    intro x suffix hcoded hplain
    have hall : ((fields x).flatMap Field.words).foldl Word.append [] <+: encode (fields x) ++ suffix := by
      rw [encode_eq]
      exact List.prefix_append _ suffix
    exact decodeWith_ok_iff.mpr ⟨_, (hfollows x hcoded hplain).whole [] _ hall⟩
  refine ⟨?_, ?_, ?_, ?_⟩
  · intro x suffix hcoded
    refine ⟨?_, hwhole x suffix hcoded⟩
    intro h
    obtain ⟨c, hc⟩ := decodeWith_ok_iff.mp h
    exact (hread _ x c hc).2.1
  · intro bytes
    constructor
    · rintro ⟨x, h⟩
      obtain ⟨c, hc⟩ := decodeWith_ok_iff.mp h
      exact (hread _ x c hc).2.2.1
    · intro h
      obtain ⟨x, c, hc⟩ := hexists bytes h
      exact ⟨x, decodeWith_ok_iff.mpr ⟨c, hc⟩⟩
  · intro bytes x h
    obtain ⟨c, hc⟩ := decodeWith_ok_iff.mp h
    obtain ⟨_, _, _, hencode, rfl, hle⟩ := hread _ x c hc
    exact ⟨hencode, hc, hle⟩
  · intro bytes x h
    obtain ⟨c, hc⟩ := decodeWith_ok_iff.mp h
    obtain ⟨hcoded, hplain, _⟩ := hread _ x c hc
    have hagain := hwhole x [] hcoded hplain
    rwa [List.append_nil] at hagain

end

variable {bytes : List UInt8} {c : Cursor}

/-! ## Shape arguments -/

namespace ShapeArgs

def IsCoded (a : ShapeArgs) : Prop := a.rect.IsCoded

/-- A reader can return the arguments. -/
def IsPlain (a : ShapeArgs) : Prop := a.rect.rank ≤ maxTaskRank

def LaidOut (bytes : List UInt8) : Prop := HasShape bytes 0 8

/-- The bytes up to the end of the rectangle, with zeros in the gap behind its rank. -/
def canonical (bytes : List UInt8) : List UInt8 :=
  bytesAt bytes 0 4 ++ List.replicate 4 0 ++ bytesAt bytes 8 (16 * rankAt bytes 0)

theorem length_canonical (h : LaidOut bytes) : (canonical bytes).length = 8 + 16 * rankAt bytes 0 := by
  rw [canonical, List.length_append, List.length_append, length_bytesAt h.rank_inside,
    length_bytesAt h.corners_inside, List.length_replicate]

theorem read_ok_iff {a : ShapeArgs} :
    read (Cursor.start bytes) = .ok a c ↔
      LaidOut bytes ∧ IsShape bytes 0 8 a.rect ∧ c = ⟨bytes, 8 + 16 * rankAt bytes 0⟩ := by
  simp only [read, Cursor.start, run_bind_eq_ok, run_pure_eq_ok,
    shape_ok_iff 0 8 rfl rfl]
  constructor
  · rintro ⟨_, _, ⟨hshape, hrect, rfl⟩, rfl, rfl⟩
    exact ⟨hshape, hrect, rfl⟩
  · rintro ⟨hshape, hrect, rfl⟩
    exact ⟨_, _, ⟨hshape, hrect, rfl⟩, rfl, rfl⟩

end ShapeArgs

theorem inverse_shape :
    InverseUpToForm ShapeArgs.encode ShapeArgs.decode ShapeArgs.read ShapeArgs.IsCoded ShapeArgs.IsPlain
      ShapeArgs.LaidOut ShapeArgs.canonical := by
  refine .of_read ShapeArgs.fields ?_ ?_ ?_
  · intro a hcoded hplain
    rw [ShapeArgs.fields, List.flatMap_singleton]
    exact (follows_shape hcoded hplain).map ShapeArgs.mk
  · intro bytes a c h
    obtain ⟨hlaid, hrect, rfl⟩ := ShapeArgs.read_ok_iff.mp h
    have hencode : encode a.fields = ShapeArgs.canonical bytes := append_shape 4 rfl rfl hlaid hrect
    rw [ShapeArgs.length_canonical hlaid]
    exact ⟨hrect.isCoded, hrect.rank_le hlaid, hlaid, hencode, rfl, hlaid.corners_inside⟩
  · intro bytes h
    obtain ⟨r, hr⟩ := h.exists_isShape
    exact ⟨⟨r⟩, _, ShapeArgs.read_ok_iff.mpr ⟨h, hr, rfl⟩⟩

/-! ## Radix arguments -/

namespace RadixArgs

def IsCoded (a : RadixArgs) : Prop := a.rect.IsCoded

structure IsPlain (a : RadixArgs) : Prop where
  extraDimOut : ∀ axis ∈ a.extraDimOut, axis < 2 ^ 31
  extraDimIn : ∀ axis ∈ a.extraDimIn, axis < 2 ^ 31
  rect : a.rect.rank ≤ maxTaskRank

def LaidOut (bytes : List UInt8) : Prop := HasShape bytes 12 16

/-- The bytes up to the end of the rectangle. There are no gaps. -/
def canonical (bytes : List UInt8) : List UInt8 :=
  bytesAt bytes 0 4 ++ canonicalDimension bytes 4 ++ canonicalDimension bytes 8 ++ bytesAt bytes 12 4 ++
    bytesAt bytes 16 (16 * rankAt bytes 12)

theorem length_canonical (h : LaidOut bytes) : (canonical bytes).length = 16 + 16 * rankAt bytes 12 := by
  have hinside : 12 + 4 ≤ bytes.length := h.rank_inside
  simp only [canonical, List.length_append]
  rw [length_bytesAt (by omega), length_canonicalDimension (by omega),
    length_canonicalDimension (by omega), length_bytesAt hinside, length_bytesAt h.corners_inside]

theorem encode_eq_canonical {rect : Rect} (h : LaidOut bytes) (hr : IsShape bytes 12 16 rect) :
    encode ⟨int32At bytes 0, Reader.natOf? (int32At bytes 4), Reader.natOf? (int32At bytes 8), rect⟩ =
      canonical bytes := by
  have hinside : 12 + 4 ≤ bytes.length := h.rank_inside
  have hradix : (bytesAt bytes 0 4).length = 4 := length_bytesAt (by omega)
  have hout : (canonicalDimension bytes 4).length = 4 := length_canonicalDimension (by omega)
  have hin : (canonicalDimension bytes 8).length = 4 := length_canonicalDimension (by omega)
  have htwo : (bytesAt bytes 0 4 ++ canonicalDimension bytes 4).length = 8 := by
    rw [List.length_append, hradix, hout]
  have hthree : (bytesAt bytes 0 4 ++ canonicalDimension bytes 4 ++ canonicalDimension bytes 8).length =
      12 := by
    rw [List.length_append, htwo, hin]
  have happendOut : (Field.dimension (Reader.natOf? (int32At bytes 4))).append (bytesAt bytes 0 4) = _ :=
    append_dimension (by rw [hradix]) (by omega)
  simp only [encode, Wire.encode, fields, List.foldl_cons, List.foldl_nil]
  rw [append_int32 rfl (by omega), List.nil_append, happendOut,
    append_dimension (by rw [htwo]) (by omega),
    append_shape 0 (by rw [hthree]) (by rw [hthree]; rfl) h hr, List.replicate_zero, List.append_nil]
  rfl

theorem read_ok_iff {a : RadixArgs} :
    read (Cursor.start bytes) = .ok a c ↔
      LaidOut bytes ∧ a.radix = int32At bytes 0 ∧ a.extraDimOut = Reader.natOf? (int32At bytes 4) ∧
        a.extraDimIn = Reader.natOf? (int32At bytes 8) ∧ IsShape bytes 12 16 a.rect ∧
        c = ⟨bytes, 16 + 16 * rankAt bytes 12⟩ := by
  simp only [read, Cursor.start, run_bind_eq_ok, run_pure_eq_ok, int32_ok_iff 0 rfl]
  constructor
  · rintro ⟨_, _, ⟨_, rfl, rfl⟩, _, _, hout, _, _, hin, rect, _, hrect, rfl, rfl⟩
    obtain ⟨_, rfl, rfl⟩ := (dimension_ok_iff 4 rfl).mp hout
    obtain ⟨_, rfl, rfl⟩ := (dimension_ok_iff 8 rfl).mp hin
    obtain ⟨hshape, hr, rfl⟩ := (shape_ok_iff 12 16 rfl rfl).mp hrect
    exact ⟨hshape, rfl, rfl, rfl, hr, rfl⟩
  · obtain ⟨radix, extraDimOut, extraDimIn, rect⟩ := a
    rintro ⟨hshape, rfl, rfl, rfl, hr, rfl⟩
    have hinside : 12 + 4 ≤ bytes.length := hshape.rank_inside
    refine ⟨_, _, ⟨by omega, rfl, rfl⟩, _, _, (dimension_ok_iff 4 rfl).mpr ⟨by omega, rfl, rfl⟩, _, _,
      (dimension_ok_iff 8 rfl).mpr ⟨by omega, rfl, rfl⟩, rect, _,
      (shape_ok_iff 12 16 rfl rfl).mpr ⟨hshape, hr, rfl⟩, rfl, rfl⟩

end RadixArgs

theorem inverse_radix :
    InverseUpToForm RadixArgs.encode RadixArgs.decode RadixArgs.read RadixArgs.IsCoded RadixArgs.IsPlain
      RadixArgs.LaidOut RadixArgs.canonical := by
  refine .of_read RadixArgs.fields ?_ ?_ ?_
  · rintro ⟨radix, extraDimOut, extraDimIn, rect⟩ hcoded hplain
    have hout := follows_dimension hplain.extraDimOut
    have hin := follows_dimension hplain.extraDimIn
    have hrect := (follows_shape hcoded hplain.rect).map (RadixArgs.mk radix extraDimOut extraDimIn)
    simp only [RadixArgs.fields, List.flatMap_cons, List.flatMap_nil, List.append_nil]
    exact (Follows.int32 radix).bind (hout.bind (hin.bind hrect))
  · rintro bytes ⟨radix, extraDimOut, extraDimIn, rect⟩ c h
    obtain ⟨hlaid, rfl, rfl, rfl, hrect, rfl⟩ := RadixArgs.read_ok_iff.mp h
    have hencode := RadixArgs.encode_eq_canonical hlaid hrect
    rw [RadixArgs.length_canonical hlaid]
    exact ⟨hrect.isCoded, ⟨natOf?_lt, natOf?_lt, hrect.rank_le hlaid⟩, hlaid, hencode, rfl,
      hlaid.corners_inside⟩
  · intro bytes h
    obtain ⟨r, hr⟩ := h.exists_isShape
    exact ⟨⟨_, _, _, r⟩, _, RadixArgs.read_ok_iff.mpr ⟨h, rfl, rfl, rfl, hr, rfl⟩⟩

/-! ## Collapse arguments -/

namespace CollapseArgs

structure IsCoded (a : CollapseArgs) : Prop where
  initRect : a.initRect.IsCoded
  inRect : a.inRect.IsCoded

structure IsPlain (a : CollapseArgs) : Prop where
  axis : a.axis < 2 ^ 31
  collapseDim : ∀ axis ∈ a.collapseDim, axis < 2 ^ 31
  initRect : a.initRect.rank ≤ maxTaskRank
  inRect : a.inRect.rank ≤ maxTaskRank

/-- Where the first rectangle ends and the rank of the second one lies. -/
def second (bytes : List UInt8) : Nat := 16 + 16 * rankAt bytes 8

structure LaidOut (bytes : List UInt8) : Prop where
  axis : 0 ≤ (int32At bytes 0).toInt
  initRect : HasShape bytes 8 16
  inRect : HasShape bytes (second bytes) (second bytes + 8)

/-- The bytes up to the end of the second rectangle, with zeros in the gaps behind the ranks. -/
def canonical (bytes : List UInt8) : List UInt8 :=
  bytesAt bytes 0 4 ++ canonicalDimension bytes 4 ++
    (bytesAt bytes 8 4 ++ List.replicate 4 0 ++ bytesAt bytes 16 (16 * rankAt bytes 8)) ++
    (bytesAt bytes (second bytes) 4 ++ List.replicate 4 0 ++
      bytesAt bytes (second bytes + 8) (16 * rankAt bytes (second bytes)))

theorem second_mod (bytes : List UInt8) : second bytes % 4 = 0 := by
  unfold second
  omega

theorem alignUp_second (bytes : List UInt8) : alignUp (second bytes + 4) 8 = second bytes + 8 := by
  have hmod : (second bytes + 4) % 8 = 4 := by
    unfold second
    omega
  rw [alignUp, hmod]
  rfl

theorem length_canonical (h : LaidOut bytes) :
    (canonical bytes).length = second bytes + 8 + 16 * rankAt bytes (second bytes) := by
  have hinside : 8 + 4 ≤ bytes.length := h.initRect.rank_inside
  simp only [canonical, List.length_append, List.length_replicate]
  rw [length_bytesAt (by omega), length_canonicalDimension (by omega), length_bytesAt hinside,
    length_bytesAt h.initRect.corners_inside, length_bytesAt h.inRect.rank_inside,
    length_bytesAt h.inRect.corners_inside]
  unfold second
  omega

theorem encode_eq_canonical {initRect inRect : Rect} (h : LaidOut bytes)
    (hinit : IsShape bytes 8 16 initRect)
    (hin : IsShape bytes (second bytes) (second bytes + 8) inRect) :
    encode ⟨(int32At bytes 0).toInt.toNat, Reader.natOf? (int32At bytes 4), initRect, inRect⟩ =
      canonical bytes := by
  have hinside : 8 + 4 ≤ bytes.length := h.initRect.rank_inside
  have haxis : (bytesAt bytes 0 4).length = 4 := length_bytesAt (by omega)
  have hdim : (canonicalDimension bytes 4).length = 4 := length_canonicalDimension (by omega)
  have hsecond : (bytesAt bytes 0 4 ++ canonicalDimension bytes 4 ++ bytesAt bytes 8 4 ++
      List.replicate 4 0 ++ bytesAt bytes 16 (16 * rankAt bytes 8)).length = second bytes := by
    simp only [List.length_append, List.length_replicate]
    rw [haxis, hdim, length_bytesAt hinside, length_bytesAt h.initRect.corners_inside]
    rfl
  simp only [encode, Wire.encode, fields, List.foldl_cons, List.foldl_nil]
  rw [int32_ofNat_toNat h.axis, append_int32 rfl (by omega), List.nil_append,
    append_dimension (by rw [haxis]) (by omega),
    append_shape 4 (by simp [haxis, hdim]) (by simp [haxis, hdim]; rfl) h.initRect hinit,
    append_shape 4 (by rw [hsecond, second_mod]) (by rw [hsecond, alignUp_second]) h.inRect hin]
  simp only [canonical, List.append_assoc]

theorem read_ok_iff {a : CollapseArgs} :
    read (Cursor.start bytes) = .ok a c ↔
      LaidOut bytes ∧ a.axis = (int32At bytes 0).toInt.toNat ∧
        a.collapseDim = Reader.natOf? (int32At bytes 4) ∧ IsShape bytes 8 16 a.initRect ∧
        IsShape bytes (second bytes) (second bytes + 8) a.inRect ∧
        c = ⟨bytes, second bytes + 8 + 16 * rankAt bytes (second bytes)⟩ := by
  have hmod := second_mod bytes
  have hgap := alignUp_second bytes
  simp only [read, Cursor.start, run_bind_eq_ok, int32_ok_iff 0 rfl]
  constructor
  · rintro ⟨_, _, ⟨_, rfl, rfl⟩, h⟩
    cases haxis : Reader.natOf? (int32At bytes 0) with
    | none =>
      rw [haxis] at h
      exact (run_throw_eq_ok.mp h).elim
    | some axis =>
      simp only [haxis, run_bind_eq_ok, run_pure_eq_ok] at h
      obtain ⟨_, _, hdim, initRect, _, hinit, inRect, _, hin, rfl, rfl⟩ := h
      obtain ⟨hnonneg, rfl⟩ := natOf?_eq_some.mp haxis
      obtain ⟨_, rfl, rfl⟩ := (dimension_ok_iff 4 rfl).mp hdim
      obtain ⟨hfirst, hr, rfl⟩ := (shape_ok_iff 8 16 rfl rfl).mp hinit
      obtain ⟨hsecond, hr', rfl⟩ := (shape_ok_iff _ _ hmod hgap).mp hin
      exact ⟨⟨hnonneg, hfirst, hsecond⟩, rfl, rfl, hr, hr', rfl⟩
  · obtain ⟨axis, collapseDim, initRect, inRect⟩ := a
    rintro ⟨hlaid, rfl, rfl, hr, hr', rfl⟩
    have hinside : 8 + 4 ≤ bytes.length := hlaid.initRect.rank_inside
    refine ⟨_, _, ⟨by omega, rfl, rfl⟩, ?_⟩
    rw [natOf?_eq_some.mpr ⟨hlaid.axis, rfl⟩]
    simp only [run_bind_eq_ok, run_pure_eq_ok]
    exact ⟨_, _, (dimension_ok_iff 4 rfl).mpr ⟨by omega, rfl, rfl⟩, initRect, _,
      (shape_ok_iff 8 16 rfl rfl).mpr ⟨hlaid.initRect, hr, rfl⟩, inRect, _,
      (shape_ok_iff _ _ hmod hgap).mpr ⟨hlaid.inRect, hr', rfl⟩, rfl, rfl⟩

end CollapseArgs

theorem inverse_collapse :
    InverseUpToForm CollapseArgs.encode CollapseArgs.decode CollapseArgs.read CollapseArgs.IsCoded
      CollapseArgs.IsPlain CollapseArgs.LaidOut CollapseArgs.canonical := by
  refine .of_read CollapseArgs.fields ?_ ?_ ?_
  · rintro ⟨axis, collapseDim, initRect, inRect⟩ hcoded hplain
    have haxis : Reader.natOf? (dimensionCode (some axis)) = some axis := by
      apply natOf?_dimensionCode
      rintro _ ⟨⟩
      exact hplain.axis
    have hdim := follows_dimension hplain.collapseDim
    have hinit := follows_shape hcoded.initRect hplain.initRect
    have hin := (follows_shape hcoded.inRect hplain.inRect).map
      (CollapseArgs.mk axis collapseDim initRect)
    simp only [CollapseArgs.fields, List.flatMap_cons, List.flatMap_nil, List.append_nil]
    refine (Follows.int32 (dimensionCode (some axis))).bind ?_
    rw [haxis]
    exact hdim.bind (hinit.bind hin)
  · rintro bytes ⟨axis, collapseDim, initRect, inRect⟩ c h
    obtain ⟨hlaid, rfl, rfl, hinit, hin, rfl⟩ := CollapseArgs.read_ok_iff.mp h
    have hencode := CollapseArgs.encode_eq_canonical hlaid hinit hin
    rw [CollapseArgs.length_canonical hlaid]
    have haxis : (int32At bytes 0).toInt.toNat < 2 ^ 31 := by
      have hlt : (int32At bytes 0).toInt < 2 ^ 31 := Int32.toInt_lt _
      omega
    exact ⟨⟨hinit.isCoded, hin.isCoded⟩,
      ⟨haxis, natOf?_lt, hinit.rank_le hlaid.initRect, hin.rank_le hlaid.inRect⟩, hlaid, hencode, rfl,
      hlaid.inRect.corners_inside⟩
  · intro bytes h
    obtain ⟨r, hr⟩ := h.initRect.exists_isShape
    obtain ⟨r', hr'⟩ := h.inRect.exists_isShape
    exact ⟨⟨_, _, r, r'⟩, _, CollapseArgs.read_ok_iff.mpr ⟨h, rfl, rfl, hr, hr', rfl⟩⟩

/-- The three kinds of arguments and their bytes. A value comes back from its bytes, whatever follows them,
exactly if every rectangle has the rank of a task array and every axis fits 31 bits. A buffer can be read
exactly if all fields lie in it, each where the ones before it put it, every rank is that of a task array
and the axis to fold is not negative. What was read is written back as the bytes it was read from, with
zeros in the gaps and with the number that is written for a missing axis wherever a negative one stood;
reading these gives the same value. -/
theorem inverse_up_to_form :
    InverseUpToForm CollapseArgs.encode CollapseArgs.decode CollapseArgs.read CollapseArgs.IsCoded
      CollapseArgs.IsPlain CollapseArgs.LaidOut CollapseArgs.canonical ∧
    InverseUpToForm ShapeArgs.encode ShapeArgs.decode ShapeArgs.read ShapeArgs.IsCoded ShapeArgs.IsPlain
      ShapeArgs.LaidOut ShapeArgs.canonical ∧
    InverseUpToForm RadixArgs.encode RadixArgs.decode RadixArgs.read RadixArgs.IsCoded RadixArgs.IsPlain
      RadixArgs.LaidOut RadixArgs.canonical :=
  ⟨inverse_collapse, inverse_shape, inverse_radix⟩

/-- Collapse arguments with the axis -7, with junk in both gaps and behind them and with an empty rectangle;
and an axis of 32 bits that does not come back. -/
theorem inverse_up_to_form_junk :
    let corner : Int → List UInt8 := fun c => (Word.int64 (Int64.ofInt c)).bytes
    let bytes := fun (axis gap : UInt8) =>
      [1, 0, 0, 0, axis, 0xff, 0xff, 0xff, 1, 0, 0, 0, gap, gap, gap, gap] ++
        corner 3 ++ corner (-2) ++ [1, 0, 0, 0, gap, gap, gap, gap] ++ corner 0 ++ corner 4
    let line : Rect := ⟨[⟨0, 4⟩], by decide, by decide⟩
    let args : CollapseArgs := ⟨1, none, ⟨[⟨3, -2⟩], by decide, by decide⟩, line⟩
    let far : RadixArgs := ⟨-1, some (2 ^ 31), none, line⟩
    CollapseArgs.decode (bytes 0xf9 8 ++ [7]) = .ok args ∧ args.encode = bytes 0xff 0 ∧
      CollapseArgs.decode args.encode = .ok args ∧ far.IsCoded ∧
      RadixArgs.decode (far.encode ++ [7]) ≠ .ok far := by
  intro corner bytes line args far
  obtain ⟨hcollapse, _, hradix⟩ := inverse_up_to_form
  have hdecode : CollapseArgs.decode (bytes 0xf9 8 ++ [7]) = .ok args := by decide
  have hcoded : far.IsCoded := by
    intro c hc
    have hmem : c = 0 ∨ c = 4 := by simpa [far, line, Rect.lo, Rect.hi] using hc
    omega
  refine ⟨hdecode, ?_, hcollapse.decode_again _ _ hdecode, hcoded, ?_⟩
  · rw [(hcollapse.encode_decode _ _ hdecode).1]
    decide
  · intro h
    have hplain := (hradix.decode_encode far [7] hcoded).mp h
    have hlt : 2 ^ 31 < 2 ^ 31 := hplain.extraDimOut (2 ^ 31) rfl
    omega

end GridFold.Wire

import GridFold.Proofs.Decoding

/-!
# GridFold.Proofs.Words

Words in a buffer.

* `int32_bytes`, `int64_bytes` — the bytes of a word read as a number are the word, and
  `bytes_int32`, `bytes_int64` the other way round.
* `Word.starts` — where words lie that are written one after the other: each at the first multiple of
  its size behind the one before it (`mem_starts`), and what no word lies on is zero (`zero_between`).
-/

namespace GridFold.Wire

/-! ## Bytes and numbers -/

theorem littleEndian_ofLittleEndian (bytes : List UInt8) :
    littleEndian bytes.length (ofLittleEndian bytes) = bytes := by
  induction bytes with
  | nil => rfl
  | cons b bytes ih =>
    have hb : b.toNat < 256 := b.toNat_lt
    have hdiv : (b.toNat + 256 * ofLittleEndian bytes) / 256 = ofLittleEndian bytes := by omega
    have hhead : UInt8.ofNat (b.toNat + 256 * ofLittleEndian bytes) = b := by
      apply UInt8.toNat_inj.mp
      rw [UInt8.toNat_ofNat']
      omega
    rw [List.length_cons, ofLittleEndian, littleEndian, hdiv, ih, hhead]

theorem ofLittleEndian_lt (bytes : List UInt8) : ofLittleEndian bytes < 256 ^ bytes.length := by
  induction bytes with
  | nil => decide
  | cons b bytes ih =>
    have hb : b.toNat < 256 := b.toNat_lt
    rw [ofLittleEndian, List.length_cons, Nat.pow_succ]
    omega

theorem int32_bytes (v : Int32) : Int32.ofNat (ofLittleEndian (Word.int32 v).bytes) = v := by
  have hlt : v.toUInt32.toNat < 256 ^ 4 := v.toUInt32.toNat_lt
  rw [Word.bytes, ofLittleEndian_littleEndian, Nat.mod_eq_of_lt hlt]
  apply Int32.toBitVec_inj.mp
  simp

theorem int64_bytes (v : Int64) : Int64.ofNat (ofLittleEndian (Word.int64 v).bytes) = v := by
  have hlt : v.toUInt64.toNat < 256 ^ 8 := v.toUInt64.toNat_lt
  rw [Word.bytes, ofLittleEndian_littleEndian, Nat.mod_eq_of_lt hlt]
  apply Int64.toBitVec_inj.mp
  simp

theorem bytes_int32 {bytes : List UInt8} (h : bytes.length = 4) :
    (Word.int32 (Int32.ofNat (ofLittleEndian bytes))).bytes = bytes := by
  have hlt := ofLittleEndian_lt bytes
  rw [h] at hlt
  have hnat : (Int32.ofNat (ofLittleEndian bytes)).toUInt32.toNat = ofLittleEndian bytes := by
    rw [Int32.toUInt32_ofNat', UInt32.toNat_ofNat_of_lt' hlt]
  rw [Word.bytes, hnat, ← h]
  exact littleEndian_ofLittleEndian bytes

theorem bytes_int64 {bytes : List UInt8} (h : bytes.length = 8) :
    (Word.int64 (Int64.ofNat (ofLittleEndian bytes))).bytes = bytes := by
  have hlt := ofLittleEndian_lt bytes
  rw [h] at hlt
  have hnat : (Int64.ofNat (ofLittleEndian bytes)).toUInt64.toNat = ofLittleEndian bytes := by
    rw [Int64.toUInt64_ofNat', UInt64.toNat_ofNat_of_lt' hlt]
  rw [Word.bytes, hnat, ← h]
  exact littleEndian_ofLittleEndian bytes

/-! ## Writing words -/

def bytesAt (bytes : List UInt8) (start size : Nat) : List UInt8 := (bytes.drop start).take size

theorem bytesAt_of_prefix {before word bytes : List UInt8} (h : before ++ word <+: bytes) :
    bytesAt bytes before.length word.length = word := by
  obtain ⟨rest, rfl⟩ := h
  rw [bytesAt, List.append_assoc, List.drop_left, List.take_left]

/-- What lies in a prefix of a buffer lies in the buffer. -/
theorem bytesAt_mono {bytes bytes' : List UInt8} {start size : Nat} (h : bytes <+: bytes')
    (hsize : start + size ≤ bytes.length) : bytesAt bytes' start size = bytesAt bytes start size := by
  obtain ⟨rest, rfl⟩ := h
  rw [bytesAt, bytesAt, List.drop_append_of_le_length (by omega),
    List.take_append_of_le_length (by rw [List.length_drop]; omega)]

namespace Word

theorem size_pos (w : Word) : 0 < w.size := by
  cases w <;> simp [size]

theorem length_bytes (w : Word) : w.bytes.length = w.size := by
  cases w <;> exact length_littleEndian _ _

theorem length_append (buffer : List UInt8) (w : Word) :
    (append buffer w).length = alignUp buffer.length w.size + w.size := by
  have := le_alignUp buffer.length w.size
  simp only [append, List.length_append, List.length_replicate, length_bytes]
  omega

theorem prefix_append (buffer : List UInt8) (w : Word) : buffer <+: append buffer w := by
  rw [append, List.append_assoc]
  exact List.prefix_append _ _

theorem prefix_foldl (buffer : List UInt8) (ws : List Word) : buffer <+: ws.foldl append buffer := by
  induction ws generalizing buffer with
  | nil => exact List.prefix_refl buffer
  | cons w ws ih => exact (prefix_append buffer w).trans (ih _)

/-- Where each word starts that is written, if the first may start at `offset`. -/
def starts : Nat → List Word → List (Nat × Word)
  | _, [] => []
  | offset, w :: ws =>
    (alignUp offset w.size, w) :: starts (alignUp offset w.size + w.size) ws

theorem starts_cons (buffer : List UInt8) (w : Word) (ws : List Word) :
    starts buffer.length (w :: ws) =
      (alignUp buffer.length w.size, w) :: starts (append buffer w).length ws := by
  rw [length_append, starts]

theorem starts_append (buffer : List UInt8) (ws ws' : List Word) :
    starts buffer.length (ws ++ ws') =
      starts buffer.length ws ++ starts (ws.foldl append buffer).length ws' := by
  induction ws generalizing buffer with
  | nil => rfl
  | cons w ws ih => rw [List.cons_append, starts_cons, starts_cons, ih, List.foldl_cons,
      List.cons_append]

/-- A word starts at a multiple of its size, and ends before what is written after it. -/
theorem mem_starts (buffer : List UInt8) {ws : List Word} {start : Nat} {w : Word}
    (h : (start, w) ∈ starts buffer.length ws) :
    start % w.size = 0 ∧ start + w.size ≤ (ws.foldl append buffer).length ∧
      bytesAt (ws.foldl append buffer) start w.size = w.bytes := by
  induction ws generalizing buffer with
  | nil => cases h
  | cons v ws ih =>
    rw [starts_cons] at h
    rcases List.mem_cons.mp h with heq | hmem
    · cases heq
      have hprefix : append buffer w <+: (w :: ws).foldl append buffer := prefix_foldl _ ws
      refine ⟨alignUp_mod _ w.size_pos, ?_, ?_⟩
      · rw [← length_append]
        exact hprefix.length_le
      · have hlength : (buffer ++ List.replicate (alignUp buffer.length w.size - buffer.length)
            (0 : UInt8)).length = alignUp buffer.length w.size := by
          have := le_alignUp buffer.length w.size
          simp only [List.length_append, List.length_replicate]
          omega
        have hbytes := bytesAt_of_prefix hprefix
        rwa [hlength, length_bytes] at hbytes
    · exact ih _ hmem

theorem find?_inside (buffer : List UInt8) {bytes : List UInt8} {ws : List Word}
    (h : ws.foldl append buffer <+: bytes) :
    (starts buffer.length ws).find? (fun p => decide (bytes.length < p.1 + p.2.size)) = none := by
  rw [List.find?_eq_none]
  rintro ⟨start, w⟩ hmem hout
  have hend := (mem_starts buffer hmem).2.1
  have hlength := h.length_le
  have hcut : bytes.length < start + w.size := of_decide_eq_true hout
  omega

/-- Only zeros are written between the words. -/
theorem zero_between (buffer : List UInt8) {ws : List Word} {i : Nat} (hfrom : buffer.length ≤ i)
    (hto : i < (ws.foldl append buffer).length)
    (h : ∀ start w, (start, w) ∈ starts buffer.length ws → ¬(start ≤ i ∧ i < start + w.size)) :
    (ws.foldl append buffer)[i]? = some 0 := by
  induction ws generalizing buffer with
  | nil =>
    rw [List.foldl_nil] at hto
    omega
  | cons w ws ih =>
    rw [starts_cons] at h
    by_cases hi : (append buffer w).length ≤ i
    · exact ih _ hi hto fun start v hmem => h start v (List.mem_cons_of_mem _ hmem)
    · -- the byte lies in front of the word, among those that align it
      have hgap := h _ w (List.mem_cons_self ..)
      rw [length_append] at hi
      have hprefix : buffer ++ List.replicate (alignUp buffer.length w.size - buffer.length) 0 <+:
          (w :: ws).foldl append buffer :=
        (List.prefix_append _ w.bytes).trans (prefix_foldl (append buffer w) ws)
      obtain ⟨rest, hrest⟩ := hprefix
      rw [← hrest, List.append_assoc, List.getElem?_append_right hfrom,
        List.getElem?_append_left (by rw [List.length_replicate]; omega), List.getElem?_replicate,
        if_pos (by omega)]

end Word

end GridFold.Wire

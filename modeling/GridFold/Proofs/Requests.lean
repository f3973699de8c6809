import GridFold.Proofs.Positions

/-!
# GridFold.Proofs.Requests

The words that readers ask for, and where the cursor goes when some of them are not there.

* `Request` — a word that is asked for. The cursor ends behind it where it is there, and at its start
  where it is not.
* `FieldKind.requests` — the words that a field asks for, one after the other up to the first one that is
  not there; `asks_read` says that reading the field does nothing else to the cursor.
* `row_moves_on` — over a row of fields, read on after failures, the cursor only moves on, and does not find
  its way back to words as long as one that was not there.
-/

namespace GridFold.Wire

variable {β γ : Type}

/-! ## Requests -/

/-- A word of `size` bytes, asked for while the cursor stands at `offset`. -/
structure Request where
  offset : Nat
  size : Nat
  deriving DecidableEq

namespace Request

def start (q : Request) : Nat := alignUp q.offset q.size

/-- A buffer of `length` bytes has all of the word. -/
def Found (length : Nat) (q : Request) : Prop := q.start + q.size ≤ length

instance (length : Nat) (q : Request) : Decidable (q.Found length) :=
  inferInstanceAs (Decidable (_ ≤ _))

def stop (length : Nat) (q : Request) : Nat :=
  if q.Found length then q.start + q.size else q.start

end Request

/-- Words of these sizes, asked for one after the other until one is not there. -/
def ask (length : Nat) : Nat → List Nat → List Request
  | _, [] => []
  | offset, size :: sizes =>
    let q : Request := ⟨offset, size⟩
    q :: if q.Found length then ask length (q.stop length) sizes else []

def stopAfter (length offset : Nat) (log : List Request) : Nat :=
  log.foldl (fun _ q => q.stop length) offset

/-- The first word is asked for at `offset`, and every other one where the cursor stood after the one
before it. -/
def Chained (length : Nat) : Nat → List Request → Prop
  | _, [] => True
  | offset, q :: log => q.offset = offset ∧ Chained length (q.stop length) log

section Ask

variable {length offset : Nat} {q : Request}

theorem Request.offset_le_start (q : Request) : q.offset ≤ q.start := le_alignUp _ _

theorem Request.start_le_stop (q : Request) : q.start ≤ q.stop length := by
  unfold stop
  split <;> omega

theorem Request.stop_of_missing (h : ¬ q.Found length) : q.stop length = q.start := if_neg h

theorem stopAfter_append (log log' : List Request) :
    stopAfter length offset (log ++ log') = stopAfter length (stopAfter length offset log) log' :=
  List.foldl_append

theorem chained_append {log log' : List Request} :
    Chained length offset (log ++ log') ↔
      Chained length offset log ∧ Chained length (stopAfter length offset log) log' := by
  induction log generalizing offset with
  | nil => simp [Chained, stopAfter]
  | cons p log ih => simp only [List.cons_append, Chained, ih, and_assoc, stopAfter, List.foldl_cons]

theorem chained_ask (length offset : Nat) (sizes : List Nat) :
    Chained length offset (ask length offset sizes) := by
  induction sizes generalizing offset with
  | nil => trivial
  | cons size sizes ih =>
    refine ⟨rfl, ?_⟩
    split
    · exact ih _
    · trivial

theorem size_mem_of_ask {sizes : List Nat} (h : q ∈ ask length offset sizes) : q.size ∈ sizes := by
  induction sizes generalizing offset with
  | nil => cases h
  | cons size sizes ih =>
    rcases List.mem_cons.mp h with rfl | h
    · exact List.mem_cons_self ..
    · split at h
      · exact List.mem_cons_of_mem _ (ih h)
      · cases h

theorem ask_append_found {sizes : List Nat} (h : ∀ q ∈ ask length offset sizes, q.Found length)
    (sizes' : List Nat) :
    ask length offset (sizes ++ sizes') = ask length offset sizes ++
      ask length (stopAfter length offset (ask length offset sizes)) sizes' := by
  induction sizes generalizing offset with
  | nil => rfl
  | cons size sizes ih =>
    obtain ⟨hfirst, hrest⟩ := List.forall_mem_cons.mp h
    rw [if_pos hfirst] at hrest
    rw [List.cons_append, ask, ask, if_pos hfirst, if_pos hfirst, ih hrest]
    rfl

theorem ask_append_missing {sizes : List Nat} (hq : q ∈ ask length offset sizes)
    (h : ¬ q.Found length) (sizes' : List Nat) :
    ask length offset (sizes ++ sizes') = ask length offset sizes := by
  induction sizes generalizing offset with
  | nil => cases hq
  | cons size sizes ih =>
    rw [List.cons_append, ask, ask]
    rcases List.mem_cons.mp hq with rfl | hq
    · rw [if_neg h, if_neg h]
    · split at hq
      · rename_i hfirst
        rw [if_pos hfirst, if_pos hfirst, ih hq]
      · cases hq

theorem stopAfter_missing {sizes : List Nat} (hq : q ∈ ask length offset sizes)
    (h : ¬ q.Found length) : stopAfter length offset (ask length offset sizes) = q.start := by
  induction sizes generalizing offset with
  | nil => cases hq
  | cons size sizes ih =>
    rw [ask, stopAfter, List.foldl_cons]
    rcases List.mem_cons.mp hq with rfl | hq
    · rw [if_neg h]
      exact Request.stop_of_missing h
    · split at hq
      · rename_i hfirst
        rw [if_pos hfirst]
        exact ih hq
      · cases hq

theorem alignUp_le {size bound : Nat} (hsize : 0 < size) (hbound : bound % size = 0)
    (h : offset ≤ bound) : alignUp offset size ≤ bound := by
  unfold alignUp
  split
  · exact h
  · rename_i hmod
    have hlt : offset / size < bound / size := by
      rw [Nat.div_lt_iff_lt_mul hsize, Nat.div_mul_cancel (Nat.dvd_of_mod_eq_zero hbound)]
      rcases Nat.eq_or_lt_of_le h with rfl | h
      · exact absurd hbound hmod
      · exact h
    have hmul : size * (offset / size + 1) ≤ size * (bound / size) := Nat.mul_le_mul_left size hlt
    have hoffset := Nat.div_add_mod offset size
    have hdiv := Nat.div_add_mod bound size
    rw [Nat.mul_add] at hmul
    omega

/-- Words of four and eight bytes lead no further than to the first multiple of eight behind the
buffer. -/
theorem Request.stop_le (hsize : q.size = 4 ∨ q.size = 8) (h : q.offset ≤ alignUp length 8) :
    q.stop length ≤ alignUp length 8 := by
  have hmod : alignUp length 8 % 8 = 0 := alignUp_mod length (by decide)
  unfold stop
  split
  · rename_i hfound
    exact Nat.le_trans hfound (le_alignUp length 8)
  · refine alignUp_le ?_ ?_ h
    · rcases hsize with h | h <;> omega
    · rcases hsize with h | h <;> rw [h] <;> omega

/-- A word as long as one that was not there is not there either, from where the cursor stood then on. -/
theorem Request.not_found_of_missing {p : Request} (hp : ¬ p.Found length) (hsize : p.size ≤ q.size)
    (h : p.stop length ≤ q.offset) : ¬ q.Found length := by
  have hstart := q.offset_le_start
  rw [Request.stop_of_missing hp] at h
  unfold Found at hp ⊢
  omega

theorem bounds_of_chained {log : List Request} (h : Chained length offset log)
    (hsizes : ∀ q ∈ log, q.size = 4 ∨ q.size = 8) (hoffset : offset ≤ alignUp length 8) :
    (∀ q ∈ log, q.stop length ≤ alignUp length 8) ∧
      offset ≤ stopAfter length offset log ∧ stopAfter length offset log ≤ alignUp length 8 := by
  -- each request passes the bound on the cursor on to the next one
  induction log generalizing offset with
  | nil => exact ⟨fun _ hq => (List.not_mem_nil hq).elim, Nat.le_refl _, hoffset⟩
  | cons p log ih =>
    obtain ⟨rfl, hrest⟩ := h
    obtain ⟨hsize, hsizes⟩ := List.forall_mem_cons.mp hsizes
    have hstop := Request.stop_le hsize hoffset
    have hon : p.offset ≤ p.stop length := Nat.le_trans p.offset_le_start p.start_le_stop
    obtain ⟨hlater, hfrom, hto⟩ := ih hrest hsizes hstop
    exact ⟨List.forall_mem_cons.mpr ⟨hstop, hlater⟩, Nat.le_trans hon hfrom, hto⟩

theorem offset_le_of_chained {log : List Request} (h : Chained length offset log) :
    ∀ q ∈ log, offset ≤ q.offset := by
  induction log generalizing offset with
  | nil =>
    intro q hq
    cases hq
  | cons p log ih =>
    obtain ⟨rfl, hrest⟩ := h
    intro q hq
    rcases List.mem_cons.mp hq with rfl | hq
    · exact Nat.le_refl _
    · exact Nat.le_trans p.offset_le_start (Nat.le_trans p.start_le_stop (ih hrest q hq))

theorem pairwise_of_chained {log : List Request} (h : Chained length offset log) :
    log.Pairwise fun p q => p.stop length ≤ q.offset := by
  induction log generalizing offset with
  | nil => exact .nil
  | cons p log ih => exact .cons (offset_le_of_chained h.2) (ih h.2)

end Ask

/-! ## Readers -/

/-- The run ends at the cursor, with a value or with a complaint other than that the buffer is too
short. -/
def Settles (result : EStateM.Result WireError Cursor β) (c : Cursor) : Prop :=
  (∃ b, result = .ok b c) ∨
    ∃ e, result = .error e c ∧ ∀ start size length, e ≠ .truncated start size length

/-- From the cursor on, the reader asks for words of these sizes. It reports the one that is not there,
and stops at its start; where all of them are there it stops behind them. -/
structure Asks (reader : Reader β) (sizes : List Nat) (c : Cursor) : Prop where
  missing : ∀ q ∈ ask c.bytes.length c.offset sizes, ¬ q.Found c.bytes.length →
    reader c = .error (.truncated q.start q.size c.bytes.length) ⟨c.bytes, q.start⟩
  found : (∀ q ∈ ask c.bytes.length c.offset sizes, q.Found c.bytes.length) →
    Settles (reader c)
      ⟨c.bytes, stopAfter c.bytes.length c.offset (ask c.bytes.length c.offset sizes)⟩

/-- The reader returns a value wherever its words are there. -/
structure Takes (reader : Reader β) (sizes : List Nat) : Prop where
  asks : ∀ c, Asks reader sizes c
  returns : ∀ c, (∀ q ∈ ask c.bytes.length c.offset sizes, q.Found c.bytes.length) →
    ∃ b c', reader c = .ok b c'

section Readers

variable {x : Reader β} {f : β → Reader γ} {sizes sizes' : List Nat} {c c' : Cursor}

theorem run_bind_of_ok {b : β} (h : x c = .ok b c') : (x >>= f) c = f b c' := by
  simp only [bind, EStateM.bind, h]

theorem run_bind_of_error {e : WireError} (h : x c = .error e c') : (x >>= f) c = .error e c' := by
  simp only [bind, EStateM.bind, h]

namespace Asks

theorem of_ok (hx : Asks x sizes c) {b : β} (h : x c = .ok b c') :
    (∀ q ∈ ask c.bytes.length c.offset sizes, q.Found c.bytes.length) ∧
      c' = ⟨c.bytes, stopAfter c.bytes.length c.offset (ask c.bytes.length c.offset sizes)⟩ := by
  have hfound : ∀ q ∈ ask c.bytes.length c.offset sizes, q.Found c.bytes.length := by
    intro q hq
    by_contra hmissing
    rw [hx.missing q hq hmissing] at h
    cases h
  refine ⟨hfound, ?_⟩
  rcases hx.found hfound with ⟨_, hok⟩ | ⟨_, herror, _⟩
  · rw [hok] at h
    cases h
    rfl
  · rw [herror] at h
    cases h

theorem of_settles {r : Reader β} (h : Settles (r c) c) : Asks r [] c where
  missing := fun _ hq => by cases hq
  found := fun _ => h

theorem bind_of_ok (hx : Asks x sizes c) {b : β} (h : x c = .ok b c') (hf : Asks (f b) sizes' c') :
    Asks (x >>= f) (sizes ++ sizes') c := by
  obtain ⟨hfound, rfl⟩ := hx.of_ok h
  constructor
  · intro q hq hmissing
    rw [ask_append_found hfound] at hq
    rcases List.mem_append.mp hq with hq | hq
    · exact absurd (hfound q hq) hmissing
    · rw [run_bind_of_ok h]
      exact hf.missing q hq hmissing
  · intro hall
    rw [ask_append_found hfound] at hall ⊢
    rw [run_bind_of_ok h, stopAfter_append]
    exact hf.found fun q hq => hall q (List.mem_append_right _ hq)

theorem bind_of_error (hx : Asks x sizes c) {e : WireError} (h : x c = .error e c') :
    Asks (x >>= f) sizes c := by
  constructor
  · intro q hq hmissing
    exact run_bind_of_error (hx.missing q hq hmissing)
  · intro hall
    rw [run_bind_of_error h]
    rcases hx.found hall with ⟨_, hok⟩ | ⟨e', herror, hother⟩
    · rw [hok] at h
      cases h
    · rw [herror] at h
      cases h
      exact .inr ⟨e, rfl, hother⟩

/-- What is done with the words afterwards may fail for another reason. -/
theorem bind_settled (hx : Asks x sizes c) (hf : ∀ b c', Settles (f b c') c') :
    Asks (x >>= f) sizes c := by
  cases h : x c with
  | ok b c' =>
    have hbind := hx.bind_of_ok h (.of_settles (hf b c'))
    rwa [List.append_nil] at hbind
  | error e c' => exact hx.bind_of_error h

theorem map (hx : Asks x sizes c) (g : β → γ) : Asks (x >>= fun b => pure (g b)) sizes c :=
  hx.bind_settled fun b _ => .inl ⟨g b, rfl⟩

end Asks

namespace Takes

theorem word (size : Nat) : Takes (Reader.word size) [size] := by
  refine ⟨fun c => ⟨?_, ?_⟩, ?_⟩
  · intro q hq hmissing
    obtain rfl : q = ⟨c.offset, size⟩ := by
      simpa [ask] using hq
    exact if_neg hmissing
  · intro hall
    have hfound := hall ⟨c.offset, size⟩ (List.mem_cons_self ..)
    refine .inl ⟨bytesAt c.bytes (alignUp c.offset size) size, ?_⟩
    rw [ask, if_pos hfound]
    simp only [ask, stopAfter, List.foldl_cons, List.foldl_nil, Request.stop, if_pos hfound]
    exact if_pos hfound
  · intro c hall
    have hfound := hall ⟨c.offset, size⟩ (List.mem_cons_self ..)
    exact ⟨_, _, if_pos hfound⟩

theorem pure (b : β) : Takes (pure b) [] where
  asks := fun _ => .of_settles (.inl ⟨b, rfl⟩)
  returns := fun c _ => ⟨b, c, rfl⟩

theorem bind_asks (hx : Takes x sizes) (hf : ∀ b c', Asks (f b) sizes' c') (c : Cursor) :
    Asks (x >>= f) (sizes ++ sizes') c := by
  by_cases hall : ∀ q ∈ ask c.bytes.length c.offset sizes, q.Found c.bytes.length
  · obtain ⟨b, c', h⟩ := hx.returns c hall
    exact (hx.asks c).bind_of_ok h (hf b c')
  · simp only [not_forall, exists_prop] at hall
    obtain ⟨q, hq, hmissing⟩ := hall
    have herror := (hx.asks c).bind_of_error (f := f) ((hx.asks c).missing q hq hmissing)
    constructor
    · rw [ask_append_missing hq hmissing]
      exact herror.missing
    · rw [ask_append_missing hq hmissing]
      exact herror.found

theorem bind (hx : Takes x sizes) (hf : ∀ b, Takes (f b) sizes') : Takes (x >>= f) (sizes ++ sizes') := by
  refine ⟨hx.bind_asks fun b c' => (hf b).asks c', ?_⟩
  intro c hall
  have hfirst : ∀ q ∈ ask c.bytes.length c.offset sizes, q.Found c.bytes.length := by
    intro q hq
    by_contra hmissing
    rw [ask_append_missing hq hmissing] at hall
    exact hmissing (hall q hq)
  obtain ⟨b, c', h⟩ := hx.returns c hfirst
  obtain ⟨_, rfl⟩ := (hx.asks c).of_ok h
  rw [ask_append_found hfirst] at hall
  rw [run_bind_of_ok h]
  exact (hf b).returns _ fun q hq => hall q (List.mem_append_right _ hq)

theorem map (hx : Takes x sizes) (g : β → γ) : Takes (x >>= fun b => Pure.pure (g b)) sizes := by
  have h := hx.bind fun b => pure (g b)
  rwa [List.append_nil] at h

theorem int32 : Takes Reader.int32 [4] := (word 4).map _

theorem int64 : Takes Reader.int64 [8] := (word 8).map _

theorem coordinates (n : Nat) : Takes (Reader.coordinates n) (List.replicate n 8) := by
  induction n with
  | zero => exact pure []
  | succ n ih => exact int64.bind fun c => ih.map (c.toInt :: ·)

end Takes

theorem asks_rank (c : Cursor) : Asks Reader.rank [4] c := by
  refine (Takes.int32.asks c).bind_settled ?_
  intro raw c'
  have hother : ∀ start size length, WireError.unsupportedRank raw ≠ .truncated start size length := by
    intro _ _ _ h
    cases h
  cases Reader.natOf? raw with
  | none => exact .inr ⟨_, rfl, hother⟩
  | some n =>
    dsimp only
    split
    · exact .inl ⟨n, rfl⟩
    · exact .inr ⟨_, rfl, hother⟩

theorem asks_rect (n : Nat) (c : Cursor) :
    Asks (Reader.rect n) (List.replicate (n + n) 8) c := by
  rw [List.replicate_add]
  refine (Takes.coordinates n).bind_asks ?_ c
  intro lo c'
  refine ((Takes.coordinates n).asks c').bind_settled ?_
  intro hi _
  cases Rect.ofCorners lo hi with
  | ok r => exact .inl ⟨r, rfl⟩
  | error cause =>
    refine .inr ⟨_, rfl, ?_⟩
    intro _ _ _ h
    cases h

end Readers

/-! ## Numbers -/

/-- The number that the bytes are the two's complement of, the least significant byte first. -/
def signedNumber (bytes : List UInt8) : Int :=
  if 2 * ofLittleEndian bytes < 256 ^ bytes.length then ofLittleEndian bytes
  else ofLittleEndian bytes - 256 ^ bytes.length

/-- The reader takes a number of `size` bytes from where the cursor stands, aligned. It succeeds where all
of its bytes are there, and there alone. -/
structure TakesNumber (reader : Reader β) (size : Nat) (number : β → Int) : Prop where
  found : ∀ c, alignUp c.offset size + size ≤ c.bytes.length →
    ∃ b, reader c = .ok b ⟨c.bytes, alignUp c.offset size + size⟩ ∧
      number b = signedNumber (bytesAt c.bytes (alignUp c.offset size) size)
  missing : ∀ c, c.bytes.length < alignUp c.offset size + size →
    reader c = .error (.truncated (alignUp c.offset size) size c.bytes.length)
      ⟨c.bytes, alignUp c.offset size⟩

theorem takesNumber {number : β → Int} {size : Nat} {g : List UInt8 → β}
    (h : ∀ bytes, bytes.length = size → number (g bytes) = signedNumber bytes) :
    TakesNumber (Reader.word size >>= fun bytes => pure (g bytes)) size number where
  found := by
    intro c hfound
    have hword : Reader.word size c = .ok (bytesAt c.bytes (alignUp c.offset size) size)
      ⟨c.bytes, alignUp c.offset size + size⟩ := if_pos hfound
    exact ⟨_, run_bind_of_ok hword, h _ (length_bytesAt hfound)⟩
  missing := by
    intro c hmissing
    have hword : Reader.word size c = .error (.truncated (alignUp c.offset size) size c.bytes.length)
      ⟨c.bytes, alignUp c.offset size⟩ := if_neg (Nat.not_le.mpr hmissing)
    exact run_bind_of_error hword

theorem signedNumber_eq_bmod (bytes : List UInt8) :
    signedNumber bytes = (ofLittleEndian bytes : Int).bmod (256 ^ bytes.length) := by
  have hlt := ofLittleEndian_lt bytes
  have hpow : ((256 : Int) ^ bytes.length) = ((256 ^ bytes.length : Nat) : Int) := by
    push_cast
    rfl
  have hmod : (ofLittleEndian bytes : Int) % ((256 ^ bytes.length : Nat) : Int) = ofLittleEndian bytes :=
    Int.emod_eq_of_lt (by omega) (by omega)
  rw [signedNumber, Int.bmod_def, hmod, hpow]
  generalize 256 ^ bytes.length = range at hlt
  split <;> split <;> omega

theorem takesNumber_int32 : TakesNumber Reader.int32 4 Int32.toInt := by
  refine takesNumber ?_
  intro bytes hlength
  rw [Int32.toInt_ofNat', signedNumber_eq_bmod, hlength]
  rfl

theorem takesNumber_int64 : TakesNumber Reader.int64 8 Int64.toInt := by
  refine takesNumber ?_
  intro bytes hlength
  rw [Int64.toInt_ofNat', signedNumber_eq_bmod, hlength]
  rfl

/-! ## Fields -/

namespace FieldKind

/-- The sizes of the words that the field is made of. How many coordinates a shape has is read off the
buffer. -/
def sizes (k : FieldKind) (c : Cursor) : List Nat :=
  match k with
  | int32 | dimension | rank => [4]
  | int64 => [8]
  | rect n => List.replicate (n + n) 8
  | shape =>
    4 :: match Reader.rank c with
      | .ok n _ => List.replicate (n + n) 8
      | .error _ _ => []

/-- The words that are asked for when the field is read. -/
def requests (k : FieldKind) (c : Cursor) : List Request := ask c.bytes.length c.offset (k.sizes c)

def answer (k : FieldKind) (c : Cursor) : Except WireError Field :=
  match k.read c with
  | .ok f _ => .ok f
  | .error e _ => .error e

def after (k : FieldKind) (c : Cursor) : Cursor :=
  match k.read c with
  | .ok _ c' | .error _ c' => c'

/-- The answers to fields that are read one after the other, each with the offset it leaves. -/
def answers : List FieldKind → Cursor → List (Except WireError Field × Nat)
  | [], _ => []
  | k :: kinds, c => (k.answer c, (k.after c).offset) :: answers kinds (k.after c)

def requestsAll : List FieldKind → Cursor → List Request
  | [], _ => []
  | k :: kinds, c => k.requests c ++ requestsAll kinds (k.after c)

/-- What reading a field does to the cursor. A word that is not there is reported, and the cursor stands at
its start; no other word is reported. -/
structure MovesAsAsked (k : FieldKind) (c : Cursor) : Prop where
  after_eq : k.after c = ⟨c.bytes, stopAfter c.bytes.length c.offset (k.requests c)⟩
  missing : ∀ q ∈ k.requests c, ¬ q.Found c.bytes.length →
    k.answer c = .error (.truncated q.start q.size c.bytes.length) ∧ (k.after c).offset = q.start
  reported : ∀ {start size length}, k.answer c = .error (.truncated start size length) →
    length = c.bytes.length ∧ ∃ q ∈ k.requests c, ¬ q.Found length ∧ q.start = start ∧ q.size = size

theorem asks_shape (c : Cursor) : Asks Reader.shape (shape.sizes c) c := by
  cases h : Reader.rank c with
  | ok n c' =>
    have hsizes : shape.sizes c = [4] ++ List.replicate (n + n) 8 := by
      simp only [sizes, h, List.singleton_append]
    rw [hsizes]
    exact (asks_rank c).bind_of_ok h (asks_rect n c')
  | error e c' =>
    have hsizes : shape.sizes c = [4] := by
      simp only [sizes, h]
    rw [hsizes]
    exact (asks_rank c).bind_of_error h

theorem asks_read (k : FieldKind) (c : Cursor) : Asks k.read (k.sizes c) c := by
  cases k with
  | int32 => exact (Takes.int32.asks c).map Field.int32
  | int64 => exact (Takes.int64.asks c).map Field.int64
  | dimension => exact ((Takes.int32.map Reader.natOf?).asks c).map Field.dimension
  | rank => exact (asks_rank c).map fun r => Field.dimension (some r)
  | rect n => exact (asks_rect n c).map Field.rect
  | shape => exact (asks_shape c).map Field.shape

theorem movesAsAsked (k : FieldKind) (c : Cursor) : k.MovesAsAsked c := by
  have h := asks_read k c
  have hmissing : ∀ q ∈ k.requests c, ¬ q.Found c.bytes.length →
      k.answer c = .error (.truncated q.start q.size c.bytes.length) ∧
        k.after c = ⟨c.bytes, q.start⟩ := by
    intro q hq hq'
    have herror := h.missing q hq hq'
    exact ⟨by rw [answer, herror], by rw [after, herror]⟩
  by_cases hall : ∀ q ∈ k.requests c, q.Found c.bytes.length
  · have hnone : ∀ q ∈ k.requests c, ¬ q.Found c.bytes.length → False := fun q hq h => h (hall q hq)
    rcases h.found hall with ⟨f, hok⟩ | ⟨e, herror, hother⟩
    · refine ⟨by rw [after, hok]; rfl, fun q hq h => (hnone q hq h).elim, ?_⟩
      intro start size length hsame
      rw [answer, hok] at hsame
      cases hsame
    · refine ⟨by rw [after, herror]; rfl, fun q hq h => (hnone q hq h).elim, ?_⟩
      intro start size length hsame
      rw [answer, herror] at hsame
      exact (hother _ _ _ (Except.error.inj hsame)).elim
  · simp only [not_forall, exists_prop] at hall
    obtain ⟨q, hq, hq'⟩ := hall
    obtain ⟨hanswer, hafter⟩ := hmissing q hq hq'
    refine ⟨?_, fun q hq hq' => ⟨(hmissing q hq hq').1, by rw [(hmissing q hq hq').2]⟩, ?_⟩
    · rw [hafter, requests, stopAfter_missing hq hq']
    · intro start size length hsame
      cases hanswer.symm.trans hsame
      exact ⟨rfl, q, hq, hq', rfl, rfl⟩

/-! ## Rows of fields -/

/-- A row is read to its end, unless one of its rectangles traps. -/
theorem readAll_eq (kinds : List FieldKind) (c : Cursor) :
    readAll kinds c =
      match kinds.findSome? trap? with
      | some t => .error t
      | none => .ok (answers kinds c) := by
  induction kinds generalizing c with
  | nil => rfl
  | cons k kinds ih =>
    rw [List.findSome?_cons, readAll, answers, answer, after]
    cases k.trap? with
    | some t => rfl
    | none =>
      cases k.read c <;> simp only [ih] <;> cases kinds.findSome? trap? <;> rfl

theorem bytes_after (k : FieldKind) (c : Cursor) : (k.after c).bytes = c.bytes := by
  rw [(movesAsAsked k c).after_eq]

theorem offset_after (k : FieldKind) (c : Cursor) :
    (k.after c).offset = stopAfter c.bytes.length c.offset (k.requests c) := by
  rw [(movesAsAsked k c).after_eq]

theorem chained_requestsAll (kinds : List FieldKind) (c : Cursor) :
    Chained c.bytes.length c.offset (requestsAll kinds c) := by
  induction kinds generalizing c with
  | nil => trivial
  | cons k kinds ih =>
    have hrest := ih (k.after c)
    rw [bytes_after, offset_after] at hrest
    exact chained_append.mpr ⟨chained_ask _ _ _, hrest⟩

theorem size_of_requests {k : FieldKind} {c : Cursor} {q : Request} (h : q ∈ k.requests c) :
    q.size = 4 ∨ q.size = 8 := by
  have hmem : q.size ∈ k.sizes c := size_mem_of_ask h
  have hreplicate : ∀ n, q.size ∈ List.replicate n 8 → q.size = 8 := fun n h => List.eq_of_mem_replicate h
  cases k with
  | int32 => exact .inl (List.mem_singleton.mp hmem)
  | int64 => exact .inr (List.mem_singleton.mp hmem)
  | dimension => exact .inl (List.mem_singleton.mp hmem)
  | rank => exact .inl (List.mem_singleton.mp hmem)
  | rect n => exact .inr (hreplicate _ hmem)
  | shape =>
    rcases List.mem_cons.mp hmem with h | h
    · exact .inl h
    · split at h
      · exact .inr (hreplicate _ h)
      · cases h

theorem size_of_requestsAll {kinds : List FieldKind} {c : Cursor} {q : Request}
    (h : q ∈ requestsAll kinds c) : q.size = 4 ∨ q.size = 8 := by
  induction kinds generalizing c with
  | nil => cases h
  | cons k kinds ih =>
    rcases List.mem_append.mp h with h | h
    · exact size_of_requests h
    · exact ih h

theorem offset_after_bounds (k : FieldKind) {c : Cursor} (h : c.offset ≤ alignUp c.bytes.length 8) :
    c.offset ≤ (k.after c).offset ∧ (k.after c).offset ≤ alignUp c.bytes.length 8 := by
  rw [offset_after]
  exact (bounds_of_chained (chained_ask _ _ _) (fun _ => size_of_requests) h).2

theorem offsets_ascend (kinds : List FieldKind) {c : Cursor} (h : c.offset ≤ alignUp c.bytes.length 8) :
    (c.offset :: (answers kinds c).map Prod.snd).Pairwise (· ≤ ·) ∧
      ∀ offset ∈ (answers kinds c).map Prod.snd, offset ≤ alignUp c.bytes.length 8 := by
  induction kinds generalizing c with
  | nil => simp [answers]
  | cons k kinds ih =>
    obtain ⟨hfrom, hto⟩ := offset_after_bounds k h
    obtain ⟨hpairwise, hbound⟩ := ih (c := k.after c) (by rwa [bytes_after])
    rw [bytes_after] at hbound
    refine ⟨.cons ?_ hpairwise, List.forall_mem_cons.mpr ⟨hto, hbound⟩⟩
    intro offset hoffset
    rcases List.mem_cons.mp hoffset with rfl | hoffset
    · exact hfrom
    · exact Nat.le_trans hfrom ((List.pairwise_cons.mp hpairwise).1 offset hoffset)

end FieldKind

/-- Fields are read one after the other to the end of the row, also where some cannot be read. The offset
never goes back, and never beyond the first multiple of eight behind the buffer. Every word is asked for
where the cursor stood after the one before it; a word that is not there leaves the cursor at its start
and is reported by its field, and after it no word as long as it is there. A number is read where its bytes
are there, aligned, and there alone. -/
theorem row_moves_on (bytes : List UInt8) (kinds : List FieldKind) :
    let answers := FieldKind.answers kinds (Cursor.start bytes)
    let log := FieldKind.requestsAll kinds (Cursor.start bytes)
    FieldKind.readAll kinds (Cursor.start bytes) =
        (match kinds.findSome? FieldKind.trap? with
          | some t => .error t
          | none => .ok answers) ∧
      (0 :: answers.map Prod.snd).Pairwise (· ≤ ·) ∧
      (∀ offset ∈ answers.map Prod.snd, offset ≤ alignUp bytes.length 8) ∧
      Chained bytes.length 0 log ∧
      (∀ q ∈ log, q.offset ≤ q.start ∧ q.start ≤ q.stop bytes.length ∧
        q.stop bytes.length ≤ alignUp bytes.length 8) ∧
      log.Pairwise (fun p q =>
        ¬ p.Found bytes.length → p.size ≤ q.size → ¬ q.Found bytes.length) ∧
      (∀ (k : FieldKind) (c : Cursor), k.MovesAsAsked c) ∧
      TakesNumber Reader.int32 4 Int32.toInt ∧ TakesNumber Reader.int64 8 Int64.toInt := by
  intro answers log
  have hstart : (Cursor.start bytes).offset ≤ alignUp (Cursor.start bytes).bytes.length 8 := Nat.zero_le _
  have hchained : Chained bytes.length 0 log := FieldKind.chained_requestsAll kinds (Cursor.start bytes)
  obtain ⟨hascend, hbound⟩ := FieldKind.offsets_ascend kinds hstart
  obtain ⟨hstops, _⟩ := bounds_of_chained hchained (fun _ => FieldKind.size_of_requestsAll) (Nat.zero_le _)
  refine ⟨FieldKind.readAll_eq kinds _, hascend, hbound, hchained, ?_, ?_, FieldKind.movesAsAsked,
    takesNumber_int32, takesNumber_int64⟩
  · intro q hq
    exact ⟨q.offset_le_start, q.start_le_stop, hstops q hq⟩
  · refine (pairwise_of_chained hchained).imp ?_
    intro p q hstop hmissing hsize
    exact Request.not_found_of_missing hmissing hsize hstop

/-- Twelve bytes. The second number of eight bytes is not there, but one of four bytes is; the cursor then
passes the end of the buffer, where a rectangle and one more number find nothing. -/
theorem row_moves_on_short :
    let bytes : List UInt8 := [1, 0, 0, 0, 0, 0, 0, 0, 0xfe, 0xff, 0xff, 0xff]
    let kinds : List FieldKind := [.int64, .int64, .int32, .rect 1, .dimension]
    FieldKind.readAll kinds (Cursor.start bytes) =
        .ok [(.ok (.int64 1), 8), (.error (.truncated 8 8 12), 8), (.ok (.int32 (-2)), 12),
          (.error (.truncated 16 8 12), 16), (.error (.truncated 16 4 12), 16)] ∧
      (∀ offset ∈ [8, 8, 12, 16, 16], offset ≤ alignUp 12 8) ∧
      FieldKind.requestsAll kinds (Cursor.start bytes) = [⟨0, 8⟩, ⟨8, 8⟩, ⟨8, 4⟩, ⟨12, 8⟩, ⟨16, 4⟩] ∧
      Chained 12 0 [⟨0, 8⟩, ⟨8, 8⟩, ⟨8, 4⟩, ⟨12, 8⟩, ⟨16, 4⟩] := by
  intro bytes kinds
  obtain ⟨hall, _, hbound, hchained, _⟩ := row_moves_on bytes kinds
  have hanswers : FieldKind.answers kinds (Cursor.start bytes) =
      [(.ok (.int64 1), 8), (.error (.truncated 8 8 12), 8), (.ok (.int32 (-2)), 12),
        (.error (.truncated 16 8 12), 16), (.error (.truncated 16 4 12), 16)] := by decide
  have hlog : FieldKind.requestsAll kinds (Cursor.start bytes) =
      [⟨0, 8⟩, ⟨8, 8⟩, ⟨8, 4⟩, ⟨12, 8⟩, ⟨16, 4⟩] := by decide
  rw [hanswers] at hall hbound
  rw [hlog] at hchained
  exact ⟨hall, hbound, hlog, hchained⟩

end GridFold.Wire

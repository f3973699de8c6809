import GridFold.Rect.Axis

/-!
# GridFold.Wire.Bytes

The byte layout of task arguments. A buffer is a row of words of four or eight bytes, least
significant byte first. Every word starts at a multiple of its own size, counted from the start of
the buffer; the gap before it is filled with zeros.

* `Word.append` writes one word behind a buffer.
* `Cursor` and `Reader` read words one after the other. A read that fails leaves the cursor where
  the word would have started.
-/

namespace GridFold.Wire

/-- The lowest `n` bytes of a number, least significant first. -/
def littleEndian : Nat → Nat → List UInt8
  | 0, _ => []
  | n + 1, value => UInt8.ofNat value :: littleEndian n (value / 256)

def ofLittleEndian : List UInt8 → Nat
  | [] => 0
  | b :: bytes => b.toNat + 256 * ofLittleEndian bytes

/-- The first multiple of `size` that is not below `offset`. -/
def alignUp (offset size : Nat) : Nat :=
  if offset % size = 0 then offset else offset + (size - offset % size)

theorem length_littleEndian (n value : Nat) : (littleEndian n value).length = n := by
  induction n generalizing value with
  | zero => rfl
  | succ n ih => simp [littleEndian, ih]

theorem alignUp_mod (offset : Nat) {size : Nat} (h : 0 < size) : alignUp offset size % size = 0 := by
  unfold alignUp
  split
  · assumption
  · have := Nat.mod_lt offset h
    have hd := Nat.div_add_mod offset size
    have : offset + (size - offset % size) = size * (offset / size + 1) := by
      rw [Nat.mul_add]; omega
    rw [this]
    exact Nat.mul_mod_right _ _

theorem le_alignUp (offset size : Nat) : offset ≤ alignUp offset size := by
  unfold alignUp
  split <;> omega

inductive Word where
  | int32 (value : Int32)
  | int64 (value : Int64)
  deriving DecidableEq

namespace Word

def size : Word → Nat
  | int32 _ => 4
  | int64 _ => 8

/-- The bytes of the two's complement. -/
def bytes : Word → List UInt8
  | int32 value => littleEndian 4 value.toUInt32.toNat
  | int64 value => littleEndian 8 value.toUInt64.toNat

def append (buffer : List UInt8) (w : Word) : List UInt8 :=
  buffer ++ List.replicate (alignUp buffer.length w.size - buffer.length) 0 ++ w.bytes

end Word

inductive WireError where
  | truncated (offset needed length : Nat)
  | unsupportedRank (raw : Int32)
  | negativeAxis (raw : Int32)
  | rect (cause : GridError)
  deriving DecidableEq

def WireError.message : WireError → String
  | truncated offset needed length =>
    s!"argument buffer too short: need {needed} bytes at offset {offset}, have {length}"
  | unsupportedRank raw => s!"unsupported task rank {raw.toInt}"
  | negativeAxis raw => s!"invalid axis field {raw.toInt}"
  | rect cause => cause.message

structure Cursor where
  bytes : List UInt8
  offset : Nat

def Cursor.start (bytes : List UInt8) : Cursor := ⟨bytes, 0⟩

abbrev Reader := EStateM WireError Cursor

namespace Reader

/-- The bytes of the next word of the given size. -/
def word (size : Nat) : Reader (List UInt8) := fun c =>
  let start := alignUp c.offset size
  if start + size ≤ c.bytes.length then
    .ok ((c.bytes.drop start).take size) { c with offset := start + size }
  else .error (.truncated start size c.bytes.length) { c with offset := start }

def int32 : Reader Int32 := do
  let bytes ← word 4
  return Int32.ofNat (ofLittleEndian bytes)

def int64 : Reader Int64 := do
  let bytes ← word 8
  return Int64.ofNat (ofLittleEndian bytes)

end Reader

end GridFold.Wire

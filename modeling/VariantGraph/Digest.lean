/-!
# Digests

The frame that the digests of the family of MD4 share: a message is padded to blocks of 64 bytes
that end in its length, a compression function takes the blocks into a state one after the other,
and the words of the last state are the digest, written in hexadecimal digits.

Main statement: `size_padded_mod` says that the padded message consists of whole blocks.
-/

namespace VariantGraph.Digest

/-- The order of the bytes of a word. -/
inductive ByteOrder where
  | mostSignificantFirst
  | leastSignificantFirst
deriving DecidableEq, Repr

/-- The bits by which the byte at a place of a word of some bytes is shifted. -/
def ByteOrder.shift (order : ByteOrder) (bytes place : Nat) : Nat :=
  match order with
  | mostSignificantFirst => 8 * (bytes - 1 - place)
  | leastSignificantFirst => 8 * place

/-! ## Padding -/

/-- The number of zero bytes between the mark that ends a message and its length. -/
def zeroCount (size : Nat) : Nat := (64 - (size + 9) % 64) % 64

/-- The length of a message in bits, as eight bytes. -/
def lengthBytes (order : ByteOrder) (size : Nat) : List UInt8 :=
  (List.range 8).map fun place => UInt8.ofNat ((8 * size) >>> order.shift 8 place)

/-- The bytes that follow a message. -/
def padding (order : ByteOrder) (size : Nat) : List UInt8 :=
  0x80 :: List.replicate (zeroCount size) 0 ++ lengthBytes order size

/-- A message that is padded to whole blocks. -/
def padded (order : ByteOrder) (message : ByteArray) : ByteArray :=
  message ++ ⟨(padding order message.size).toArray⟩

theorem length_padding (order : ByteOrder) (size : Nat) :
    (padding order size).length = zeroCount size + 9 := by
  simp only [padding, lengthBytes, List.cons_append, List.length_cons, List.length_append,
    List.length_replicate, List.length_map, List.length_range]

theorem size_padded_mod (order : ByteOrder) (message : ByteArray) :
    (padded order message).size % 64 = 0 := by
  have h : (padded order message).size = message.size + (zeroCount message.size + 9) := by
    rw [padded, ByteArray.size_append, ← length_padding order message.size]
    rfl
  rw [h, zeroCount]
  omega

/-! ## Words -/

/-- The byte at a position; beyond the end there are zeros. -/
def byteAt (data : ByteArray) (position : Nat) : UInt32 :=
  (if h : position < data.size then data[position] else 0).toUInt32

/-- The word that starts at a position. -/
def wordAt (order : ByteOrder) (data : ByteArray) (position : Nat) : UInt32 :=
  let byte (place : Nat) : UInt32 :=
    byteAt data (position + place) <<< UInt32.ofNat (order.shift 4 place)
  byte 0 ||| byte 1 ||| byte 2 ||| byte 3

/-- The sixteen words of the block that starts at a position. -/
def blockWords (order : ByteOrder) (data : ByteArray) (start : Nat) : Array UInt32 :=
  Array.ofFn fun i : Fin 16 => wordAt order data (start + 4 * i)

/-- A word at a place of an array; beyond the end there are zeros. -/
def word (words : Array UInt32) (i : Nat) : UInt32 := words.getD i 0

/-- The bytes of a word. -/
def wordBytes (order : ByteOrder) (w : UInt32) : List UInt8 :=
  (List.range 4).map fun place => (w >>> UInt32.ofNat (order.shift 4 place)).toUInt8

/-- A word whose bits are moved around to the left. -/
def rotateLeft (w : UInt32) (bits : UInt32) : UInt32 := (w <<< bits) ||| (w >>> (32 - bits))

/-- A word whose bits are moved around to the right. -/
def rotateRight (w : UInt32) (bits : UInt32) : UInt32 := (w >>> bits) ||| (w <<< (32 - bits))

/-! ## The frame -/

/-- Takes a number of blocks into a state, starting with the one at a position. -/
def absorb {σ : Type} (order : ByteOrder) (compress : σ → Array UInt32 → σ) (data : ByteArray) :
    Nat → Nat → σ → σ
  | 0, _, state => state
  | blocks + 1, start, state =>
    absorb order compress data blocks (start + 64) (compress state (blockWords order data start))

/-- The two hexadecimal digits of a byte. -/
def hexByte (b : UInt8) : List Char :=
  let digits := Nat.toDigits 16 b.toNat
  List.replicate (2 - digits.length) '0' ++ digits

/-- Words as hexadecimal digits. -/
def hex (order : ByteOrder) (words : List UInt32) : String :=
  String.ofList ((words.flatMap (wordBytes order)).flatMap hexByte)

/-- The state after all blocks of a message. -/
def run {σ : Type} (order : ByteOrder) (compress : σ → Array UInt32 → σ) (start : σ)
    (message : ByteArray) : σ :=
  let data := padded order message
  absorb order compress data (data.size / 64) 0 start

end VariantGraph.Digest

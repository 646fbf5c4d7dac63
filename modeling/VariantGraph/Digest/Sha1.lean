import VariantGraph.Digest

/-!
# SHA-1

Eighty rounds on five words, in four groups that differ in their function and their constant. The
words of the schedule come from the block and from earlier words of the schedule.
-/

namespace VariantGraph.Digest.Sha1

/-- The state between two rounds and between two blocks. -/
structure State where
  a : UInt32
  b : UInt32
  c : UInt32
  d : UInt32
  e : UInt32

/-- The state before the first block. -/
def State.start : State := ⟨0x67452301, 0xEFCDAB89, 0x98BADCFE, 0x10325476, 0xC3D2E1F0⟩

/-- The words of a state. -/
def State.words (s : State) : List UInt32 := [s.a, s.b, s.c, s.d, s.e]

/-- The sum of two states, word by word. -/
def State.add (s t : State) : State := ⟨s.a + t.a, s.b + t.b, s.c + t.c, s.d + t.d, s.e + t.e⟩

/-- The word of the schedule that follows some words. -/
def nextWord (w : Array UInt32) : UInt32 :=
  let i := w.size
  rotateLeft (word w (i - 3) ^^^ word w (i - 8) ^^^ word w (i - 14) ^^^ word w (i - 16)) 1

/-- The schedule of a block. -/
def schedule (block : Array UInt32) : Array UInt32 :=
  (List.range 64).foldl (fun w _ => w.push (nextWord w)) block

/-- The function and the constant of a round. -/
def mix (s : State) (round : Nat) : UInt32 :=
  if round < 20 then ((s.b &&& s.c) ||| (~~~s.b &&& s.d)) + 0x5A827999
  else if round < 40 then (s.b ^^^ s.c ^^^ s.d) + 0x6ED9EBA1
  else if round < 60 then ((s.b &&& s.c) ||| (s.b &&& s.d) ||| (s.c &&& s.d)) + 0x8F1BBCDC
  else (s.b ^^^ s.c ^^^ s.d) + 0xCA62C1D6

/-- One round. -/
def round (w : Array UInt32) (s : State) (i : Nat) : State :=
  ⟨rotateLeft s.a 5 + mix s i + s.e + word w i, s.a, rotateLeft s.b 30, s.c, s.d⟩

/-- Takes a block into the state. -/
def compress (s : State) (block : Array UInt32) : State :=
  let w := schedule block
  s.add ((List.range 80).foldl (round w) s)

end Sha1

/-- The SHA-1 digest of a message. -/
def sha1 (message : ByteArray) : String :=
  hex .mostSignificantFirst
    (run .mostSignificantFirst Sha1.compress Sha1.State.start message).words

end VariantGraph.Digest

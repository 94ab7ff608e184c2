/-!
# SHA-256

The digest of a byte sequence.  The message is padded to whole blocks of sixty-four bytes; each
block is spread over a schedule of sixty-four words, which drive as many rounds on a state of eight
words.

* `Sha256.schedule` — the words of a block, from a sliding window of the last sixteen.
* `Sha256.compress` — the state after a block.
* `Sha256.digest` — the digest, thirty-two bytes.

Principal result: `length_digest` — a digest has thirty-two bytes.
-/

namespace PureContracts.Sha256

/-- Rotation of a word to the right. -/
def rotateRight (word : UInt32) (count : UInt32) : UInt32 :=
  (word >>> count) ||| (word <<< (32 - count))

/-- The constants of the rounds. -/
def roundConstants : List UInt32 :=
  [0x428a2f98, 0x71374491, 0xb5c0fbcf, 0xe9b5dba5, 0x3956c25b, 0x59f111f1, 0x923f82a4, 0xab1c5ed5,
   0xd807aa98, 0x12835b01, 0x243185be, 0x550c7dc3, 0x72be5d74, 0x80deb1fe, 0x9bdc06a7, 0xc19bf174,
   0xe49b69c1, 0xefbe4786, 0x0fc19dc6, 0x240ca1cc, 0x2de92c6f, 0x4a7484aa, 0x5cb0a9dc, 0x76f988da,
   0x983e5152, 0xa831c66d, 0xb00327c8, 0xbf597fc7, 0xc6e00bf3, 0xd5a79147, 0x06ca6351, 0x14292967,
   0x27b70a85, 0x2e1b2138, 0x4d2c6dfc, 0x53380d13, 0x650a7354, 0x766a0abb, 0x81c2c92e, 0x92722c85,
   0xa2bfe8a1, 0xa81a664b, 0xc24b8b70, 0xc76c51a3, 0xd192e819, 0xd6990624, 0xf40e3585, 0x106aa070,
   0x19a4c116, 0x1e376c08, 0x2748774c, 0x34b0bcb5, 0x391c0cb3, 0x4ed8aa4a, 0x5b9cca4f, 0x682e6ff3,
   0x748f82ee, 0x78a5636f, 0x84c87814, 0x8cc70208, 0x90befffa, 0xa4506ceb, 0xbef9a3f7, 0xc67178f2]

/-- The eight words that the rounds work on. -/
structure State where
  a : UInt32
  b : UInt32
  c : UInt32
  d : UInt32
  e : UInt32
  f : UInt32
  g : UInt32
  h : UInt32
  deriving DecidableEq, Inhabited

/-- The state in front of the first block. -/
def initial : State :=
  ⟨0x6a09e667, 0xbb67ae85, 0x3c6ef372, 0xa54ff53a, 0x510e527f, 0x9b05688c, 0x1f83d9ab, 0x5be0cd19⟩

/-- Adds two states word by word. -/
def State.add (s t : State) : State :=
  ⟨s.a + t.a, s.b + t.b, s.c + t.c, s.d + t.d, s.e + t.e, s.f + t.f, s.g + t.g, s.h + t.h⟩

/-- The words of a state. -/
def State.words (s : State) : List UInt32 := [s.a, s.b, s.c, s.d, s.e, s.f, s.g, s.h]

/-- The last sixteen words of the schedule, oldest first. -/
abbrev Window := Vector UInt32 16

namespace Window

/-- The word that follows a window. -/
def next (w : Window) : UInt32 :=
  let early := w[1]
  let late := w[14]
  w[0] + (rotateRight early 7 ^^^ rotateRight early 18 ^^^ (early >>> 3)) +
    w[9] + (rotateRight late 17 ^^^ rotateRight late 19 ^^^ (late >>> 10))

/-- The window one word further on. -/
def advance (w : Window) : Window :=
  Vector.ofFn fun i => if h : i.val + 1 < 16 then w[i.val + 1] else next w

end Window

/-- The words of the schedule from a window on. -/
def schedule : Nat → Window → List UInt32
  | 0, _ => []
  | count + 1, w => w[0] :: schedule count w.advance

/-- One round, with the sum of its constant and its word of the schedule. -/
def round (s : State) (input : UInt32) : State :=
  let mixE := rotateRight s.e 6 ^^^ rotateRight s.e 11 ^^^ rotateRight s.e 25
  let choice := (s.e &&& s.f) ^^^ (~~~s.e &&& s.g)
  let first := s.h + mixE + choice + input
  let mixA := rotateRight s.a 2 ^^^ rotateRight s.a 13 ^^^ rotateRight s.a 22
  let majority := (s.a &&& s.b) ^^^ (s.a &&& s.c) ^^^ (s.b &&& s.c)
  ⟨first + (mixA + majority), s.a, s.b, s.c, s.d + first, s.e, s.f, s.g⟩

/-- Four bytes as a word, the most significant first. -/
def wordOfBytes (bytes : List UInt8) : UInt32 :=
  bytes.foldl (fun word byte => (word <<< 8) ||| byte.toUInt32) 0

/-- The bytes of a word, the most significant first. -/
def bytesOfWord (word : UInt32) : List UInt8 :=
  [(word >>> 24).toUInt8, (word >>> 16).toUInt8, (word >>> 8).toUInt8, word.toUInt8]

/-- The window of the first sixteen words of a block. -/
def window (block : List UInt8) : Window :=
  Vector.ofFn fun i => wordOfBytes ((block.drop (4 * i.val)).take 4)

/-- The state after a block. -/
def compress (s : State) (block : List UInt8) : State :=
  let inputs := List.zipWith (· + ·) roundConstants (schedule 64 (window block))
  s.add (inputs.foldl round s)

/-- A number as eight bytes, the most significant first. -/
def bytesOfLength (length : Nat) : List UInt8 :=
  (List.range 8).map fun i => UInt8.ofNat (length >>> (8 * (7 - i)))

/-- The message, a mark, zeros up to a whole block, and the length of the message in bits. -/
def padded (message : List UInt8) : List UInt8 :=
  let zeros := (119 - message.length % 64) % 64
  message ++ 0x80 :: (List.replicate zeros 0 ++ bytesOfLength (8 * message.length))

/-- Folds over the whole blocks of some bytes. -/
def foldBlocks (s : State) (bytes : List UInt8) : State :=
  if bytes.length < 64 then s else foldBlocks (compress s (bytes.take 64)) (bytes.drop 64)
termination_by bytes.length
decreasing_by simp only [List.length_drop]; omega

/-- The SHA-256 digest of a message. -/
def digest (message : List UInt8) : List UInt8 :=
  (foldBlocks initial (padded message)).words.flatMap bytesOfWord

theorem length_digest (message : List UInt8) : (digest message).length = 32 := rfl

end PureContracts.Sha256

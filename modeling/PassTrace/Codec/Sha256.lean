import PassTrace.Text.Utf8
import PassTrace.Text.Hex

/-!
# SHA-256

The checksum that a session keeps of the file it was made from.
-/

namespace PassTrace.Sha256

/-- The first thirty-two bits of the fractional parts of the cube roots of the first sixty-four
primes. -/
def roundConstants : List UInt32 :=
  [0x428a2f98, 0x71374491, 0xb5c0fbcf, 0xe9b5dba5, 0x3956c25b, 0x59f111f1, 0x923f82a4, 0xab1c5ed5,
   0xd807aa98, 0x12835b01, 0x243185be, 0x550c7dc3, 0x72be5d74, 0x80deb1fe, 0x9bdc06a7, 0xc19bf174,
   0xe49b69c1, 0xefbe4786, 0x0fc19dc6, 0x240ca1cc, 0x2de92c6f, 0x4a7484aa, 0x5cb0a9dc, 0x76f988da,
   0x983e5152, 0xa831c66d, 0xb00327c8, 0xbf597fc7, 0xc6e00bf3, 0xd5a79147, 0x06ca6351, 0x14292967,
   0x27b70a85, 0x2e1b2138, 0x4d2c6dfc, 0x53380d13, 0x650a7354, 0x766a0abb, 0x81c2c92e, 0x92722c85,
   0xa2bfe8a1, 0xa81a664b, 0xc24b8b70, 0xc76c51a3, 0xd192e819, 0xd6990624, 0xf40e3585, 0x106aa070,
   0x19a4c116, 0x1e376c08, 0x2748774c, 0x34b0bcb5, 0x391c0cb3, 0x4ed8aa4a, 0x5b9cca4f, 0x682e6ff3,
   0x748f82ee, 0x78a5636f, 0x84c87814, 0x8cc70208, 0x90befffa, 0xa4506ceb, 0xbef9a3f7, 0xc67178f2]

/-- The eight words of a state. -/
structure State where
  a : UInt32
  b : UInt32
  c : UInt32
  d : UInt32
  e : UInt32
  f : UInt32
  g : UInt32
  h : UInt32
  deriving DecidableEq, Repr

/-- The first thirty-two bits of the fractional parts of the square roots of the first eight
primes. -/
def State.initial : State :=
  ⟨0x6a09e667, 0xbb67ae85, 0x3c6ef372, 0xa54ff53a, 0x510e527f, 0x9b05688c, 0x1f83d9ab, 0x5be0cd19⟩

/-- A word rotated to the right. -/
def rotate (x n : UInt32) : UInt32 :=
  (x >>> n) ||| (x <<< (32 - n))

/-- The words of a block, four bytes each, the first the most significant. -/
def blockWords : Bytes → List UInt32
  | a :: b :: c :: d :: rest =>
    (UInt32.ofNat a.toNat <<< 24 ||| UInt32.ofNat b.toNat <<< 16 |||
      UInt32.ofNat c.toNat <<< 8 ||| UInt32.ofNat d.toNat) :: blockWords rest
  | _ => []

/-- The next word of the message schedule, from the sixteen before it, last first. -/
def nextWord (recent : List UInt32) : UInt32 :=
  let w (k : Nat) := recent.getD (k - 1) 0
  let x := w 15
  let y := w 2
  let s₀ := rotate x 7 ^^^ rotate x 18 ^^^ (x >>> 3)
  let s₁ := rotate y 17 ^^^ rotate y 19 ^^^ (y >>> 10)
  w 16 + s₀ + w 7 + s₁

/-- The message schedule, last word first, with `count` words added. -/
def extend : Nat → List UInt32 → List UInt32
  | 0, ws => ws
  | count + 1, ws => extend count (nextWord ws :: ws)

/-- One round, with the sum of a schedule word and a round constant. -/
def State.round (s : State) (k : UInt32) : State :=
  let s₁ := rotate s.e 6 ^^^ rotate s.e 11 ^^^ rotate s.e 25
  let ch := (s.e &&& s.f) ^^^ (~~~s.e &&& s.g)
  let t₁ := s.h + s₁ + ch + k
  let s₀ := rotate s.a 2 ^^^ rotate s.a 13 ^^^ rotate s.a 22
  let maj := (s.a &&& s.b) ^^^ (s.a &&& s.c) ^^^ (s.b &&& s.c)
  ⟨t₁ + (s₀ + maj), s.a, s.b, s.c, s.d + t₁, s.e, s.f, s.g⟩

/-- The state after a block of sixty-four bytes. -/
def State.absorb (s : State) (block : Bytes) : State :=
  let schedule := (extend 48 (blockWords block).reverse).reverse
  let t := (schedule.zipWith (· + ·) roundConstants).foldl State.round s
  ⟨s.a + t.a, s.b + t.b, s.c + t.c, s.d + t.d, s.e + t.e, s.f + t.f, s.g + t.g, s.h + t.h⟩

/-- The last `count` bytes of a number, the most significant first. -/
def bigEndian : Nat → Nat → Bytes
  | 0, _ => []
  | count + 1, n => bigEndian count (n / 0x100) ++ [UInt8.ofNat n]

/-- A message with its padding: a one bit, zeros, and the message's length in bits. -/
def pad (message : Bytes) : Bytes :=
  let zeros := (119 - message.length % 64) % 64
  message ++ 0x80 :: (List.replicate zeros 0 ++ bigEndian 8 (8 * message.length))

/-- A sequence cut into blocks of sixty-four bytes. -/
def blocks (bytes : Bytes) : List Bytes :=
  if _h : (bytes.drop 64).isEmpty then [bytes]
  else bytes.take 64 :: blocks (bytes.drop 64)
termination_by bytes.length
decreasing_by simp at *; omega

/-- The digest of a message. -/
def digest (message : Bytes) : State :=
  (blocks (pad message)).foldl State.absorb .initial

/-- The digest of a message in hexadecimal. -/
def hexDigest (message : Bytes) : String :=
  let s := digest message
  String.ofList ([s.a, s.b, s.c, s.d, s.e, s.f, s.g, s.h].flatMap fun word =>
    Text.hexDigits 8 word.toNat)

end PassTrace.Sha256

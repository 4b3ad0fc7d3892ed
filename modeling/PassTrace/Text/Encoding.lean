import PassTrace.Text.Utf8

/-!
# Recognising the encoding of a text

A text comes in UTF-8, UTF-16 or UTF-32, the wider ones in either byte order. A byte order mark at
the start decides; without one, the zero bytes among the first four do. Halves of surrogate pairs
that stand alone are read as replacement characters.
-/

namespace PassTrace.Text

/-- The order of the bytes of a code unit. -/
inductive ByteOrder
  | little
  | big
  deriving DecidableEq, Repr

/-- The encodings of a text. Those with a mark have it in front. -/
inductive Encoding
  | utf8
  | utf8Marked
  | utf16 (order : ByteOrder)
  | utf16Marked (order : ByteOrder)
  | utf32 (order : ByteOrder)
  | utf32Marked (order : ByteOrder)
  deriving DecidableEq, Repr

/-- What is wrong with the bytes of a text. -/
inductive EncodingReason
  | utf8 (reason : Utf8Reason)
  | truncated
  | outOfRange
  deriving DecidableEq, Repr

/-- The wording of a reason. -/
def EncodingReason.message : EncodingReason → String
  | .utf8 reason => reason.message
  | .truncated => "truncated data"
  | .outOfRange => "code point not in range(0x110000)"

/-- Bytes that do not belong to a text, from a position on. -/
structure EncodingFault where
  reason : EncodingReason
  start : Nat
  deriving DecidableEq, Repr

/-- The encoding of a text, told from its first bytes. -/
def Encoding.detect : Bytes → Encoding
  | 0x00 :: 0x00 :: 0xfe :: 0xff :: _ => .utf32Marked .big
  | 0xff :: 0xfe :: 0x00 :: 0x00 :: _ => .utf32Marked .little
  | 0xfe :: 0xff :: _ => .utf16Marked .big
  | 0xff :: 0xfe :: _ => .utf16Marked .little
  | 0xef :: 0xbb :: 0xbf :: _ => .utf8Marked
  | a :: b :: c :: d :: _ =>
    if a = 0 then (if b = 0 then .utf32 .big else .utf16 .big)
    else if b = 0 then (if c = 0 && d = 0 then .utf32 .little else .utf16 .little)
    else .utf8
  | [a, b] => if a = 0 then .utf16 .big else if b = 0 then .utf16 .little else .utf8
  | _ => .utf8

/-- The code unit of two bytes. -/
def unit16 : ByteOrder → UInt8 → UInt8 → Nat
  | .little, a, b => a.toNat + b.toNat * 0x100
  | .big, a, b => a.toNat * 0x100 + b.toNat

/-- The code units of a text in UTF-16 that starts at a position. -/
def units16 (order : ByteOrder) (start : Nat) : Bytes → Except EncodingFault (List Nat)
  | [] => .ok []
  | [_] => .error ⟨.truncated, start⟩
  | a :: b :: rest => (units16 order (start + 2) rest).map (unit16 order a b :: ·)

/-- The characters of a sequence of code units of UTF-16. -/
def ofUnits16 : List Nat → List Char
  | [] => []
  | [n] => [if 0xd800 ≤ n && n < 0xe000 then '\uFFFD' else Char.ofNat n]
  | n :: m :: rest =>
    if 0xd800 ≤ n && n < 0xdc00 && 0xdc00 ≤ m && m < 0xe000 then
      Char.ofNat (0x10000 + (n - 0xd800) * 0x400 + (m - 0xdc00)) :: ofUnits16 rest
    else (if 0xd800 ≤ n && n < 0xe000 then '\uFFFD' else Char.ofNat n) :: ofUnits16 (m :: rest)

/-- The characters of a text in UTF-32 that starts at a position. -/
def decodeUtf32 (order : ByteOrder) (start : Nat) : Bytes → Except EncodingFault (List Char)
  | [] => .ok []
  | a :: b :: c :: d :: rest =>
    let n :=
      match order with
      | .little => unit16 .little a b + unit16 .little c d * 0x10000
      | .big => unit16 .big a b * 0x10000 + unit16 .big c d
    if 0x110000 ≤ n then .error ⟨.outOfRange, start⟩
    else
      let char := if 0xd800 ≤ n && n < 0xe000 then '\uFFFD' else Char.ofNat n
      (decodeUtf32 order (start + 4) rest).map (char :: ·)
  | _ => .error ⟨.truncated, start⟩

/-- The characters of a text in UTF-8, with positions counted from the given bytes on. -/
def decodeUtf8Relaxed (bytes : Bytes) : Except EncodingFault (List Char) :=
  match (utf8Pieces true 0 bytes).mapM id with
  | .ok cs => .ok cs
  | .error fault => .error ⟨.utf8 fault.reason, fault.start⟩

/-- The characters of a text in an encoding, without its byte order mark. Positions of faults count
from the start of the bytes, in UTF-8 from behind the mark. -/
def Encoding.decode (bytes : Bytes) : Encoding → Except EncodingFault (List Char)
  | .utf8 => decodeUtf8Relaxed bytes
  | .utf8Marked => decodeUtf8Relaxed (bytes.drop 3)
  | .utf16 order => (units16 order 0 bytes).map ofUnits16
  | .utf16Marked order => (units16 order 2 (bytes.drop 2)).map ofUnits16
  | .utf32 order => decodeUtf32 order 0 bytes
  | .utf32Marked order => decodeUtf32 order 4 (bytes.drop 4)

/-- The characters of a text in the encoding that its first bytes tell. -/
def decodeAny (bytes : Bytes) : Except EncodingFault (List Char) :=
  (Encoding.detect bytes).decode bytes

end PassTrace.Text

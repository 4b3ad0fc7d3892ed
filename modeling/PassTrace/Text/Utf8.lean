import PassTrace.Text.Hex

/-!
# UTF-8

A byte sequence is read into pieces: characters, and the faults between them. A fault covers the
longest start of a character's form that the bytes hold, so it has from one to three bytes. Strict
reading stops at the first fault; lenient reading shows each fault as one replacement character.
-/

namespace PassTrace

/-- A sequence of bytes. -/
abbrev Bytes := List UInt8

namespace Text

/-- What is wrong with bytes that are not the form of a character. -/
inductive Utf8Reason
  | invalidStart
  | invalidContinuation
  | unexpectedEnd
  deriving DecidableEq, Repr

/-- The wording of a reason. -/
def Utf8Reason.message : Utf8Reason → String
  | .invalidStart => "invalid start byte"
  | .invalidContinuation => "invalid continuation byte"
  | .unexpectedEnd => "unexpected end of data"

/-- Bytes that are not the form of a character: those at positions `start` to `stop - 1`. -/
structure Utf8Fault where
  reason : Utf8Reason
  start : Nat
  stop : Nat
  byte : UInt8
  deriving DecidableEq, Repr

/-- The wording of a fault. -/
def Utf8Fault.message (f : Utf8Fault) : String :=
  let place :=
    if f.stop = f.start + 1 then
      s!"byte 0x{String.ofList (hexDigits 2 f.byte.toNat)} in position {f.start}"
    else s!"bytes in position {f.start}-{f.stop - 1}"
  s!"'utf-8' codec can't decode {place}: {f.reason.message}"

/-- Whether a byte can follow the first byte of a character. -/
def isContinuation (b : UInt8) : Bool :=
  0x80 ≤ b && b < 0xc0

/-- The least and the greatest byte that can follow a first byte of three or four. -/
def secondBounds (first : UInt8) : UInt8 × UInt8 :=
  if first = 0xe0 then (0xa0, 0xbf)
  else if first = 0xed then (0x80, 0x9f)
  else if first = 0xf0 then (0x90, 0xbf)
  else if first = 0xf4 then (0x80, 0x8f)
  else (0x80, 0xbf)

/-- Whether the second byte is possible after the first. -/
def secondFits (first second : UInt8) : Bool :=
  (secondBounds first).1 ≤ second && second ≤ (secondBounds first).2

/-- The six bits that a continuation byte carries. -/
def tailBits (b : UInt8) : Nat :=
  b.toNat % 0x40

/-- The pieces of a byte sequence that starts at a position: characters and faults in order. With
`surrogates`, the three-byte forms of surrogate code points are read as replacement characters and
are no faults. -/
def utf8Pieces (surrogates : Bool) (start : Nat) : Bytes → List (Except Utf8Fault Char)
  | [] => []
  | a :: rest =>
    let fault (reason : Utf8Reason) (size : Nat) : Except Utf8Fault Char :=
      .error ⟨reason, start, start + size, a⟩
    if a < 0x80 then .ok (Char.ofNat a.toNat) :: utf8Pieces surrogates (start + 1) rest
    else if a < 0xc2 || 0xf4 < a then
      fault .invalidStart 1 :: utf8Pieces surrogates (start + 1) rest
    else
      match rest with
      | [] => [fault .unexpectedEnd 1]
      | b :: rest₁ =>
        if a < 0xe0 then
          if isContinuation b then
            .ok (Char.ofNat (a.toNat % 0x20 * 0x40 + tailBits b)) ::
              utf8Pieces surrogates (start + 2) rest₁
          else fault .invalidContinuation 1 :: utf8Pieces surrogates (start + 1) (b :: rest₁)
        else if !(secondFits a b || (surrogates && a = 0xed && isContinuation b)) then
          fault .invalidContinuation 1 :: utf8Pieces surrogates (start + 1) (b :: rest₁)
        else
          match rest₁ with
          | [] =>
            if secondFits a b then [fault .unexpectedEnd 2]
            else fault .invalidContinuation 1 :: utf8Pieces surrogates (start + 1) [b]
          | c :: rest₂ =>
            if !secondFits a b then
              if isContinuation c then .ok '\uFFFD' :: utf8Pieces surrogates (start + 3) rest₂
              else
                fault .invalidContinuation 1 ::
                  utf8Pieces surrogates (start + 1) (b :: c :: rest₂)
            else if !isContinuation c then
              fault .invalidContinuation 2 :: utf8Pieces surrogates (start + 2) (c :: rest₂)
            else if a < 0xf0 then
              .ok (Char.ofNat (a.toNat % 0x10 * 0x1000 + tailBits b * 0x40 + tailBits c)) ::
                utf8Pieces surrogates (start + 3) rest₂
            else
              match rest₂ with
              | [] => [fault .unexpectedEnd 3]
              | d :: rest₃ =>
                if isContinuation d then
                  .ok (Char.ofNat (a.toNat % 0x08 * 0x40000 + tailBits b * 0x1000 +
                    tailBits c * 0x40 + tailBits d)) :: utf8Pieces surrogates (start + 4) rest₃
                else fault .invalidContinuation 3 :: utf8Pieces surrogates (start + 3) (d :: rest₃)

/-- The characters of a byte sequence, or its first fault. -/
def decodeUtf8 (bytes : Bytes) : Except Utf8Fault (List Char) :=
  (utf8Pieces false 0 bytes).mapM id

/-- The characters of a byte sequence, with each fault shown as a replacement character. -/
def decodeUtf8Lenient (bytes : Bytes) : List Char :=
  (utf8Pieces false 0 bytes).map fun
    | .ok c => c
    | .error _ => '\uFFFD'

/-- The bytes of a text. -/
def encodeUtf8 (cs : List Char) : Bytes :=
  cs.flatMap String.utf8EncodeChar

/-- The bytes of a string. -/
def utf8 (s : String) : Bytes :=
  encodeUtf8 s.toList

end Text
end PassTrace

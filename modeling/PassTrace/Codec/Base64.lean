import PassTrace.Text.Utf8

/-!
# Base64

Three bytes become four letters. Reading is strict: no letter is skipped, padding comes last and
ends the text.
-/

namespace PassTrace.Base64

/-- Why a text is not read. -/
inductive Fault
  | notAscii
  | leadingPadding
  | foreignLetter
  | interruptedPadding
  | dataAfterPadding
  | loneLetter (letters : Nat)
  | missingPadding
  deriving DecidableEq, Repr

/-- The wording of a fault. -/
def Fault.message : Fault → String
  | .notAscii => "string argument should contain only ASCII characters"
  | .leadingPadding => "Leading padding not allowed"
  | .foreignLetter => "Only base64 data is allowed"
  | .interruptedPadding => "Discontinuous padding not allowed"
  | .dataAfterPadding => "Excess data after padding"
  | .loneLetter letters =>
    s!"Invalid base64-encoded string: number of data characters ({letters}) cannot be 1 more " ++
      "than a multiple of 4"
  | .missingPadding => "Incorrect padding"

/-- The letter of a number below sixty-four. -/
def letter (n : Nat) : Char :=
  if n < 26 then Char.ofNat (0x41 + n)
  else if n < 52 then Char.ofNat (0x61 + (n - 26))
  else if n < 62 then Char.ofNat (0x30 + (n - 52))
  else if n = 62 then '+'
  else '/'

/-- The number of a letter. -/
def value? (c : Char) : Option Nat :=
  let n := c.toNat
  if 0x41 ≤ n && n ≤ 0x5a then some (n - 0x41)
  else if 0x61 ≤ n && n ≤ 0x7a then some (n - 0x61 + 26)
  else if 0x30 ≤ n && n ≤ 0x39 then some (n - 0x30 + 52)
  else if c = '+' then some 62
  else if c = '/' then some 63
  else none

/-- The letters of a sequence of bytes. -/
def encode : Bytes → List Char
  | [] => []
  | [a] => [letter (a.toNat / 4), letter (a.toNat % 4 * 16), '=', '=']
  | [a, b] =>
    [letter (a.toNat / 4), letter (a.toNat % 4 * 16 + b.toNat / 16),
      letter (b.toNat % 16 * 4), '=']
  | a :: b :: c :: rest =>
    letter (a.toNat / 4) :: letter (a.toNat % 4 * 16 + b.toNat / 16) ::
      letter (b.toNat % 16 * 4 + c.toNat / 64) :: letter (c.toNat % 64) :: encode rest

/-- How far reading has come. -/
structure State where
  /-- The letters read of the present group of four. -/
  position : Nat
  /-- The bits of the present group that belong to no byte yet. -/
  carry : Nat
  /-- The padding marks read since the last letter. -/
  pads : Nat
  /-- Whether padding has begun. -/
  padding : Bool
  /-- The letters read. -/
  letters : Nat
  deriving DecidableEq, Repr

/-- The state at the start of a text. -/
def State.start : State := ⟨0, 0, 0, false, 0⟩

/-- The bytes of a text, continued from a state. The bytes known so far are `bytes`, last first. -/
def decodeFrom (s : State) (bytes : Bytes) : List Char → Except Fault Bytes
  | [] =>
    if s.position = 0 then .ok bytes.reverse
    else if s.position = 1 then .error (.loneLetter s.letters)
    else .error .missingPadding
  | c :: rest =>
    if c = '=' then
      let pads := if 2 ≤ s.position then s.pads + 1 else s.pads
      if 2 ≤ s.position ∧ 4 ≤ s.position + pads then
        if rest.isEmpty then .ok bytes.reverse else .error .dataAfterPadding
      else decodeFrom { s with pads, padding := true } bytes rest
    else
      match value? c with
      | none => .error .foreignLetter
      | some n =>
        if s.padding then .error .interruptedPadding
        else
          let next (position carry : Nat) : State := ⟨position, carry, 0, false, s.letters + 1⟩
          match s.position with
          | 0 => decodeFrom (next 1 n) bytes rest
          | 1 => decodeFrom (next 2 (n % 16)) (UInt8.ofNat (s.carry * 4 + n / 16) :: bytes) rest
          | 2 => decodeFrom (next 3 (n % 4)) (UInt8.ofNat (s.carry * 16 + n / 4) :: bytes) rest
          | _ => decodeFrom (next 0 0) (UInt8.ofNat (s.carry * 64 + n) :: bytes) rest

/-- The bytes that a text denotes. -/
def decode (text : List Char) : Except Fault Bytes :=
  if text.any (0x80 ≤ ·.toNat) then .error .notAscii
  else if text.head? = some '=' then .error .leadingPadding
  else decodeFrom .start [] text

end PassTrace.Base64

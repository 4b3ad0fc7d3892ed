/-!
# Binary floating-point numbers of 64 bits

A finite number is a whole multiple of `2 ^ -1074`, the least positive one, kept as a significand
below `2 ^ 53` and a shift. Every operation computes its exact result as a fraction of natural
numbers and rounds once, to the nearest number, of two equally near ones to that with the even
significand.
-/

namespace PassTrace

/-- The magnitude of a finite number, `significand * 2 ^ shift` in units of `2 ^ -1074`. -/
structure Magnitude where
  significand : Nat
  shift : Nat
  significand_lt : significand < Nat.pow 2 53
  normalized : shift = 0 ∨ Nat.pow 2 52 ≤ significand
  shift_le : shift ≤ 2045
  deriving DecidableEq

namespace Magnitude

/-- The magnitude with a given significand and shift, if they are in range. -/
def ofParts (significand shift : Nat) : Option Magnitude :=
  if h : significand < Nat.pow 2 53 ∧ (shift = 0 ∨ Nat.pow 2 52 ≤ significand) ∧ shift ≤ 2045 then
    some ⟨significand, shift, h.1, h.2.1, h.2.2⟩
  else none

/-- Zero. -/
def zero : Magnitude := ⟨0, 0, by decide, .inl rfl, by decide⟩

/-- The size in units of `2 ^ -1074`. -/
def scaled (m : Magnitude) : Nat :=
  m.significand * Nat.pow 2 m.shift

/-- The unit of all magnitudes is one part in this many. -/
def unitsPerOne : Nat := Nat.pow 2 1074

/-- A quotient rounded to the nearest natural number, a half to the even one. -/
def roundQuotient (num den : Nat) : Nat :=
  let floor := num / den
  let twice := 2 * (num % den)
  if twice > den || (twice == den && floor % 2 == 1) then floor + 1 else floor

/-- The magnitude nearest to a fraction, or `none` if that is beyond the greatest one. -/
def round (num den : Nat) : Option Magnitude :=
  let units := num * unitsPerOne
  let shift := (units / den).log2 - 52
  let significand := roundQuotient units (den * Nat.pow 2 shift)
  if significand = Nat.pow 2 53 then ofParts (Nat.pow 2 52) (shift + 1) else ofParts significand shift

end Magnitude

/-- A floating-point number. There is one value that is not a number. -/
inductive Binary64
  | nan
  | infinity (negative : Bool)
  | finite (negative : Bool) (magnitude : Magnitude)
  deriving DecidableEq

namespace Binary64

/-- The number nearest to a signed fraction; a fraction beyond all numbers becomes infinite. -/
def ofFraction (negative : Bool) (num den : Nat) : Binary64 :=
  match Magnitude.round num den with
  | some m => finite negative m
  | none => infinity negative

/-- The positive zero. -/
def zero : Binary64 := finite false .zero

instance : Inhabited Binary64 := ⟨zero⟩

/-- The number nearest to an integer, if it is not beyond all finite numbers. -/
def ofInt? (n : Int) : Option Binary64 :=
  (Magnitude.round n.natAbs 1).map (finite (n < 0))

/-- A finite number as a signed count of units of `2 ^ -1074`. -/
def units (negative : Bool) (m : Magnitude) : Int :=
  if negative then -m.scaled else m.scaled

/-- The number nearest to a signed count of units, where `negativeZero` is the sign of zero. -/
def ofUnits (negativeZero : Bool) (u : Int) (den : Nat) : Binary64 :=
  ofFraction (if u = 0 then negativeZero else decide (u < 0)) u.natAbs
    (Magnitude.unitsPerOne * den)

/-- The sign bit. -/
def isNegative : Binary64 → Bool
  | nan => false
  | infinity negative => negative
  | finite negative _ => negative

/-- The number with the opposite sign. -/
def neg : Binary64 → Binary64
  | nan => nan
  | infinity negative => infinity !negative
  | finite negative m => finite (!negative) m

/-- The sum. A zero sum is negative only if both terms are. -/
def add : Binary64 → Binary64 → Binary64
  | nan, _ | _, nan => nan
  | infinity s, infinity t => if s = t then infinity s else nan
  | infinity s, finite .. => infinity s
  | finite .., infinity t => infinity t
  | finite s m, finite t n => ofUnits (s && t) (units s m + units t n) 1

/-- The difference. -/
def sub (x y : Binary64) : Binary64 :=
  add x (neg y)

/-- The product. -/
def mul : Binary64 → Binary64 → Binary64
  | nan, _ | _, nan => nan
  | infinity s, infinity t => infinity (s != t)
  | infinity s, finite t m | finite t m, infinity s =>
    if m.significand = 0 then nan else infinity (s != t)
  | finite s m, finite t n =>
    ofUnits (s != t) (units s m * units t n) Magnitude.unitsPerOne

/-- Whether the first number is less than the second; nothing is less or greater than a value
that is not a number. -/
def less : Binary64 → Binary64 → Bool
  | nan, _ | _, nan => false
  | infinity s, infinity t => s && !t
  | infinity s, finite .. => s
  | finite .., infinity t => !t
  | finite s m, finite t n => units s m < units t n

/-- Whether two numbers are equal as numbers: the two zeros are, and a value that is not a number
equals nothing. -/
def equal : Binary64 → Binary64 → Bool
  | nan, _ | _, nan => false
  | infinity s, infinity t => s = t
  | finite s m, finite t n => units s m = units t n
  | _, _ => false

/-- Whether a number is less than an integer. -/
def lessInt : Binary64 → Int → Bool
  | nan, _ => false
  | infinity s, _ => s
  | finite s m, n => units s m < n * Magnitude.unitsPerOne

/-- Whether an integer is less than a number. -/
def intLess : Int → Binary64 → Bool
  | _, nan => false
  | _, infinity s => !s
  | n, finite s m => n * Magnitude.unitsPerOne < units s m

/-- Whether a number equals an integer. -/
def equalsInt : Binary64 → Int → Bool
  | finite s m, n => units s m = n * Magnitude.unitsPerOne
  | _, _ => false

/-- Whether a number is zero, of either sign. -/
def isZero : Binary64 → Bool
  | finite _ m => m.significand = 0
  | _ => false

/-- The bits of the number's interchange form: sign, exponent of eleven bits and fraction. -/
def toBits : Binary64 → Nat
  | nan => 0x7ff8000000000000
  | infinity negative => (if negative then Nat.pow 2 63 else 0) + 0x7ff0000000000000
  | finite negative m =>
    (if negative then Nat.pow 2 63 else 0) +
      if m.significand < Nat.pow 2 52 then m.significand
      else (m.shift + 1) * Nat.pow 2 52 + (m.significand - Nat.pow 2 52)

end Binary64
end PassTrace

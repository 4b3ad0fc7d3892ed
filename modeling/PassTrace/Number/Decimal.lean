import PassTrace.Number.Binary64

/-!
# Decimal numerals of floating-point numbers

Reading takes the number nearest to a decimal fraction. Writing takes the fewest digits that read
back as the number, and of those the nearest to it.
-/

namespace PassTrace

/-- A decimal fraction `coefficient * 10 ^ exponent`. -/
structure Decimal where
  coefficient : Nat
  exponent : Int
  deriving DecidableEq, Repr

namespace Decimal

/-- The number of digits of a natural number; zero has one. -/
def digitCount (n : Nat) : Nat :=
  (Nat.toDigits 10 n).length

/-- The fraction as numerator and denominator. -/
def fraction (d : Decimal) : Nat × Nat :=
  if 0 ≤ d.exponent then (d.coefficient * Nat.pow 10 d.exponent.toNat, 1)
  else (d.coefficient, Nat.pow 10 (-d.exponent).toNat)

/-- The place of the first digit: the fraction is below ten to this power, and not below ten to
the power before. -/
def leadingPlace (d : Decimal) : Int :=
  digitCount d.coefficient + d.exponent

/-- The nearest magnitude, or `none` if it is beyond the greatest. A fraction whose first digit
stands beyond every place that a magnitude can have is decided by that place. -/
def toMagnitude (d : Decimal) : Option Magnitude :=
  if d.coefficient = 0 then some .zero
  else if d.leadingPlace > 400 then none
  else if d.leadingPlace < -400 then some .zero
  else Magnitude.round d.fraction.1 d.fraction.2

/-- The nearest number; a fraction beyond all numbers becomes infinite. -/
def toBinary64 (negative : Bool) (d : Decimal) : Binary64 :=
  match d.toMagnitude with
  | some m => .finite negative m
  | none => .infinity negative

/-- The place of the first digit of `num / den`, for a fraction that is not zero. -/
def placeOf (num den : Nat) : Int :=
  if den ≤ num then digitCount (num / den)
  else -((List.range 400).countP fun k => num * Nat.pow 10 (k + 1) < den)

/-- The nearest of the decimal fractions with at most `digits` digits that read back as `m`. -/
def nearest? (m : Magnitude) (place : Int) (digits : Nat) : Option Decimal :=
  let exponent := place - digits
  let num := m.scaled * Nat.pow 10 (-exponent).toNat
  let den := Magnitude.unitsPerOne * Nat.pow 10 exponent.toNat
  let low : Decimal := ⟨num / den, exponent⟩
  let high : Decimal := ⟨num / den + 1, exponent⟩
  let twice := 2 * (num % den)
  let lowFirst := twice < den || (twice == den && low.coefficient % 2 == 0)
  let choices := if lowFirst then [low, high] else [high, low]
  choices.find? fun d => d.toMagnitude = some m

/-- The value of a magnitude, written in full. -/
def exact (m : Magnitude) : Decimal :=
  ⟨m.scaled * Nat.pow 5 1074, -1074⟩

/-- The shortest decimal fraction that reads back as `m`. -/
def shortest (m : Magnitude) : Decimal :=
  if m.significand = 0 then ⟨0, 0⟩
  else
    let place := placeOf m.scaled Magnitude.unitsPerOne
    ((List.range 17).findSome? fun k => nearest? m place (k + 1)).getD (exact m)

/-- The digits of a fraction without the zeros behind, and the place of the first. -/
def significantDigits (d : Decimal) : List Char × Int :=
  let digits := Nat.toDigits 10 d.coefficient
  let kept := (digits.reverse.dropWhile (· = '0')).reverse
  (if kept.isEmpty then ['0'] else kept, d.leadingPlace)

/-- An exponent of ten with its sign and at least two digits. -/
def exponentText (e : Int) : List Char :=
  let digits := Nat.toDigits 10 e.natAbs
  (if e < 0 then '-' else '+') :: (if digits.length < 2 then '0' :: digits else digits)

/-- A fraction in positional notation if its first digit stands between the fourth place behind
the point and the sixteenth before it, otherwise in scientific notation. Positional notation always
shows a digit behind the point. -/
def text (d : Decimal) : List Char :=
  let (digits, place) := d.significantDigits
  if -4 < place ∧ place ≤ 16 then
    if place ≤ 0 then '0' :: '.' :: (List.replicate (-place).toNat '0' ++ digits)
    else
      let whole := digits.take place.toNat
      let parts := digits.drop place.toNat
      whole ++ List.replicate (place.toNat - whole.length) '0' ++
        '.' :: (if parts.isEmpty then ['0'] else parts)
  else
    let point := if digits.length = 1 then [] else '.' :: digits.drop 1
    digits.take 1 ++ point ++ 'e' :: exponentText (place - 1)

end Decimal

/-- The numeral of a floating-point number: the shortest decimal fraction that reads back. -/
def Binary64.numeral : Binary64 → String
  | .nan => "nan"
  | .infinity negative => if negative then "-inf" else "inf"
  | .finite negative m =>
    String.ofList ((if negative then ['-'] else []) ++ (Decimal.shortest m).text)

end PassTrace

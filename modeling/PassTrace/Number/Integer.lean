import PassTrace.Number.Binary64
import PassTrace.Text.Blank
import PassTrace.Text.Digit
import PassTrace.Text.Quoted

/-!
# Integers from text and from floating-point numbers

A numeral may have blanks around it, one sign, digits of any script and single underscores between
digits. Numerals are read and written up to a fixed number of digits.
-/

namespace PassTrace

/-- Why a value has no integer. -/
inductive IntegerFault
  | notNumeral (text : String)
  | tooManyDigits (digits : Nat)
  /-- An integer whose numeral would have too many digits. -/
  | tooLong
  | notANumber
  | infinite
  deriving DecidableEq, Repr

/-- The greatest number of digits that is read or written. -/
def maxDigits : Nat := 4300

/-- The wording of a fault; of a text that is no numeral it shows at most two hundred
characters. -/
def IntegerFault.message : IntegerFault → String
  | .notNumeral text =>
    "invalid literal for int() with base 10: " ++
      String.ofList ((Text.quoted text).toList.take 200)
  | .tooManyDigits digits =>
    s!"Exceeds the limit ({maxDigits} digits) for integer string conversion: value has {digits}" ++
      " digits; use sys.set_int_max_str_digits() to increase the limit"
  | .tooLong =>
    s!"Exceeds the limit ({maxDigits} digits) for integer string conversion;" ++
      " use sys.set_int_max_str_digits() to increase the limit"
  | .notANumber => "cannot convert float NaN to integer"
  | .infinite => "cannot convert float infinity to integer"

/-- The number that a list of digits denotes, continuing a number already read. -/
def ofDigits (start : Nat) (digits : List Nat) : Nat :=
  digits.foldl (fun n d => 10 * n + d) start

namespace Numeral

/-- The blanks that may stand around a numeral: all but the information separators. -/
def isMargin (c : Char) : Bool :=
  Text.isBlank c && !(0x1c ≤ c.toNat && c.toNat ≤ 0x1f)

/-- The digits in front, with single underscores between them, and the rest. With `due` the text
must start with a digit, as it must at first and behind an underscore. -/
def digits (due : Bool) : List Char → Option (List Nat × List Char)
  | [] => if due then none else some ([], [])
  | c :: rest =>
    match Text.digitValue? c with
    | some d => (digits false rest).map fun (ds, tail) => (d :: ds, tail)
    | none =>
      if due then none
      else if c = '_' then digits true rest
      else some ([], c :: rest)

/-- The integer that a text denotes. -/
def read (text : String) : Except IntegerFault Int :=
  let body := text.toList.dropWhile isMargin
  let (negative, body) :=
    match body with
    | '-' :: rest => (true, rest)
    | '+' :: rest => (false, rest)
    | _ => (false, body)
  match digits true body with
  | none => .error (.notNumeral text)
  | some (ds, tail) =>
    if maxDigits < ds.length then .error (.tooManyDigits ds.length)
    else if (tail.dropWhile isMargin).isEmpty then
      let n := ofDigits 0 ds
      .ok (if negative then -(n : Int) else n)
    else .error (.notNumeral text)

/-- The numeral of an integer. -/
def write (n : Int) : Except IntegerFault String :=
  if maxDigits < (toString n.natAbs).length then .error .tooLong else .ok (toString n)

end Numeral

/-- The integer part of a number. -/
def Binary64.truncate : Binary64 → Except IntegerFault Int
  | .nan => .error .notANumber
  | .infinity _ => .error .infinite
  | .finite negative m => .ok ((Binary64.units negative m).tdiv Magnitude.unitsPerOne)

end PassTrace

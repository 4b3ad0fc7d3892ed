import PassTrace.Json.Basic

/-!
# Comparing JSON values

Numbers are compared with numbers, whatever their kind, where truth values count as one and zero;
strings are compared with strings and arrays with arrays. Other values have no order. The value that
is not a number equals nothing, but inside an array or an object it stands for itself: two that hold
it at the same place do not differ there.
-/

namespace PassTrace.Json

/-- A value that counts as a number. -/
inductive Number
  | int (value : Int)
  | float (value : Binary64)
  deriving DecidableEq

namespace Number

/-- Whether a number is less than another. -/
def less : Number → Number → Bool
  | int m, int n => m < n
  | int m, float y => Binary64.intLess m y
  | float x, int n => x.lessInt n
  | float x, float y => x.less y

/-- Whether two numbers are equal. -/
def equal : Number → Number → Bool
  | int m, int n => m = n
  | int m, float y => y.equalsInt m
  | float x, int n => x.equalsInt n
  | float x, float y => x.equal y

end Number

/-- The number that a value counts as. -/
def asNumber? : Json → Option Number
  | bool b => some (.int (if b then 1 else 0))
  | int n => some (.int n)
  | float x => some (.float x)
  | _ => none

/-- Whether neither of two values is a number although it counts as one. -/
def areNan : Json → Json → Bool
  | float .nan, float .nan => true
  | _, _ => false

mutual

/-- Whether two values are equal. The order of fields does not matter. -/
def equal : Json → Json → Bool
  | null, null => true
  | string s, string t => s = t
  | array items, array items' => equalItems items items'
  | object fields, object fields' =>
    fields.length = fields'.length && equalFields fields fields'
  | v, w =>
    match v.asNumber?, w.asNumber? with
    | some m, some n => m.equal n
    | _, _ => false

/-- Whether two lists of values do not differ at any place. -/
def equalItems : List Json → List Json → Bool
  | [], [] => true
  | v :: vs, w :: ws => (areNan v w || equal v w) && equalItems vs ws
  | _, _ => false

/-- Whether each field is there in a second list of fields and does not differ. -/
def equalFields : Fields → Fields → Bool
  | [], _ => true
  | (name, v) :: rest, fields =>
    (match Fields.get? fields name with
      | some w => areNan v w || equal v w
      | none => false) && equalFields rest fields

end

mutual

/-- Whether a value is less than another, if the two can be compared. -/
def less? : Json → Json → Option Bool
  | string s, string t => some (s < t)
  | array items, array items' => lessItems? items items'
  | v, w =>
    match v.asNumber?, w.asNumber? with
    | some m, some n => some (m.less n)
    | _, _ => none

/-- Whether a list of values is less than another: the first values that differ decide, or else the
lengths. -/
def lessItems? : List Json → List Json → Option Bool
  | [], [] => some false
  | [], _ :: _ => some true
  | _ :: _, [] => some false
  | v :: vs, w :: ws => if areNan v w || equal v w then lessItems? vs ws else less? v w

end

end PassTrace.Json

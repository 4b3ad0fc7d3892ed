import PassTrace.Number.Decimal

/-!
# JSON values

Numbers written with a fraction or an exponent are floating-point numbers, all others are integers
of any size. The fields of an object keep the order in which they were first put there.
-/

namespace PassTrace

/-- A JSON value. -/
inductive Json
  | null
  | bool (value : Bool)
  | int (value : Int)
  | float (value : Binary64)
  | string (value : String)
  | array (items : List Json)
  | object (fields : List (String × Json))
  deriving Inhabited

namespace Json

/-- The fields of an object: names with values, in order. -/
abbrev Fields := List (String × Json)

namespace Fields

/-- The value of a field. -/
def get? (fields : Fields) (name : String) : Option Json :=
  (fields.find? fun field => field.1 = name).map (·.2)

/-- The value of a field, where a field that is absent counts as `null`. -/
def get (fields : Fields) (name : String) : Json :=
  (fields.get? name).getD .null

/-- The fields with one set: in its place if it is there, otherwise at the end. -/
def set (name : String) (value : Json) : Fields → Fields
  | [] => [(name, value)]
  | field :: rest => if field.1 = name then (name, value) :: rest else field :: set name value rest

/-- The fields with those of a second list set in turn. -/
def merge (fields more : Fields) : Fields :=
  more.foldl (fun fs field => set field.1 field.2 fs) fields

end Fields

/-- The fields of an object, and none of any other value. -/
def fieldsOrNone : Json → Fields
  | object fields => fields
  | _ => []

/-- Whether a value is empty, zero, `false` or `null`. -/
def isVoid : Json → Bool
  | null => true
  | bool b => !b
  | int n => n = 0
  | float x => x.isZero
  | string s => s.isEmpty
  | array items => items.isEmpty
  | object fields => fields.isEmpty

/-- A list of strings as an array. -/
def strings (items : List String) : Json :=
  array (items.map string)

/-- The text of a string value. -/
def asString? : Json → Option String
  | string s => some s
  | _ => none

/-- The strings of an array that holds nothing else. -/
def asStrings? : Json → Option (List String)
  | array items => items.mapM asString?
  | _ => none

/-- The items of an array. -/
def asArray? : Json → Option (List Json)
  | array items => some items
  | _ => none

/-- The fields of an object. -/
def asObject? : Json → Option Fields
  | object fields => some fields
  | _ => none

/-- The number of an integer value. -/
def asInt? : Json → Option Int
  | int n => some n
  | _ => none

/-- A truth value. -/
def asBool? : Json → Option Bool
  | bool b => some b
  | _ => none

end Json
end PassTrace

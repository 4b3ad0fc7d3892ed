import PassTrace.Json.Basic
import PassTrace.Number.Integer

/-!
# The limits of writing JSON text

Arrays and objects are written down to a number of levels, as they are read, and integers up to a
number of digits. The first part of a value that is beyond a limit keeps the value from being
written.
-/

namespace PassTrace.Json

/-- Why a value is not written. -/
inductive WriteFault
  | tooDeep
  | badInteger (fault : IntegerFault)
  deriving DecidableEq, Repr

/-- The wording of a fault. -/
def WriteFault.message : WriteFault → String
  | .tooDeep => "maximum recursion depth exceeded while encoding a JSON object"
  | .badInteger fault => fault.message

mutual

/-- The first part of a value beyond a limit, where arrays and objects have at most `levels`
levels. -/
def writeFault? (levels : Nat) : Json → Option WriteFault
  | int n =>
    match Numeral.write n with
    | .error fault => some (.badInteger fault)
    | .ok _ => none
  | array items => if levels = 0 then some .tooDeep else itemsFault? (levels - 1) items
  | object fields => if levels = 0 then some .tooDeep else fieldsFault? (levels - 1) fields
  | null | bool _ | float _ | string _ => none

/-- The first part of the items of an array beyond a limit. -/
def itemsFault? (levels : Nat) : List Json → Option WriteFault
  | [] => none
  | item :: rest =>
    match writeFault? levels item with
    | some fault => some fault
    | none => itemsFault? levels rest

/-- The first part of the fields of an object beyond a limit. -/
def fieldsFault? (levels : Nat) : Fields → Option WriteFault
  | [] => none
  | (_, item) :: rest =>
    match writeFault? levels item with
    | some fault => some fault
    | none => fieldsFault? levels rest

end

end PassTrace.Json

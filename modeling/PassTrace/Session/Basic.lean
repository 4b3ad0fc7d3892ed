import PassTrace.Notice

/-!
# Sessions

A session is a pipeline with what is known of its origin: the source file, how it was compiled, when
the session was written and by which version of the tool. Sessions come from outside, so that the
date and the tool's version may be any values.
-/

namespace PassTrace

/-- What a session carries besides its pipeline. -/
structure Metadata where
  source : Json.Fields := []
  compilation : Json.Fields := []
  timestamp : Json := .null
  toolVersion : Json := .null
  version : Int := schemaVersion
  statistics : Json.Fields := []
  deriving Inhabited

/-- A pipeline with its origin. -/
structure Session where
  pipeline : Pipeline
  metadata : Metadata
  deriving Inhabited

/-- The version of the tool, as sessions and reports state it. -/
def toolVersion : String := "1.0.0"

/-- A computation that may fail and gives notices, kept last first. -/
abbrev Reporting := ExceptT Failure (StateM (List Notice))

namespace Reporting

/-- Gives a notice. -/
def notify (notice : Notice) : Reporting Unit :=
  modify (notice :: ·)

/-- Fails with damage unless a condition holds. -/
def require (condition : Bool) (damage : Damage) : Reporting Unit :=
  if condition then pure () else throw (.corrupt damage none)

/-- The value that there must be. -/
def need {α : Type} (damage : Damage) : Option α → Reporting α
  | some a => pure a
  | none => throw (.corrupt damage none)

end Reporting

/-- The value of a field as an integer: numbers lose their fraction, truth values count as one and
zero, and strings are read as numerals. -/
def Json.toInteger : Json → Except Failure Int
  | .int n => .ok n
  | .bool b => .ok (if b then 1 else 0)
  | .float x =>
    match x.truncate with
    | .ok n => .ok n
    | .error fault => .error (.integer fault)
  | .string s =>
    match Numeral.read s with
    | .ok n => .ok n
    | .error fault => .error (.integer fault)
  | .null | .array _ | .object _ => .error .wrongKind

namespace LineChange

/-- The change as fields. -/
def toFields (c : LineChange) : Json.Fields :=
  [("lines_before", .int c.before), ("lines_after", .int c.after), ("lines_changed", .int c.changed)]

/-- The integer in a field, which must be there. -/
def number (fields : Json.Fields) (name : String) : Except Failure Int :=
  match fields.get? name with
  | none => .error (.missingField name)
  | some value => value.toInteger

/-- The change that fields state. -/
def ofFields (fields : Json.Fields) : Except Failure LineChange := do
  let before ← number fields "lines_before"
  let after ← number fields "lines_after"
  let changed ← number fields "lines_changed"
  return ⟨before, after, changed⟩

/-- The change that a value states. -/
def ofJson : Json → Except Failure LineChange
  | .object fields => ofFields fields
  | _ => .error .wrongKind

end LineChange

namespace Counts

/-- The counts as fields. -/
def toFields (c : Counts) : Json.Fields :=
  Counter.all.map fun counter => (counter.name, .int (c.get counter))

/-- The counts that fields state, if there is an integer for each counter. -/
def ofFields? (fields : Json.Fields) : Option Counts :=
  if Counter.all.all fun counter => ((fields.get counter.name).asInt?).isSome then
    some (ofFunction fun counter => ((fields.get counter.name).asInt?).getD 0)
  else none

end Counts
end PassTrace

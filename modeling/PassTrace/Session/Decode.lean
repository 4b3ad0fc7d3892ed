import PassTrace.Json.Parser
import PassTrace.Session.Basic
import PassTrace.Session.Packing

/-!
# Reading sessions

A payload is read from a text or from bytes. What a session cannot do without must be there in the
right form, or the payload is damaged; what was computed from the pipeline is dropped if it is
malformed. The first pass that names an entry of the table carries its text, the later ones refer to
that pass.
-/

namespace PassTrace

/-- A payload as it is handed over. -/
inductive Payload
  | text (text : String)
  | bytes (bytes : Bytes)
  deriving DecidableEq, Inhabited

namespace Session

open Reporting (require need)

/-- The result of reading JSON, where a syntax fault is damage. -/
def ofParse : Except Json.Fault Json → Reporting Json
  | .ok v => pure v
  | .error (.badSyntax fault place) => throw (.corrupt (.badJson fault) place.position)
  | .error (.badInteger fault) => throw (.integer fault)
  | .error (.tooDeep kind) => throw (.tooDeep kind)

/-- The value that a payload denotes. -/
def readPayload : Payload → Reporting Json
  | .text text => ofParse (Json.parse text)
  | .bytes bytes =>
    match Text.decodeAny bytes with
    | .ok cs => ofParse (Json.parseUnmarked cs)
    | .error fault => throw (.corrupt (.badEncoding fault.reason) fault.start)

/-- Checks the version that a payload states. -/
def readVersion (found : Json) : Reporting Int := do
  match found with
  | .int n =>
    require (1 ≤ n) (.badVersion found)
    if schemaVersion < n then throw (.newerSchema n) else pure n
  | _ => throw (.corrupt (.badVersion found) none)

/-- The value that an entry of the table holds. -/
def unpackEntry (packed : String) : Except EntryFault Json :=
  match Packing.unpack packed with
  | .error fault => .error (.unpack fault)
  | .ok text =>
    match Json.parse text with
    | .error fault => .error (.json fault)
    | .ok v => .ok v

/-- The lines that an entry of the table holds. An entry that is nested too deeply is no damage. -/
def readEntry (key : String) (entry : Json) : Reporting Lines := do
  let packed ← need (.entryNotText key) entry.asString?
  match unpackEntry packed with
  | .error (.json (.tooDeep kind)) => throw (.tooDeep kind)
  | .error fault => throw (.corrupt (.entryUnreadable key fault) none)
  | .ok v => need (.entryNotLines key) v.asStrings?

/-- The texts of a payload by their keys. -/
abbrev TextTable := List (String × Lines)

/-- The text of a key. -/
def TextTable.get? (table : TextTable) (key : String) : Option Lines :=
  (table.find? fun entry => entry.1 = key).map (·.2)

/-- The table of a payload. -/
def readTable (fields : Json.Fields) : Reporting TextTable :=
  fields.mapM fun (key, entry) => return (key, ← readEntry key entry)

/-- The key of the initial text. -/
def initialKey : String := "0"

/-- What a pass ran on. A kind that is empty or missing is unknown, and a pass over the whole module
has no target. -/
def readScope (fields : Json.Fields) (position : Nat) : Reporting Scope := do
  let stated := fields.get "scope_type"
  let kind ←
    if stated.isVoid then pure ScopeKind.unknown
    else need (.badPass position (.unknownScope stated)) (stated.asString?.bind ScopeKind.ofName?)
  let target ←
    match fields.get "scope_target" with
    | .null => pure none
    | .string target => pure (some target)
    | _ => throw (.corrupt (.badPass position .badTarget) none)
  return ⟨kind, if kind = .module then none else target⟩

/-- The counts that a pass states; malformed ones are dropped. -/
def readCounts (fields : Json.Fields) (position : Nat) : Reporting (Option Counts) := do
  match fields.get "stats" with
  | .null => return none
  | stated =>
    match Counts.ofFields? stated.fieldsOrNone with
    | some counts => return some counts
    | none =>
      Reporting.notify (.malformedCounts position)
      return none

/-- Whether a failure to read a change is passed over. -/
def isPassedOver : Failure → Bool
  | .integer .infinite => false
  | _ => true

/-- The change that a pass states; a malformed one is dropped. -/
def readChange (fields : Json.Fields) (position : Nat) : Reporting (Option LineChange) := do
  match fields.get "diff_stats" with
  | .object stated =>
    match LineChange.ofFields stated with
    | .ok change => return some change
    | .error failure =>
      if isPassedOver failure then
        Reporting.notify (.malformedChange position)
        return none
      else throw failure
  | _ => return none

/-- How far the passes of a payload have been read. -/
structure Scan where
  /-- The passes read, last first. -/
  passes : List Pass
  /-- The keys met, with the index at which each was first met. -/
  firstAt : List (String × Nat)

/-- Reads one pass. -/
def readPass (table : TextTable) (s : Scan) (position : Nat) (entry : Json) : Reporting Scan := do
  let damage (d : PassDamage) : Damage := .badPass position d
  let fields ← need (damage .notObject) entry.asObject?
  let name? := (fields.get "name").asString?
  let changed? := (fields.get "changed").asBool?
  let key? := (fields.get "ir_ref").asString?
  let name ← need (damage .noName) name?
  let changed ← need (damage .noChangedFlag) changed?
  let key ← need (damage .noReference) key?
  let lines ← need (damage (.unknownEntry key)) (table.get? key)
  let (reference, firstAt) :=
    match s.firstAt.find? fun first => first.1 = key with
    | some (_, index) => (Reference.sameAs index, s.firstAt)
    | none => (Reference.inline lines, (key, position) :: s.firstAt)
  let scope ← readScope fields position
  let counts ← readCounts fields position
  let change ← readChange fields position
  let remarks := (fields.get "remarks").asArray?
  return ⟨{ name, scope, changed, reference, change, counts, remarks } :: s.passes, firstAt⟩

/-- Reads passes, the first of which has a position. -/
def readPasses (table : TextTable) (position : Nat) (s : Scan) : List Json → Reporting Scan
  | [] => return s
  | entry :: rest => do
    readPasses table (position + 1) (← readPass table s position entry) rest

/-- Whether a stated number of passes contradicts the number found. A value that is no integer
states nothing. -/
def contradicts (stated : Json) (found : Nat) : Bool :=
  match stated with
  | .int n => n ≠ found
  | .bool b => (if b then 1 else 0) ≠ found
  | _ => false

/-- What a payload carries besides its pipeline. -/
def readMetadata (fields part : Json.Fields) (version : Int) : Metadata where
  source := (fields.get "source").fieldsOrNone
  compilation := (fields.get "compilation").fieldsOrNone
  timestamp := fields.get "timestamp"
  toolVersion := fields.get "tool_version"
  version := version
  statistics :=
    (fields.get "metadata").fieldsOrNone.merge
      [("changed_count", part.get "changed_count"),
        ("unchanged_count", part.get "unchanged_count")]

/-- The session that a value denotes. -/
def ofJson (v : Json) : Reporting Session := do
  let fields ← need .notObject v.asObject?
  let version ← readVersion (fields.get "version")
  let part ← need .noPipeline (fields.get "pipeline").asObject?
  let rawTable ← need .noTable (part.get "ir_table").asObject?
  let rawPasses ← need .noPassList (part.get "passes").asArray?
  let table ← readTable rawTable
  let initial ← need .noInitialEntry (table.get? initialKey)
  let s ← readPasses table 1 ⟨[], [(initialKey, 0)]⟩ rawPasses
  let passes := s.passes.reverse
  let stated := part.get "total_passes"
  require (!contradicts stated passes.length) (.sizeMismatch stated passes.length)
  return ⟨⟨initial, passes⟩, readMetadata fields part version⟩

/-- The session of a payload. -/
def decode (payload : Payload) : Reporting Session := do
  ofJson (← readPayload payload)

end Session
end PassTrace

import PassTrace.Json.Parser
import PassTrace.Session.Basic
import PassTrace.Session.Packing

/-!
# Writing sessions

A payload holds each different text of a pipeline once, in a table; passes name the entry with the
text after them. The initial text has the first entry. The texts are numbered in the order in which
they are met.
-/

namespace PassTrace

/-- The texts of a pipeline up to some pass. -/
structure Interning where
  /-- The different texts, in order of their numbers. -/
  texts : List Lines
  /-- The number of the text at each index, from zero on. -/
  numbers : List Nat
  /-- The notices given, last first. -/
  notices : List Notice

namespace Interning

/-- The initial text alone. -/
def start (initial : Lines) : Interning :=
  ⟨[initial], [0], []⟩

/-- Takes up the text at the next index. -/
def addText (t : Interning) (lines : Lines) : Interning :=
  match t.texts.findIdx? (· = lines) with
  | some number => { t with numbers := t.numbers ++ [number] }
  | none => { t with texts := t.texts ++ [lines], numbers := t.numbers ++ [t.texts.length] }

/-- Takes up the next pass. A reference that leads nowhere stands for the empty text. -/
def addPass (t : Interning) (p : Pass) : Interning :=
  match p.reference with
  | .inline lines => t.addText lines
  | .sameAs target =>
    match if 0 ≤ target then t.numbers[target.toNat]? else none with
    | some number => { t with numbers := t.numbers ++ [number] }
    | none =>
      { t.addText [] with notices := .notSaved t.numbers.length target :: t.notices }

/-- The texts of a pipeline. -/
def ofPipeline (p : Pipeline) : Interning :=
  p.passes.foldl addPass (start p.initial)

end Interning

/-- The key of a text in the table. -/
def textKey (number : Nat) : String :=
  toString number

/-- A value, or `null` if there is none. -/
def Json.ofOption {α : Type} (f : α → Json) : Option α → Json
  | some a => f a
  | none => .null

/-- A pass in a payload, where its text has a number. -/
def Pass.entry (p : Pass) (number : Nat) : Json :=
  let optional {α : Type} (name : String) (value : Option α) (f : α → Json) : Json.Fields :=
    match value with
    | some a => [(name, f a)]
    | none => []
  .object <|
    [("name", .string p.name), ("scope_type", .string p.scope.kind.name),
      ("scope_target", Json.ofOption .string p.scope.target), ("changed", .bool p.changed),
      ("ir_ref", .string (textKey number))] ++
    optional "stats" p.counts (fun c => .object c.toFields) ++
    optional "diff_stats" p.change (fun c => .object c.toFields) ++
    optional "remarks" p.remarks .array

namespace Session

/-- The table of texts of a payload. -/
def tableFields (texts : List Lines) : Json.Fields :=
  (texts.zipIdx).map fun (lines, number) => (textKey number, .string (Packing.packLines lines))

/-- The passes of a payload. -/
def passEntries (p : Pipeline) (t : Interning) : List Json :=
  List.zipWith Pass.entry p.passes (t.numbers.drop 1)

/-- The payload of a pipeline that is saved at a time, with its origin. -/
def payload (now : Binary64) (p : Pipeline) (source compilation : Json.Fields) : Json :=
  let t := Interning.ofPipeline p
  .object [
    ("version", .int schemaVersion),
    ("tool_version", .string toolVersion),
    ("timestamp", .float now),
    ("source", .object source),
    ("compilation", .object compilation),
    ("pipeline", .object [
      ("ir_table", .object (tableFields t.texts)),
      ("passes", .array (passEntries p t)),
      ("total_passes", .int p.size),
      ("changed_count", .int p.changedCount),
      ("unchanged_count", .int (p.size - p.changedCount))]),
    ("metadata", .object [("total_ir_entries", .int t.texts.length)])]

/-- The notices given when a pipeline is saved, in order. -/
def payloadNotices (p : Pipeline) : List Notice :=
  (Interning.ofPipeline p).notices.reverse

/-- The text of a payload. A payload that is nested deeper than what is read is not written. -/
def encode (now : Binary64) (p : Pipeline) (source compilation : Json.Fields) :
    Except Failure String :=
  let v := payload now p source compilation
  match v.writeFault? Json.maxLevels with
  | some fault => .error (.notWritten fault)
  | none => .ok v.line

end Session
end PassTrace

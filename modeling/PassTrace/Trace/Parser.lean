import PassTrace.Text.Line
import PassTrace.Text.Utf8
import PassTrace.Trace.Header

/-!
# Reading a trace

The lines between two headers are the dump that the first of them announces. A dump at the start is
the initial text, the last one if there are several. A dump after a pass is the text that the pass
left; where it is omitted, the text is that of the last pass with a dump. Dumps before passes and
lines before the first header are discarded.
-/

namespace PassTrace.Trace

/-- What was met in a trace. -/
structure Tally where
  lines : Nat := 0
  headers : Nat := 0
  beforeHeaders : Nat := 0
  anomalies : Nat := 0
  discardedLines : Nat := 0
  deriving DecidableEq, Repr, Inhabited

/-- How far a trace has been read. -/
structure Scan where
  initial : Lines := []
  /-- The passes whose dumps are complete, last first. -/
  passes : List Pass := []
  /-- The index of the last pass with a dump, or zero. -/
  lastDumped : Nat := 0
  /-- The last header. -/
  header : Option Header := none
  /-- The lines since the last header, last first. -/
  body : Lines := []
  tally : Tally := {}

namespace Scan

/-- The pass that a header behind it announces, with the lines below that header. -/
def passOf (s : Scan) (h : Header) : Pass where
  name := h.pass
  scope := h.scope
  changed := !h.omitted
  reference := if h.omitted then .sameAs s.lastDumped else .inline s.body.reverse

/-- Closes the dump that the last header announced. -/
def close (s : Scan) : Scan :=
  let s' := { s with body := [] }
  match s.header with
  | some h =>
    match h.moment with
    | .start => { s' with initial := s.body.reverse }
    | .after =>
      { s' with
        passes := s.passOf h :: s.passes
        lastDumped := if h.omitted then s.lastDumped else s.passes.length + 1 }
    | .before => discard s'
  | none => discard s'
where
  /-- Counts the lines of the body as discarded. -/
  discard (s' : Scan) : Scan :=
    { s' with
      tally := { s.tally with discardedLines := s.tally.discardedLines + s.body.length } }

/-- Reads one line. -/
def step (s : Scan) (line : String) : Scan :=
  let s := { s with tally := { s.tally with lines := s.tally.lines + 1 } }
  match classify line with
  | .text => { s with body := line :: s.body }
  | .anomaly =>
    { s with
      body := line :: s.body
      tally := { s.tally with anomalies := s.tally.anomalies + 1 } }
  | .header h =>
    let s := s.close
    { s with
      header := some h
      tally :=
        { s.tally with
          headers := s.tally.headers + 1
          beforeHeaders := s.tally.beforeHeaders + if h.moment = .before then 1 else 0 } }

/-- The pipeline read so far. -/
def pipeline (s : Scan) : Pipeline :=
  ⟨s.initial, s.passes.reverse⟩

end Scan

/-- The pipeline that the lines of a trace describe, and what was met in them. -/
def readLines (lines : Lines) : Pipeline × Tally :=
  let s := (lines.foldl Scan.step {}).close
  (s.pipeline, s.tally)

/-- The pipeline that a trace describes, and what was met in it. -/
def read (text : String) : Pipeline × Tally :=
  readLines (Text.lines text)

/-- The text of a trace file. Bytes that are not UTF-8 are shown as replacement characters, and
every line ends with a line feed. -/
def textOfBytes (bytes : Bytes) : String :=
  String.ofList (Text.unifyLineFeeds (Text.decodeUtf8Lenient bytes))

end PassTrace.Trace

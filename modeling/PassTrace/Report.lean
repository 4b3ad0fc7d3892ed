import PassTrace.Job

/-!
# Reports

Texts and files that show a pipeline: a summary, a list of passes that follows the folds of the
groups, the view of one pass, tables of counts, and a report of all passes.
-/

namespace PassTrace

/-- A text with spaces in front up to a width. -/
def padLeft (width : Nat) (text : String) : String :=
  String.ofList (List.replicate (width - text.length) ' ') ++ text

namespace Report

/-- The numbers that sum up a pipeline. -/
structure Summary where
  passes : Nat
  changed : Nat
  groups : Nat
  collapsed : Nat
  initialLines : Nat
  deriving DecidableEq, Repr

/-- Whether a group is a collapsed one. -/
def isCollapsed (g : Group) : Bool :=
  match g.content with
  | .standalone _ => false
  | .collapsed _ => true

/-- The summary of what an inspector holds. -/
def Summary.of (i : Inspector) : Summary where
  passes := i.pipeline.size
  changed := i.pipeline.changedCount
  groups := i.groups.length
  collapsed := i.groups.countP isCollapsed
  initialLines := i.pipeline.initial.length

/-- The summary as fields. -/
def Summary.toFields (s : Summary) : Json.Fields :=
  [("total_passes", .int s.passes), ("changed_passes", .int s.changed),
    ("unchanged_passes", .int (s.passes - s.changed)), ("total_groups", .int s.groups),
    ("collapsed_groups", .int s.collapsed), ("initial_snapshot_lines", .int s.initialLines)]

/-- A pass in a report. -/
def passEntry (index : Nat) (p : Pass) : Json :=
  .object [
    ("index", .int index),
    ("name", .string p.name),
    ("scope", .string p.scope.kind.name),
    ("target", Json.ofOption .string p.scope.target),
    ("changed", .bool p.changed),
    ("diff_stats", Json.ofOption (fun c => .object c.toFields) p.change)]

/-- The report of all passes, made at a date. -/
def document (date : DateTime) (i : Inspector) : Json :=
  .object [
    ("report_info", .object [
      ("timestamp", .string date.isoText),
      ("tool_version", .string toolVersion),
      ("report_type", .string "llvm_pipeline")]),
    ("summary", .object (Summary.of i).toFields),
    ("source", .object i.metadata.source),
    ("passes", .array ((i.pipeline.passes.zipIdx 1).map fun (p, index) => passEntry index p))]

/-- The line that separates parts of the summary. -/
def rule : String :=
  String.ofList (List.replicate 60 '=')

/-- The title of the pass at an index. -/
def titleAt (p : Pipeline) (index : Nat) : String :=
  ((p.pass? index).map Pass.title).getD ""

/-- The lines of the summary. -/
def summaryLines (i : Inspector) : Lines :=
  let s := Summary.of i
  let changes :=
    match i.pipeline.firstChanged, i.pipeline.lastChanged with
    | some first, some last =>
      ["", "CHANGED RANGE:",
        s!"   First: #{first} {titleAt i.pipeline first}",
        s!"   Last:  #{last} {titleAt i.pipeline last}"]
    | _, _ => ["", "NO PASS CHANGED THE IR"]
  let file := i.metadata.source.get "file"
  let source := if file.isVoid then [] else ["", s!"SOURCE: {file.plain}"]
  ["", rule, "LLVM OPTIMIZATION PIPELINE", rule, "SUMMARY:",
    s!"   Passes:           {s.passes}",
    s!"   Changed:          {s.changed}",
    s!"   Unchanged:        {(s.passes - s.changed : Int)}",
    s!"   Groups:           {s.groups} ({s.collapsed} collapsed)",
    s!"   Initial IR lines: {s.initialLines}"] ++
    changes ++ source ++ [rule, ""]

/-- A mark, or a space in its place. -/
def markIf (condition : Bool) (mark : String) : String :=
  if condition then mark else " "

/-- The row of a list of passes. -/
def rowLine (p : Pipeline) (width : Nat) (current : Option Int) (row : Group × Option Member) :
    String :=
  let isCurrent (index : Nat) : Bool := current = some (index : Int)
  let head (selected changed : Bool) (number : String) : String :=
    markIf selected ">" ++ markIf changed "*" ++ padLeft width number
  match row.1.content, row.2 with
  | .standalone index, _ =>
    let tag := ((p.pass? index).map fun pass => pass.scope.kind.tag).getD ""
    head (isCurrent index) (Group.changedAt p index) (toString row.1.place) ++
      s!". [{tag}] {titleAt p index}"
  | .collapsed g, none =>
    let icon := if g.folded then "+" else "-"
    head (g.members.any fun m => isCurrent m.index) g.hasChanges (toString row.1.place) ++
      s!". {icon} [{g.kind.tag}] {g.pass} ({g.members.length} functions)"
  | .collapsed _, some m =>
    let target := m.target.getD ""
    let label := if target.isEmpty then titleAt p m.index else target
    head (isCurrent m.index) (Group.changedAt p m.index) "" ++ s!"    #{m.index} {label}"

/-- The list of passes: a row for each group and, where it is unfolded, for each of its passes. The
current pass is marked, and so are passes and groups that changed something. -/
def passList (i : Inspector) (current : Option Int) : Lines :=
  let width := if i.groups.isEmpty then 1 else (toString i.groups.length).length
  s!"Optimization Pipeline ({i.pipeline.size} passes, {i.groups.length} groups)" :: "" ::
    (Group.rows i.groups).map (rowLine i.pipeline width current)

end Report

namespace Inspection

open Report

/-- The lines that show one pass: its counts, what the texts before and after it are called, and
their diff. -/
def passView (index context : Int) : Inspection Lines := do
  let v ← view index
  match (← inspector).pipeline.pass? index with
  | none => return [s!"No pass at index {index}"]
  | some pass =>
    let head := [
      ← countsLine index,
      s!"Before: {v.beforeName} ({v.change.before} lines)",
      s!"After:  {v.afterName} ({v.change.after} lines)"]
    if pass.changed then
      return head ++ [s!"Lines changed: {v.change.changed}", ""] ++ (← diff index context)
    else return head ++ ["Pass did not change the IR"]

/-- The lines that show the counts of all passes, which are computed for it. -/
def countsTable : Inspection Lines := do
  complete .counts
  let p := (← inspector).pipeline
  let initial := Ir.count p.initial
  let text := Id.run (Ir.shortText fun c => pure (initial.get c))
  let rows ← (List.range' 1 p.size).mapM fun (index : Nat) => countsLine index
  return s!"Initial: {text}" :: rows

/-- The report of all passes. -/
def report : Inspection Json := do
  return document (← (Operation.date : Operation DateTime)) (← inspector)

/-- Writes a file, where a fault gives a notice and is a failure. -/
def writeOrNotify (notice : FileFault → Notice) (p : Path) (text : String) : Operation Unit := do
  match ← Operation.writeBelow p (Text.utf8 text) with
  | .ok () => return ()
  | .error fault =>
    Operation.notify (notice fault)
    throw (.file fault)

/-- Writes the report of all passes to a file. -/
def saveReport (p : Path) : Inspection Unit := do
  let value ← report
  writeOrNotify .reportNotWritten p value.document

/-- The head of a diff file. -/
def diffFileHead : String :=
  "LLVM Pipeline Pass Diff\n=======================\n\n"

/-- The number of lines shown around a change. -/
def defaultContext : Int := 3

/-- The date for a diff file. A time that the system's calendar cannot tell gives a notice. -/
def diffDate : Operation DateTime := do
  try Operation.date
  catch failure =>
    if failure.concernsSystem then Operation.notify (.diffNotWritten failure)
    throw failure

/-- Writes the view of a pass to a file. It is written bit by bit, since what comes next may fail:
first the head, then the date, then the view. -/
def saveDiff (index : Int) (p : Path) : Inspection Unit := do
  let put (text : String) : Operation Unit :=
    writeOrNotify (fun fault => .diffNotWritten (.file fault)) p text
  put diffFileHead
  let head := diffFileHead ++ s!"Generated: {(← (diffDate : Operation DateTime)).isoText}\n\n"
  put head
  let lines ← passView index defaultContext
  put (head ++ String.join (lines.map (· ++ "\n")))

end Inspection
end PassTrace

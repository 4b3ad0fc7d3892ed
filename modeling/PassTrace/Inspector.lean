import PassTrace.Batch
import PassTrace.Group
import PassTrace.Navigation
import PassTrace.Session.File
import PassTrace.Trace.Parser
import PassTrace.View

/-!
# The inspector

An inspector holds one pipeline with everything derived from it, and answers questions about it. A
pipeline is loaded as a whole: what was derived from the one before goes with it. Only a job that is
under way stays with the pipeline it was started on.
-/

namespace PassTrace

/-- What a job computes for each pass. -/
inductive Task
  /-- How many lines change. -/
  | changes
  /-- The counts of the text after it. -/
  | counts
  deriving DecidableEq, Repr, Inhabited

/-- Work on the passes of a pipeline. -/
structure Job where
  task : Task
  /-- The size of the chunks as it was asked for. -/
  chunkSize : Json.Number
  schedule : Schedule
  /-- The resolver of the job's pipeline, if another pipeline was loaded since. -/
  replaced : Option Resolver := none

/-- A pipeline under inspection. -/
structure Inspector where
  config : Config
  resolver : Resolver
  metadata : Metadata
  groups : List Group
  job : Option Job := none

/-- An operation on an inspector that acts on the world. -/
abbrev Inspection := ExceptT Failure (StateM (Inspector × World))

namespace Inspection

/-- An operation on the world alone. -/
def ofOperation {α : Type} (operation : Operation α) : Inspection α :=
  ExceptT.mk fun (i, w) =>
    let (result, w) := operation.run.run w
    (result, (i, w))

instance : MonadLift Operation Inspection := ⟨ofOperation⟩

/-- The inspector. -/
def inspector : Inspection Inspector :=
  ExceptT.mk fun (i, w) => (.ok i, (i, w))

/-- Changes the inspector. -/
def modifyInspector (f : Inspector → Inspector) : Inspection Unit :=
  ExceptT.mk fun (i, w) => (.ok (), (f i, w))

/-- Looks at a pipeline through a resolver, and returns the resolver too. -/
def lookThrough {α : Type} (r : Resolver) (look : Viewing α) : Inspection (α × Resolver) := do
  let (a, desk) := look.run ⟨r, []⟩
  ofOperation (Operation.notifyAll desk.notices.reverse)
  return (a, desk.resolver)

/-- Looks at the inspector's pipeline. -/
def look {α : Type} (look : Viewing α) : Inspection α := do
  let (a, resolver) ← lookThrough (← inspector).resolver look
  modifyInspector fun i => { i with resolver }
  return a

end Inspection

namespace Inspector

/-- The pipeline that is inspected. -/
def pipeline (i : Inspector) : Pipeline :=
  i.resolver.pipeline

/-- An inspector of a pipeline. -/
def ofPipeline (config : Config) (p : Pipeline) (metadata : Metadata := {}) : Inspector where
  config := config
  resolver := .new p
  metadata := metadata
  groups := Group.ofPipeline p

/-- An inspector of the empty pipeline. -/
def new (config : Config) : Inspector :=
  ofPipeline config {}

/-- The job when another pipeline is loaded: it keeps the one it was started on. -/
def jobAside (i : Inspector) : Option Job :=
  i.job.map fun job => { job with replaced := some (job.replaced.getD i.resolver) }

/-- The inspector with another pipeline. -/
def install (i : Inspector) (p : Pipeline) (metadata : Metadata := {}) : Inspector :=
  { ofPipeline i.config p metadata with job := i.jobAside }

/-- The inspector with the resolver's memory cleared. -/
def clear (i : Inspector) : Inspector :=
  { i with resolver := i.resolver.clear }

/-- The inspector with the group at a position folded or unfolded. Negative positions count from the
end. -/
def toggleFold (i : Inspector) (position : Int) : Except Failure (Inspector × Bool) :=
  let place := (if position < 0 then position + i.groups.length else position)
  if place < 0 then .error .outsideList
  else
    match i.groups[place.toNat]? with
    | none => .error .outsideList
    | some group =>
      let group := group.toggle
      .ok ({ i with groups := i.groups.set place.toNat group }, group.isFolded)

/-- The inspector with all groups folded, or all unfolded. -/
def foldAll (i : Inspector) (folded : Bool) : Inspector :=
  { i with groups := i.groups.map (Group.setFolded folded) }

end Inspector

namespace Inspection

open Inspector

/-- Installs a pipeline. -/
def install (p : Pipeline) (metadata : Metadata := {}) : Inspection Unit :=
  modifyInspector fun i => i.install p metadata

/-- Loads the pipeline that the text of a trace describes. -/
def loadTrace (text : String) : Inspection Trace.Tally := do
  let (p, tally) := Trace.read text
  install p
  return tally

/-- Loads the pipeline that a trace file describes. -/
def loadTraceFile (p : Path) : Inspection Trace.Tally := do
  let bytes ← (do Operation.orFail .file (← Operation.contents p) : Operation Bytes)
  loadTrace (Trace.textOfBytes bytes)

/-- Loads the session of a payload. -/
def loadPayload (payload : Payload) : Inspection Unit := do
  let s ← Operation.report (Session.decode payload)
  install s.pipeline s.metadata

/-- How the source file of a session departs from its record; there is a notice if it does. -/
def checkDrift (m : Metadata) : Operation (Option Drift) := do
  match SourceFile.drift (← get).files m with
  | .error failure => throw failure
  | .ok none => return none
  | .ok (some drift) =>
    Operation.notify (.drift drift)
    return some drift

/-- Loads a session file. The drift of its source file, if any, is returned. -/
def loadSession (p : Path) : Inspection (Option Drift) := do
  let s ← Session.loadFile p
  install s.pipeline s.metadata
  checkDrift s.metadata

/-- Saves the pipeline to a file, with the record of a source file if one is named, and otherwise
with that of the session loaded. -/
def saveSession (p : Path) (source : Option Path) (compilation : Json.Fields) :
    Inspection Nat := do
  let i ← inspector
  let record ← (match source with
    | some source => SourceFile.record source
    | none => pure i.metadata.source : Operation Json.Fields)
  let compilation := if compilation.isEmpty then i.metadata.compilation else compilation
  Session.saveFile p i.pipeline record compilation

/-- The view of a pass. -/
def view (index : Int) : Inspection View := do
  look (View.ofPass (← inspector).config.stripDebugInfo index)

/-- The line with the counts of a pass. -/
def countsLine (index : Int) : Inspection String := do
  match ← look (View.countsLine index) with
  | .ok line => return line
  | .error fault => throw (.integer fault)

/-- The unified diff of a pass. -/
def diff (index context : Int) : Inspection Lines :=
  return (← view index).diff context

end Inspection
end PassTrace

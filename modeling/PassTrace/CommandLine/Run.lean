import PassTrace.CommandLine.Options
import PassTrace.Report
import PassTrace.Store.Basic

/-!
# Runs of the program

A run loads a trace or a session and does what the options ask for, in a fixed order. It ends with
an exit code, or with a failure for which there is none.
-/

namespace PassTrace.CommandLine

/-- How a run ends. -/
inductive Outcome
  /-- The options ended it. -/
  | usage (ending : Ending)
  | exit (code : Nat)
  deriving DecidableEq, Repr

/-- The exit code of a run that was given something it cannot use. -/
def badInput : Nat := 2

/-- The exit code of a run that the system stopped. -/
def stopped : Nat := 1

/-- Shows a line to the user. -/
def print (text : String) : Inspection Unit :=
  Operation.print text

/-- Shows several lines to the user. -/
def printAll (lines : Lines) : Inspection Unit :=
  lines.forM print

/-- A step of a run. It yields an exit code if it ends the run. -/
abbrev RunStep := Inspection (Option Nat)

/-- Does the steps in turn, until one ends the run. -/
def inTurn : List RunStep → Inspection Nat
  | [] => return 0
  | step :: rest => do
    match ← step with
    | some code => return code
    | none => inTurn rest

/-- Ends the run with an error. -/
def reject (text : String) : RunStep := do
  print s!" Error: {text}"
  return some badInput

/-- A step that does not end the run. -/
def goOn (step : Inspection Unit) : RunStep := do
  step
  return none

/-- A step for the number of an option, if it is given. -/
def withNumber (number : Option (Argument Int)) (step : Int → RunStep) : RunStep :=
  match number with
  | none => return none
  | some .dashes => throw .wrongKind
  | some (.value n) => step n

/-- A text that is given and not empty. -/
def nonempty? (text : Option (Argument String)) : Option String :=
  (text.bind Argument.value?).filter fun text => !text.isEmpty

/-- A step for the text of an option, if it is given and not empty. -/
def withText (text : Option (Argument String)) (step : String → RunStep) : RunStep :=
  match nonempty? text with
  | none => return none
  | some text => step text

/-- Loads the trace or the session. -/
def load (o : Options) : RunStep := do
  match nonempty? o.trace with
  | some text =>
    let p := Path.ofString text
    let present ← (do Operation.orFail .file (← Operation.askFiles (·.has p)) : Operation Bool)
    if present then
      let _ ← Inspection.loadTraceFile p
      return none
    else reject s!"trace file not found: {text}"
  | none =>
    match o.session with
    | some (.value text) =>
      let _ ← Inspection.loadSession (Path.ofString text)
      return none
    | _ => throw .wrongKind

/-- Sums up the pipeline. -/
def summarize : Inspection Unit := do
  let i ← Inspection.inspector
  if i.pipeline.size = 0 then print " Warning: no passes found in input"
  if !i.config.quiet then printAll (Report.summaryLines i)

/-- Lists the passes. -/
def listPasses (o : Options) : Inspection Unit := do
  if o.has .list then printAll (Report.passList (← Inspection.inspector) (o.shown.bind Argument.value?))

/-- Shows a pass. -/
def showPass (index : Int) : RunStep := do
  let p := (← Inspection.inspector).pipeline
  if (p.pass? index).isNone then reject s!"pass {index} out of range 1..{p.size}"
  else
    printAll (← Inspection.passView index Inspection.defaultContext)
    return none

/-- Shows the first changed pass behind an index. -/
def showNext (index : Int) : Inspection Unit := do
  match (← Inspection.inspector).pipeline.nextChanged index with
  | some found => print (toString found)
  | none => print "none"

/-- Shows the counts of all passes. -/
def showCounts (o : Options) : Inspection Unit := do
  if o.has .stats then printAll (← Inspection.countsTable)

/-- Writes a report. -/
def writeReport (file : String) : Inspection Unit := do
  Inspection.complete .changes
  Inspection.saveReport (Path.ofString file)
  if !(← Inspection.inspector).config.quiet then print s!"Report written to: {file}"

/-- Saves the pipeline as a session. -/
def saveSession (o : Options) (file : String) : Inspection Unit := do
  let p := Path.ofString file
  let size ← Inspection.saveSession p ((nonempty? o.sourceFile).map Path.ofString) []
  if !(← Inspection.inspector).config.quiet then Operation.display (.saved p.toString size)

/-- Saves the pipeline in the store. -/
def storeSession (s : Store) (source : String) : RunStep := do
  let i ← Inspection.inspector
  try
    let path ← s.save i.pipeline source i.metadata.compilation none
    if !i.config.quiet then print s!"Session stored at: {path.toString}"
    return none
  catch failure =>
    if failure.concernsValue then reject failure.message else throw failure

/-- Lists the sessions in the store. -/
def listStored (s : Store) (source : String) : Inspection Unit := do
  let rows ← s.listing source
  rows.forM fun row => do print (← Store.orThrow row)

/-- Saves into the store and lists what it holds. -/
def useStore (o : Options) : RunStep := do
  if !o.has .store && !o.has .listSessions then return none
  match nonempty? o.sourceFile with
  | none => reject "--store and --list-sessions need --source-file"
  | some source =>
    let config := (← Inspection.inspector).config
    let s : Store := ⟨Path.ofString config.sessionDirectory, config⟩
    if o.has .store then
      if let some code ← storeSession s source then return some code
    if o.has .listSessions then listStored s source
    return none

/-- Does what the options ask for. -/
def work (o : Options) : Inspection Nat :=
  inTurn [
    load o,
    goOn summarize,
    goOn (listPasses o),
    withNumber o.shown showPass,
    withNumber o.nextChanged fun n => goOn (showNext n),
    goOn (showCounts o),
    withText o.report fun file => goOn (writeReport file),
    withText o.save fun file => goOn (saveSession o file),
    useStore o]

/-- Starts the log file, if there is to be one. -/
def startLog (o : Options) : Operation Unit := do
  match nonempty? o.logFile with
  | none => return ()
  | some text =>
    let p := Path.ofString text
    Operation.orFail .file (← Operation.makeParents p)
    let resolved := (← get).files.resolve p
    Operation.orFail .file (← Operation.writeFile resolved [])

/-- Does what the options ask for, where failures that concern sessions or the system end the run
with a message. -/
def workOrReport (o : Options) : Inspection Nat := do
  try work o
  catch failure =>
    if failure.concernsSession then
      print s!" Session error: {failure.message}"
      return badInput
    else if failure.concernsSystem then
      print s!" Fatal error: {failure.message}"
      return stopped
    else throw failure

/-- A run of the program with some arguments. -/
def run (arguments : List String) : Operation Outcome := do
  match readOptions arguments with
  | .error ending => return .usage ending
  | .ok o =>
    startLog o
    let (result, (_, w)) := (workOrReport o).run.run (.new o.config, ← get)
    set w
    match result with
    | .ok code => return .exit code
    | .error failure => throw failure

end PassTrace.CommandLine

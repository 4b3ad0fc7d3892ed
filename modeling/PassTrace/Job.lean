import PassTrace.Inspector

/-!
# Jobs of an inspector

A job computes something for each pass of the pipeline it was started on and writes it into the
passes. Its chunks should have a whole number of passes. If their size is a floating-point number,
there is an end only for a chunk that takes up all passes that are left.
-/

namespace PassTrace

/-- Computes what a task asks for a pass, and writes it into the pass. -/
def Task.run (task : Task) (stripDebugInfo : Bool) (index : Nat) : Viewing Unit := do
  match task with
  | .changes =>
    let view ← View.ofPass stripDebugInfo index
    write fun p => { p with change := some view.change }
  | .counts =>
    let counts := Ir.count (← Viewing.textAfter index)
    write fun p => { p with counts := some counts }
where
  /-- Changes the pass. -/
  write (f : Pass → Pass) : Viewing Unit :=
    modify fun d =>
      { d with resolver := { d.resolver with pipeline := d.resolver.pipeline.modifyPass index f } }

namespace Schedule

/-- A schedule for a number of passes with chunks of a positive size, or with one chunk. -/
def ofSize (total : Nat) (chunkSize : Json.Number) : Schedule :=
  let count :=
    match chunkSize with
    | .int n => n.toNat
    | .float _ => total
  ⟨total, max 1 count, 0, false, Nat.lt_of_lt_of_le Nat.one_pos (Nat.le_max_left 1 count)⟩

/-- Whether there is an end for the next chunk, if chunks have a size. -/
def hasEnd (s : Schedule) : Json.Number → Bool
  | .int _ => true
  | .float size =>
    let number (n : Nat) : Binary64 := .ofFraction false n 1
    Binary64.intLess s.total (((number (s.done + 1)).add size).sub (number 1))

end Schedule

namespace Job

/-- A job on a number of passes. -/
def new (task : Task) (chunkSize : Json.Number) (total : Nat) : Job where
  task := task
  chunkSize := chunkSize
  schedule := .ofSize total chunkSize

/-- Whether a chunk can be worked on. -/
def canRun (job : Job) : Bool :=
  job.schedule.hasEnd job.chunkSize

/-- Work on one pass, which does not fail. -/
def work (job : Job) (stripDebugInfo : Bool) (index : Nat) : Viewing (Except Empty Unit) := do
  job.task.run stripDebugInfo index
  return .ok ()

end Job

namespace Inspection

/-- The size of the chunks of a task. -/
def configured (config : Config) : Task → Json.Number
  | .changes => config.chunkSize
  | .counts => config.countsChunkSize

/-- The size of the chunks of a task, if another than the configured one may be asked for. Where
changes are computed a void size asks for the configured one. -/
def chunkSizeFor (config : Config) (task : Task) (asked : Option Json) :
    Except SettingFault Json.Number :=
  match task, asked with
  | _, none => .ok (configured config task)
  | .changes, some size =>
    if size.isVoid then .ok (configured config task) else Settings.chunkSize "chunk_size" size
  | .counts, some size => Settings.chunkSize "chunk_size" size

/-- Starts a job. -/
def startJob (task : Task) (chunkSize : Option Json) : Inspection Unit := do
  let i ← inspector
  match chunkSizeFor i.config task chunkSize with
  | .error fault => throw (.ofSetting fault)
  | .ok size => modifyInspector fun i => { i with job := some (.new task size i.pipeline.size) }

/-- The job, which must have been started. -/
def currentJob : Inspection Job := do
  match (← inspector).job with
  | some job => return job
  | none => throw .lacksOperation

/-- Looks at the pipeline of a job. The job is put back with what the look changed. -/
def lookForJob {α : Type} (job : Job) (look : Viewing (α × Schedule)) : Inspection α := do
  let i ← inspector
  let ((a, schedule), resolver) ← lookThrough (job.replaced.getD i.resolver) look
  match job.replaced with
  | some _ =>
    modifyInspector fun i => { i with job := some { job with schedule, replaced := some resolver } }
  | none => modifyInspector fun i => { i with resolver, job := some { job with schedule } }
  return a

/-- Works on the next chunk of the job. -/
def runChunk : Inspection Unit := do
  let job ← currentJob
  if !job.canRun then throw .wrongKind
  let work := job.work (← inspector).config.stripDebugInfo
  lookForJob job do
    let (schedule, _) ← job.schedule.runChunk work
    return ((), schedule)

/-- Works on the chunks of the job that are left. After each chunk `stop` is asked, with the number
of chunks so far, whether to stop. -/
def runJob (stop : Nat → Bool := fun _ => false) : Inspection (List Progress) := do
  let job ← currentJob
  if !job.schedule.isComplete && !job.canRun then throw .wrongKind
  let work := job.work (← inspector).config.stripDebugInfo
  lookForJob job do
    let run ← job.schedule.resume work stop
    return (run.reports, run.schedule)

/-- Stops the job before its next chunk. -/
def cancelJob : Inspection Unit := do
  let job ← currentJob
  modifyInspector fun i => { i with job := some { job with schedule := job.schedule.cancel } }

/-- Computes what a task asks for every pass, apart from the job under way. -/
def complete (task : Task) : Inspection Unit := do
  let i ← inspector
  let size := i.pipeline.size
  let job : Job := .new task (configured i.config task) size
  if size ≠ 0 && !job.canRun then throw .wrongKind
  look ((List.range' 1 size).forM fun index => task.run i.config.stripDebugInfo index)

end Inspection
end PassTrace

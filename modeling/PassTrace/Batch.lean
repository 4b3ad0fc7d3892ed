import PassTrace.Pipeline

/-!
# Work in batches

Work on many passes is done a chunk at a time, so that it can be shown, stopped and taken up again.
A schedule says how far the work has come. Work on a pass may fail; the passes before it stay done,
and the work is taken up again at the one that failed.
-/

namespace PassTrace

/-- How far work on passes has come. -/
structure Schedule where
  total : Nat
  chunkSize : Nat
  /-- The number of passes that are done: those from the first on. -/
  done : Nat := 0
  cancelled : Bool := false
  chunkSize_pos : 0 < chunkSize
  deriving DecidableEq, Repr

/-- What is reported of work under way. -/
structure Progress where
  done : Nat
  total : Nat
  deriving DecidableEq, Repr, Inhabited

/-- Whether all is done. -/
def Progress.isComplete (p : Progress) : Bool :=
  p.total ≤ p.done

namespace Schedule

/-- Whether all is done. -/
def isComplete (s : Schedule) : Bool :=
  s.total ≤ s.done

/-- How far the work has come. -/
def progress (s : Schedule) : Progress :=
  ⟨s.done, s.total⟩

/-- The schedule stopped before its next chunk. -/
def cancel (s : Schedule) : Schedule :=
  { s with cancelled := true }

/-- The schedule with a cancellation taken back. -/
def uncancel (s : Schedule) : Schedule :=
  { s with cancelled := false }

/-- The number of passes in the next chunk. -/
def nextSize (s : Schedule) : Nat :=
  min s.chunkSize (s.total - s.done)

/-- The schedule with one more pass done. -/
def advance (s : Schedule) : Schedule :=
  { s with done := s.done + 1 }

variable {m : Type → Type} [Monad m] {ε : Type}

/-- Works on the next `count` passes, up to the first that fails. -/
def workOn (work : Nat → m (Except ε Unit)) : Nat → Schedule → m (Schedule × Option ε)
  | 0, s => return (s, none)
  | count + 1, s => do
    match ← work (s.done + 1) with
    | .ok () => workOn work count s.advance
    | .error fault => return (s, some fault)

/-- Works on the next chunk. -/
def runChunk (work : Nat → m (Except ε Unit)) (s : Schedule) : m (Schedule × Option ε) :=
  workOn work s.nextSize s

/-- What an iteration comes to when it is asked for its next chunk. -/
inductive Pull (ε : Type)
  /-- All is done, or the work was cancelled. -/
  | ended
  | reported (progress : Progress)
  | failed (fault : ε)

/-- Works on the next chunk of an iteration, unless all is done or the work was cancelled. -/
def pull (work : Nat → m (Except ε Unit)) (s : Schedule) : m (Schedule × Pull ε) := do
  if s.isComplete || s.cancelled then return (s, .ended)
  else
    let (s, failure) ← runChunk work s
    match failure with
    | some fault => return (s, .failed fault)
    | none => return (s, .reported s.progress)

/-- What came of a run of chunks: the schedule, the progress after each chunk, and the failure that
ended it. -/
structure Run (ε : Type) where
  schedule : Schedule
  reports : List Progress
  failure : Option ε

/-- Works on chunks until all is done, a failure occurs, or the work is cancelled, but on no more
than `fuel` of them. After each chunk `stop` is asked, with the number of reports, whether to
cancel. -/
def runChunks (work : Nat → m (Except ε Unit)) (stop : Nat → Bool) :
    Nat → List Progress → Schedule → m (Run ε)
  | 0, reports, s => return ⟨s, reports.reverse, none⟩
  | fuel + 1, reports, s => do
    match ← pull work s with
    | (s, .ended) => return ⟨s, reports.reverse, none⟩
    | (s, .failed fault) => return ⟨s, reports.reverse, some fault⟩
    | (s, .reported progress) =>
      let reports := progress :: reports
      runChunks work stop fuel reports (if stop reports.length then s.cancel else s)

/-- Takes the work up again, also after it was cancelled. As every chunk has at least one pass, no
more chunks are needed than passes are left. -/
def resume (work : Nat → m (Except ε Unit)) (stop : Nat → Bool) (s : Schedule) : m (Run ε) :=
  runChunks work stop (s.total - s.done) [] s.uncancel

end Schedule
end PassTrace

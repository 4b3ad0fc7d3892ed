import PassTrace.Session.File

/-!
# What operations leave as it is

An operation that only reads may give notices and fail, but the files after it are those before it.
The rules here follow the way operations are put together.
-/

namespace PassTrace.Operation

variable {α β : Type}

/-- The run of two operations, the second of which goes on with the result of the first. -/
theorem run_bind (x : Operation α) (f : α → Operation β) (w : World) :
    (x >>= f).run.run w =
      match x.run.run w with
      | (.ok a, w') => (f a).run.run w'
      | (.error failure, w') => (.error failure, w') := by
  cases hx : x.run.run w with
  | mk result w' =>
    have hbind : (x >>= f).run.run w = (ExceptT.bindCont f (x.run.run w).1).run
      (x.run.run w).2 := rfl
    rw [hbind, hx]
    cases result <;> rfl

/-- An operation leaves all files as they are, whether it fails or not. -/
def KeepsFiles (x : Operation α) : Prop :=
  ∀ w, (x.run.run w).2.files = w.files

/-- A result that is there keeps the files. -/
theorem keepsFiles_pure (a : α) : KeepsFiles (pure a) := fun _ => rfl

/-- A failure keeps the files. -/
theorem keepsFiles_throw (failure : Failure) : KeepsFiles (throw failure : Operation α) :=
  fun _ => rfl

/-- A notice keeps the files. -/
theorem keepsFiles_notify (notice : Notice) : KeepsFiles (notify notice) := fun _ => rfl

/-- A question about the files keeps them. -/
theorem keepsFiles_askFiles (question : FileTree → Except FileFault α) :
    KeepsFiles (askFiles question) := fun _ => rfl

/-- Operations that keep the files do so one after the other. -/
theorem KeepsFiles.bind {x : Operation α} {f : α → Operation β} (hx : KeepsFiles x)
    (hf : ∀ a, KeepsFiles (f a)) : KeepsFiles (x >>= f) := by
  intro w
  have hfiles := hx w
  rw [run_bind]
  cases hrun : x.run.run w with
  | mk result w' =>
    rw [hrun] at hfiles
    cases result with
    | error failure => exact hfiles
    | ok a => exact (hf a w').trans hfiles

/-- Notices keep the files. -/
theorem keepsFiles_notifyAll (notices : List Notice) : KeepsFiles (notifyAll notices) := by
  induction notices with
  | nil => exact keepsFiles_pure ()
  | cons notice rest ih =>
    have hsplit : notifyAll (notice :: rest) = notify notice >>= fun _ => notifyAll rest := rfl
    rw [hsplit]
    exact (keepsFiles_notify notice).bind fun _ => ih

/-- Computations that give notices keep the files. -/
theorem keepsFiles_report (computation : Reporting α) : KeepsFiles (report computation) := by
  unfold report
  refine (keepsFiles_notifyAll _).bind fun _ => ?_
  split
  · exact keepsFiles_pure _
  · exact keepsFiles_throw _

/-- A check of a path keeps the files. -/
theorem keepsFiles_usable (p : Path) : KeepsFiles (usable p) := by
  unfold usable
  split
  · exact keepsFiles_throw _
  · exact keepsFiles_pure _

/-- Reading a file keeps the files. -/
theorem keepsFiles_contents (p : Path) : KeepsFiles (contents p) :=
  (keepsFiles_usable p).bind fun _ => keepsFiles_askFiles _

/-- The content of a file, or the failure for it, keeps the files. -/
theorem keepsFiles_orFail (failure : FileFault → Failure) (result : Except FileFault α) :
    KeepsFiles (orFail failure result) := by
  cases result with
  | error fault => exact keepsFiles_throw _
  | ok a => exact keepsFiles_pure _

end PassTrace.Operation

namespace PassTrace.Session

open Operation

/-- Reading a session file keeps the files. -/
theorem keepsFiles_loadFile (p : Path) : KeepsFiles (loadFile p) := by
  refine (keepsFiles_contents p).bind fun result => ?_
  split
  · exact keepsFiles_throw _
  · split
    · split
      · exact keepsFiles_throw _
      · exact keepsFiles_report _
    · exact keepsFiles_report _

end PassTrace.Session

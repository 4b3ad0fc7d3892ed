import PassTrace.Proofs.Files.Soundness
import PassTrace.Proofs.Inspector.Jobs
import PassTrace.Proofs.Inspector.Loading
import PassTrace.Proofs.Session.Files
import PassTrace.Proofs.Store.Drafts

/-!
# What saving a session does

A source file is recorded, and the pipeline saved with the record. The inspector stays as it is, and
of the files only that of the session changes.
-/

namespace PassTrace

namespace Session

open Operation

variable {p : Path} {w : World} {pipeline : Pipeline} {source compilation : Json.Fields}

theorem keepsSound_saveFile (hp : p.IsClean) (pipeline : Pipeline)
    (source compilation : Json.Fields) : KeepsSound (saveFile p pipeline source compilation) := by
  have hwrite (bytes : Bytes) : KeepsSound
      (do orFail (.sessionFile p.toString) (← writeBelow p bytes) : Operation Unit) :=
    (keepsSound_writeBelow hp bytes).bind fun _ => (keepsFiles_orFail _ _).keepsSound
  refine (keepsFiles_notifyAll _).keepsSound.bind fun _ w hsound => ?_
  rw [run_clock_bind]
  split
  · exact hsound
  · split
    · exact (hwrite _).bind (fun _ => (keepsFiles_pure _).keepsSound) w hsound
    · exact (hwrite _).bind (fun _ => (keepsFiles_throw _).keepsSound) w hsound

/-- A session can be saved again in a file that is not compressed. -/
theorem exists_run_saveFile {name : String} {bytes : Bytes} (hname : Path.IsName name)
    (hstores : w.files.Stores (p.join name) bytes) (hnull : (p.join name).holdsNull = false)
    (hplain : isCompressed (p.join name) = false)
    (hlimits : (payload w.now pipeline source compilation).IsWithinLimits) :
    ∃ size w', (saveFile (p.join name) pipeline source compilation).run.run w = (.ok size, w') := by
  obtain ⟨w₁, hnotices⟩ := run_notifyAll (payloadNotices pipeline) w
  have halters : w.AltersOnly ∅ w₁ := by
    have halters : w.AltersOnly ∅ _ := altersOnly_notifyAll (payloadNotices pipeline) w
    rwa [hnotices] at halters
  have hencode := encode_of_isWithinLimits _ _ _ _ hlimits
  have hstores₁ := halters.stores hstores fun q hq => absurd hq (Set.notMem_empty q)
  obtain ⟨w₂, hwrite⟩ := exists_run_writeBelow hname hstores₁ hnull
    (Text.utf8 (payload w.now pipeline source compilation).line)
  refine ⟨(Text.utf8 (payload w.now pipeline source compilation).line).length, w₂, ?_⟩
  unfold saveFile
  rw [run_bind, hnotices]
  dsimp only
  rw [run_clock_bind, halters.now_eq, hencode]
  simp only [fileBytes, hplain, Bool.false_eq_true, if_false]
  rw [run_bind, run_bind, hwrite]
  rfl

end Session

namespace Inspection

variable {i i' : Inspector} {w w' : World} {p source : Path} {compilation : Json.Fields}
  {size : Nat}

/-- What is saved of the compilation: what is given, or what was loaded if nothing is. -/
def compilationFor (i : Inspector) (compilation : Json.Fields) : Json.Fields :=
  if compilation.isEmpty then i.metadata.compilation else compilation

/-- Records a source file and saves a pipeline with the record. -/
def saveRecorded (p source : Path) (pipeline : Pipeline) (compilation : Json.Fields) :
    Operation Nat := do
  let record ← SourceFile.record source
  Session.saveFile p pipeline record compilation

/-- Saving leaves the inspector alone. -/
theorem run_saveSession (p source : Path) (compilation : Json.Fields) (i : Inspector) (w : World) :
    (saveSession p (some source) compilation).run.run (i, w) =
      (ofOperation (saveRecorded p source i.pipeline (compilationFor i compilation))).run.run
        (i, w) := by
  unfold saveSession
  rw [run_inspector_bind]
  change (ofOperation (SourceFile.record source) >>= fun record =>
    ofOperation (Session.saveFile p i.pipeline record (compilationFor i compilation))).run.run
      (i, w) = _
  rw [run_ofOperation_bind, run_ofOperation, saveRecorded, Operation.run_bind]
  rcases (SourceFile.record source).run.run w with ⟨_ | record, w'⟩
  · rfl
  · exact run_ofOperation _ i w'

/-- A pipeline is saved with the record that its source file has before. -/
theorem stores_of_saveSession
    (h : (saveSession p (some source) compilation).run.run (i, w) = (.ok size, (i', w'))) :
    ∃ bytes, Session.contentAt p w.now i.pipeline (SourceFile.recordIn w.files source)
        (compilationFor i compilation) = .ok bytes ∧
      w'.files.Stores p bytes ∧ p.holdsNull = false := by
  rw [run_saveSession, run_ofOperation] at h
  obtain ⟨hresult, hleft⟩ := Prod.mk.inj h
  obtain ⟨-, hw⟩ := Prod.mk.inj hleft
  obtain ⟨notices, hrecord⟩ := SourceFile.run_record source w
  obtain ⟨record, w₁, hrecorded, hsave⟩ := Operation.run_bind_eq_ok (Prod.ext hresult hw)
  rw [hrecord] at hrecorded
  obtain ⟨hvalue, rfl⟩ := Prod.mk.inj hrecorded
  split at hvalue
  · cases hvalue
  · obtain rfl := Except.ok.inj hvalue
    obtain ⟨bytes, hcontent, -, hstores⟩ := Session.stores_of_saveFile hsave
    exact ⟨bytes, hcontent, hstores⟩

/-- Saving changes the session's file only. -/
theorem altersOnly_saveRecorded (p source : Path) (pipeline : Pipeline)
    (compilation : Json.Fields) :
    Operation.AltersOnly {p} (saveRecorded p source pipeline compilation) := by
  refine Operation.AltersOnly.bind (fun w => ?_) fun record =>
    Session.altersOnly_saveFile p pipeline record compilation
  obtain ⟨notices, hrecord⟩ := SourceFile.run_record source w
  rw [hrecord]
  exact .of_files_eq rfl rfl

theorem keepsSound_saveRecorded (hp : p.IsClean) (source : Path) (pipeline : Pipeline)
    (compilation : Json.Fields) :
    Operation.KeepsSound (saveRecorded p source pipeline compilation) := by
  refine Operation.KeepsSound.bind (fun w hsound => ?_) fun record =>
    Session.keepsSound_saveFile hp pipeline record compilation
  obtain ⟨notices, hrecord⟩ := SourceFile.run_record source w
  rw [hrecord]
  exact hsound

/-- A session can be saved again in a file that is not compressed. -/
theorem exists_run_saveSession {name : String} {bytes : Bytes} (compilation : Json.Fields)
    (hname : Path.IsName name) (hstores : w.files.Stores (p.join name) bytes)
    (hnull : (p.join name).holdsNull = false) (hplain : Session.isCompressed (p.join name) = false)
    (hsource : source.holdsNull = false)
    (hlimits : (Session.payload w.now i.pipeline (SourceFile.recordIn w.files source)
      (compilationFor i compilation)).IsWithinLimits) :
    ∃ size w', (saveSession (p.join name) (some source) compilation).run.run (i, w) =
        (.ok size, (i, w')) ∧ w.AltersOnly {p.join name} w' ∧
      (w.files.IsSound → (p.join name).IsClean → w'.files.IsSound) := by
  have halters := altersOnly_saveRecorded (p.join name) source i.pipeline
    (compilationFor i compilation) w
  have hkeeps (hclean : (p.join name).IsClean) :=
    keepsSound_saveRecorded hclean source i.pipeline (compilationFor i compilation) w
  obtain ⟨notices, hrecord⟩ := SourceFile.run_record source w
  rw [hsource] at hrecord
  obtain ⟨size, w', hsave⟩ := Session.exists_run_saveFile (w := { w with notices }) hname hstores
    hnull hplain hlimits
  have hrun : (saveRecorded (p.join name) source i.pipeline
      (compilationFor i compilation)).run.run w = (.ok size, w') := by
    rw [saveRecorded, Operation.run_bind, hrecord]
    exact hsave
  rw [hrun] at halters hkeeps
  refine ⟨size, w', ?_, halters, fun hsound hclean => hkeeps hclean hsound⟩
  rw [run_saveSession, run_ofOperation, hrun]

end Inspection
end PassTrace

import PassTrace.Inspector
import PassTrace.Proofs.Session.RoundTrip
import PassTrace.Proofs.World

/-!
# What a load that fails leaves behind

A load reads a session, installs its pipeline and then checks the session's source file. A failure
to read leaves the inspector as it was. The check comes after the pipeline has been installed, so
that a failure there leaves the new pipeline in place.
-/

namespace PassTrace

namespace SourceFile

/-- The source file of a session cannot be checked, and this is the failure. -/
inductive Uncheckable (files : FileTree) (m : Metadata) (failure : Failure) : Prop
  /-- What names the file is no path. -/
  | noPath : (m.source.get "file").isVoid = false →
      pathText? (m.source.get "file") = .error failure → Uncheckable files m failure
  /-- The file is not the one that was recorded, and the time of the record has no date. -/
  | noDate {text : String} {bytes : Bytes} : m.source.get "file" = .string text →
      files.isFile text = true → files.read (Path.ofString text) = .ok bytes →
      (m.source.get "checksum").isVoid = false →
      (m.source.get "checksum").asString? ≠ some (Sha256.hexDigest bytes) →
      dateOf m.timestamp = .error failure → Uncheckable files m failure

/-- Only a string gives the text of a path. -/
theorem eq_string_of_pathText? {v : Json} {text : String} (h : pathText? v = .ok (some text)) :
    v = .string text := by
  unfold pathText? at h
  split at h
  · obtain rfl := Option.some.inj (Except.ok.inj h)
    rfl
  · cases h
  · split at h
    · cases h
    · split at h <;> cases h
  · cases h

/-- The name of a file is not empty. -/
theorem isVoid_string_of_isFile {files : FileTree} {text : String}
    (h : files.isFile text = true) : (Json.string text).isVoid = false := by
  cases hempty : text.isEmpty with
  | false => exact hempty
  | true =>
    have hlocate : files.locateText text = .error .notFound := by
      simp [FileTree.locateText, hempty]
    simp [FileTree.isFile, FileTree.named?, hlocate] at h

/-- The comparison with the record fails exactly if the file cannot be checked. -/
theorem drift_eq_error_iff (files : FileTree) (m : Metadata) (failure : Failure) :
    drift files m = .error failure ↔ Uncheckable files m failure := by
  constructor
  · intro h
    -- The cases are the checks in their order, of which two can fail.
    unfold drift at h
    dsimp only at h
    split at h
    · cases h
    rename_i hnamed
    cases hpath : pathText? (m.source.get "file") with
    | error fault =>
      rw [hpath] at h
      obtain rfl : fault = failure := Except.error.inj h
      exact .noPath (by simpa using hnamed) hpath
    | ok found =>
      rw [hpath] at h
      cases found with
      | none => cases h
      | some text =>
        dsimp only [bind, Except.bind] at h
        split at h
        · cases h
        rename_i hfile
        split at h
        · cases h
        rename_i hsaved
        split at h
        · cases h
        rename_i bytes hread
        split at h
        · cases h
        rename_i hchanged
        cases hdate : dateOf m.timestamp with
        | ok date =>
          rw [hdate] at h
          cases h
        | error fault =>
          rw [hdate] at h
          obtain rfl : fault = failure := Except.error.inj h
          exact .noDate (eq_string_of_pathText? hpath) (by simpa using hfile) hread
            (by simpa using hsaved) hchanged hdate
  · intro h
    cases h with
    | noPath hnamed hpath => simp [drift, hnamed, hpath, bind, Except.bind]
    | noDate hname hfile hread hsaved hchanged hdate =>
      have hnamed := isVoid_string_of_isFile hfile
      simp [drift, hname, hnamed, pathText?, hfile, hsaved, hread, hchanged, hdate, bind,
        Except.bind]

end SourceFile

namespace Inspection

/-- An operation on the world, followed by one that may change the inspector. -/
theorem run_ofOperation_bind {α β : Type} (x : Operation α) (f : α → Inspection β) (i : Inspector)
    (w : World) : (ofOperation x >>= f).run.run (i, w) =
      match x.run.run w with
      | (.ok a, w') => (f a).run.run (i, w')
      | (.error failure, w') => (.error failure, (i, w')) := by
  cases hx : x.run.run w with
  | mk result w' =>
    have hrun : (ofOperation x).run.run (i, w) = ((x.run.run w).1, (i, (x.run.run w).2)) := rfl
    have hbind : (ofOperation x >>= f).run.run (i, w) =
        (ExceptT.bindCont f ((ofOperation x).run.run (i, w)).1).run
          ((ofOperation x).run.run (i, w)).2 := rfl
    rw [hbind, hrun, hx]
    cases result <;> rfl

/-- An operation on the world leaves the inspector alone. -/
theorem run_ofOperation {α : Type} (x : Operation α) (i : Inspector) (w : World) :
    (ofOperation x).run.run (i, w) = ((x.run.run w).1, (i, (x.run.run w).2)) := rfl

/-- Operations on the world may be put together before they are taken as operations on an
inspector, or after. -/
instance : LawfulMonadLift Operation Inspection where
  monadLift_pure _ := rfl
  monadLift_bind x f := by
    apply ExceptT.ext
    funext (i, w)
    change (ofOperation (x >>= f)).run.run (i, w) =
      (ofOperation x >>= fun a => ofOperation (f a)).run.run (i, w)
    rw [run_ofOperation_bind, run_ofOperation, Operation.run_bind]
    cases hx : x.run.run w with
    | mk result w' => cases result <;> rfl

theorem run_checkDrift (m : Metadata) (w : World) :
    (checkDrift m).run.run w = match SourceFile.drift w.files m with
      | .error failure => (.error failure, w)
      | .ok none => (.ok none, w)
      | .ok (some drift) =>
        (.ok (some drift), { w with notices := .drift drift :: w.notices }) := by
  have hget (f : World → Operation (Option Drift)) : (get >>= f).run.run w = (f w).run.run w := rfl
  rw [checkDrift, hget]
  rcases SourceFile.drift w.files m with _ | _ | _ <;> rfl

/-- The check of a source file fails exactly if the file cannot be checked. -/
theorem run_checkDrift_eq_error_iff (m : Metadata) (w : World) (failure : Failure) :
    ((checkDrift m).run.run w).1 = .error failure ↔
      SourceFile.Uncheckable w.files m failure := by
  rw [run_checkDrift, ← SourceFile.drift_eq_error_iff]
  split <;> simp [*]

/-- What is installed stays, whether the check of the source file fails or not. -/
theorem run_install_checkDrift (s : Session) (i : Inspector) (w : World) :
    (do
      install s.pipeline s.metadata
      let _ ← checkDrift s.metadata : Inspection Unit).run.run (i, w) =
      (((checkDrift s.metadata).run.run w).1.map fun _ => (),
        (i.install s.pipeline s.metadata, ((checkDrift s.metadata).run.run w).2)) := by
  have hinstall : (do
      install s.pipeline s.metadata
      let _ ← checkDrift s.metadata : Inspection Unit).run.run (i, w) =
      (ofOperation (checkDrift s.metadata) >>= fun _ => pure ()).run.run
        (i.install s.pipeline s.metadata, w) := rfl
  rw [hinstall, run_ofOperation_bind]
  cases hcheck : (checkDrift s.metadata).run.run w with
  | mk result w' => cases result <;> rfl

end Inspection

/-- A way to load a pipeline. -/
inductive Load
  /-- The text of a trace. -/
  | trace (text : String)
  /-- A file with the text of a trace. -/
  | traceFile (p : Path)
  /-- A session file. -/
  | session (p : Path)

namespace Load

open Inspection

/-- Loads a pipeline into the inspector. -/
def run : Load → Inspection Unit
  | trace text => do
    let _ ← loadTrace text
  | traceFile p => do
    let _ ← loadTraceFile p
  | session p => do
    let _ ← loadSession p

/-- What a load reads. A trace tells nothing of its origin. -/
def read : Load → Operation Session
  | trace text => return ⟨(Trace.read text).1, {}⟩
  | traceFile p => do
    let bytes ← Operation.orFail .file (← Operation.contents p)
    return ⟨(Trace.read (Trace.textOfBytes bytes)).1, {}⟩
  | session p => Session.loadFile p

/-- Reading keeps the files. -/
theorem keepsFiles_read (load : Load) : Operation.KeepsFiles load.read := by
  cases load with
  | trace text => exact Operation.keepsFiles_pure _
  | traceFile p =>
    refine (Operation.keepsFiles_contents p).bind fun result => ?_
    refine (Operation.keepsFiles_orFail _ result).bind fun bytes => ?_
    exact Operation.keepsFiles_pure _
  | session p => exact Session.keepsFiles_loadFile p

/-- A load reads, then installs what was read, and then checks the source file. -/
theorem run_eq (load : Load) : load.run = (do
    let s ← load.read
    install s.pipeline s.metadata
    let _ ← checkDrift s.metadata) := by
  -- A trace tells of no source file, so that there is nothing to check after it.
  cases load with
  | trace text => rfl
  | traceFile p =>
    unfold run loadTraceFile loadTrace read
    simp only [liftM_bind, liftM_pure, bind_assoc, pure_bind]
    rfl
  | session p =>
    unfold run loadSession read
    simp only [bind_assoc]

/-- A load that fails to read leaves the inspector as it was. -/
theorem run_of_read_error {load : Load} {w w' : World} {failure : Failure}
    (hread : load.read.run.run w = (.error failure, w')) (i : Inspector) :
    load.run.run.run (i, w) = (.error failure, (i, w')) := by
  rw [run_eq]
  refine (run_ofOperation_bind load.read _ i w).trans ?_
  rw [hread]

/-- A load that succeeds in reading installs what it read, and fails if the source file cannot be
checked. -/
theorem run_of_read_ok {load : Load} {w w' : World} {s : Session}
    (hread : load.read.run.run w = (.ok s, w')) (i : Inspector) :
    load.run.run.run (i, w) =
      (((checkDrift s.metadata).run.run w').1.map fun _ => (),
        (i.install s.pipeline s.metadata, ((checkDrift s.metadata).run.run w').2)) := by
  rw [run_eq]
  refine (run_ofOperation_bind load.read _ i w).trans ?_
  rw [hread]
  exact run_install_checkDrift s i w'

/-- How a load fails and what it leaves behind. Either it fails to read, and the inspector is as it
was; or a session was read whose source file cannot be checked, and the inspector has the session's
pipeline. -/
theorem fails_iff (load : Load) (i i' : Inspector) (w : World) (failure : Failure) :
    (∃ w', load.run.run.run (i, w) = (.error failure, (i', w'))) ↔
      ((load.read.run.run w).1 = .error failure ∧ i' = i) ∨
        ∃ s, (load.read.run.run w).1 = .ok s ∧
          SourceFile.Uncheckable w.files s.metadata failure ∧
          i' = i.install s.pipeline s.metadata := by
  have hfiles := load.keepsFiles_read w
  cases hread : load.read.run.run w with
  | mk result w' =>
    rw [hread] at hfiles
    have hfiles : w'.files = w.files := hfiles
    cases result with
    | error fault =>
      rw [run_of_read_error hread]
      constructor
      · rintro ⟨_, h⟩
        cases h
        exact .inl ⟨rfl, rfl⟩
      · rintro (⟨h, rfl⟩ | ⟨s, h, -⟩)
        · cases h
          exact ⟨w', rfl⟩
        · cases h
    | ok s =>
      have hcheck := run_checkDrift_eq_error_iff s.metadata w' failure
      have hmap (result : Except Failure (Option Drift)) :
          result.map (fun _ => ()) = .error failure ↔ result = .error failure := by
        cases result <;> simp [Except.map]
      rw [hfiles] at hcheck
      rw [run_of_read_ok hread]
      constructor
      · rintro ⟨_, h⟩
        obtain ⟨hfailure, hleft⟩ := Prod.mk.inj h
        obtain ⟨hplace, -⟩ := Prod.mk.inj hleft
        exact .inr ⟨s, rfl, hcheck.1 ((hmap _).1 hfailure), hplace.symm⟩
      · rintro (⟨h, -⟩ | ⟨t, h, huncheckable, rfl⟩)
        · cases h
        · cases h
          rw [(hmap _).2 (hcheck.2 huncheckable)]
          exact ⟨_, rfl⟩

/-- Reading a session file that is not compressed. -/
theorem read_session {p : Path} {bytes : Bytes} {s : Session} {w : World}
    (hnull : p.holdsNull = false) (hplain : Session.isCompressed p = false)
    (hbytes : w.files.read p = .ok bytes) (hdecode : Session.decode (.bytes bytes) = pure s) :
    (session p).read.run.run w = (.ok s, w) := by
  have hcontents : (Operation.contents p).run.run w = (.ok (.ok bytes), w) := by
    unfold Operation.contents Operation.usable
    rw [Operation.run_bind, hnull, ← hbytes]
    rfl
  unfold read Session.loadFile
  rw [Operation.run_bind, hcontents]
  simp only [hplain, hdecode]
  rfl

/-- A pipeline that was saved with a source file that is named by no path. The load of it fails,
and the saved pipeline replaces the one that was inspected. -/
theorem run_session_noPath {now : Binary64} {pipeline : Pipeline} {source compilation : Json.Fields}
    {p : Path} {w : World} {failure : Failure}
    (hnames : Session.HasDistinctNames pipeline source compilation)
    (hlimits : (Session.payload now pipeline source compilation).IsWithinLimits)
    (hnull : p.holdsNull = false) (hplain : Session.isCompressed p = false)
    (hbytes : w.files.read p =
      .ok (Text.utf8 (Session.payload now pipeline source compilation).line))
    (hnamed : (source.get "file").isVoid = false)
    (hpath : SourceFile.pathText? (source.get "file") = .error failure) (i : Inspector) :
    ∃ (s : Session) (w' : World), Session.Restores pipeline s.pipeline ∧
      s.metadata.source = source ∧
      (session p).run.run.run (i, w) = (.error failure, (i.install s.pipeline s.metadata, w')) := by
  obtain ⟨s, hdecode, hrestores, hsource, -⟩ :=
    Session.decode_line now pipeline source compilation hnames hlimits
  refine ⟨s, ((checkDrift s.metadata).run.run w).2, hrestores, hsource, ?_⟩
  rw [run_of_read_ok (read_session hnull hplain hbytes hdecode)]
  have huncheckable : SourceFile.Uncheckable w.files s.metadata failure := by
    rw [← hsource] at hnamed hpath
    exact .noPath hnamed hpath
  rw [(run_checkDrift_eq_error_iff s.metadata w failure).2 huncheckable]
  rfl

/-- The record of a source file that is named by a list. -/
def pathlessSource : Json.Fields := [("file", .array [.null])]

/-- A pipeline of no passes, or of one. -/
def sample (hasPass : Bool) : Pipeline :=
  if hasPass then
    { passes := [{ name := "dce", scope := ⟨.module, none⟩, changed := false,
                   reference := .inline [] }] }
  else {}

/-- Whatever is inspected, there is a load that fails and leaves a pipeline of another size. -/
theorem exists_fails_resized (i : Inspector) :
    ∃ (load : Load) (w w' : World) (failure : Failure) (i' : Inspector),
      load.run.run.run (i, w) = (.error failure, (i', w')) ∧
      i'.pipeline.size ≠ i.pipeline.size := by
  -- The samples have different sizes, so that one of them differs from what is inspected.
  obtain ⟨hasPass, hsize⟩ : ∃ hasPass, (sample hasPass).size ≠ i.pipeline.size := by
    by_cases h : i.pipeline.size = 0
    · exact ⟨true, by rw [h]; decide⟩
    · exact ⟨false, fun hzero => h hzero.symm⟩
  have hnames : Session.HasDistinctNames (sample hasPass) pathlessSource [] := by
    cases hasPass <;>
      simp [sample, pathlessSource, Session.HasDistinctNames, Json.HasDistinctNames,
        Json.FieldsHaveDistinctNames, Json.ItemsHaveDistinctNames]
  have hlimits : (Session.payload .zero (sample hasPass) pathlessSource []).IsWithinLimits := by
    refine (Json.writeFault?_eq_none_iff _ _).1 ?_
    cases hasPass <;> decide +kernel
  let bytes := Text.utf8 (Session.payload .zero (sample hasPass) pathlessSource []).line
  let files : FileTree := ⟨[(["home"], .directory), (["home", "a"], .file bytes .zero)], ["home"]⟩
  have hbytes : files.read ⟨.work, ["a"]⟩ = .ok bytes := rfl
  obtain ⟨s, w', hrestores, -, hrun⟩ := run_session_noPath (w := { files := files, now := .zero })
    hnames hlimits (by decide) (by decide) hbytes rfl rfl i
  refine ⟨_, _, w', _, _, hrun, ?_⟩
  have hrestored : s.pipeline.size = (sample hasPass).size := hrestores.size_eq
  exact fun h => hsize (hrestored.symm.trans h)

end Load
end PassTrace

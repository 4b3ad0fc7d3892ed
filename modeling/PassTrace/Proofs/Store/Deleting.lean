import PassTrace.Proofs.Store.Shelves

/-!
# Deleting the files of sessions

An index may name anything as the file of a session. What is no path stops a call that is to delete
the file, and the sessions behind it stay. Up to there all files are removed that can be, and
nothing else changes.
-/

namespace PassTrace

/-- One world comes from another by removing files of some paths. -/
structure World.Removes (paths : Set Path) (w w' : World) : Prop
    extends World.AltersOnly paths w w' where
  fewer : ∀ place, w'.files.content? place = none ∨
    w'.files.content? place = w.files.content? place
  gone : ∀ p ∈ paths, ∀ bytes, w.files.Stores p bytes →
    w'.files.content? (w.files.placeOf p) = none

namespace World.Removes

variable {paths paths' : Set Path} {w w₁ w₂ : World}

theorem refl (w : World) : Removes ∅ w w :=
  ⟨.refl w, fun _ => .inr rfl, fun _ hp => absurd hp (Set.notMem_empty _)⟩

/-- Removing a file leaves all others. -/
theorem of_remove {p : Path} {files : FileTree} (h : w.files.remove p = .ok files) :
    Removes {p} w { w with files } := by
  obtain ⟨hgone, halters⟩ := FileTree.content?_of_remove h
  refine ⟨.of_altersAt rfl halters, fun place => ?_, ?_⟩
  · by_cases hplace : place = w.files.placeOf p
    · exact .inl (hplace ▸ hgone)
    · exact .inr (halters.content?_eq place hplace)
  · rintro q rfl - -
    exact hgone

theorem trans (h : Removes paths w w₁) (h' : Removes paths' w₁ w₂) :
    Removes (paths ∪ paths') w w₂ where
  toAltersOnly := h.toAltersOnly.union h'.toAltersOnly
  fewer := by
    intro place
    rcases h'.fewer place with hnone | heq
    · exact .inl hnone
    · rw [heq]
      exact h.fewer place
  gone := by
    intro p hp bytes hstores
    have hstays (hnone : w₁.files.content? (w.files.placeOf p) = none) :
        w₂.files.content? (w.files.placeOf p) = none := by
      rcases h'.fewer (w.files.placeOf p) with hnone' | heq
      · exact hnone'
      · rw [heq, hnone]
    rcases hp with hp | hp
    · exact hstays (h.gone p hp bytes hstores)
    · rcases h.fewer (w.files.placeOf p) with hnone | heq
      · exact hstays hnone
      · have hgone := h'.gone p hp bytes (hstores.keep h.keeps heq)
        rwa [h.keeps.placeOf_eq] at hgone

end World.Removes

/-- One world comes from another by removing files of some paths, and no directory is made. -/
structure World.Deletes (paths : Set Path) (w w' : World) : Prop
    extends World.Removes paths w w' where
  directory : ∀ {place : Location}, w'.files.at? place = some .directory →
    w.files.at? place = some .directory

namespace World.Deletes

variable {paths paths' : Set Path} {w w₁ w₂ : World}

theorem refl (w : World) : Deletes ∅ w w :=
  ⟨.refl w, id⟩

theorem trans (h : Deletes paths w w₁) (h' : Deletes paths' w₁ w₂) :
    Deletes (paths ∪ paths') w w₂ :=
  ⟨h.toRemoves.trans h'.toRemoves, fun hplace => h.directory (h'.directory hplace)⟩

/-- No file was removed of paths none of which leads to a file. -/
theorem of_files_eq (hnow : w₁.now = w.now) (hfiles : w₁.files = w.files)
    (hpaths : ∀ p ∈ paths, ∀ bytes, ¬w.files.Stores p bytes) : Deletes paths w w₁ where
  toAltersOnly := .of_files_eq hnow hfiles
  fewer := fun _ => .inr (by rw [hfiles])
  gone := fun p hp bytes hstores => absurd hstores (hpaths p hp bytes)
  directory := fun hplace => hfiles ▸ hplace

end World.Deletes

namespace Index

/-- The path of the file that a value names, if it names one. -/
def fileOf? : Json → Option Path
  | .string text => if text.isEmpty then none else some (Path.ofString text)
  | _ => none

/-- A value is there, but is no path that can be handed to the file system. -/
def IsUnusable (file : Json) : Prop :=
  file.isVoid = false ∧ ∀ p ∈ fileOf? file, p.holdsNull = true

/-- The paths of the files of sessions. -/
def filesOf (entries : List Json.Fields) : Set Path :=
  {p | ∃ entry ∈ entries, fileOf? (entry.get "file") = some p}

theorem filesOf_cons (entry : Json.Fields) (entries : List Json.Fields) :
    filesOf (entry :: entries) = {p | fileOf? (entry.get "file") = some p} ∪ filesOf entries := by
  ext p
  simp [filesOf]

end Index

namespace Store

open Index Operation

theorem orThrow_ok {α : Type} (a : α) : orThrow (.ok a) = pure a := rfl

theorem orThrow_error {α : Type} (failure : Failure) :
    (orThrow (.error failure) : Operation α) = throw failure := rfl

section Deleting

variable {w : World}

/-- A file is removed if it is there. -/
theorem run_removeFile {p : Path} (hclean : p.IsClean) (hnull : p.holdsNull = false) (w : World) :
    (∃ w', (removeFile p).run.run w = (.ok (.ok ()), w') ∧ w.Deletes {p} w') ∨
      ∃ fault, (removeFile p).run.run w = (.ok (.error fault), w) ∧
        ∀ bytes, ¬w.files.Stores p bytes := by
  have hrun : (removeFile p).run.run w = (changeFiles fun files _ => files.remove p).run.run w := by
    unfold removeFile
    rw [run_bind, run_usable_of_holdsNull hnull]
  rw [hrun, run_changeFiles]
  cases hfiles : w.files.remove p with
  | ok files => exact .inl ⟨_, rfl, .of_remove hfiles, FileTree.directory_of_remove hfiles⟩
  | error fault =>
    refine .inr ⟨fault, rfl, fun bytes hstores => ?_⟩
    obtain ⟨files, hok⟩ := hstores.exists_remove (hstores.asksDirectory_eq hclean)
    rw [hok] at hfiles
    cases hfiles

/-- A value that cannot be used as a file stops the call, any other names a file that is removed, if
it names one that is there. -/
theorem run_deleteFile_cases (file : Json) (w : World) :
    (IsUnusable file ∧ ∃ failure, (deleteFile file).run.run w = (.error failure, w)) ∨
      ∃ w', (deleteFile file).run.run w = (.ok (), w') ∧
        w.Deletes {p | fileOf? file = some p} w' := by
  -- A void value names no file, so that there is nothing to delete.
  have hvoid (hfile : file.isVoid = true) : {p | fileOf? file = some p} = ∅ := by
    refine Set.eq_empty_iff_forall_notMem.mpr fun p hp => ?_
    cases file with
    | string text =>
      have hempty : text.isEmpty = true := hfile
      simp [fileOf?, hempty] at hp
    | _ => cases hp
  unfold deleteFile
  cases hfile : file.isVoid with
  | true =>
    rw [hvoid hfile]
    exact .inr ⟨w, rfl, .refl w⟩
  | false =>
    simp only [Bool.false_eq_true, if_false]
    cases file with
    | null => cases hfile
    | bool | int | float | array | object => exact .inl ⟨⟨hfile, nofun⟩, _, rfl⟩
    | string text =>
      have hempty : text.isEmpty = false := hfile
      have hnamed : fileOf? (.string text) = some (Path.ofString text) := by simp [fileOf?, hempty]
      have hpath : pathOf (.string text) = .ok (Path.ofString text) := rfl
      have hpaths : {p | fileOf? (.string text) = some p} = {Path.ofString text} := by
        ext p
        simp [hnamed, eq_comm]
      rw [hpath, orThrow_ok, pure_bind, hpaths]
      cases hnull : (Path.ofString text).holdsNull with
      | true =>
        refine .inl ⟨⟨hfile, fun p hp => ?_⟩, .nullInPath, ?_⟩
        · obtain rfl := Option.some.inj (hnamed.symm.trans hp)
          exact hnull
        · unfold removeFile
          rw [run_bind, run_bind, run_usable, hnull]
          rfl
      | false =>
        right
        rw [run_bind]
        rcases run_removeFile (Path.isClean_ofString text) hnull w with
          ⟨w', hremove, hdeletes⟩ | ⟨fault, hremove, hnone⟩
        · rw [hremove]
          exact ⟨w', rfl, hdeletes⟩
        · have hsame {w' : World} (hnow : w'.now = w.now) (hfiles : w'.files = w.files) :
              w.Deletes {Path.ofString text} w' :=
            .of_files_eq hnow hfiles fun p hp => Set.mem_singleton_iff.mp hp ▸ hnone
          rw [hremove]
          dsimp only
          split
          · exact ⟨w, rfl, hsame rfl rfl⟩
          · exact ⟨_, rfl, hsame rfl rfl⟩

/-- The files of sessions are deleted, up to the first that cannot be used. -/
theorem run_deleteFiles_cases (entries : List Json.Fields) (w : World) :
    (∃ w', (entries.forM fun entry => deleteFile (entry.get "file")).run.run w = (.ok (), w') ∧
        w.Deletes (filesOf entries) w') ∨
      ∃ front entry back failure w', entries = front ++ entry :: back ∧
        IsUnusable (entry.get "file") ∧
        (entries.forM fun entry => deleteFile (entry.get "file")).run.run w = (.error failure, w') ∧
        w.Deletes (filesOf front) w' := by
  have hnone : filesOf [] = ∅ := by simp [filesOf]
  induction entries generalizing w with
  | nil =>
    rw [hnone]
    exact .inl ⟨w, rfl, .refl w⟩
  | cons entry entries ih =>
    have hsplit : (entry :: entries).forM (fun entry => deleteFile (entry.get "file")) = (do
        deleteFile (entry.get "file")
        entries.forM fun entry => deleteFile (entry.get "file")) := rfl
    rw [hsplit, run_bind]
    rcases run_deleteFile_cases (entry.get "file") w with
      ⟨hunusable, failure, hfailed⟩ | ⟨w₁, hdelete, hdeletes⟩
    · rw [hfailed]
      refine .inr ⟨[], entry, entries, failure, w, rfl, hunusable, rfl, ?_⟩
      rw [hnone]
      exact .refl w
    · rw [hdelete]
      dsimp only
      rcases ih w₁ with ⟨w', hrest, hdeletes'⟩ |
        ⟨front, bad, back, failure, w', rfl, hunusable, hfailed, hdeletes'⟩
      · rw [filesOf_cons]
        exact .inl ⟨w', hrest, hdeletes.trans hdeletes'⟩
      · refine .inr ⟨entry :: front, bad, back, failure, w', rfl, hunusable, hfailed, ?_⟩
        rw [filesOf_cons]
        exact hdeletes.trans hdeletes'

end Deleting

end Store
end PassTrace

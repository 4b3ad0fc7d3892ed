import Mathlib.Data.Set.Basic
import PassTrace.Proofs.Files.Tree
import PassTrace.Proofs.World

/-!
# What operations change

An operation that writes and removes the files of some paths leaves the contents of all others, and
the directories, whether it succeeds or fails. The rules here follow the way operations are put
together. What an operation does when it succeeds is told by what its parts do one after the other.
-/

namespace PassTrace

/-- One world comes from another by changes to the files of some paths only. -/
structure World.AltersOnly (paths : Set Path) (w w' : World) : Prop where
  now_eq : w'.now = w.now
  keeps : w.files.KeepsDirectories w'.files
  content?_eq : ∀ place, (∀ p ∈ paths, w.files.placeOf p ≠ place) →
    w'.files.content? place = w.files.content? place

namespace World.AltersOnly

variable {paths paths' : Set Path} {w w' w'' : World}

theorem of_files_eq (hnow : w'.now = w.now) (hfiles : w'.files = w.files) :
    AltersOnly paths w w' where
  now_eq := hnow
  keeps := hfiles ▸ .refl w.files
  content?_eq := fun _ _ => by rw [hfiles]

theorem refl (w : World) : AltersOnly paths w w :=
  of_files_eq rfl rfl

theorem trans (h : AltersOnly paths w w') (h' : AltersOnly paths w' w'') :
    AltersOnly paths w w'' where
  now_eq := h'.now_eq.trans h.now_eq
  keeps := h.keeps.trans h'.keeps
  content?_eq := by
    intro place hplace
    rw [h'.content?_eq place, h.content?_eq place hplace]
    intro p hp
    rw [h.keeps.placeOf_eq]
    exact hplace p hp

theorem mono (h : AltersOnly paths w w') (hpaths : paths ⊆ paths') : AltersOnly paths' w w' where
  now_eq := h.now_eq
  keeps := h.keeps
  content?_eq := fun place hplace => h.content?_eq place fun p hp => hplace p (hpaths hp)

/-- Changes to the files of some paths, and then to those of others. -/
theorem union (h : AltersOnly paths w w') (h' : AltersOnly paths' w' w'') :
    AltersOnly (paths ∪ paths') w w'' :=
  (h.mono Set.subset_union_left).trans (h'.mono Set.subset_union_right)

theorem of_empty (h : AltersOnly ∅ w w') : AltersOnly paths w w' :=
  h.mono (Set.empty_subset paths)

theorem of_mem {p : Path} (h : AltersOnly {p} w w') (hp : p ∈ paths) : AltersOnly paths w w' :=
  h.mono fun q (hq : q = p) => hq ▸ hp

theorem of_grows (hnow : w'.now = w.now) (hgrows : w.files.Grows w'.files) :
    AltersOnly paths w w' where
  now_eq := hnow
  keeps := hgrows.keepsDirectories
  content?_eq := fun place _ => hgrows.content?_eq place

theorem of_altersAt {p : Path} (hnow : w'.now = w.now)
    (halters : w.files.AltersAt w'.files (w.files.placeOf p)) : AltersOnly {p} w w' where
  now_eq := hnow
  keeps := halters.toKeepsDirectories
  content?_eq := fun place hplace =>
    halters.content?_eq place fun heq => hplace p rfl heq.symm

/-- A file that is at none of the paths stays as it is. -/
theorem stores {p : Path} {bytes : Bytes} (h : AltersOnly paths w w') (hp : w.files.Stores p bytes)
    (hpaths : ∀ q ∈ paths, w.files.placeOf q ≠ w.files.placeOf p) : w'.files.Stores p bytes :=
  hp.keep h.keeps (h.content?_eq _ hpaths)

end World.AltersOnly

namespace Operation

variable {α β : Type} {paths : Set Path}

/-- What became of the first of two operations, and then of the second. -/
theorem run_bind_cases {x : Operation α} {f : α → Operation β} {w w' : World}
    {result : Except Failure β} (h : (x >>= f).run.run w = (result, w')) :
    (∃ failure, x.run.run w = (.error failure, w') ∧ result = .error failure) ∨
      ∃ a w₁, x.run.run w = (.ok a, w₁) ∧ (f a).run.run w₁ = (result, w') := by
  rw [run_bind] at h
  rcases hx : x.run.run w with ⟨failure | a, w₁⟩
  · rw [hx] at h
    obtain ⟨rfl, rfl⟩ := Prod.mk.inj h
    exact .inl ⟨failure, rfl, rfl⟩
  · rw [hx] at h
    exact .inr ⟨a, w₁, rfl, h⟩

/-- Two operations succeed if both do. -/
theorem run_bind_eq_ok {x : Operation α} {f : α → Operation β} {w w' : World} {b : β}
    (h : (x >>= f).run.run w = (.ok b, w')) :
    ∃ a w₁, x.run.run w = (.ok a, w₁) ∧ (f a).run.run w₁ = (.ok b, w') := by
  rcases run_bind_cases h with ⟨failure, -, hresult⟩ | hparts
  · cases hresult
  · exact hparts

theorem run_get_bind (f : World → Operation β) (w : World) :
    ((get : Operation World) >>= f).run.run w = (f w).run.run w := rfl

theorem run_clock_bind (f : Binary64 → Operation β) (w : World) :
    (clock >>= f).run.run w = (f w.now).run.run w := rfl

/-- An operation changes the files of some paths only. -/
def AltersOnly (paths : Set Path) (x : Operation α) : Prop :=
  ∀ w, World.AltersOnly paths w (x.run.run w).2

theorem altersOnly_pure (a : α) : AltersOnly paths (pure a) := fun w => .refl w

theorem altersOnly_throw (failure : Failure) : AltersOnly paths (throw failure : Operation α) :=
  fun w => .refl w

theorem altersOnly_notify (notice : Notice) : AltersOnly paths (notify notice) :=
  fun _ => .of_files_eq rfl rfl

theorem altersOnly_clock : AltersOnly paths clock := fun w => .refl w

theorem AltersOnly.bind {x : Operation α} {f : α → Operation β} (hx : x.AltersOnly paths)
    (hf : ∀ a, (f a).AltersOnly paths) : (x >>= f).AltersOnly paths := by
  intro w
  have hfirst := hx w
  rcases hrun : (x >>= f).run.run w with ⟨result, w'⟩
  rcases run_bind_cases hrun with ⟨failure, hfailed, -⟩ | ⟨a, w₁, hok, hsecond⟩
  · rw [hfailed] at hfirst
    exact hfirst
  · rw [hok] at hfirst
    have hsecond' := hf a w₁
    rw [hsecond] at hsecond'
    exact hfirst.trans hsecond'

theorem altersOnly_notifyAll (notices : List Notice) : AltersOnly paths (notifyAll notices) := by
  induction notices with
  | nil => exact altersOnly_pure ()
  | cons notice rest ih =>
    have hsplit : notifyAll (notice :: rest) = notify notice >>= fun _ => notifyAll rest := rfl
    rw [hsplit]
    exact (altersOnly_notify notice).bind fun _ => ih

theorem altersOnly_orFail (failure : FileFault → Failure) (result : Except FileFault α) :
    AltersOnly paths (orFail failure result) := by
  cases result with
  | error fault => exact altersOnly_throw _
  | ok a => exact altersOnly_pure a

theorem altersOnly_usable (p : Path) : AltersOnly paths (usable p) := by
  unfold usable
  split
  · exact altersOnly_throw _
  · exact altersOnly_pure _

theorem run_changeFiles (change : FileTree → Binary64 → Except FileFault FileTree) (w : World) :
    (changeFiles change).run.run w = match change w.files w.now with
      | .ok files => (.ok (.ok ()), { w with files })
      | .error fault => (.ok (.error fault), w) := by
  have hrun : (changeFiles change).run.run w = (match change w.files w.now with
      | .ok files => do
        set { w with files }
        return .ok ()
      | .error fault => return .error fault : Operation (Except FileFault Unit)).run.run w := rfl
  rw [hrun]
  split <;> rfl

/-- A change of the file tree that alters no more than the file at a path. -/
theorem altersOnly_changeFiles {p : Path} {change : FileTree → Binary64 → Except FileFault FileTree}
    (h : ∀ t now t', change t now = .ok t' → t.AltersAt t' (t.placeOf p)) :
    AltersOnly {p} (changeFiles change) := by
  intro w
  rw [run_changeFiles]
  cases hchange : change w.files w.now with
  | error fault => exact .refl w
  | ok files => exact .of_altersAt rfl (h w.files w.now files hchange)

theorem run_usable (p : Path) (w : World) :
    (usable p).run.run w = (if p.holdsNull then .error .nullInPath else .ok (), w) := by
  unfold usable
  split <;> rfl

theorem run_usable_of_holdsNull {p : Path} (h : p.holdsNull = false) (w : World) :
    (usable p).run.run w = (.ok (), w) := by
  rw [run_usable, h]
  rfl

/-- A path that was used holds no null character. -/
theorem usable_eq_ok {p : Path} {w w' : World} {u : Unit}
    (h : (usable p).run.run w = (.ok u, w')) : p.holdsNull = false ∧ w' = w := by
  rw [run_usable] at h
  obtain ⟨hresult, rfl⟩ := Prod.mk.inj h
  split at hresult
  · cases hresult
  · next hnull => exact ⟨by simpa using hnull, rfl⟩

theorem run_contents (p : Path) (w : World) :
    (contents p).run.run w =
      (if p.holdsNull then .error .nullInPath else .ok (w.files.read p), w) := by
  unfold contents
  rw [run_bind, run_usable]
  cases p.holdsNull <;> rfl

section Writing

variable {p : Path} {bytes : Bytes} {w w' : World}

theorem altersOnly_writeFile (p : Path) (bytes : Bytes) : AltersOnly {p} (writeFile p bytes) :=
  (altersOnly_usable p).bind fun _ =>
    altersOnly_changeFiles fun _ _ _ hwrite => (FileTree.stores_of_write hwrite).2

/-- A file that was written is there. -/
theorem stores_of_writeFile {u : Unit}
    (h : (writeFile p bytes).run.run w = (.ok (.ok u), w')) :
    w'.files.Stores p bytes ∧ p.holdsNull = false := by
  obtain ⟨_, w₁, husable, hchange⟩ := run_bind_eq_ok h
  obtain ⟨hnull, rfl⟩ := usable_eq_ok husable
  rw [run_changeFiles] at hchange
  split at hchange
  · next files hwrite =>
    obtain ⟨-, rfl⟩ := Prod.mk.inj hchange
    exact ⟨(FileTree.stores_of_write hwrite).1, hnull⟩
  · cases (Prod.mk.inj hchange).1

/-- A file that was not written is as it was. -/
theorem alters_of_not_writeFile {result : Except Failure (Except FileFault Unit)}
    (h : (writeFile p bytes).run.run w = (result, w')) (hresult : result ≠ .ok (.ok ())) :
    w' = w := by
  rcases run_bind_cases h with ⟨failure, hfailed, -⟩ | ⟨_, w₁, husable, hchange⟩
  · rw [run_usable] at hfailed
    exact (Prod.mk.inj hfailed).2.symm
  · obtain ⟨-, rfl⟩ := usable_eq_ok husable
    rw [run_changeFiles] at hchange
    split at hchange
    · exact absurd (Prod.mk.inj hchange).1.symm hresult
    · exact (Prod.mk.inj hchange).2.symm

theorem run_changeAt (change : FileTree → Path → FileTree.Change) (p : Path) (w : World) :
    ∃ result, (changeAt change p).run.run w =
      (result, { w with files := if p.holdsNull then w.files else (change w.files p).1 }) := by
  unfold changeAt
  rw [run_bind, run_usable]
  cases hnull : p.holdsNull with
  | true => exact ⟨_, rfl⟩
  | false =>
    simp only [Bool.false_eq_true, if_false]
    rw [run_get_bind]
    cases hfault : (change w.files p).2 with
    | none => exact ⟨.ok (.ok ()), rfl⟩
    | some fault => exact ⟨.ok (.error fault), rfl⟩

/-- Making the directories in which a file is to stand alters no file. -/
theorem altersOnly_makeParents {paths : Set Path} (p : Path) :
    AltersOnly paths (makeParents p) := by
  intro w
  obtain ⟨result, hrun⟩ := run_changeAt FileTree.ensureDirectories p.parent w
  unfold makeParents makeDirectories
  rw [hrun]
  split
  · exact .refl w
  · exact .of_grows rfl (FileTree.grows_ensureDirectories w.files p.parent)

theorem altersOnly_writeBelow (p : Path) (bytes : Bytes) : AltersOnly {p} (writeBelow p bytes) := by
  refine (altersOnly_makeParents p).bind fun result => ?_
  split
  · exact altersOnly_writeFile p bytes
  · exact altersOnly_pure _

/-- A file that was written with the directories above it is there. -/
theorem stores_of_writeBelow {u : Unit}
    (h : (writeBelow p bytes).run.run w = (.ok (.ok u), w')) :
    w'.files.Stores p bytes ∧ p.holdsNull = false := by
  obtain ⟨result, w₁, -, hwrite⟩ := run_bind_eq_ok h
  split at hwrite
  · exact stores_of_writeFile hwrite
  · cases (Prod.mk.inj hwrite).1

/-- Where no file was written, no file was altered. -/
theorem alters_of_not_writeBelow {paths : Set Path}
    {result : Except Failure (Except FileFault Unit)}
    (h : (writeBelow p bytes).run.run w = (result, w')) (hresult : result ≠ .ok (.ok ())) :
    w.AltersOnly paths w' := by
  rcases run_bind_cases h with ⟨failure, hfailed, -⟩ | ⟨made, w₁, hmade, hwrite⟩
  · have halters : w.AltersOnly paths _ := altersOnly_makeParents p w
    rwa [hfailed] at halters
  · have halters : w.AltersOnly paths _ := altersOnly_makeParents p w
    rw [hmade] at halters
    split at hwrite
    · rw [alters_of_not_writeFile hwrite hresult]
      exact halters
    · rw [← (Prod.mk.inj hwrite).2]
      exact halters

/-- A file can be written where a path leads, with the directories above it, unless a directory is
in the way. -/
theorem exists_run_writeBelow_of_locate {p : Path} {name : String} (hname : Path.IsName name)
    (hlocate : w.files.locate (p.join name) = .ok (w.files.placeOf (p.join name)))
    (hfree : w.files.at? (w.files.placeOf (p.join name)) ≠ some .directory)
    (hnull : (p.join name).holdsNull = false) (bytes : Bytes) :
    ∃ w', (writeBelow (p.join name) bytes).run.run w = (.ok (.ok ()), w') := by
  obtain ⟨hparent, hdirectory⟩ := FileTree.parent_of_locate hname hlocate
  have hnull' : p.holdsNull = false := by
    rw [p.holdsNull_join hname, Bool.or_eq_false_iff] at hnull
    exact hnull.1
  have hmade : (makeParents (p.join name)).run.run w = (.ok (.ok ()), w) := by
    unfold makeParents makeDirectories changeAt
    rw [p.parent_join hname, run_bind, run_usable_of_holdsNull hnull']
    dsimp only
    rw [run_get_bind, FileTree.ensureDirectories_eq_self hparent hdirectory]
    rfl
  obtain ⟨files, hwrite⟩ := FileTree.exists_write hlocate hfree bytes w.now
  refine ⟨{ w with files }, ?_⟩
  unfold writeBelow
  rw [run_bind, hmade]
  dsimp only
  unfold writeFile
  rw [run_bind, run_usable_of_holdsNull hnull]
  dsimp only
  rw [run_changeFiles, hwrite]

/-- A file can be written again. -/
theorem exists_run_writeBelow {p : Path} {name : String} (hname : Path.IsName name)
    (hstores : w.files.Stores (p.join name) bytes) (hnull : (p.join name).holdsNull = false)
    (bytes' : Bytes) : ∃ w', (writeBelow (p.join name) bytes').run.run w = (.ok (.ok ()), w') :=
  exists_run_writeBelow_of_locate hname hstores.locate_eq hstores.at?_ne_directory hnull bytes'

/-- A file is written with the directories above it, or no file is altered. -/
theorem run_orFail_writeBelow_cases {failure : FileFault → Failure} {result : Except Failure Unit}
    (h : (do orFail failure (← writeBelow p bytes) : Operation Unit).run.run w = (result, w')) :
    (∃ failure, result = .error failure ∧ w.AltersOnly ∅ w') ∨
      result = .ok () ∧ w.AltersOnly {p} w' ∧ p.holdsNull = false ∧ w'.files.Stores p bytes := by
  rcases run_bind_cases h with ⟨failure, hfailed, rfl⟩ | ⟨written, w₁, hwrite, hfail⟩
  · exact .inl ⟨failure, rfl, alters_of_not_writeBelow hfailed nofun⟩
  · cases written with
    | error fault =>
      obtain ⟨hresult, rfl⟩ := Prod.mk.inj hfail
      exact .inl ⟨_, hresult.symm, alters_of_not_writeBelow hwrite nofun⟩
    | ok u =>
      obtain ⟨hresult, rfl⟩ := Prod.mk.inj hfail
      have halters := altersOnly_writeBelow p bytes w
      rw [hwrite] at halters
      obtain ⟨hstores, hnull⟩ := stores_of_writeBelow hwrite
      exact .inr ⟨hresult.symm, halters, hnull, hstores⟩

end Writing

end Operation
end PassTrace

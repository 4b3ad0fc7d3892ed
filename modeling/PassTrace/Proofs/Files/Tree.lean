import PassTrace.Files.Tree
import PassTrace.Proofs.Files.Paths

/-!
# What changes of a file tree leave as it is

Where a path leads is told by its names alone, as there are only directories on the way. Directories
are never removed, so that a path that leads somewhere always leads there. So what matters of a tree
are the paths that lead somewhere, which become more and more, and the contents of its files, which
are changed by writing and removing only.
-/

namespace PassTrace.FileTree

variable {t t' t'' : FileTree} {p : Path} {place other : Location} {bytes : Bytes}

/-- The content of the file at a location. -/
def content? (t : FileTree) (place : Location) : Option Bytes :=
  match t.at? place with
  | some (.file bytes _) => some bytes
  | _ => none

/-- The location to which the names of a path lead. -/
def placeOf (t : FileTree) (p : Path) : Location :=
  resolveNames (t.start p.anchor) p.parts

section Entries

theorem at?_nil (t : FileTree) : t.at? [] = some .directory := rfl

theorem at?_put_self (t : FileTree) (hplace : place ≠ []) (entry : Entry) :
    (t.put place entry).at? place = some entry := by
  simp [at?, put, hplace]

theorem find?_filter_of_ne (entries : List (Location × Entry)) (hne : other ≠ place) :
    (entries.filter fun e => e.1 ≠ place).find? (fun e => e.1 = other) =
      entries.find? fun e => e.1 = other := by
  rw [List.find?_filter]
  congr 1
  funext e
  by_cases he : e.1 = other
  · simp [he, hne]
  · simp [he]

theorem at?_put_of_ne (t : FileTree) (hne : other ≠ place) (entry : Entry) :
    (t.put place entry).at? other = t.at? other := by
  unfold at? put
  split
  · rfl
  · rw [List.find?_cons_of_neg (by simpa using Ne.symm hne), find?_filter_of_ne _ hne]

theorem at?_erase_self (t : FileTree) (hplace : place ≠ []) : (t.erase place).at? place = none := by
  simp [at?, erase, hplace]

theorem at?_erase_of_ne (t : FileTree) (hne : other ≠ place) :
    (t.erase place).at? other = t.at? other := by
  unfold at? erase
  split
  · rfl
  · rw [find?_filter_of_ne _ hne]

end Entries

section Following

/-- Names lead where they say, if they lead anywhere. -/
theorem eq_of_follow {names : List String} (h : t.follow place names = .ok other) :
    other = resolveNames place names := by
  induction names generalizing place with
  | nil => exact (Except.ok.inj h).symm
  | cons name names ih =>
    unfold follow at h
    split at h
    · cases h
    · cases h
    · split at h
      · cases h
      · exact ih h

/-- A name that leads down leads to the location behind it. -/
theorem placeOf_join (t : FileTree) (p : Path) {name : String} (h : Path.IsPlain name) :
    t.placeOf (p.join name) = t.placeOf p ++ [name] := by
  rw [Path.join_of_isName p h.toIsName, placeOf, placeOf, resolveNames, resolveNames,
    List.foldl_append]
  simp [enter, h.ne_dot, h.ne_dots]

theorem eq_placeOf_of_locate (h : t.locate p = .ok place) : place = t.placeOf p := by
  unfold locate at h
  split at h
  · cases h
  · exact eq_of_follow h

/-- All directories of a tree are directories of another, and paths start at the same places. -/
structure KeepsDirectories (t t' : FileTree) : Prop where
  work_eq : t'.work = t.work
  directory : ∀ {place : Location}, t.at? place = some .directory → t'.at? place = some .directory

theorem KeepsDirectories.refl (t : FileTree) : t.KeepsDirectories t :=
  ⟨rfl, id⟩

theorem KeepsDirectories.trans (h : t.KeepsDirectories t') (h' : t'.KeepsDirectories t'') :
    t.KeepsDirectories t'' :=
  ⟨h'.work_eq.trans h.work_eq, fun hplace => h'.directory (h.directory hplace)⟩

theorem KeepsDirectories.start_eq (h : t.KeepsDirectories t') (anchor : Anchor) :
    t'.start anchor = t.start anchor := by
  cases anchor with
  | work => exact h.work_eq
  | root => rfl
  | doubleRoot => rfl

theorem KeepsDirectories.placeOf_eq (h : t.KeepsDirectories t') (p : Path) :
    t'.placeOf p = t.placeOf p := by
  rw [placeOf, placeOf, h.start_eq]

theorem KeepsDirectories.follow (h : t.KeepsDirectories t') {names : List String}
    (hfollow : t.follow place names = .ok other) : t'.follow place names = .ok other := by
  induction names generalizing place with
  | nil => exact hfollow
  | cons name names ih =>
    unfold FileTree.follow at hfollow ⊢
    split at hfollow
    · cases hfollow
    · cases hfollow
    · next hplace =>
      rw [h.directory hplace]
      split at hfollow
      · cases hfollow
      · next hname =>
        dsimp only
        rw [if_neg hname]
        exact ih hfollow

/-- A path that leads somewhere leads there as long as directories stay. -/
theorem KeepsDirectories.locate (h : t.KeepsDirectories t') (hlocate : t.locate p = .ok place) :
    t'.locate p = .ok place := by
  unfold FileTree.locate at hlocate ⊢
  split at hlocate
  · cases hlocate
  · next hlength =>
    rw [if_neg hlength, h.start_eq]
    exact h.follow hlocate

end Following

section Growing

/-- A tree with more directories. -/
structure Grows (t t' : FileTree) : Prop where
  work_eq : t'.work = t.work
  at?_eq : ∀ place, t'.at? place = t.at? place ∨
    t.at? place = none ∧ t'.at? place = some .directory

theorem Grows.refl (t : FileTree) : t.Grows t :=
  ⟨rfl, fun _ => .inl rfl⟩

theorem Grows.trans (h : t.Grows t') (h' : t'.Grows t'') : t.Grows t'' where
  work_eq := h'.work_eq.trans h.work_eq
  at?_eq := by
    intro place
    rcases h.at?_eq place with heq | ⟨hnone, hmade⟩
    · rw [← heq]
      exact h'.at?_eq place
    · rcases h'.at?_eq place with heq | ⟨hnone', -⟩
      · exact .inr ⟨hnone, heq.trans hmade⟩
      · rw [hmade] at hnone'
        cases hnone'

theorem Grows.keepsDirectories (h : t.Grows t') : t.KeepsDirectories t' where
  work_eq := h.work_eq
  directory := by
    intro place hplace
    rcases h.at?_eq place with heq | ⟨hnone, -⟩
    · exact heq.trans hplace
    · rw [hplace] at hnone
      cases hnone

theorem Grows.content?_eq (h : t.Grows t') (place : Location) :
    t'.content? place = t.content? place := by
  unfold content?
  rcases h.at?_eq place with heq | ⟨hnone, hmade⟩
  · rw [heq]
  · rw [hnone, hmade]

theorem grows_makeAt {text : String} {result : Except FileCause Location}
    (h : t.makeAt text result = .ok t') : t.Grows t' := by
  unfold makeAt at h
  split at h
  · cases h
  · next place =>
    split at h
    · cases h
    · next hnone =>
      obtain rfl := Except.ok.inj h
      refine ⟨rfl, fun other => ?_⟩
      by_cases hother : other = place
      · subst hother
        refine .inr ⟨hnone, t.at?_put_self ?_ .directory⟩
        rintro rfl
        cases hnone
      · exact .inl (t.at?_put_of_ne hother .directory)

theorem grows_ensureDirectory (h : t.ensureDirectory p = .ok t') : t.Grows t' := by
  unfold ensureDirectory at h
  split at h
  · next hmade =>
    obtain rfl := Except.ok.inj h
    exact grows_makeAt hmade
  · split at h
    · obtain rfl := Except.ok.inj h
      exact .refl t
    · cases h

theorem grows_afterStep {step : Except FileFault FileTree} (h : ∀ t', step = .ok t' → t.Grows t') :
    t.Grows (t.afterStep step).1 := by
  cases step with
  | ok t' => exact h t' rfl
  | error fault => exact .refl t

/-- Making directories adds directories only, whether it succeeds or not. -/
theorem grows_ensureUpward (t : FileTree) (anchor : Anchor) (names : List String) :
    t.Grows (t.ensureUpward anchor names).1 := by
  induction names generalizing t with
  | nil => exact grows_afterStep fun _ => grows_ensureDirectory
  | cons name above ih =>
    unfold ensureUpward
    dsimp only
    split
    next hmade => exact grows_makeAt hmade
    next =>
      split
      next =>
        have habove := ih t
        split
        next heq =>
          rw [heq] at habove
          exact habove.trans (grows_afterStep fun _ => grows_ensureDirectory)
        next heq =>
          rw [heq] at habove
          exact habove
      next => exact grows_afterStep fun _ => grows_ensureDirectory

theorem grows_ensureDirectories (t : FileTree) (p : Path) : t.Grows (t.ensureDirectories p).1 :=
  grows_ensureUpward t p.anchor p.parts.reverse

end Growing

section Files

/-- A path leads to a file of some content. -/
structure Stores (t : FileTree) (p : Path) (bytes : Bytes) : Prop where
  locate_eq : t.locate p = .ok (t.placeOf p)
  content?_eq : t.content? (t.placeOf p) = some bytes

/-- Where there is a content there is a file. -/
theorem exists_at?_of_content? (h : t.content? place = some bytes) :
    ∃ modified, t.at? place = some (.file bytes modified) := by
  unfold content? at h
  split at h
  · next modified hentry =>
    obtain rfl := Option.some.inj h
    exact ⟨modified, hentry⟩
  · cases h

/-- The file to which a path leads is found by it. -/
theorem Stores.exists_lookUp (h : t.Stores p bytes) :
    ∃ modified, t.lookUp p = .ok (.file bytes modified) := by
  obtain ⟨modified, hentry⟩ := exists_at?_of_content? h.content?_eq
  refine ⟨modified, ?_⟩
  unfold lookUp
  rw [h.locate_eq]
  simp only [bind, Except.bind, hentry, pure, Except.pure]

/-- The content of a file is read by its path. -/
theorem Stores.read (h : t.Stores p bytes) : t.read p = .ok bytes := by
  obtain ⟨modified, hentry⟩ := h.exists_lookUp
  rw [FileTree.read, hentry]

theorem Stores.has (h : t.Stores p bytes) (hnull : p.holdsNull = false) : t.has p = .ok true := by
  obtain ⟨modified, hentry⟩ := h.exists_lookUp
  rw [FileTree.has, hnull, hentry]
  rfl

/-- A file stays where it is, if its content does. -/
theorem Stores.keep (h : t.Stores p bytes) (hkeeps : t.KeepsDirectories t')
    (hcontent : t'.content? (t.placeOf p) = t.content? (t.placeOf p)) : t'.Stores p bytes := by
  rw [h.content?_eq] at hcontent
  refine ⟨?_, ?_⟩
  · rw [hkeeps.placeOf_eq]
    exact hkeeps.locate h.locate_eq
  · rw [hkeeps.placeOf_eq, hcontent]

/-- The contents of files are the same, except at one location. -/
structure AltersAt (t t' : FileTree) (place : Location) : Prop extends KeepsDirectories t t' where
  content?_eq : ∀ other, other ≠ place → t'.content? other = t.content? other

/-- What is written is stored, and nothing else changes. -/
theorem stores_of_write {now : Binary64} (h : t.write p bytes now = .ok t') :
    t'.Stores p bytes ∧ t.AltersAt t' (t.placeOf p) := by
  unfold write at h
  split at h
  · cases h
  · next place hlocate =>
    obtain rfl := eq_placeOf_of_locate hlocate
    split at h
    · cases h
    · next hfile =>
      obtain rfl := Except.ok.inj h
      have hplace : t.placeOf p ≠ [] := by
        intro hnil
        exact hfile (by rw [hnil, at?_nil])
      have hkeeps : t.KeepsDirectories (t.put (t.placeOf p) (.file bytes now)) := by
        refine ⟨rfl, fun {other} hother => ?_⟩
        have hne : other ≠ t.placeOf p := by
          rintro rfl
          exact hfile hother
        rw [t.at?_put_of_ne hne, hother]
      refine ⟨⟨?_, ?_⟩, hkeeps, fun other hne => ?_⟩
      · rw [hkeeps.placeOf_eq]
        exact hkeeps.locate hlocate
      · rw [hkeeps.placeOf_eq, content?, t.at?_put_self hplace]
      · rw [content?, t.at?_put_of_ne hne, content?]

/-- What is removed is gone, and nothing else changes. -/
theorem content?_of_remove (h : t.remove p = .ok t') :
    t'.content? (t.placeOf p) = none ∧ t.AltersAt t' (t.placeOf p) := by
  unfold remove removeAt at h
  split at h
  · cases h
  · next place hlocate =>
    obtain rfl := eq_placeOf_of_locate hlocate
    split at h
    · cases h
    · cases h
    · next hfile =>
      split at h
      · cases h
      · obtain rfl := Except.ok.inj h
        have hplace : t.placeOf p ≠ [] := by
          intro hnil
          rw [hnil, at?_nil] at hfile
          cases hfile
        refine ⟨?_, ⟨rfl, fun {other} hother => ?_⟩, fun other hne => ?_⟩
        · rw [content?, t.at?_erase_self hplace]
        · have hne : other ≠ t.placeOf p := by
            rintro rfl
            rw [hfile] at hother
            cases hother
          rw [t.at?_erase_of_ne hne, hother]
        · rw [content?, t.at?_erase_of_ne hne, content?]

/-- A file is removed by its path, unless the text of the path asks for a directory. -/
theorem Stores.exists_remove (h : t.Stores p bytes)
    (htext : Path.asksDirectory p.toString = false) :
    ∃ t', t.remove p = .ok t' := by
  obtain ⟨modified, hentry⟩ := exists_at?_of_content? h.content?_eq
  refine ⟨t.erase (t.placeOf p), ?_⟩
  unfold remove removeAt
  rw [h.locate_eq]
  simp only [hentry, htext]
  rfl

/-- A file that is read is there. -/
theorem stores_of_read (h : t.read p = .ok bytes) : t.Stores p bytes := by
  unfold FileTree.read lookUp at h
  cases hlocate : t.locate p with
  | error cause =>
    rw [hlocate] at h
    cases h
  | ok place =>
    obtain rfl := eq_placeOf_of_locate hlocate
    refine ⟨hlocate, ?_⟩
    rw [hlocate] at h
    unfold content?
    cases hentry : t.at? (t.placeOf p) with
    | none => simp [bind, Except.bind, hentry] at h
    | some entry => cases entry <;> simp_all [bind, Except.bind, pure, Except.pure]

/-- There is no file to be read where there is no content. -/
theorem content?_of_read (h : t.read p = .ok bytes) : t.content? (t.placeOf p) = some bytes :=
  (stores_of_read h).content?_eq

end Files

section Rewriting

/-- A file can be written where a path leads, unless a directory is in the way. -/
theorem exists_write (hlocate : t.locate p = .ok place) (hfree : t.at? place ≠ some .directory)
    (bytes : Bytes) (now : Binary64) : ∃ t', t.write p bytes now = .ok t' := by
  unfold write
  rw [hlocate]
  dsimp only
  split
  · next hdirectory => exact absurd hdirectory hfree
  · exact ⟨_, rfl⟩

/-- No directory is where a file is. -/
theorem Stores.at?_ne_directory (h : t.Stores p bytes) : t.at? (t.placeOf p) ≠ some .directory := by
  obtain ⟨modified, hentry⟩ := exists_at?_of_content? h.content?_eq
  rw [hentry]
  nofun

/-- All names on the way but the last lead to directories. -/
theorem follow_concat {names : List String} {name : String}
    (h : t.follow place (names ++ [name]) = .ok other) :
    t.follow place names = .ok (resolveNames place names) ∧
      t.at? (resolveNames place names) = some .directory := by
  induction names generalizing place with
  | nil =>
    refine ⟨rfl, ?_⟩
    rw [List.nil_append, follow] at h
    change t.at? place = some .directory
    split at h
    · cases h
    · cases h
    · next hplace => exact hplace
  | cons first names ih =>
    rw [List.cons_append, follow] at h
    rw [follow]
    split at h
    · cases h
    · cases h
    · next hplace =>
      split at h
      · cases h
      · next hname =>
        rw [if_neg hname]
        exact ih h

/-- Names that lead to a directory lead on to what stands in it. -/
theorem follow_concat_of_directory {names : List String} {name : String}
    (h : t.follow place names = .ok other) (hother : t.at? other = some .directory)
    (hname : name.utf8ByteSize ≤ maxNameBytes) :
    t.follow place (names ++ [name]) = .ok (enter other name) := by
  induction names generalizing place with
  | nil =>
    obtain rfl := Except.ok.inj h
    rw [List.nil_append, follow, hother]
    dsimp only
    rw [if_neg (by omega), follow]
  | cons first names ih =>
    rw [follow] at h
    rw [List.cons_append, follow]
    split at h
    · cases h
    · cases h
    · split at h
      · cases h
      · next hfirst =>
        rw [if_neg hfirst]
        exact ih h

/-- A file can be written in a directory, if its path is short enough and no directory is in the
way. -/
theorem exists_write_join {name : String} (hname : Path.IsPlain name)
    (hlocate : t.locate p = .ok (t.placeOf p)) (hplace : t.at? (t.placeOf p) = some .directory)
    (hsize : name.utf8ByteSize ≤ maxNameBytes)
    (hpath : (p.join name).toString.utf8ByteSize ≤ maxPathBytes)
    (hfree : t.at? (t.placeOf (p.join name)) ≠ some .directory) (bytes : Bytes) (now : Binary64) :
    ∃ t', t.write (p.join name) bytes now = .ok t' := by
  have hfollow : t.follow (t.start p.anchor) p.parts = .ok (t.placeOf p) := by
    unfold locate at hlocate
    split at hlocate
    · cases hlocate
    · exact hlocate
  have hjoined : t.locate (p.join name) = .ok (t.placeOf (p.join name)) := by
    have henter : enter (t.placeOf p) name = t.placeOf (p.join name) := by
      rw [t.placeOf_join p hname]
      simp [enter, hname.ne_dot, hname.ne_dots]
    unfold locate
    rw [if_neg (by omega), ← henter, Path.join_of_isName p hname.toIsName]
    exact follow_concat_of_directory hfollow hplace hsize
  exact exists_write hjoined hfree bytes now

/-- A path that leads somewhere leads through a directory. -/
theorem parent_of_locate {name : String} (hname : Path.IsName name)
    (hlocate : t.locate (p.join name) = .ok place) :
    t.locate p = .ok (t.placeOf p) ∧ t.at? (t.placeOf p) = some .directory := by
  have hsize := p.utf8ByteSize_le_join hname
  unfold locate at hlocate ⊢
  split at hlocate
  · cases hlocate
  · rw [if_neg (by omega)]
    rw [Path.join_of_isName p hname] at hlocate
    exact follow_concat hlocate

/-- A file stands in a directory. -/
theorem Stores.parent {name : String} (hname : Path.IsName name)
    (h : t.Stores (p.join name) bytes) :
    t.locate p = .ok (t.placeOf p) ∧ t.at? (t.placeOf p) = some .directory :=
  parent_of_locate hname h.locate_eq

theorem ensureDirectory_eq_self (hlocate : t.locate p = .ok place)
    (hplace : t.at? place = some .directory) : t.ensureDirectory p = .ok t := by
  have hmake : t.makeDirectory p = .error ⟨.alreadyExists, p.toString⟩ := by
    rw [makeDirectory, hlocate, makeAt, hplace]
  have hdirectory : t.isDirectory p = true := by
    simp [isDirectory, lookUp, hlocate, hplace, bind, Except.bind, pure, Except.pure]
  rw [ensureDirectory, hmake, hdirectory]
  rfl

/-- A directory that is there is not made. -/
theorem ensureDirectories_eq_self (hlocate : t.locate p = .ok place)
    (hplace : t.at? place = some .directory) : t.ensureDirectories p = (t, none) := by
  have hensure := ensureDirectory_eq_self hlocate hplace
  have hpath : (⟨p.anchor, p.parts.reverse.reverse⟩ : Path) = p := by
    rw [List.reverse_reverse]
  unfold ensureDirectories
  cases hparts : p.parts.reverse with
  | nil =>
    rw [hparts, List.reverse_nil] at hpath
    rw [ensureUpward, hpath, hensure]
    rfl
  | cons name above =>
    rw [hparts] at hpath
    have hmake : t.makeDirectory p = .error ⟨.alreadyExists, p.toString⟩ := by
      rw [makeDirectory, hlocate, makeAt, hplace]
    rw [ensureUpward, hpath, hmake, hensure]
    rfl

/-- Removing a file makes no directories. -/
theorem directory_of_remove (h : t.remove p = .ok t') (hplace : t'.at? place = some .directory) :
    t.at? place = some .directory := by
  unfold remove removeAt at h
  split at h
  · cases h
  · next removed _ =>
    split at h
    · cases h
    · cases h
    · next hfile =>
      split at h
      · cases h
      · obtain rfl := Except.ok.inj h
        have hremoved : removed ≠ [] := by
          rintro rfl
          cases t.at?_nil.symm.trans hfile
        have hne : place ≠ removed := by
          rintro rfl
          rw [t.at?_erase_self hremoved] at hplace
          cases hplace
        rwa [t.at?_erase_of_ne hne] at hplace

/-- The text of a path that leads to a file asks for no directory. -/
theorem Stores.asksDirectory_eq (hp : p.IsClean) (h : t.Stores p bytes) :
    Path.asksDirectory p.toString = false := by
  obtain ⟨anchor, parts⟩ := p
  rcases List.eq_nil_or_concat parts with rfl | ⟨above, name, rfl⟩
  · cases anchor with
    | work => decide
    | root | doubleRoot => exact absurd t.at?_nil h.at?_ne_directory
  · rw [List.concat_eq_append] at hp ⊢
    have hlast : Path.name ⟨anchor, above ++ [name]⟩ = name := by simp [Path.name]
    have hname : Path.IsName name := hp name (by simp)
    exact (Path.asksDirectory_toString (hlast.symm ▸ hname)).1

end Rewriting

end PassTrace.FileTree

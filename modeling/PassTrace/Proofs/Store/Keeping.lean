import PassTrace.Proofs.Store.Deleting
import PassTrace.Proofs.Store.Drafts

/-!
# What a store has on its disk

The state of a store is its index, which lists a shelf for each source file, and the directories of
the source files, in which the files of the shelves stand. Its operations read the index, remove
files and write the index again.
-/

namespace PassTrace

/-- The paths of the files of sessions. -/
def Shelf.paths (shelf : Shelf) : Set Path :=
  {p | ∃ e ∈ shelf, e.path = p}

/-- The sessions that are not in the file of a path. -/
def Shelf.without (shelf : Shelf) (p : Path) : Shelf :=
  shelf.filter fun e => e.path ≠ p

theorem Shelf.mem_without {shelf : Shelf} {p : Path} {e : Saved} :
    e ∈ shelf.without p ↔ e ∈ shelf ∧ e.path ≠ p := by
  simp [without]

/-- The sessions that are not older than a time. -/
def Shelf.since (limit : Binary64) (shelf : Shelf) : Shelf :=
  shelf.filter fun e => !e.savedAt.less limit

theorem Shelf.mem_since {shelf : Shelf} {limit : Binary64} {e : Saved} :
    e ∈ shelf.since limit ↔ e ∈ shelf ∧ e.savedAt.less limit = false := by
  simp [since]

theorem Shelf.since_since (limit : Binary64) (shelf : Shelf) :
    (shelf.since limit).since limit = shelf.since limit := by
  simp [since, List.filter_filter]

namespace Store

open Operation

section Deleting

variable {s : Store} {shelf : Shelf} {e : Saved} {key : String}

/-- The index names the file of a session. -/
theorem fileOf?_entry (h : e.IsKept s key) : Index.fileOf? (e.entry.get "file") = some e.path := by
  have hempty : e.path.toString.isEmpty = false :=
    (Path.asksDirectory_toString h.isFileName.toIsName).2
  rw [Saved.get_file]
  simp [Index.fileOf?, hempty, Path.ofString_toString h.isClean]

theorem not_isUnusable_entry (h : e.IsKept s key) : ¬Index.IsUnusable (e.entry.get "file") := by
  rintro ⟨-, hnull⟩
  have hholds := hnull e.path (fileOf?_entry h)
  rw [h.holdsNull_eq] at hholds
  cases hholds

theorem run_deleteFile_entry (h : e.IsKept s key) (w : World) :
    ∃ w', (deleteFile (e.entry.get "file")).run.run w = (.ok (), w') ∧ w.Removes {e.path} w' := by
  rcases run_deleteFile_cases (e.entry.get "file") w with ⟨hunusable, -⟩ | ⟨w', hrun, hdeletes⟩
  · exact absurd hunusable (not_isUnusable_entry h)
  · have hpaths : {p | Index.fileOf? (e.entry.get "file") = some p} = {e.path} := by
      ext p
      simp [fileOf?_entry h, eq_comm]
    exact ⟨w', hrun, hpaths ▸ hdeletes.toRemoves⟩

theorem filesOf_entries (h : ∀ e ∈ shelf, ∃ key, e.IsKept s key) :
    Index.filesOf (shelf.map Saved.entry) = Shelf.paths shelf := by
  ext p
  constructor
  · rintro ⟨entry, hentry, hfile⟩
    obtain ⟨e, he, rfl⟩ := List.mem_map.mp hentry
    obtain ⟨key, hkept⟩ := h e he
    exact ⟨e, he, Option.some.inj ((fileOf?_entry hkept).symm.trans hfile)⟩
  · rintro ⟨e, he, rfl⟩
    obtain ⟨key, hkept⟩ := h e he
    exact ⟨e.entry, List.mem_map_of_mem he, fileOf?_entry hkept⟩

/-- The files of sessions are deleted. -/
theorem run_deleteFiles (h : ∀ e ∈ shelf, ∃ key, e.IsKept s key) (w : World) :
    ∃ w', ((shelf.map Saved.entry).forM fun entry => deleteFile (entry.get "file")).run.run w =
        (.ok (), w') ∧ w.Removes (Shelf.paths shelf) w' := by
  rcases run_deleteFiles_cases (shelf.map Saved.entry) w with
    ⟨w', hrun, hdeletes⟩ | ⟨front, entry, back, failure, w', hentries, hunusable, -⟩
  · exact ⟨w', hrun, filesOf_entries h ▸ hdeletes.toRemoves⟩
  · have hentry : entry ∈ shelf.map Saved.entry := by simp [hentries]
    obtain ⟨e, he, rfl⟩ := List.mem_map.mp hentry
    obtain ⟨key, hkept⟩ := h e he
    exact absurd hunusable (not_isUnusable_entry hkept)

end Deleting

section Indexing

/-- The index of a store is in its file. -/
structure HasIndex (s : Store) (t : FileTree) (shelves : String → Shelf) : Prop where
  holdsNull_eq : s.indexPath.holdsNull = false
  exists_stores : ∃ table, Index.Tabulates table shelves ∧
    t.Stores s.indexPath (Text.utf8 (Json.object (Index.ofTable table).fields).document)

/-- A store has no index and no sessions. -/
structure LacksIndex (s : Store) (t : FileTree) (shelves : String → Shelf) : Prop where
  content?_eq : t.content? (t.placeOf s.indexPath) = none
  shelves_eq : shelves = fun _ => []

/-- What a store keeps of source files, whatever is on its disk: the sessions of each have files of
their own in its directory. There are none without a limit of their number. -/
structure Shelved (s : Store) (shelves : String → Shelf) : Prop where
  kept : ∀ key, ∀ e ∈ shelves key, e.IsKept s key
  nodup : ∀ key, ((shelves key).map (·.path)).Nodup
  limited : ∀ key, shelves key ≠ [] → s.config.maxSessions ≠ none

variable {s : Store} {shelves : String → Shelf} {w w' : World}

theorem isKept_update {key : String} {shelf : Shelf}
    (hkept : ∀ key, ∀ e ∈ shelves key, e.IsKept s key) (hshelf : ∀ e ∈ shelf, e.IsKept s key) :
    ∀ other, ∀ e ∈ Function.update shelves key shelf other, e.IsKept s other := by
  intro other e he
  by_cases hother : other = key
  · subst hother
    rw [Function.update_self] at he
    exact hshelf e he
  · rw [Function.update_of_ne hother] at he
    exact hkept other e he

/-- Another shelf for one source file. -/
theorem Shelved.update (h : s.Shelved shelves) {key : String} {shelf : Shelf}
    (hshelf : ∀ e ∈ shelf, e.IsKept s key) (hnodup : (shelf.map (·.path)).Nodup)
    (hlimit : shelf ≠ [] → s.config.maxSessions ≠ none) :
    s.Shelved (Function.update shelves key shelf) where
  kept := isKept_update h.kept hshelf
  nodup := by
    intro other
    by_cases hother : other = key
    · subst hother
      rwa [Function.update_self]
    · rw [Function.update_of_ne hother]
      exact h.nodup other
  limited := by
    intro other hne
    by_cases hother : other = key
    · subst hother
      rw [Function.update_self] at hne
      exact hlimit hne
    · rw [Function.update_of_ne hother] at hne
      exact h.limited other hne

theorem HasIndex.of_altersOnly {paths : Set Path} (h : s.HasIndex w.files shelves)
    (halters : w.AltersOnly paths w')
    (hpaths : ∀ q ∈ paths, w.files.placeOf q ≠ w.files.placeOf s.indexPath) :
    s.HasIndex w'.files shelves := by
  obtain ⟨hnull, table, htable, hstores⟩ := h
  exact ⟨hnull, table, htable, halters.stores hstores hpaths⟩

theorem LacksIndex.of_altersOnly {paths : Set Path} (h : s.LacksIndex w.files shelves)
    (halters : w.AltersOnly paths w')
    (hpaths : ∀ q ∈ paths, w.files.placeOf q ≠ w.files.placeOf s.indexPath) :
    s.LacksIndex w'.files shelves := by
  refine ⟨?_, h.shelves_eq⟩
  rw [halters.keeps.placeOf_eq, halters.content?_eq _ hpaths, h.content?_eq]

/-- What loading an index comes to: without a file there is a fresh index, otherwise it is read. -/
theorem run_loadIndex (s : Store) (w : World) : s.loadIndex.run.run w =
    match w.files.has s.indexPath with
    | .error fault => (.error (.file fault), w)
    | .ok false => (.ok .fresh, w)
    | .ok true =>
      if s.indexPath.holdsNull then (.error .nullInPath, w)
      else
        match w.files.read s.indexPath with
        | .error fault => (.error (.sessionFile s.indexPath.toString fault), w)
        | .ok bytes => (readIndex bytes).run.run w := by
  have hhas : (askFiles (·.has s.indexPath)).run.run w = (.ok (w.files.has s.indexPath), w) := rfl
  unfold loadIndex
  dsimp only
  rw [run_bind, hhas]
  cases w.files.has s.indexPath with
  | error fault => rfl
  | ok found =>
    cases found with
    | false => rfl
    | true =>
      have hread : (do
          readIndex (← orFail (.sessionFile s.indexPath.toString) (← contents s.indexPath)) :
          Operation Index).run.run w = if s.indexPath.holdsNull then (.error .nullInPath, w)
        else
          match w.files.read s.indexPath with
          | .error fault => (.error (.sessionFile s.indexPath.toString fault), w)
          | .ok bytes => (readIndex bytes).run.run w := by
        rw [run_bind, run_contents]
        cases s.indexPath.holdsNull with
        | true => rfl
        | false =>
          simp only [Bool.false_eq_true, if_false]
          cases w.files.read s.indexPath <;> rfl
      exact hread

/-- Reading an index gives notices at most. -/
theorem files_readIndex (bytes : Bytes) (w : World) :
    ((readIndex bytes).run.run w).2.files = w.files ∧
      ((readIndex bytes).run.run w).2.now = w.now := by
  unfold readIndex
  split
  · exact ⟨rfl, rfl⟩
  · split
    · next v _ => cases Index.ofJson v <;> exact ⟨rfl, rfl⟩
    all_goals exact ⟨rfl, rfl⟩

theorem files_loadIndex (s : Store) (w : World) :
    (s.loadIndex.run.run w).2.files = w.files ∧ (s.loadIndex.run.run w).2.now = w.now := by
  rw [run_loadIndex]
  split
  · exact ⟨rfl, rfl⟩
  · exact ⟨rfl, rfl⟩
  · split
    · exact ⟨rfl, rfl⟩
    · split
      · exact ⟨rfl, rfl⟩
      · exact files_readIndex _ w

/-- An index that was loaded was read from its file, or there is no file and the index is fresh. -/
theorem origin_of_loadIndex {index : Index} (h : s.loadIndex.run.run w = (.ok index, w')) :
    (∃ bytes, w.files.Stores s.indexPath bytes ∧ s.indexPath.holdsNull = false) ∨
      w.files.has s.indexPath = .ok false ∧ index = .fresh := by
  rw [run_loadIndex] at h
  split at h
  · cases (Prod.mk.inj h).1
  · next hhas => exact .inr ⟨hhas, (Except.ok.inj (Prod.mk.inj h).1).symm⟩
  · split at h
    · cases (Prod.mk.inj h).1
    · next hnull =>
      split at h
      · cases (Prod.mk.inj h).1
      · next bytes hread =>
        exact .inl ⟨bytes, FileTree.stores_of_read hread, by simpa using hnull⟩

/-- The index is read back. -/
theorem HasIndex.run_loadIndex (h : s.HasIndex w.files shelves) (hshelved : s.Shelved shelves) :
    ∃ table, Index.Tabulates table shelves ∧
      w.files.Stores s.indexPath (Text.utf8 (Json.object (Index.ofTable table).fields).document) ∧
      s.loadIndex.run.run w = (.ok (Index.ofTable table), w) := by
  obtain ⟨hnull, table, htable, hstores⟩ := h
  refine ⟨table, htable, hstores, ?_⟩
  have hread := htable.run_readIndex (fun key e he => (hshelved.kept key e he).toIsWritable) w
  generalize Text.utf8 (Json.object (Index.ofTable table).fields).document = bytes at hstores hread
  rw [Store.run_loadIndex, hstores.has hnull]
  simp only [hnull, Bool.false_eq_true, if_false, hstores.read]
  exact hread

/-- Without an index there are no sessions, if the file of the index can be looked for. -/
theorem LacksIndex.run_loadIndex (h : s.LacksIndex w.files shelves) :
    s.loadIndex.run.run w = (.ok (Index.ofTable []), w) ∨
      ∃ failure, s.loadIndex.run.run w = (.error failure, w) := by
  rw [Store.run_loadIndex]
  split
  · exact .inr ⟨_, rfl⟩
  · exact .inl rfl
  · -- Something is there, but it is no file that can be read.
    right
    split
    · exact ⟨_, rfl⟩
    · split
      · exact ⟨_, rfl⟩
      · next bytes hbytes =>
        have hcontent := FileTree.content?_of_read hbytes
        rw [h.content?_eq] at hcontent
        cases hcontent

/-- Writing the index succeeds, or leaves all files as they were. -/
theorem run_saveIndex_cases {index : Index} {result : Except Failure Unit}
    (h : (s.saveIndex index).run.run w = (result, w')) :
    (∃ failure, result = .error failure ∧ w.AltersOnly ∅ w') ∨
      result = .ok () ∧ w.AltersOnly {s.indexPath} w' ∧ s.indexPath.holdsNull = false ∧
        w'.files.Stores s.indexPath (Text.utf8 (Json.object index.fields).document) := by
  unfold saveIndex at h
  exact run_orFail_writeBelow_cases h

theorem isName_indexName : Path.IsName "metadata.json" :=
  ⟨by decide, by decide, by decide⟩

/-- An index that was there can be written, whatever files have been deleted. -/
theorem exists_run_saveIndex_of_deletes (hstores : w.files.Stores s.indexPath bytes)
    (hnull : s.indexPath.holdsNull = false) (hdeletes : w.Deletes paths w') (index : Index) :
    ∃ w₁, (s.saveIndex index).run.run w' = (.ok (), w₁) := by
  have hplace := hdeletes.keeps.placeOf_eq s.indexPath
  have hlocate : w'.files.locate s.indexPath = .ok (w'.files.placeOf s.indexPath) := by
    rw [hplace]
    exact hdeletes.keeps.locate hstores.locate_eq
  have hfree : w'.files.at? (w'.files.placeOf s.indexPath) ≠ some .directory := by
    rw [hplace]
    exact fun hdirectory => hstores.at?_ne_directory (hdeletes.directory hdirectory)
  obtain ⟨w₁, hwrite⟩ := exists_run_writeBelow_of_locate isName_indexName hlocate hfree hnull
    (Text.utf8 (Json.object index.fields).document)
  refine ⟨w₁, ?_⟩
  unfold saveIndex
  dsimp only
  rw [run_bind]
  unfold indexPath
  rw [hwrite]
  rfl

/-- An index that is there can be written again. -/
theorem HasIndex.exists_run_saveIndex (h : s.HasIndex w.files shelves) (index : Index) :
    ∃ w', (s.saveIndex index).run.run w = (.ok (), w') := by
  obtain ⟨hnull, table, -, hstores⟩ := h
  exact exists_run_saveIndex_of_deletes hstores hnull (.refl w) index

end Indexing

section Places

variable {s : Store} {key : String} (t : FileTree)

theorem placeOf_indexPath (s : Store) :
    t.placeOf s.indexPath = t.placeOf s.root ++ ["metadata.json"] :=
  t.placeOf_join s.root ⟨isName_indexName, by decide⟩

theorem placeOf_sessionDirectory (s : Store) (h : IsSource key) :
    t.placeOf (s.sessionDirectory (some key)) =
      t.placeOf s.root ++ ["sessions", (Path.ofString key).stem] := by
  have hsessions : Path.IsPlain "sessions" := ⟨⟨by decide, by decide, by decide⟩, by decide⟩
  have hbase : s.sessionDirectory none = s.root.join "sessions" := rfl
  rw [h.sessionDirectory_eq, t.placeOf_join _ h.isPlain_stem, hbase,
    t.placeOf_join s.root hsessions, List.append_assoc]
  rfl

/-- The location of a file in the directory of a source file. -/
def placeIn (s : Store) (key name : String) : Location :=
  t.placeOf s.root ++ ["sessions", (Path.ofString key).stem, name]

theorem placeOf_join_sessionDirectory (s : Store) (h : IsSource key) {name : String}
    (hname : Path.IsPlain name) :
    t.placeOf ((s.sessionDirectory (some key)).join name) = placeIn t s key name := by
  rw [t.placeOf_join _ hname, placeOf_sessionDirectory t s h, placeIn, List.append_assoc]
  rfl

variable {t} {key' name name' : String}

theorem placeIn_inj : placeIn t s key name = placeIn t s key' name' ↔
    (Path.ofString key).stem = (Path.ofString key').stem ∧ name = name' := by
  simp [placeIn]

theorem placeIn_ne_indexPath : placeIn t s key name ≠ t.placeOf s.indexPath := by
  simp [placeIn, placeOf_indexPath]

end Places

end Store

namespace FileTree

theorem KeepsDirectories.placeIn_eq {t t' : FileTree} (h : t.KeepsDirectories t') {s : Store}
    {key name : String} : Store.placeIn t' s key name = Store.placeIn t s key name := by
  rw [Store.placeIn, Store.placeIn, h.placeOf_eq]

end FileTree

/-- A session stands in the directory of its source file. -/
theorem Saved.IsKept.placeOf_eq {s : Store} {key : String} {e : Saved} (h : e.IsKept s key)
    (t : FileTree) : t.placeOf e.path = Store.placeIn t s key e.path.name := by
  have hplace := Store.placeOf_join_sessionDirectory t s h.isSource h.isFileName.toIsPlain
  rwa [← h.path_eq] at hplace

/-- The sessions of a shelf are in their files. -/
def Shelf.IsStored (t : FileTree) (shelf : Shelf) : Prop :=
  ∀ e ∈ shelf, t.Stores e.path e.content

/-- Changes in other places leave the sessions of a shelf in their files. -/
theorem Shelf.IsStored.of_altersOnly {paths : Set Path} {shelf : Shelf} {w w' : World}
    (h : shelf.IsStored w.files) (halters : w.AltersOnly paths w')
    (hpaths : ∀ q ∈ paths, ∀ e ∈ shelf, w.files.placeOf q ≠ w.files.placeOf e.path) :
    shelf.IsStored w'.files :=
  fun e he => halters.stores (h e he) fun q hq => hpaths q hq e he

namespace Store

section Tidiness

/-- The files in the directory of a source file are those of its shelf, beside the one that holds
the name of the last session. -/
def IsTidy (s : Store) (t : FileTree) (key : String) (shelf : Shelf) : Prop :=
  ∀ name bytes, name ≠ latestName → t.content? (placeIn t s key name) = some bytes →
    ∃ e ∈ shelf, e.path.name = name

variable {s : Store} {key : String} {shelf : Shelf} {w w' : World} {paths : Set Path}

/-- Changes elsewhere leave the directory of a source file as it is. -/
theorem IsTidy.of_altersOnly (h : s.IsTidy w.files key shelf) (halters : w.AltersOnly paths w')
    (hpaths : ∀ q ∈ paths, ∀ name, name ≠ latestName →
      w.files.placeOf q ≠ placeIn w.files s key name) : s.IsTidy w'.files key shelf := by
  intro name bytes hname hcontent
  rw [halters.keeps.placeIn_eq,
    halters.content?_eq _ fun q hq => hpaths q hq name hname] at hcontent
  exact h name bytes hname hcontent

/-- A session that is written takes the place of one in the same file. -/
theorem IsTidy.write {e : Saved} (he : e.IsKept s key) (h : s.IsTidy w.files key shelf)
    (halters : w.AltersOnly {e.path} w') : s.IsTidy w'.files key (e :: shelf.without e.path) := by
  intro name bytes hname hcontent
  by_cases hsame : e.path.name = name
  · exact ⟨e, List.mem_cons_self, hsame⟩
  · have hplace : ∀ q ∈ ({e.path} : Set Path),
        w.files.placeOf q ≠ placeIn w.files s key name := by
      rintro q rfl hplace
      rw [he.placeOf_eq, placeIn_inj] at hplace
      exact hsame hplace.2
    rw [halters.keeps.placeIn_eq, halters.content?_eq _ hplace] at hcontent
    obtain ⟨other, hother, hnamed⟩ := h name bytes hname hcontent
    refine ⟨other, List.mem_cons_of_mem _ (Shelf.mem_without.mpr ⟨hother, ?_⟩), hnamed⟩
    intro heq
    rw [heq] at hnamed
    exact hsame hnamed

/-- The sessions whose files are not removed are left. -/
theorem IsTidy.remove {left : Shelf} (hkept : ∀ e ∈ shelf, e.IsKept s key)
    (h : s.IsTidy w.files key shelf) (hremoves : w.Removes paths w')
    (hgone : ∀ e ∈ shelf, e ∈ left ∨ e.path ∈ paths ∧ w.files.Stores e.path e.content) :
    s.IsTidy w'.files key left := by
  intro name bytes hname hcontent
  rw [hremoves.keeps.placeIn_eq] at hcontent
  have hbefore : w.files.content? (placeIn w.files s key name) = some bytes := by
    rcases hremoves.fewer (placeIn w.files s key name) with hnone | heq
    · rw [hnone] at hcontent
      cases hcontent
    · rw [← heq, hcontent]
  obtain ⟨e, he, rfl⟩ := h name bytes hname hbefore
  rcases hgone e he with hmem | ⟨hpath, hstores⟩
  · exact ⟨e, hmem, rfl⟩
  · have hnone := hremoves.gone e.path hpath e.content hstores
    rw [(hkept e he).placeOf_eq, hcontent] at hnone
    cases hnone

end Tidiness

end Store
end PassTrace

import PassTrace.Proofs.Store.Keeping

/-!
# What a call does to a store

A call that succeeds writes at most one session, removes files of sessions and then writes the
index, which lists what is left. A call that fails has changed no more than files in the directory
of its own source file, and the index is as it was.
-/

namespace PassTrace

theorem Path.toString_inj {p q : Path} (hp : p.IsClean) (hq : q.IsClean) :
    p.toString = q.toString ↔ p = q := by
  refine ⟨fun h => ?_, congrArg _⟩
  rw [← Path.ofString_toString hp, h, Path.ofString_toString hq]

namespace Store

open Operation

/-- The paths of what stands in the directory of a source file. -/
def pathsOf (s : Store) (key : String) : Set Path :=
  {q | ∃ name, Path.IsPlain name ∧ (s.sessionDirectory (some key)).join name = q}

theorem isPlain_latestName : Path.IsPlain latestName :=
  ⟨⟨by decide, by decide, by decide⟩, by decide⟩

variable {s : Store} {shelves : String → Shelf} {shelf : Shelf} {key : String} {w w' : World}

theorem mem_pathsOf {e : Saved} (h : e.IsKept s key) : e.path ∈ s.pathsOf key :=
  ⟨e.path.name, h.isFileName.toIsPlain, h.path_eq.symm⟩

/-- What stands in the directory of a source file has a place there. -/
theorem exists_placeIn (hkey : IsSource key) {q : Path} (h : q ∈ s.pathsOf key) (t : FileTree) :
    ∃ name, (s.sessionDirectory (some key)).join name = q ∧ t.placeOf q = placeIn t s key name := by
  obtain ⟨name, hname, rfl⟩ := h
  exact ⟨name, rfl, placeOf_join_sessionDirectory t s hkey hname⟩

/-- What stands in the directories of source files is in different places if its paths differ. -/
theorem eq_of_placeOf_eq {key' : String} (hkey : IsSource key) (hkey' : IsSource key') {q q' : Path}
    (h : q ∈ s.pathsOf key) (h' : q' ∈ s.pathsOf key') {t : FileTree}
    (hplace : t.placeOf q = t.placeOf q') : q = q' := by
  obtain ⟨name, rfl, hq⟩ := exists_placeIn hkey h t
  obtain ⟨name', rfl, hq'⟩ := exists_placeIn hkey' h' t
  rw [hq, hq', placeIn_inj] at hplace
  rw [hkey.sessionDirectory_eq, hkey'.sessionDirectory_eq, hplace.1, hplace.2]

theorem placeOf_ne_indexPath (hkey : IsSource key) {q : Path} (h : q ∈ s.pathsOf key)
    (t : FileTree) : t.placeOf q ≠ t.placeOf s.indexPath := by
  obtain ⟨name, -, hplace⟩ := exists_placeIn hkey h t
  rw [hplace]
  exact placeIn_ne_indexPath

section Indices

/-- The index of a store lists shelves, or there is none and they are empty. -/
def Lists (s : Store) (t : FileTree) (shelves : String → Shelf) : Prop :=
  s.HasIndex t shelves ∨ s.LacksIndex t shelves

theorem Lists.of_altersOnly {paths : Set Path} (h : s.Lists w.files shelves)
    (halters : w.AltersOnly paths w')
    (hpaths : ∀ q ∈ paths, w.files.placeOf q ≠ w.files.placeOf s.indexPath) :
    s.Lists w'.files shelves :=
  h.imp (·.of_altersOnly halters hpaths) (·.of_altersOnly halters hpaths)

/-- The index is read, unless it is missing and cannot be looked for. -/
theorem Lists.run_loadIndex_cases (h : s.Lists w.files shelves) (hshelved : s.Shelved shelves) :
    (∃ table, Index.Tabulates table shelves ∧
      s.loadIndex.run.run w = (.ok (Index.ofTable table), w)) ∨
      s.LacksIndex w.files shelves ∧ ∃ failure, s.loadIndex.run.run w = (.error failure, w) := by
  rcases h with h | h
  · obtain ⟨table, htable, -, hload⟩ := h.run_loadIndex hshelved
    exact .inl ⟨table, htable, hload⟩
  · rcases h.run_loadIndex with hload | hload
    · refine .inl ⟨[], ?_, hload⟩
      rw [h.shelves_eq]
      exact Index.tabulates_empty
    · exact .inr ⟨h, hload⟩

/-- The index was written with another shelf. -/
theorem hasIndex_of_saveIndex {table : Json.Fields} (htable : Index.Tabulates table shelves)
    (h : (s.saveIndex ((Index.ofTable table).setSessions key (Index.shelved shelf))).run.run w =
      (.ok (), w')) :
    w.AltersOnly {s.indexPath} w' ∧ s.HasIndex w'.files (Function.update shelves key shelf) := by
  rcases run_saveIndex_cases h with ⟨failure, hfailed, -⟩ | ⟨-, halters, hnull, hstores⟩
  · cases hfailed
  · rw [Index.setSessions_ofTable] at hstores
    exact ⟨halters, hnull, _, htable.set key shelf, hstores⟩

/-- After changes to other files, writing the index fails only if it was missing. -/
theorem Lists.lacksIndex_of_saveIndex {paths : Set Path} {w₁ : World} {index : Index}
    {failure : Failure} (h : s.Lists w.files shelves) (halters : w.AltersOnly paths w₁)
    (hpaths : ∀ q ∈ paths, w.files.placeOf q ≠ w.files.placeOf s.indexPath)
    (hsave : (s.saveIndex index).run.run w₁ = (.error failure, w')) :
    s.LacksIndex w.files shelves ∧ w₁.AltersOnly ∅ w' := by
  rcases h with hindex | hlacks
  · -- An index that was there can be written again.
    obtain ⟨w₂, hok⟩ := (hindex.of_altersOnly halters hpaths).exists_run_saveIndex index
    rw [hok] at hsave
    cases hsave
  · rcases run_saveIndex_cases hsave with ⟨-, -, hnone⟩ | ⟨hok, -⟩
    · exact ⟨hlacks, hnone⟩
    · cases hok

end Indices

section Saving

/-- The number of sessions of a shelf that are kept. -/
def keptCount (s : Store) (count : Nat) : Nat :=
  match s.config.maxSessions with
  | some limit => Index.dropPlace limit count
  | none => count

/-- The sessions of a shelf that are kept. -/
def retained (s : Store) (shelf : Shelf) : Shelf :=
  shelf.take (s.keptCount shelf.length)

/-- With a limit the first sessions are kept, as many as it says. -/
theorem retained_eq_take {limit : Nat} (h : s.config.maxSessions = some (limit : Int))
    (shelf : Shelf) :
    s.retained shelf = shelf.take limit := by
  have hnat : ¬ (limit : Int) < 0 := by omega
  simp only [retained, keptCount, h, Index.dropPlace, if_neg hnat, Int.toNat_natCast]

/-- The sessions of a shelf that are not kept. -/
def evicted (s : Store) (shelf : Shelf) : Shelf :=
  shelf.drop (s.keptCount shelf.length)

/-- The last part of a save: of all sessions of the source file those too many are deleted, the
index is written, and the name of the file is noted down. -/
def settle (s : Store) (source file : String) (path : Path) (index : Index)
    (all : List Json.Fields) : Operation Path := do
  let kept := Index.dropPlace (← orThrow s.limit) all.length
  (all.drop kept).forM fun old => deleteFile (old.get "file")
  s.saveIndex (index.setSessions (keyOf source) (.array ((all.take kept).map .object)))
  match ← writeFile ((s.sessionDirectory (some source)).join latestName) (Text.utf8 file) with
  | .ok () => return path
  | .error fault =>
    notify (.latestNotWritten fault)
    return path

/-- Without a limit nothing is settled. -/
theorem settle_of_maxSessions_eq_none (h : s.config.maxSessions = none) (source file : String)
    (path : Path) (index : Index) (all : List Json.Fields) :
    s.settle source file path index all = throw .wrongKind := by
  unfold settle limit
  rw [h]
  rfl

/-- What settling the sessions of a source file consists of when there is a limit. -/
theorem settle_of_maxSessions_ne_none (h : s.config.maxSessions ≠ none) (source file : String)
    (path : Path) (index : Index) (all : List Json.Fields) :
    s.settle source file path index all = (do
      (all.drop (s.keptCount all.length)).forM fun old => deleteFile (old.get "file")
      s.saveIndex (index.setSessions (keyOf source)
        (.array ((all.take (s.keptCount all.length)).map .object)))
      match ← writeFile ((s.sessionDirectory (some source)).join latestName) (Text.utf8 file) with
      | .ok () => return path
      | .error fault =>
        notify (.latestNotWritten fault)
        return path) := by
  obtain ⟨limit, hlimit⟩ := Option.ne_none_iff_exists'.mp h
  unfold settle Store.limit keptCount
  rw [hlimit]
  rfl

/-- The part of a save that follows the writing of the session's file: the session is entered in the
index. -/
def enter (s : Store) (source file : String) (path : Path) (entry : Binary64 → Json.Fields) :
    Operation Path := do
  let index ← s.loadIndex
  let others ← orThrow (sessionsBeside path.toString (index.sessionsOf (keyOf source)))
  s.settle source file path index (entry (← clock) :: others)

theorem save_eq {p : Pipeline} (hsize : p.size ≠ 0) (source : String) (compilation : Json.Fields)
    (name : Option String) : s.save p source compilation name = (do
      let record ← SourceFile.record (Path.ofString source)
      let file ← s.fileName name (compilation.get "opt_level")
      let path := (s.sessionDirectory (some source)).join file
      let size ← Session.saveFile path p record compilation
      s.enter source file path fun now => [
        ("timestamp", .float now),
        ("name", Json.ofOption .string name),
        ("opt_level", compilation.get "opt_level"),
        ("checksum", record.get "checksum"),
        ("file", .string path.toString),
        ("size", .int size),
        ("passes", .int p.size),
        ("changed_passes", .int p.changedCount)]) := by
  unfold save
  rw [if_neg hsize]
  rfl

/-- What an index says of the sessions that are not in the file of a path, whatever tells them. -/
theorem filter_entries_without {path : Path} {other : Json.Fields → Bool}
    (hother : ∀ e ∈ shelf, other e.entry = decide (e.path ≠ path)) :
    (shelf.map Saved.entry).filter other = (shelf.without path).map Saved.entry := by
  rw [List.filter_map, Shelf.without]
  congr 1
  exact List.filter_congr hother

/-- The others on the shelf are those in other files. -/
theorem sessionsBeside_shelved {path : Path} (hpath : path.IsClean)
    (hclean : ∀ e ∈ shelf, e.path.IsClean) :
    sessionsBeside path.toString (Index.shelved shelf) =
      .ok ((shelf.without path).map Saved.entry) := by
  unfold sessionsBeside
  rw [Index.entries_shelved]
  refine congrArg Except.ok (filter_entries_without fun e he => ?_)
  simp [Saved.get_file, Json.asString?, Path.toString_inj (hclean e he) hpath]

/-- The name of the last session of a source file can be noted down in the directory of its
sessions: the path of the note is short enough, and no directory is in its way. -/
structure CanNote (s : Store) (t : FileTree) (source : String) : Prop where
  size_le : ((s.sessionDirectory (some source)).join latestName).toString.utf8ByteSize ≤
    FileTree.maxPathBytes
  free : t.at? (t.placeOf ((s.sessionDirectory (some source)).join latestName)) ≠ some .directory

/-- No directory was in the way of a note if none is now. -/
theorem CanNote.of_keeps {t t' : FileTree} {source : String} (h : s.CanNote t' source)
    (hkeeps : t.KeepsDirectories t') : s.CanNote t source := by
  refine ⟨h.size_le, fun hdirectory => h.free ?_⟩
  rw [hkeeps.placeOf_eq]
  exact hkeeps.directory hdirectory

/-- Of all sessions of a source file those too many were removed, the index was written with the
others, and the name of a file was noted down, if it could be. -/
structure Settles (s : Store) (shelves : String → Shelf) (source file : String) (all : Shelf)
    (w w' : World) : Prop where
  limited : s.config.maxSessions ≠ none
  hasIndex : s.HasIndex w'.files (Function.update shelves (keyOf source) (s.retained all))
  exists_removes : ∃ w₁, w.Removes (Shelf.paths (s.evicted all)) w₁ ∧
    w₁.AltersOnly {s.indexPath, (s.sessionDirectory (some source)).join latestName} w'
  noted : w.files.locate (s.sessionDirectory (some source)) =
      .ok (w.files.placeOf (s.sessionDirectory (some source))) →
    w.files.at? (w.files.placeOf (s.sessionDirectory (some source))) = some .directory →
    s.CanNote w'.files source →
      w'.files.Stores ((s.sessionDirectory (some source)).join latestName) (Text.utf8 file)

/-- The note of the last session is written, or a notice says why not. -/
theorem run_note {path : Path} {bytes : Bytes} {result : Except Failure Path} {latest : Path}
    (hnull : latest.holdsNull = false) (h : (do
      match ← writeFile latest bytes with
      | .ok () => return path
      | .error fault =>
        notify (.latestNotWritten fault)
        return path : Operation Path).run.run w = (result, w')) :
    result = .ok path ∧ w.AltersOnly {latest} w' ∧ (w'.files.Stores latest bytes ∨
      ∃ fault, w.files.write latest bytes w.now = .error fault) := by
  have hwritten : (writeFile latest bytes).run.run w =
      (changeFiles fun files now => files.write latest bytes now).run.run w := by
    unfold writeFile
    rw [run_bind, run_usable_of_holdsNull hnull]
  rw [run_bind, hwritten, run_changeFiles] at h
  cases hwrite : w.files.write latest bytes w.now with
  | ok files =>
    rw [hwrite] at h
    obtain ⟨hresult, rfl⟩ := Prod.mk.inj h
    obtain ⟨hstores, halters⟩ := FileTree.stores_of_write hwrite
    exact ⟨hresult.symm, .of_altersAt rfl halters, .inl hstores⟩
  | error fault =>
    rw [hwrite] at h
    obtain ⟨hresult, rfl⟩ := Prod.mk.inj h
    exact ⟨hresult.symm, .of_files_eq rfl rfl, .inr ⟨fault, rfl⟩⟩

theorem LacksIndex.eq_nil (h : s.LacksIndex w.files shelves) (key : String) : shelves key = [] :=
  congrFun h.shelves_eq key

/-- The index and the sessions are settled. This fails only while there are no sessions, and leaves
the index as it was. -/
theorem run_settle_cases {source file : String} {path : Path} {table : Json.Fields}
    {all : Shelf} {result : Except Failure Path} (hshelved : s.Shelved shelves)
    (hlists : s.Lists w.files shelves) (htable : Index.Tabulates table shelves)
    (hsource : IsSource source) (hall : ∀ e ∈ all, e.IsKept s (keyOf source))
    (hnull : (s.sessionDirectory (some source)).holdsNull = false)
    (h : (s.settle source file path (Index.ofTable table) (all.map Saved.entry)).run.run w =
      (result, w')) :
    (∃ failure, result = .error failure ∧ w.AltersOnly (s.pathsOf (keyOf source)) w' ∧
      ∀ key, shelves key = []) ∨ result = .ok path ∧ s.Settles shelves source file all w w' := by
  -- Without a limit settling fails at once, but then there never were sessions.
  by_cases hlimit : s.config.maxSessions = none
  · rw [settle_of_maxSessions_eq_none hlimit] at h
    obtain ⟨rfl, rfl⟩ := Prod.mk.inj h
    exact .inl ⟨_, rfl, .refl _, fun key => of_not_not fun hne => hshelved.limited key hne hlimit⟩
  · have hlist : Json.array (((all.map Saved.entry).take (s.keptCount all.length)).map .object) =
        Index.shelved (s.retained all) := by
      rw [← List.map_take, List.map_map]
      rfl
    rw [settle_of_maxSessions_ne_none hlimit, List.length_map, hlist, ← List.map_drop] at h
    have hevicted : ∀ e ∈ s.evicted all, e.IsKept s (keyOf source) := fun e he =>
      hall e (List.mem_of_mem_drop he)
    obtain ⟨w₁, hdeletes, hremoves⟩ := run_deleteFiles (fun e he => ⟨_, hevicted e he⟩) w
    rw [run_bind, ← evicted, hdeletes] at h
    have hbelow : Shelf.paths (s.evicted all) ⊆ s.pathsOf (keyOf source) := by
      rintro q ⟨e, he, rfl⟩
      exact mem_pathsOf (hevicted e he)
    rcases run_bind_cases h with ⟨failure, hfailed, rfl⟩ | ⟨u, w₂, hsave, h⟩
    · obtain ⟨hlacks, hnone⟩ := hlists.lacksIndex_of_saveIndex hremoves.toAltersOnly
        (fun q hq => placeOf_ne_indexPath hsource.keyOf (hbelow hq) _) hfailed
      exact .inl ⟨failure, rfl, (hremoves.toAltersOnly.mono hbelow).trans hnone.of_empty,
        hlacks.eq_nil⟩
    obtain ⟨halters, hindex⟩ := hasIndex_of_saveIndex htable hsave
    have hlatest : ((s.sessionDirectory (some source)).join latestName).holdsNull = false := by
      rw [Path.holdsNull_join _ isPlain_latestName.toIsName, hnull]
      rfl
    obtain ⟨hresult, hnote, hwritten⟩ := run_note hlatest h
    have hbefore : w.AltersOnly (Shelf.paths (s.evicted all) ∪ {s.indexPath}) w₂ :=
      hremoves.toAltersOnly.union halters
    refine .inr ⟨hresult, hlimit, hindex.of_altersOnly hnote ?_, ⟨w₁, hremoves, ?_⟩, ?_⟩
    · rintro q rfl
      refine placeOf_ne_indexPath hsource.keyOf ⟨latestName, isPlain_latestName, ?_⟩ _
      rw [hsource.sessionDirectory_keyOf]
    · exact (halters.mono (by simp)).trans (hnote.mono (by simp))
    -- Neither deleting nor the index has taken the directory away, so the note can be written.
    · intro hlocate hdirectory hcan
      refine hwritten.resolve_right ?_
      rintro ⟨fault, hfault⟩
      have hcan' := hcan.of_keeps hnote.keeps
      rw [← hbefore.keeps.placeOf_eq] at hlocate hdirectory
      obtain ⟨files, hok⟩ := FileTree.exists_write_join isPlain_latestName
        (hbefore.keeps.locate hlocate) (hbefore.keeps.directory hdirectory) (by decide)
        hcan'.size_le hcan'.free (Text.utf8 file) w₂.now
      rw [hfault] at hok
      cases hok

/-- What entering a session comes to: it is on the shelf of its source file, those too many are
deleted, and the index says so. This fails only while there are no sessions, and leaves the index as
it was. -/
theorem run_enter_cases {source file : String} {e : Saved} {entry : Binary64 → Json.Fields}
    {result : Except Failure Path} (hshelved : s.Shelved shelves) (hlists : s.Lists w.files shelves)
    (hsource : IsSource source) (he : e.IsKept s (keyOf source)) (hentry : entry w.now = e.entry)
    (h : (s.enter source file e.path entry).run.run w = (result, w')) :
    (∃ failure, result = .error failure ∧ w.AltersOnly (s.pathsOf (keyOf source)) w' ∧
      ∀ key, shelves key = []) ∨ result = .ok e.path ∧
        s.Settles shelves source file (e :: (shelves (keyOf source)).without e.path) w w' := by
  have hshelf := hshelved.kept (keyOf source)
  unfold enter at h
  rw [run_bind] at h
  rcases hlists.run_loadIndex_cases hshelved with ⟨table, htable, hload⟩ | ⟨hlacks, failure, hload⟩
  · rw [hload] at h
    dsimp only at h
    have hbeside := sessionsBeside_shelved he.isClean fun other hother =>
      (hshelf other hother).isClean
    have hnull : (s.sessionDirectory (some source)).holdsNull = false := by
      have hpath := he.holdsNull_eq
      rw [he.path_eq, Path.holdsNull_join _ he.isFileName.toIsName, Bool.or_eq_false_iff,
        hsource.sessionDirectory_keyOf] at hpath
      exact hpath.1
    rw [htable.sessionsOf, hbeside, orThrow_ok, pure_bind, run_clock_bind, hentry,
      ← List.map_cons] at h
    refine run_settle_cases hshelved hlists htable hsource ?_ hnull h
    refine List.forall_mem_cons.mpr ⟨he, fun other hother => ?_⟩
    exact hshelf other (Shelf.mem_without.mp hother).1
  · rw [hload] at h
    obtain ⟨hresult, rfl⟩ := Prod.mk.inj h
    exact .inl ⟨failure, hresult.symm, .refl _, hlacks.eq_nil⟩

variable {p : Pipeline} {source : String} {compilation : Json.Fields} {name : Option String}

theorem draft_eq_of_contentAt {file : String} {content : Bytes}
    (hfile : s.fileNameAt w.now name (compilation.get "opt_level") = .ok file)
    (hcontent : Session.contentAt ((s.sessionDirectory (some source)).join file) w.now p
      (SourceFile.recordIn w.files (Path.ofString source)) compilation = .ok content) :
    s.draft w p source compilation name =
      .ok ⟨p, SourceFile.recordIn w.files (Path.ofString source), compilation, name, w.now,
        (s.sessionDirectory (some source)).join file, content⟩ := by
  unfold draft
  rw [hfile]
  dsimp only [bind, Except.bind]
  rw [hcontent]
  rfl

/-- The path of the file that a save is to write, if it has a name. -/
def target? (s : Store) (now : Binary64) (source : String) (compilation : Json.Fields)
    (name : Option String) : Option Path :=
  (s.fileNameAt now name (compilation.get "opt_level")).toOption.map
    (s.sessionDirectory (some source)).join

theorem target?_eq_some_iff {now : Binary64} {q : Path} :
    s.target? now source compilation name = some q ↔ ∃ file,
      s.fileNameAt now name (compilation.get "opt_level") = .ok file ∧
        (s.sessionDirectory (some source)).join file = q := by
  unfold target?
  cases s.fileNameAt now name (compilation.get "opt_level") <;> simp [Except.toOption]

/-- The file that a plain save is to write stands in the directory of its source file. -/
theorem IsPlainSave.mem_pathsOf {now : Binary64} {q : Path}
    (h : IsPlainSave p source compilation name)
    (htarget : s.target? now source compilation name = some q) : q ∈ s.pathsOf (keyOf source) := by
  obtain ⟨file, hfile, rfl⟩ := target?_eq_some_iff.mp htarget
  have hname := isFileName_fileNameAt h.slash_not_mem h.isLevel hfile
  exact ⟨file, hname.toIsPlain, by rw [h.isSource.sessionDirectory_keyOf]⟩

/-- The first part of a save: the session that it drafts is written to its file. -/
structure Writes (s : Store) (p : Pipeline) (source : String) (compilation : Json.Fields)
    (name : Option String) (e : Saved) (w w' : World) : Prop where
  draft_eq : s.draft w p source compilation name = .ok e
  alters : w.AltersOnly {e.path} w'
  stores : w'.files.Stores e.path e.content

/-- The file of a session is cut short, since the time does not fit into a compressed file. -/
structure CutsShort (s : Store) (p : Pipeline) (source : String) (compilation : Json.Fields)
    (name : Option String) (q : Path) (w w' : World) : Prop where
  target?_eq : s.target? w.now source compilation name = some q
  exists_bytes : ∃ payload bytes failure,
    Session.encode w.now p (SourceFile.recordIn w.files (Path.ofString source)) compilation =
        .ok payload ∧
      Session.fileBytes q w.now payload = .error (bytes, failure) ∧ w'.files.Stores q bytes
  alters : w.AltersOnly {q} w'

/-- How far a save comes: it changes no file, or cuts that of the session short, or writes it. What
is left to do then is to enter the session in the index. -/
theorem run_save_stages {result : Except Failure Path}
    (h : (s.save p source compilation name).run.run w = (result, w')) :
    (∃ failure, result = .error failure ∧ w.AltersOnly ∅ w') ∨
      (∃ failure q, result = .error failure ∧ s.CutsShort p source compilation name q w w') ∨
      ∃ file e entry w₁, s.fileNameAt w.now name (compilation.get "opt_level") = .ok file ∧
        (s.sessionDirectory (some source)).join file = e.path ∧ e.path.holdsNull = false ∧
        (Path.ofString source).holdsNull = false ∧ s.Writes p source compilation name e w w₁ ∧
        entry w₁.now = e.entry ∧ (s.enter source file e.path entry).run.run w₁ = (result, w') := by
  by_cases hpasses : p.size = 0
  · unfold save at h
    rw [if_pos hpasses] at h
    obtain ⟨rfl, rfl⟩ := Prod.mk.inj h
    exact .inl ⟨_, rfl, .refl _⟩
  rw [save_eq hpasses] at h
  -- The record of the source file is made: this gives notices at most.
  obtain ⟨notices, hrecord⟩ := SourceFile.run_record (Path.ofString source) w
  rw [run_bind, hrecord] at h
  have hquiet {paths : Set Path} : w.AltersOnly paths { w with notices } := .of_files_eq rfl rfl
  cases hsource : (Path.ofString source).holdsNull with
  | true =>
    rw [hsource] at h
    obtain ⟨rfl, rfl⟩ := Prod.mk.inj h
    exact .inl ⟨_, rfl, hquiet⟩
  | false =>
    rw [hsource] at h
    simp only [Bool.false_eq_true, if_false] at h
    rw [run_bind, run_fileName] at h
    cases hfile : s.fileNameAt w.now name (compilation.get "opt_level") with
    | error failure =>
      rw [hfile] at h
      obtain ⟨rfl, rfl⟩ := Prod.mk.inj h
      exact .inl ⟨failure, rfl, hquiet⟩
    | ok file =>
      rw [hfile] at h
      dsimp only at h
      -- From here on the three cases are those of the session's file.
      rcases run_bind_cases h with ⟨failure, hfailed, rfl⟩ | ⟨size, w₁, hwrite, h⟩
      · rcases Session.run_saveFile_cases hfailed with ⟨_, -, hnone⟩ |
          ⟨payload, bytes, fault, -, hpayload, hbytes, halters, hstores⟩ | ⟨_, hok, -⟩
        · exact .inl ⟨failure, rfl, hquiet.trans hnone⟩
        · exact .inr (.inl ⟨failure, _, rfl, target?_eq_some_iff.mpr ⟨file, hfile, rfl⟩,
            ⟨payload, bytes, fault, hpayload, hbytes, hstores⟩, hquiet.trans halters⟩)
        · cases hok
      · rcases Session.run_saveFile_cases hwrite with ⟨_, hfailed, -⟩ | ⟨_, _, _, hfailed, -⟩ |
          ⟨content, hsize, hcontent, halters, hstores, hnull⟩
        · cases hfailed
        · cases hfailed
        · obtain rfl := Except.ok.inj hsize
          refine .inr (.inr ⟨file, _, _, w₁, rfl, rfl, hnull, rfl,
            ⟨draft_eq_of_contentAt hfile hcontent, hquiet.trans halters, hstores⟩, ?_, h⟩)
          rw [halters.now_eq]
          rfl

/-- What a save comes to: the session that it drafts is written and entered in the index. A save
that fails leaves the index as it was, and no other session's file is changed. -/
theorem run_save_cases {result : Except Failure Path} (hroot : s.root.IsClean)
    (hshelved : s.Shelved shelves) (hlists : s.Lists w.files shelves)
    (hplain : IsPlainSave p source compilation name) (hnow : w.now ≠ .nan)
    (hsize : ∀ e, s.draft w p source compilation name = .ok e →
      (toString e.content.length).length ≤ maxDigits)
    (h : (s.save p source compilation name).run.run w = (result, w')) :
    (∃ failure, result = .error failure ∧ w.AltersOnly (s.pathsOf (keyOf source)) w' ∧
      ((∃ key, shelves key ≠ []) →
        w.AltersOnly {q | s.target? w.now source compilation name = some q} w')) ∨
      ∃ e w₁, result = .ok e.path ∧ s.draft w p source compilation name = .ok e ∧
        e.IsKept s (keyOf source) ∧ w.AltersOnly {e.path} w₁ ∧
        w₁.files.Stores e.path e.content ∧
        s.Settles shelves source e.path.name (e :: (shelves (keyOf source)).without e.path) w₁
          w' := by
  rcases run_save_stages h with ⟨failure, rfl, hnone⟩ | ⟨failure, q, rfl, hcut⟩ |
    ⟨file, e, entry, w₁, hfile, hpath, hnull, -, ⟨hdraft, hsaved, hstores⟩, hentry, h⟩
  · exact .inl ⟨failure, rfl, hnone.of_empty, fun _ => hnone.of_empty⟩
  · have hmem := hplain.mem_pathsOf hcut.target?_eq
    exact .inl ⟨failure, rfl, hcut.alters.of_mem hmem, fun _ => hcut.alters.of_mem hcut.target?_eq⟩
  · have he := isKept_draft hroot hplain hnow hdraft (hsize _ hdraft) hnull
    have hmem := mem_pathsOf he
    have hlists' := hlists.of_altersOnly hsaved fun q hq =>
      placeOf_ne_indexPath hplain.isSource.keyOf (hq ▸ hmem) _
    rcases run_enter_cases hshelved hlists' hplain.isSource he hentry h with
      ⟨failure, hresult, halters, hnone⟩ | ⟨hresult, hsettles⟩
    · exact .inl ⟨failure, hresult, (hsaved.of_mem hmem).trans halters,
        fun ⟨key, hne⟩ => absurd (hnone key) hne⟩
    · have hname := isFileName_fileNameAt hplain.slash_not_mem hplain.isLevel hfile
      rw [← Path.name_join (s.sessionDirectory (some source)) hname.toIsName, hpath] at hsettles
      exact .inr ⟨e, w₁, hresult, hdraft, he, hsaved, hstores, hsettles⟩

end Saving

section Finding

variable {source : String} {query : Index.Query}

/-- Finding gives the session that a query picks. -/
theorem HasIndex.run_find (h : s.HasIndex w.files shelves) (hshelved : s.Shelved shelves)
    {e : Saved × Nat} (hpick : (shelves (keyOf source)).pick? query = some e) :
    (s.find source query).run.run w = (.ok (Saved.listed (keyOf source) e), w) := by
  obtain ⟨table, htable, -, hload⟩ := h.run_loadIndex hshelved
  have hkey : (Path.ofString source).name = keyOf source := rfl
  have hfind := htable.find hkey (fun e he => (hshelved.kept (keyOf source) e he).isClean)
    (fun e he => (hshelved.kept (keyOf source) e he).savedAt_ne) query
  rw [hpick] at hfind
  unfold find
  rw [run_bind, hload]
  dsimp only
  rw [hfind, orThrow_ok]
  rfl

/-- A query can pick a session only if there is an index. -/
theorem Lists.hasIndex_of_pick? (h : s.Lists w.files shelves) {e : Saved × Nat}
    (hpick : (shelves key).pick? query = some e) : s.HasIndex w.files shelves := by
  rcases h with h | h
  · exact h
  · rw [h.shelves_eq, Shelf.pick?_nil] at hpick
    cases hpick

/-- Finding fails if a query picks no session. -/
theorem Lists.run_find_of_pick?_eq_none (h : s.Lists w.files shelves) (hshelved : s.Shelved shelves)
    (hpick : (shelves (keyOf source)).pick? query = none) :
    ∃ failure, (s.find source query).run.run w = (.error failure, w) := by
  have hkey : (Path.ofString source).name = keyOf source := rfl
  unfold find
  rw [run_bind]
  rcases h.run_loadIndex_cases hshelved with ⟨table, htable, hload⟩ | ⟨-, failure, hload⟩
  · have hfind := htable.find hkey (fun e he => (hshelved.kept (keyOf source) e he).isClean)
      (fun e he => (hshelved.kept (keyOf source) e he).savedAt_ne) query
    rw [hpick] at hfind
    obtain ⟨failure, hfailed⟩ := hfind
    rw [hload]
    dsimp only
    rw [hfailed]
    exact ⟨failure, rfl⟩
  · rw [hload]
    exact ⟨failure, rfl⟩

/-- The sessions of a source file are listed from the index that was read. -/
theorem run_listSessions {table : Json.Fields} (htable : Index.Tabulates table shelves)
    (hload : s.loadIndex.run.run w = (.ok (Index.ofTable table), w)) (hshelved : s.Shelved shelves)
    (source : String) : (s.listSessions source).run.run w =
      (.ok (Shelf.listing (keyOf source) (shelves (keyOf source))), w) := by
  have hlist := htable.listSessions fun e he => (hshelved.kept (keyOf source) e he).savedAt_ne
  unfold listSessions
  rw [run_bind, hload]
  dsimp only
  rw [← keyOf, hlist, orThrow_ok]
  rfl

theorem HasIndex.run_listSessions (h : s.HasIndex w.files shelves) (hshelved : s.Shelved shelves)
    (source : String) : (s.listSessions source).run.run w =
      (.ok (Shelf.listing (keyOf source) (shelves (keyOf source))), w) := by
  obtain ⟨table, htable, -, hload⟩ := h.run_loadIndex hshelved
  exact Store.run_listSessions htable hload hshelved source

/-- A session that is in its file is loaded, and so is what a query picks, if it can be told whether
the source file has drifted: it has not, or the time of the session is that of a date. -/
theorem HasIndex.run_load (h : s.HasIndex w.files shelves) (hshelved : s.Shelved shelves)
    {e : Saved × Nat} (hpick : (shelves (keyOf source)).pick? query = some e)
    (hstores : w.files.Stores e.1.path e.1.content) :
    ∃ session, (Session.loadFile e.1.path).run.run w = (.ok session, w) ∧
      Session.Restores e.1.pipeline session.pipeline ∧
      ((SourceFile.Matches w.files e.1.record ∨
          ∃ date, DateTime.ofTimestamp e.1.savedAt = .ok date) →
        ∃ w', (s.load source query).run.run w = (.ok session, w') ∧ w'.files = w.files) := by
  have he := hshelved.kept _ e.1 (Shelf.mem_of_pick? hpick)
  obtain ⟨session, hload, hrestores, hsource, -, htime⟩ :=
    Session.run_loadFile he.namesDistinct he.content_eq hstores he.holdsNull_eq
  refine ⟨session, hload, hrestores, fun hchecked => ?_⟩
  obtain ⟨text, htext⟩ := he.exists_file
  obtain ⟨found, hfound⟩ := SourceFile.exists_drift (hsource ▸ htext) htime (hsource ▸ hchecked)
  have hpath : Index.pathOf (.string e.1.path.toString) = .ok e.1.path :=
    congrArg Except.ok (Path.ofString_toString he.isClean)
  unfold load
  rw [run_bind, h.run_find hshelved hpick]
  dsimp only
  rw [Saved.get?_file_listed]
  dsimp only
  rw [hpath, orThrow_ok, pure_bind, run_bind, hload]
  dsimp only
  rw [run_get_bind, hfound, orThrow_ok, pure_bind]
  cases found with
  | none => exact ⟨w, rfl, rfl⟩
  | some drift => exact ⟨_, rfl, rfl⟩

end Finding

section Deleting

variable {source : String} {query : Index.Query}

/-- The sessions that are left when those in a file are dropped. -/
theorem filter_entries_not_equal {path : Path} (hpath : path.IsClean)
    (hclean : ∀ e ∈ shelf, e.path.IsClean) :
    (shelf.map Saved.entry).filter
        (fun other => !(other.get "file").equal (.string path.toString)) =
      (shelf.without path).map Saved.entry := by
  refine filter_entries_without fun e he => ?_
  simp [Saved.get_file, Json.equal_string, Path.toString_inj (hclean e he) hpath]

/-- Deleting removes the file of the session that a query picks, and what the index has in it. -/
theorem HasIndex.run_delete (h : s.HasIndex w.files shelves) (hshelved : s.Shelved shelves)
    {e : Saved × Nat} (hpick : (shelves (keyOf source)).pick? query = some e) :
    ∃ w₁ w', (s.delete source query).run.run w = (.ok (Saved.listed (keyOf source) e), w') ∧
      w.Removes {e.1.path} w₁ ∧ w₁.AltersOnly {s.indexPath} w' ∧
      s.HasIndex w'.files (Function.update shelves (keyOf source)
        ((shelves (keyOf source)).without e.1.path)) := by
  have hshelf := hshelved.kept (keyOf source)
  have he := hshelf e.1 (Shelf.mem_of_pick? hpick)
  obtain ⟨w₁, hdelete, hremoves⟩ := run_deleteFile_entry he w
  have hindex := h.of_altersOnly hremoves.toAltersOnly (by
    rintro q rfl
    exact placeOf_ne_indexPath he.isSource (mem_pathsOf he) _)
  obtain ⟨table, htable, -, hload⟩ := hindex.run_loadIndex hshelved
  have hleft := filter_entries_not_equal he.isClean fun other hother =>
    (hshelf other hother).isClean
  obtain ⟨w', hsave⟩ := hindex.exists_run_saveIndex
    ((Index.ofTable table).setSessions (keyOf source)
    (Index.shelved ((shelves (keyOf source)).without e.1.path)))
  obtain ⟨halters, hindex'⟩ := hasIndex_of_saveIndex htable hsave
  refine ⟨w₁, w', ?_, hremoves, halters, hindex'⟩
  unfold delete
  rw [run_bind, h.run_find hshelved hpick]
  dsimp only
  rw [Saved.get_file_listed, run_bind, ← Saved.get_file, hdelete]
  dsimp only
  rw [run_bind, hload]
  dsimp only
  rw [← keyOf, htable.sessionsOf, Index.entries_shelved, orThrow_ok, pure_bind,
    Saved.get_file, hleft, List.map_map, run_bind]
  have hlist : Json.array (((shelves (keyOf source)).without e.1.path).map
      (Json.object ∘ Saved.entry)) = Index.shelved
        ((shelves (keyOf source)).without e.1.path) := rfl
  rw [hlist, hsave]
  rfl

/-- Deleting what is not there changes nothing. -/
theorem Lists.run_delete_of_pick?_eq_none (h : s.Lists w.files shelves)
    (hshelved : s.Shelved shelves)
    (hpick : (shelves (keyOf source)).pick? query = none) :
    ∃ failure, (s.delete source query).run.run w = (.error failure, w) := by
  obtain ⟨failure, hfind⟩ := h.run_find_of_pick?_eq_none hshelved hpick
  refine ⟨failure, ?_⟩
  unfold delete
  rw [run_bind, hfind]

end Deleting

section CleaningUp

/-- Whether cleaning up the sessions of a source file, or of all, concerns a source file. -/
def cleansUp (source : Option String) (key : String) : Prop :=
  match source.filter fun source => !source.isEmpty with
  | some source => keyOf source = key
  | none => True

instance (source : Option String) (key : String) : Decidable (cleansUp source key) := by
  unfold cleansUp
  split <;> infer_instance

/-- The age in days from which on sessions are cleaned up. -/
def ageOf (s : Store) : Json → Option Json.Number
  | .null => s.config.maxAge
  | age => age.asNumber?

/-- The shelves after cleaning up. -/
def cleaned (limit : Binary64) (source : Option String) (shelves : String → Shelf) (key : String) :
    Shelf :=
  if cleansUp source key then (shelves key).since limit else shelves key

/-- The paths of the sessions that are older than a time. -/
def agedPaths (limit : Binary64) (shelf : Shelf) : Set Path :=
  {p | ∃ e ∈ shelf, e.savedAt.less limit = true ∧ e.path = p}

variable {limit : Binary64}

theorem agedPaths_cons (e : Saved) (shelf : Shelf) : agedPaths limit (e :: shelf) =
    if e.savedAt.less limit then {e.path} ∪ agedPaths limit shelf else agedPaths limit shelf := by
  have hmem (p : Path) : p ∈ agedPaths limit (e :: shelf) ↔
      e.savedAt.less limit = true ∧ e.path = p ∨ p ∈ agedPaths limit shelf := by
    simp only [agedPaths, Set.mem_ofPred_eq, List.mem_cons, exists_eq_or_imp]
  ext p
  rw [hmem]
  split
  · next hold => simp only [hold, true_and, Set.mem_union, Set.mem_singleton_iff, @eq_comm _ p]
  · next hold => simp only [hold, Bool.false_eq_true, false_and, false_or]

/-- Nothing is left to be cleaned up. -/
theorem agedPaths_since : agedPaths limit (shelf.since limit) = ∅ := by
  refine Set.eq_empty_iff_forall_notMem.mpr ?_
  rintro p ⟨e, he, hold, -⟩
  rw [(Shelf.mem_since.mp he).2] at hold
  cases hold

/-- The old sessions of several source files are those of the first, and those of the others when
the shelf of the first is cleaned up. -/
theorem agedPaths_keys_cons (shelves : String → Shelf) (key : String) (keys : List String) :
    {p | ∃ other ∈ key :: keys, p ∈ agedPaths limit (shelves other)} =
      agedPaths limit (shelves key) ∪ {p | ∃ other ∈ keys,
        p ∈ agedPaths limit (Function.update shelves key ((shelves key).since limit) other)} := by
  ext p
  constructor
  · rintro ⟨other, hother, hp⟩
    by_cases hsame : other = key
    · exact .inl (hsame ▸ hp)
    · refine .inr ⟨other, (List.mem_cons.mp hother).resolve_left hsame, ?_⟩
      rwa [Function.update_of_ne hsame]
  · rintro (hp | ⟨other, hother, hp⟩)
    · exact ⟨key, List.mem_cons_self, hp⟩
    · by_cases hsame : other = key
      · subst hsame
        rw [Function.update_self, agedPaths_since] at hp
        exact absurd hp (Set.notMem_empty p)
      · rw [Function.update_of_ne hsame] at hp
        exact ⟨other, List.mem_cons_of_mem _ hother, hp⟩

theorem isOld_entry (e : Saved) : isOld limit e.entry = .ok (e.savedAt.less limit) := rfl

/-- Cleaning up a list deletes the files of old sessions and leaves the others. -/
theorem run_cleanList (limit : Binary64) (hshelf : ∀ e ∈ shelf, e.IsKept s key) (w : World) :
    ∃ count w', (cleanList limit (shelf.map fun e => .object e.entry)).run.run w =
        (.ok ((shelf.since limit).map fun e => .object e.entry, count), w') ∧
      w.Removes (agedPaths limit shelf) w' := by
  induction shelf generalizing w with
  | nil =>
    have hnone : agedPaths limit [] = ∅ := by simp [agedPaths]
    rw [hnone]
    exact ⟨0, w, rfl, .refl w⟩
  | cons e shelf ih =>
    obtain ⟨he, hrest⟩ := List.forall_mem_cons.mp hshelf
    have hreadable : Index.readable (.object e.entry) = .ok e.entry := rfl
    rw [List.map_cons, cleanList, hreadable, orThrow_ok, pure_bind, isOld_entry,
      orThrow_ok, pure_bind, agedPaths_cons]
    cases hold : e.savedAt.less limit with
    | true =>
      obtain ⟨w₁, hdelete, hremoves⟩ := run_deleteFile_entry he w
      obtain ⟨count, w', hclean, hremoves'⟩ := ih hrest w₁
      refine ⟨count + 1, w', ?_, hremoves.trans hremoves'⟩
      rw [if_pos rfl, run_bind, hdelete]
      dsimp only
      rw [run_bind, hclean]
      simp [Shelf.since, hold]
      rfl
    | false =>
      obtain ⟨count, w', hclean, hremoves⟩ := ih hrest w
      refine ⟨count, w', ?_, hremoves⟩
      rw [if_neg (by simp), run_bind, hclean]
      simp [Shelf.since, hold]
      rfl

/-- Cleaning up lists one after the other cleans up the shelf of each. -/
theorem run_cleanLists {table : Json.Fields} (limit : Binary64)
    (htable : Index.Tabulates table shelves)
    (hkept : ∀ key, ∀ e ∈ shelves key, e.IsKept s key) (keys : List String) (w : World) :
    ∃ table' count w', (cleanLists limit (Index.ofTable table) keys).run.run w =
        (.ok (Index.ofTable table', count), w') ∧
      Index.Tabulates table'
        (fun key => if key ∈ keys then (shelves key).since limit else shelves key) ∧
      w.Removes {p | ∃ key ∈ keys, p ∈ agedPaths limit (shelves key)} w' := by
  induction keys generalizing shelves table w with
  | nil =>
    have hnone : {p | ∃ key ∈ ([] : List String), p ∈ agedPaths limit (shelves key)} = ∅ := by simp
    rw [hnone]
    exact ⟨table, 0, w, rfl, by simpa using htable, .refl w⟩
  | cons key keys ih =>
    have hitems : Index.items (Index.shelved (shelves key)) =
        .ok ((shelves key).map fun e => .object e.entry) := rfl
    have hset : (Index.ofTable table).setSessions key
        (.array (((shelves key).since limit).map fun e => .object e.entry)) =
        Index.ofTable (table.set key (Index.shelved ((shelves key).since limit))) := rfl
    obtain ⟨count, w₁, hlist, hremoves⟩ := run_cleanList limit (hkept key) w
    have hsince : ∀ e ∈ (shelves key).since limit, e.IsKept s key := fun e he =>
      hkept key e (Shelf.mem_since.mp he).1
    obtain ⟨table', more, w', hlists, htable', hremoves'⟩ :=
      ih (htable.set key ((shelves key).since limit)) (isKept_update hkept hsince) w₁
    refine ⟨table', count + more, w', ?_, ?_, ?_⟩
    · rw [cleanLists, htable.sessionsOf, hitems, orThrow_ok, pure_bind, run_bind, hlist]
      dsimp only
      rw [hset, run_bind, hlists]
      rfl
    · convert htable' using 2 with other
      by_cases hother : other = key
      · subst hother
        simp [Shelf.since_since]
      · simp [hother]
    · rw [agedPaths_keys_cons]
      exact hremoves.trans hremoves'

/-- The source files whose lists are cleaned up. -/
def cleanedKeys (source : Option String) (index : Index) : List String :=
  match source.filter fun source => !source.isEmpty with
  | some source => [keyOf source]
  | none => index.sessions.map (·.1)

theorem cleanUp_eq (s : Store) (source : Option String) (age : Json) : s.cleanUp source age = (do
    let limit ← orThrow (cutoff (← clock) (s.ageOf age))
    let index ← s.loadIndex
    let cleaned ← cleanLists limit index (cleanedKeys source index)
    s.saveIndex cleaned.1
    return cleaned.2) := rfl

/-- The lists that are cleaned up are all those with sessions that a call concerns. -/
theorem mem_cleanedKeys {table : Json.Fields} (htable : Index.Tabulates table shelves)
    {source : Option String} (hkey : shelves key ≠ []) :
    key ∈ cleanedKeys source (Index.ofTable table) ↔ cleansUp source key := by
  unfold cleanedKeys cleansUp
  split
  · simp [eq_comm]
  · rw [Index.sessions_ofTable, iff_true]
    by_contra habsent
    exact hkey (htable.absent habsent)

/-- What cleaning up comes to: old sessions are removed and the index says so, or no file has
changed. -/
theorem run_cleanUp_cases {source : Option String} {age : Json} {result : Except Failure Nat}
    (hshelved : s.Shelved shelves) (hlists : s.Lists w.files shelves)
    (h : (s.cleanUp source age).run.run w = (result, w')) :
    (∃ failure, result = .error failure ∧ w.AltersOnly ∅ w') ∨
      ∃ count limit w₁, result = .ok count ∧ cutoff w.now (s.ageOf age) = .ok limit ∧
        w.Removes {p | ∃ key, cleansUp source key ∧ p ∈ agedPaths limit (shelves key)} w₁ ∧
        w₁.AltersOnly {s.indexPath} w' ∧ s.HasIndex w'.files (cleaned limit source shelves) := by
  rw [cleanUp_eq, run_clock_bind] at h
  cases hlimit : cutoff w.now (s.ageOf age) with
  | error failure =>
    rw [hlimit] at h
    obtain ⟨hresult, rfl⟩ := Prod.mk.inj h
    exact .inl ⟨_, hresult.symm, .refl _⟩
  | ok limit =>
    rw [hlimit, orThrow_ok, pure_bind, run_bind] at h
    rcases hlists.run_loadIndex_cases hshelved with ⟨table, htable, hload⟩ | ⟨-, failure, hload⟩
    · rw [hload] at h
      dsimp only at h
      obtain ⟨table', count, w₁, hclean, htable', hremoves⟩ :=
        run_cleanLists limit htable hshelved.kept (cleanedKeys source (Index.ofTable table)) w
      rw [run_bind, hclean] at h
      -- The index is gone through by its own source files. All others have no sessions.
      have hcleaned : (fun key => if key ∈ cleanedKeys source (Index.ofTable table) then
          (shelves key).since limit else shelves key) = cleaned limit source shelves := by
        funext key
        unfold cleaned
        by_cases hkey : shelves key = []
        · simp [hkey, Shelf.since]
        · simp only [mem_cleanedKeys htable hkey]
      have hpaths : {p | ∃ key ∈ cleanedKeys source (Index.ofTable table),
          p ∈ agedPaths limit (shelves key)} =
          {p | ∃ key, cleansUp source key ∧ p ∈ agedPaths limit (shelves key)} := by
        ext p
        refine exists_congr fun key => and_congr_left ?_
        rintro ⟨e, he, -⟩
        exact mem_cleanedKeys htable (List.ne_nil_of_mem he)
      rw [hcleaned] at htable'
      rw [hpaths] at hremoves
      rcases run_bind_cases h with ⟨failure, hfailed, rfl⟩ | ⟨u, w₂, hsave, h⟩
      · obtain ⟨hlacks, hnone⟩ := hlists.lacksIndex_of_saveIndex hremoves.toAltersOnly (by
          rintro p ⟨key, -, e, he, -, rfl⟩
          have hkept := hshelved.kept key e he
          exact placeOf_ne_indexPath hkept.isSource (mem_pathsOf hkept) _) hfailed
        -- Where no sessions are listed no files were removed.
        refine .inl ⟨failure, rfl, (hremoves.toAltersOnly.mono ?_).trans hnone⟩
        rintro p ⟨key, -, e, he, -⟩
        rw [hlacks.shelves_eq] at he
        cases he
      · obtain ⟨hresult, rfl⟩ := Prod.mk.inj h
        rcases run_saveIndex_cases hsave with ⟨_, hfailed, -⟩ | ⟨-, halters, hnull, hstores⟩
        · cases hfailed
        · exact .inr ⟨count, limit, w₁, hresult.symm, rfl, hremoves, halters, hnull,
            table', htable', hstores⟩
    · rw [hload] at h
      obtain ⟨hresult, rfl⟩ := Prod.mk.inj h
      exact .inl ⟨_, hresult.symm, .refl _⟩

end CleaningUp

end Store
end PassTrace

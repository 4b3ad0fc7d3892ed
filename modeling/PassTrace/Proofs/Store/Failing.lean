import PassTrace.Proofs.Store.Calls
import PassTrace.Proofs.Store.Malformed

/-!
# What a save that fails leaves behind

A save does one thing after the other and takes nothing back. The file of the session is written
first, since the index is to have its size. So if the session cannot be entered in the index, its
file stays there all the same. Nothing else is changed but for the files of sessions that are too
many, which are deleted before the index is written.
-/

namespace PassTrace.Store

open Index Operation

/-- The sessions of a source file with a new one in front of those listed, of which what is listed
for the file of the new one is dropped. -/
def followedBy (e : Saved) (listed : List Json.Fields) : List Json.Fields :=
  e.entry :: listed.filter fun entry => (entry.get "file").asString? ≠ some e.path.toString

/-- Those of the sessions of a source file that are too many when there is a new one. -/
def tooMany (s : Store) (e : Saved) (listed : List Json.Fields) : List Json.Fields :=
  (followedBy e listed).drop (s.keptCount (followedBy e listed).length)

/-- A session that was written to its file is not entered in the index, for one of these reasons. -/
inductive Refuses (s : Store) (source : String) (e : Saved) (w w' : World) : Prop
  /-- No index is read. -/
  | unreadable {failure : Failure} (hload : (s.loadIndex.run.run w).1 = .error failure)
    (h : w.AltersOnly ∅ w')
  /-- The index has something else for the source file than a list of sessions. -/
  | noList {index : Index} (hload : (s.loadIndex.run.run w).1 = .ok index)
    (hlist : ∀ listed : List Json.Fields,
      index.sessionsOf (keyOf source) ≠ .array (listed.map .object))
    (h : w.AltersOnly ∅ w')
  /-- It is not told how many sessions are kept. -/
  | noLimit (hlimit : s.config.maxSessions = none) (h : w.AltersOnly ∅ w')
  /-- One of the sessions that are too many has a file that cannot be used. The files of those in
  front of it have been deleted. -/
  | unusable {index : Index} {listed front back : List Json.Fields} {bad : Json.Fields}
    (hload : (s.loadIndex.run.run w).1 = .ok index)
    (hlist : index.sessionsOf (keyOf source) = .array (listed.map .object))
    (hmany : s.tooMany e listed = front ++ bad :: back) (hbad : IsUnusable (bad.get "file"))
    (h : w.Removes (filesOf front) w')
  /-- There is no index, and none can be written. If no session is kept, the file of the new one has
  been deleted. -/
  | unindexed (hhas : w.files.has s.indexPath = .ok false)
    (h : w.Removes (filesOf (s.tooMany e [])) w')

/-- What a save that fails leaves behind. -/
inductive Leaves (s : Store) (p : Pipeline) (source : String) (compilation : Json.Fields)
    (name : Option String) (w w' : World) : Prop
  /-- No file was written. -/
  | unwritten (h : w.AltersOnly ∅ w')
  /-- The file of the session was cut short. -/
  | cutShort {q : Path} (h : s.CutsShort p source compilation name q w w')
  /-- The session was written to its file, but not entered in the index. -/
  | written {e : Saved} {w₁ : World} (hwrites : s.Writes p source compilation name e w w₁)
    (hrefuses : s.Refuses source e w₁ w')

variable {s : Store} {p : Pipeline} {source : String} {compilation : Json.Fields}
  {name : Option String} {w w' : World} {failure : Failure}

section Parts

/-- The sessions beside a new one are those of a list that are not in its file, or there is no list
of sessions. -/
theorem sessionsBeside_cases (file : String) (list : Json) :
    (∃ listed : List Json.Fields, list = .array (listed.map .object) ∧
        sessionsBeside file list =
          .ok (listed.filter fun entry => (entry.get "file").asString? ≠ some file)) ∨
      (∀ listed : List Json.Fields, list ≠ .array (listed.map .object)) ∧
        ∃ failure, sessionsBeside file list = .error failure := by
  unfold sessionsBeside
  rcases entries_cases list with
    ⟨listed, hlists, hentries⟩ | ⟨hnone, hentries⟩ | ⟨-, hnone, hentries⟩
  · rw [hentries]
    cases hlists with
    | array => exact .inl ⟨listed, rfl, rfl⟩
    | object | string => exact .inr ⟨nofun, _, rfl⟩
  · rw [hentries]
    refine .inr ⟨fun listed hlist => hnone ?_, _, rfl⟩
    exact hlist ▸ .array _
  · rw [hentries]
    refine .inr ⟨fun listed hlist => hnone listed ?_, _, rfl⟩
    exact hlist ▸ .array listed

/-- The directory for the sessions of a source file can be used if the paths of the index and of the
source file can. -/
theorem holdsNull_sessionDirectory (hindex : s.indexPath.holdsNull = false)
    (hsource : (Path.ofString source).holdsNull = false) :
    (s.sessionDirectory (some source)).holdsNull = false := by
  have hroot : s.root.holdsNull = false := by
    rw [indexPath, Path.holdsNull_join _ isName_indexName, Bool.or_eq_false_iff] at hindex
    exact hindex.1
  have hbase : (s.root.join "sessions").holdsNull = false :=
    Path.holdsNull_join_of_not_mem hroot (by decide)
  unfold sessionDirectory
  dsimp only
  split
  · exact hbase
  · exact Path.holdsNull_join_of_not_mem hbase (Path.null_not_mem_stem hsource)

end Parts

section Entering

variable {file : String} {e : Saved} {w₀ : World} {index : Index} {listed : List Json.Fields}

/-- The note of the last session can be tried to be written once the index was. -/
theorem run_note_of_saveIndex {path : Path} {bytes : Bytes}
    (hsource : (Path.ofString source).holdsNull = false)
    (hsave : (s.saveIndex index).run.run w₀ = (.ok (), w)) : (do
      match ← writeFile ((s.sessionDirectory (some source)).join latestName) bytes with
      | .ok () => return path
      | .error fault =>
        notify (.latestNotWritten fault)
        return path : Operation Path).run.run w ≠ (.error failure, w') := by
  intro h
  rcases run_saveIndex_cases hsave with ⟨_, hfailed, -⟩ | ⟨-, -, hindex, -⟩
  · cases hfailed
  · have hname : '\x00' ∉ latestName.toList := by decide
    have hnull := Path.holdsNull_join_of_not_mem (holdsNull_sessionDirectory hindex hsource) hname
    cases (run_note hnull h).1

/-- Where no file was changed, none was removed. -/
theorem removes_of_altersOnly (h : w.AltersOnly ∅ w') : w.Removes ∅ w' where
  toAltersOnly := h
  fewer := fun place => .inr (h.content?_eq place nofun)
  gone := nofun

/-- Settling a session fails because of the limit, of a file that cannot be deleted, or of an index
that cannot be written. An index that was read can be written. -/
theorem refuses_of_settle (hsource : (Path.ofString source).holdsNull = false)
    (hload : s.loadIndex.run.run w₀ = (.ok index, w))
    (hlist : index.sessionsOf (keyOf source) = .array (listed.map .object))
    (h : (s.settle source file e.path index (followedBy e listed)).run.run w =
      (.error failure, w')) : s.Refuses source e w₀ w' := by
  have hok : (s.loadIndex.run.run w₀).1 = .ok index := by rw [hload]
  -- Reading the index changes nothing, so that deleting counts from the world before it.
  have hquiet : w₀.Deletes ∅ w := by
    obtain ⟨hfiles, hnow⟩ := s.files_loadIndex w₀
    rw [hload] at hfiles hnow
    exact .of_files_eq hnow hfiles nofun
  by_cases hlimit : s.config.maxSessions = none
  · rw [settle_of_maxSessions_eq_none hlimit] at h
    obtain ⟨-, rfl⟩ := Prod.mk.inj h
    exact .noLimit hlimit hquiet.toAltersOnly
  rw [settle_of_maxSessions_ne_none hlimit, ← tooMany, run_bind] at h
  rcases run_deleteFiles_cases (s.tooMany e listed) w with
    ⟨w₁, hdelete, hdeletes⟩ | ⟨front, bad, back, _, w₁, hmany, hbad, hfailed, hdeletes⟩
  · have hdeleted : w₀.Deletes (filesOf (s.tooMany e listed)) w₁ :=
      Set.empty_union (filesOf (s.tooMany e listed)) ▸ hquiet.trans hdeletes
    rw [hdelete] at h
    rcases run_bind_cases h with ⟨_, hfailed, -⟩ | ⟨_, w₂, hsave, hnote⟩
    · rcases origin_of_loadIndex hload with ⟨bytes, hstores, hnull⟩ | ⟨hhas, hfresh⟩
      · obtain ⟨w₂, hsaved⟩ := exists_run_saveIndex_of_deletes hstores hnull hdeleted _
        rw [hsaved] at hfailed
        cases hfailed
      · -- Without an index there are no other sessions.
        obtain rfl : listed = [] := by
          rw [hfresh] at hlist
          exact List.map_eq_nil_iff.mp (Json.array.inj hlist).symm
        rcases run_saveIndex_cases hfailed with ⟨_, -, hnone⟩ | ⟨hsaved, -⟩
        · have hremoved := hdeleted.toRemoves.trans (removes_of_altersOnly hnone)
          rw [Set.union_empty] at hremoved
          exact .unindexed hhas hremoved
        · cases hsaved
    · exact absurd hnote (run_note_of_saveIndex hsource hsave)
  · have hdeleted : w₀.Deletes (filesOf front) w₁ :=
      Set.empty_union (filesOf front) ▸ hquiet.trans hdeletes
    rw [hfailed] at h
    obtain ⟨-, rfl⟩ := Prod.mk.inj h
    exact .unusable hok hlist hmany hbad hdeleted.toRemoves

/-- Entering a session in the index fails for one of the reasons. -/
theorem refuses_of_enter {entry : Binary64 → Json.Fields}
    (hsource : (Path.ofString source).holdsNull = false) (hentry : entry w.now = e.entry)
    (h : (s.enter source file e.path entry).run.run w = (.error failure, w')) :
    s.Refuses source e w w' := by
  unfold enter at h
  have hfiles := s.files_loadIndex w
  rcases run_bind_cases h with ⟨_, hfailed, -⟩ | ⟨index, w₁, hload, h⟩
  · rw [hfailed] at hfiles
    exact .unreadable (by rw [hfailed]) (.of_files_eq hfiles.2 hfiles.1)
  rw [hload] at hfiles
  rcases sessionsBeside_cases e.path.toString (index.sessionsOf (keyOf source)) with
    ⟨listed, hlist, hbeside⟩ | ⟨hnone, _, hfailed⟩
  · rw [hbeside, orThrow_ok, pure_bind, run_clock_bind, hfiles.2, hentry, ← followedBy] at h
    exact refuses_of_settle hsource hload hlist h
  · rw [hfailed, orThrow_error] at h
    obtain ⟨-, rfl⟩ := Prod.mk.inj h
    exact .noList (by rw [hload]) hnone (.of_files_eq hfiles.2 hfiles.1)

end Entering

/-- A world with a directory in the place of the index of a store. -/
def obstructedWorld : World :=
  let files := (FileTree.empty "work").put ["work", "store"] .directory
  ⟨files.put ["work", "store", "metadata.json"] .directory, .zero, [], []⟩

/-- The place of the file of a session called `x` of the source file `a.ll`. -/
def notePlace : Location := ["work", "store", "sessions", "a", "x.json"]

theorem run_save_obstructed : ∃ failure w',
    (plainStore.save onePass "a.ll" [] (some "x")).run.run obstructedWorld = (.error failure, w') ∧
      (w'.files.content? notePlace).isSome = true := by
  have hfails : ((plainStore.save onePass "a.ll" [] (some "x")).run.run obstructedWorld).1.isOk =
      false := by decide +kernel
  have hleft : (((plainStore.save onePass "a.ll" [] (some "x")).run.run
      obstructedWorld).2.files.content? notePlace).isSome = true := by decide +kernel
  cases hrun : (plainStore.save onePass "a.ll" [] (some "x")).run.run obstructedWorld with
  | mk result w' =>
    rw [hrun] at hfails hleft
    cases result with
    | ok path => cases hfails
    | error failure => exact ⟨failure, w', rfl, hleft⟩

/-- The content of the index of a store and those of all files of sessions are as they were. -/
def IsUnchanged (s : Store) (t t' : FileTree) : Prop :=
  ∀ place, place = t.placeOf s.indexPath ∨ t.placeOf (s.sessionDirectory none) <+: place →
    t'.content? place = t.content? place

end PassTrace.Store

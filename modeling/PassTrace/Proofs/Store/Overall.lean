import PassTrace.Proofs.Store.Answers
import PassTrace.Proofs.Store.Regular

/-!
# The sessions of all source files

Whatever calls were made on a store, whatever their arguments and times, and whether they succeeded
or failed, its index is regular or cannot be read at all. So the listing of all sessions agrees with
those of the source files, or none of them is given.
-/

namespace PassTrace.Store

open Operation

variable {α β : Type} {s : Store} {w w' : World}

/-- What is in the file of a store's index, if it is there, is sound. -/
def IsSound (s : Store) (t : FileTree) : Prop :=
  ∀ bytes, t.content? (t.placeOf s.indexPath) = some bytes → Index.IsSound bytes

/-- A store has a regular index in its file. -/
def HoldsIndex (s : Store) (t : FileTree) : Prop :=
  s.indexPath.holdsNull = false ∧ ∃ i table, Index.IsRegular i table ∧
    t.Stores s.indexPath (Text.utf8 (Json.object i.fields).document)

section Changes

/-- Changes to files other than the index leave it sound. -/
theorem IsSound.of_altersOnly {paths : Set Path} (h : s.IsSound w.files)
    (halters : w.AltersOnly paths w')
    (hpaths : ∀ q ∈ paths, w.files.placeOf q ≠ w.files.placeOf s.indexPath) :
    s.IsSound w'.files := by
  intro bytes hbytes
  rw [halters.keeps.placeOf_eq, halters.content?_eq _ hpaths] at hbytes
  exact h bytes hbytes

/-- A file that is sound in the place of the index leaves the index sound. -/
theorem IsSound.of_stores {p : Path} {bytes : Bytes} (h : s.IsSound w.files)
    (halters : w.AltersOnly {p} w') (hstores : w'.files.Stores p bytes)
    (hbytes : Index.IsSound bytes) : s.IsSound w'.files := by
  by_cases hplace : w.files.placeOf p = w.files.placeOf s.indexPath
  · intro bytes' hbytes'
    rw [← halters.keeps.placeOf_eq, ← halters.keeps.placeOf_eq] at hplace
    rw [← hplace, hstores.content?_eq] at hbytes'
    exact Option.some.inj hbytes' ▸ hbytes
  · refine h.of_altersOnly halters ?_
    rintro q rfl
    exact hplace

end Changes

section Keeping

/-- From every world with a time in which the index is sound and something holds, an operation leads
to one with a time in which the index is sound, and something holds of what it gives there. -/
def Keeps (s : Store) (before : World → Prop) (x : Operation α) (after : α → World → Prop) :
    Prop :=
  ∀ w, w.now ≠ .nan → s.IsSound w.files → before w →
    (x.run.run w).2.now ≠ .nan ∧ s.IsSound (x.run.run w).2.files ∧
      ∀ a, (x.run.run w).1 = .ok a → after a (x.run.run w).2

variable {before before' : World → Prop} {after after' : α → World → Prop}

theorem Keeps.bind {x : Operation α} {f : α → Operation β} {last : β → World → Prop}
    (hx : s.Keeps before x after) (hf : ∀ a, s.Keeps (after a) (f a) last) :
    s.Keeps before (x >>= f) last := by
  intro w hnow hsound hbefore
  obtain ⟨hnow', hsound', hafter⟩ := hx w hnow hsound hbefore
  rw [run_bind]
  rcases hrun : x.run.run w with ⟨failure | a, w'⟩
  · rw [hrun] at hnow' hsound'
    exact ⟨hnow', hsound', nofun⟩
  · rw [hrun] at hnow' hsound' hafter
    exact hf a w' hnow' hsound' (hafter a rfl)

theorem keeps_pure {a : α} (h : ∀ w, before w → after a w) : s.Keeps before (pure a) after :=
  fun w hnow hsound hw => ⟨hnow, hsound, fun _ hb => Except.ok.inj hb ▸ h w hw⟩

theorem keeps_throw (failure : Failure) : s.Keeps before (throw failure : Operation α) after :=
  fun _ hnow hsound _ => ⟨hnow, hsound, nofun⟩

/-- What does not depend on the world is known throughout. -/
theorem keeps_of {P : Prop} {x : Operation α} (h : P → s.Keeps (fun _ => True) x after) :
    s.Keeps (fun _ => P) x after :=
  fun w hnow hsound hP => h hP w hnow hsound trivial

/-- An operation that alters no file. -/
theorem keeps_of_altersOnly {x : Operation α} (h : x.AltersOnly ∅) :
    s.Keeps before x fun _ _ => True := by
  intro w hnow hsound _
  have halters := h w
  exact ⟨halters.now_eq ▸ hnow, hsound.of_altersOnly halters nofun, fun _ _ => trivial⟩

theorem keeps_orThrow {P : α → Prop} {result : Except Failure α}
    (h : ∀ a, result = .ok a → P a) : s.Keeps before (orThrow result) fun a _ => P a := by
  cases result with
  | error failure => exact keeps_throw failure
  | ok a => exact keeps_pure fun _ _ => h a rfl

theorem Keeps.clock_bind {f : Binary64 → Operation α}
    (hf : ∀ now, now ≠ .nan → s.Keeps before (f now) after) :
    s.Keeps before (clock >>= f) after := by
  intro w hnow hsound hw
  rw [run_clock_bind]
  exact hf w.now hnow w hnow hsound hw

/-- Writing a file that is sound in the place of the index. -/
theorem keeps_writeBelow {p : Path} {bytes : Bytes} (hbytes : Index.IsSound bytes) :
    s.Keeps before (writeBelow p bytes) fun _ _ => True := by
  intro w hnow hsound _
  have halters := altersOnly_writeBelow p bytes w
  refine ⟨halters.now_eq ▸ hnow, ?_, fun _ _ => trivial⟩
  rcases hrun : (writeBelow p bytes).run.run w with ⟨result, w'⟩
  rw [hrun] at halters
  by_cases hresult : result = .ok (.ok ())
  · subst hresult
    exact hsound.of_stores halters (stores_of_writeBelow hrun).1 hbytes
  · have hnothing : w.AltersOnly ∅ w' := alters_of_not_writeBelow hrun hresult
    exact hsound.of_altersOnly hnothing nofun

/-- Removing a file. -/
theorem keeps_removeFile (p : Path) : s.Keeps before (removeFile p) fun _ _ => True := by
  refine Keeps.bind (keeps_of_altersOnly (altersOnly_usable p)) fun _ w hnow hsound _ => ?_
  rw [run_changeFiles]
  cases hremove : w.files.remove p with
  | error fault => exact ⟨hnow, hsound, fun _ _ => trivial⟩
  | ok files =>
    obtain ⟨hgone, halters⟩ := FileTree.content?_of_remove hremove
    refine ⟨hnow, ?_, fun _ _ => trivial⟩
    intro bytes hbytes
    rw [halters.toKeepsDirectories.placeOf_eq] at hbytes
    by_cases hplace : w.files.placeOf s.indexPath = w.files.placeOf p
    · rw [hplace, hgone] at hbytes
      cases hbytes
    · rw [halters.content?_eq _ hplace] at hbytes
      exact hsound bytes hbytes

/-- Deleting the file of a session, whatever it is. -/
theorem keeps_deleteFile (file : Json) : s.Keeps before (deleteFile file) fun _ _ => True := by
  unfold deleteFile
  split
  · exact keeps_pure fun _ _ => trivial
  · refine Keeps.bind (keeps_orThrow (P := fun _ => True) fun _ _ => trivial) fun p => ?_
    refine Keeps.bind (keeps_removeFile p) fun result => ?_
    split
    · exact keeps_pure fun _ _ => trivial
    · split
      · exact keeps_pure fun _ _ => trivial
      · exact keeps_of_altersOnly (altersOnly_notify _)

theorem keeps_deleteFiles (entries : List Json.Fields) :
    s.Keeps before (entries.forM fun entry => deleteFile (entry.get "file")) fun _ _ => True := by
  induction entries generalizing before with
  | nil => exact keeps_pure fun _ _ => trivial
  | cons entry entries ih => exact Keeps.bind (keeps_deleteFile _) fun _ => ih

/-- Writing a session file. -/
theorem keeps_saveFile {p : Path} {pipeline : Pipeline} {source compilation : Json.Fields}
    (hnames : Session.HasDistinctNames pipeline source compilation) :
    s.Keeps before (Session.saveFile p pipeline source compilation) fun _ _ => True := by
  have hwrite {bytes : Bytes} (hbytes : Index.IsSound bytes) {before : World → Prop} :
      s.Keeps before (do orFail (.sessionFile p.toString) (← writeBelow p bytes) : Operation Unit)
        fun _ _ => True :=
    Keeps.bind (keeps_writeBelow hbytes) fun _ => keeps_of_altersOnly (altersOnly_orFail _ _)
  unfold Session.saveFile
  refine Keeps.bind (keeps_of_altersOnly (altersOnly_notifyAll _)) fun _ => ?_
  refine Keeps.bind (keeps_of_altersOnly altersOnly_clock) fun now => ?_
  dsimp only
  cases hpayload : Session.encode now pipeline source compilation with
  | error failure => exact keeps_throw failure
  | ok payload =>
    have hsound := Session.isSound_written (p := p) hnames hpayload
    dsimp only
    cases hbytes : Session.fileBytes p now payload with
    | ok bytes =>
      rw [hbytes] at hsound
      exact Keeps.bind (hwrite hsound) fun _ => keeps_pure fun _ _ => trivial
    | error fault =>
      rw [hbytes] at hsound
      exact Keeps.bind (hwrite hsound) fun _ => keeps_throw _

/-- Reading a sound index gives a regular one or fails, and does nothing else. -/
theorem IsSound.run_loadIndex (h : s.IsSound w.files) :
    (∃ failure, s.loadIndex.run.run w = (.error failure, w)) ∨
      ∃ i table, Index.IsRegular i table ∧ s.loadIndex.run.run w = (.ok i, w) := by
  rw [Store.run_loadIndex]
  cases w.files.has s.indexPath with
  | error fault => exact .inl ⟨_, rfl⟩
  | ok found =>
    cases found with
    | false => exact .inr ⟨_, _, .fresh, rfl⟩
    | true =>
      dsimp only
      split
      · exact .inl ⟨_, rfl⟩
      · cases hread : w.files.read s.indexPath with
        | error fault => exact .inl ⟨_, rfl⟩
        | ok bytes => exact (h bytes (FileTree.content?_of_read hread)).run_readIndex w

theorem keeps_loadIndex :
    s.Keeps before s.loadIndex fun i _ => ∃ table, Index.IsRegular i table := by
  intro w hnow hsound _
  rcases hsound.run_loadIndex with ⟨failure, hload⟩ | ⟨i, table, hregular, hload⟩
  · rw [hload]
    exact ⟨hnow, hsound, nofun⟩
  · rw [hload]
    exact ⟨hnow, hsound, fun _ ha => Except.ok.inj ha ▸ ⟨table, hregular⟩⟩

/-- Writing a regular index. -/
theorem keeps_saveIndex {i : Index} {table : Index.Table} (h : i.IsRegular table) :
    s.Keeps before (s.saveIndex i) fun _ w => s.HoldsIndex w.files := by
  intro w hnow hsound _
  rcases hrun : (s.saveIndex i).run.run w with ⟨result, w'⟩
  rcases run_saveIndex_cases hrun with ⟨failure, rfl, halters⟩ | ⟨rfl, halters, hnull, hstores⟩
  · exact ⟨halters.now_eq ▸ hnow, hsound.of_altersOnly halters nofun, nofun⟩
  · exact ⟨halters.now_eq ▸ hnow, hsound.of_stores halters hstores h.isSound,
      fun _ _ => ⟨hnull, i, table, h, hstores⟩⟩

theorem HoldsIndex.of_altersOnly {paths : Set Path} (h : s.HoldsIndex w.files)
    (halters : w.AltersOnly paths w')
    (hpaths : ∀ q ∈ paths, w.files.placeOf q ≠ w.files.placeOf s.indexPath) :
    s.HoldsIndex w'.files := by
  obtain ⟨hnull, i, table, hregular, hstores⟩ := h
  exact ⟨hnull, i, table, hregular, halters.stores hstores hpaths⟩

/-- The name of the last session is noted beside the index. -/
theorem keeps_note (directory : Path) (bytes : Bytes) :
    s.Keeps (fun w => s.HoldsIndex w.files) (writeFile (directory.join latestName) bytes)
      fun _ w => s.HoldsIndex w.files := by
  intro w hnow hsound hholds
  have halters := altersOnly_writeFile (directory.join latestName) bytes w
  have hplace : ∀ q ∈ ({directory.join latestName} : Set Path),
      w.files.placeOf q ≠ w.files.placeOf s.indexPath := by
    rintro q rfl heq
    rw [w.files.placeOf_join _ isPlain_latestName, placeOf_indexPath] at heq
    exact absurd (List.append_inj_right' heq rfl) (by decide)
  exact ⟨halters.now_eq ▸ hnow, hsound.of_altersOnly halters hplace,
    fun _ _ => hholds.of_altersOnly halters hplace⟩

end Keeping

section Calls

variable {i : Index} {table : Index.Table} {before : World → Prop}

/-- The sessions that a save leaves beside the new one are entries of the index. -/
theorem isEntry_of_sessionsBeside (h : i.IsRegular table) {file key : String}
    {others : List Json.Fields} (hothers : sessionsBeside file (i.sessionsOf key) = .ok others) :
    ∀ entry ∈ others, Index.IsEntry entry := by
  rw [h.sessionsOf_eq] at hothers
  unfold sessionsBeside at hothers
  rw [Index.HasTable.entries_array] at hothers
  obtain rfl := Except.ok.inj hothers
  intro entry hentry
  exact h.isEntry_of_mem (List.mem_of_mem_filter hentry)

/-- Settling the index and the sessions. -/
theorem keeps_settle (h : i.IsRegular table) {source file : String} {path : Path}
    {all : List Json.Fields} (hall : ∀ entry ∈ all, Index.IsEntry entry) :
    s.Keeps before (s.settle source file path i all) fun _ w => s.HoldsIndex w.files := by
  unfold settle
  refine Keeps.bind (keeps_orThrow (P := fun _ => True) fun _ _ => trivial) fun limit => ?_
  refine Keeps.bind (keeps_deleteFiles _) fun _ => ?_
  refine Keeps.bind (keeps_saveIndex (h.setSessions _ fun entry hentry =>
    hall entry (List.mem_of_mem_take hentry))) fun _ => ?_
  -- The note of the last session is no index, whether it is written or not.
  refine Keeps.bind (keeps_note _ _) fun result => ?_
  split
  · exact keeps_pure fun _ hw => hw
  · exact fun w hnow hsound hw => ⟨hnow, hsound, fun _ _ => hw⟩

/-- Entering a session in the index. -/
theorem keeps_enter {source file : String} {path : Path} {entry : Binary64 → Json.Fields}
    (hentry : ∀ now, now ≠ .nan → Index.IsEntry (entry now)) :
    s.Keeps before (s.enter source file path entry) fun _ w => s.HoldsIndex w.files := by
  unfold enter
  refine Keeps.bind keeps_loadIndex fun i => keeps_of ?_
  rintro ⟨table, hregular⟩
  refine Keeps.bind (keeps_orThrow fun _ => isEntry_of_sessionsBeside hregular) fun others => ?_
  refine keeps_of fun hothers => Keeps.clock_bind fun now hnow => ?_
  exact keeps_settle hregular (List.forall_mem_cons.2 ⟨hentry now hnow, hothers⟩)

/-- The arguments of a call are fair: those of a save are objects whose fields have different names,
its optimization level is not nested too deeply for the index, and the size of its file can be
written. -/
def Call.IsFair (s : Store) (w : World) : Call → Prop
  | .save pipeline source compilation name =>
    Session.HasDistinctNames pipeline [] compilation ∧
      (compilation.get "opt_level").writeFault? (Json.maxLevels - 4) = none ∧
      ∀ e, s.draft w pipeline source compilation name = .ok e →
        (toString e.content.length).length ≤ maxDigits
  | _ => True

theorem Call.IsPlain.isFair {call : Call} (h : call.IsPlain s w) : call.IsFair s w := by
  cases call with
  | save pipeline source compilation name =>
    exact ⟨h.1.namesDistinct, h.1.isLevel.isLeaf.writeFault?_eq_none _, h.2⟩
  | delete source query => trivial
  | cleanUp source age => trivial

theorem hasDistinctNames_get {fields : Json.Fields} (h : (Json.object fields).HasDistinctNames)
    (name : String) : (fields.get name).HasDistinctNames := by
  by_cases hname : name ∈ fields.map (·.1)
  · obtain ⟨field, hfield, rfl⟩ := List.mem_map.1 hname
    rw [Json.Fields.get_of_mem h.1 hfield]
    exact Json.hasDistinctNames_of_mem h.2 hfield
  · rw [Json.Fields.get_of_not_mem hname]
    trivial

/-- The entry of a session that was saved at a time. -/
theorem isEntry_entry {e : Saved} (htime : e.savedAt ≠ .nan)
    (hcompilation : (Json.object e.compilation).HasDistinctNames)
    (hlevel : (e.compilation.get "opt_level").writeFault? (Json.maxLevels - 4) = none)
    (hchecksum : Saved.IsLeaf (e.record.get "checksum"))
    (hsize : (toString e.content.length).length ≤ maxDigits)
    (hpasses : (toString e.pipeline.size).length ≤ maxDigits)
    (hchanged : (toString e.pipeline.changedCount).length ≤ maxDigits) :
    Index.IsEntry e.entry where
  index_not_mem := by simp [Saved.entry]
  source_not_mem := by simp [Saved.entry]
  timed := by rw [Saved.sortNumber?_entry htime]; rfl
  hasDistinctNames := by
    refine ⟨by simp [Saved.entry], Json.fieldsHaveDistinctNames_of_forall fun field hfield => ?_⟩
    simp only [Saved.entry, List.mem_cons, List.not_mem_nil, or_false] at hfield
    rcases hfield with rfl | rfl | rfl | rfl | rfl | rfl | rfl | rfl
    · trivial
    · exact e.isLeaf_name.hasDistinctNames
    · exact hasDistinctNames_get hcompilation _
    · exact hchecksum.hasDistinctNames
    all_goals trivial
  writeFault?_eq_none := by
    refine Json.fieldsFault?_of_forall fun field hfield => ?_
    simp only [Saved.entry, List.mem_cons, List.not_mem_nil, or_false] at hfield
    rcases hfield with rfl | rfl | rfl | rfl | rfl | rfl | rfl | rfl
    · rfl
    · exact e.isLeaf_name.writeFault?_eq_none _
    · exact hlevel
    · exact hchecksum.writeFault?_eq_none _
    · rfl
    · exact Saved.writeFault?_natCast hsize _
    · exact Saved.writeFault?_natCast hpasses _
    · exact Saved.writeFault?_natCast hchanged _

theorem isLeaf_get_checksum (files : FileTree) (p : Path) :
    Saved.IsLeaf ((SourceFile.recordIn files p).get "checksum") := by
  rcases SourceFile.get_checksum_recordIn files p with hnull | ⟨text, htext⟩
  · rw [hnull]
    exact .null
  · rw [htext]
    exact .string text

/-- What a save keeps if its file has a name and a content. -/
theorem draft_eq {pipeline : Pipeline} {source file : String} {compilation : Json.Fields}
    {name : Option String} {content : Bytes}
    (hfile : s.fileNameAt w.now name (compilation.get "opt_level") = .ok file)
    (hcontent : Session.contentAt ((s.sessionDirectory (some source)).join file) w.now pipeline
      (SourceFile.recordIn w.files (Path.ofString source)) compilation = .ok content) :
    s.draft w pipeline source compilation name =
      .ok ⟨pipeline, SourceFile.recordIn w.files (Path.ofString source), compilation, name, w.now,
        (s.sessionDirectory (some source)).join file, content⟩ := by
  unfold draft
  simp only [hfile, bind, Except.bind, hcontent, pure, Except.pure]

/-- Writing the file of a session and entering it in the index. -/
theorem keeps_saveFile_enter {pipeline : Pipeline} {record compilation : Json.Fields}
    {name : Option String} {source file : String} {path : Path}
    (hnames : Session.HasDistinctNames pipeline record compilation)
    (hlevel : (compilation.get "opt_level").writeFault? (Json.maxLevels - 4) = none)
    (hchecksum : Saved.IsLeaf (record.get "checksum")) :
    s.Keeps (fun w => ∀ content, Session.contentAt path w.now pipeline record compilation =
        .ok content → (toString content.length).length ≤ maxDigits)
      (do
        let size ← Session.saveFile path pipeline record compilation
        s.enter source file path fun now => [
          ("timestamp", .float now),
          ("name", Json.ofOption .string name),
          ("opt_level", compilation.get "opt_level"),
          ("checksum", record.get "checksum"),
          ("file", .string path.toString),
          ("size", .int size),
          ("passes", .int pipeline.size),
          ("changed_passes", .int pipeline.changedCount)])
      fun _ w => s.HoldsIndex w.files := by
  intro w hnow hsound hshort
  have hkeeps : s.Keeps (fun _ => True) (Session.saveFile path pipeline record compilation)
    fun _ _ => True := keeps_saveFile hnames
  have hsaved := hkeeps w hnow hsound trivial
  rw [run_bind]
  rcases hrun : (Session.saveFile path pipeline record compilation).run.run w with
    ⟨failure | size, w'⟩
  · rw [hrun] at hsaved
    exact ⟨hsaved.1, hsaved.2.1, nofun⟩
  · rw [hrun] at hsaved
    obtain ⟨content, hcontent, rfl, -⟩ := Session.stores_of_saveFile hrun
    obtain ⟨hpasses, hchanged⟩ := shortCounts_of_contentAt hcontent
    have henter : s.Keeps (fun _ => True) (s.enter source file path fun now =>
        Saved.entry ⟨pipeline, record, compilation, name, now, path, content⟩)
        fun _ w => s.HoldsIndex w.files :=
      keeps_enter fun now htime => isEntry_entry htime hnames.2.1 hlevel hchecksum
        (hshort content hcontent) hpasses hchanged
    exact henter w' hsaved.1 hsaved.2.1 trivial

/-- Saving a session. -/
theorem keeps_save {pipeline : Pipeline} {source : String} {compilation : Json.Fields}
    {name : Option String} :
    s.Keeps (fun w => Call.IsFair s w (.save pipeline source compilation name))
      (s.save pipeline source compilation name) fun _ w => s.HoldsIndex w.files := by
  by_cases hsize : pipeline.size = 0
  · unfold save
    rw [if_pos hsize]
    exact keeps_throw _
  rw [save_eq hsize]
  intro w hnow hsound ⟨hnames, hlevel, hdigits⟩
  obtain ⟨notices, hrecord⟩ := SourceFile.run_record (Path.ofString source) w
  rw [run_bind, hrecord]
  by_cases hnull : (Path.ofString source).holdsNull = true
  · rw [if_pos hnull]
    exact ⟨hnow, hsound, nofun⟩
  rw [if_neg hnull]
  dsimp only
  rw [run_bind, run_fileName]
  dsimp only
  cases hfile : s.fileNameAt w.now name (compilation.get "opt_level") with
  | error failure => exact ⟨hnow, hsound, nofun⟩
  | ok file =>
    have hrecordNames : Session.HasDistinctNames pipeline
        (SourceFile.recordIn w.files (Path.ofString source)) compilation :=
      ⟨SourceFile.hasDistinctNames_recordIn _ _, hnames.2⟩
    have hchecksum := isLeaf_get_checksum w.files (Path.ofString source)
    have hshort (content : Bytes) (hcontent : Session.contentAt
        ((s.sessionDirectory (some source)).join file) w.now pipeline
        (SourceFile.recordIn w.files (Path.ofString source)) compilation = .ok content) :
        (toString content.length).length ≤ maxDigits := by
      have hsize := hdigits _ (draft_eq hfile hcontent)
      exact hsize
    dsimp only
    generalize SourceFile.recordIn w.files (Path.ofString source) = record at *
    exact keeps_saveFile_enter hrecordNames hlevel hchecksum { w with notices } hnow hsound hshort

/-- Deleting a session. -/
theorem keeps_delete (source : String) (query : Index.Query) :
    s.Keeps before (s.delete source query) fun _ w => s.HoldsIndex w.files := by
  have hfind : s.Keeps before (s.find source query) fun _ _ => True :=
    Keeps.bind keeps_loadIndex fun i => keeps_orThrow fun _ _ => trivial
  unfold delete
  refine Keeps.bind hfind fun entry => Keeps.bind (keeps_deleteFile _) fun _ => ?_
  refine Keeps.bind keeps_loadIndex fun i => keeps_of ?_
  rintro ⟨table, hregular⟩
  have hentries (entries : List Json.Fields)
      (h : Index.entries (i.sessionsOf (Path.ofString source).name) = .ok entries) :
      ∀ entry ∈ entries, Index.IsEntry entry := by
    rw [hregular.sessionsOf_eq, Index.HasTable.entries_array] at h
    obtain rfl := Except.ok.inj h
    exact fun entry hentry => hregular.isEntry_of_mem hentry
  refine Keeps.bind (keeps_orThrow hentries) fun entries => keeps_of fun hall => ?_
  refine Keeps.bind (keeps_saveIndex (hregular.setSessions _ fun entry hentry =>
    hall entry (List.mem_of_mem_filter hentry))) fun _ => keeps_pure fun _ hw => hw

/-- Cleaning up a list leaves some of its entries. -/
theorem keeps_cleanList (limit : Binary64) {entries : List Json.Fields}
    (h : ∀ entry ∈ entries, Index.IsEntry entry) :
    s.Keeps before (cleanList limit (entries.map .object)) fun kept _ =>
      ∃ left : List Json.Fields, kept.1 = left.map .object ∧
        ∀ entry ∈ left, Index.IsEntry entry := by
  induction entries generalizing before with
  | nil => exact keeps_pure fun _ _ => ⟨[], rfl, nofun⟩
  | cons entry entries ih =>
    obtain ⟨hentry, hentries⟩ := List.forall_mem_cons.1 h
    have hreadable : Index.readable (.object entry) = .ok entry := rfl
    rw [List.map_cons, cleanList, hreadable, orThrow_ok, pure_bind]
    refine Keeps.bind (keeps_orThrow (P := fun _ => True) fun _ _ => trivial) fun old => ?_
    split
    · refine Keeps.bind (keeps_deleteFile _) fun _ => Keeps.bind (ih hentries) fun kept => ?_
      exact keeps_pure fun _ hleft => hleft
    · refine Keeps.bind (ih hentries) fun kept => keeps_pure ?_
      rintro _ ⟨left, hleft, hall⟩
      exact ⟨entry :: left, by rw [hleft]; rfl, List.forall_mem_cons.2 ⟨hentry, hall⟩⟩

/-- Cleaning up lists leaves a regular index. -/
theorem keeps_cleanLists (limit : Binary64) (keys : List String) (h : i.IsRegular table) :
    s.Keeps before (cleanLists limit i keys) fun cleaned _ =>
      ∃ table, cleaned.1.IsRegular table := by
  induction keys generalizing i table before with
  | nil => exact keeps_pure fun _ _ => ⟨table, h⟩
  | cons key keys ih =>
    have hitems : Index.items (i.sessionsOf key) = .ok ((table.entriesOf key).map .object) := by
      rw [h.sessionsOf_eq]
      rfl
    rw [cleanLists, hitems, orThrow_ok, pure_bind]
    refine Keeps.bind (keeps_cleanList limit fun entry hentry => h.isEntry_of_mem hentry)
      fun kept => keeps_of ?_
    rintro ⟨left, hleft, hall⟩
    dsimp only
    rw [hleft]
    refine Keeps.bind (ih (h.setSessions key hall)) fun cleaned => keeps_pure fun _ hw => hw

/-- Cleaning up. -/
theorem keeps_cleanUp (source : Option String) (age : Json) :
    s.Keeps before (s.cleanUp source age) fun _ w => s.HoldsIndex w.files := by
  rw [cleanUp_eq]
  refine Keeps.clock_bind fun now _ => ?_
  refine Keeps.bind (keeps_orThrow (P := fun _ => True) fun _ _ => trivial) fun limit => ?_
  refine Keeps.bind keeps_loadIndex fun i => keeps_of ?_
  rintro ⟨table, hregular⟩
  refine Keeps.bind (keeps_cleanLists limit _ hregular) fun cleaned => keeps_of ?_
  rintro ⟨table', hregular'⟩
  exact Keeps.bind (keeps_saveIndex hregular') fun _ => keeps_pure fun _ hw => hw

/-- A call leaves the index sound, and regular if it succeeds. -/
theorem keeps_perform (call : Call) :
    s.Keeps (fun w => call.IsFair s w) (call.perform s) fun _ w => s.HoldsIndex w.files := by
  cases call with
  | save pipeline source compilation name =>
    exact Keeps.bind keeps_save fun _ => keeps_pure fun _ hw => hw
  | delete source query => exact Keeps.bind (keeps_delete _ _) fun _ => keeps_pure fun _ hw => hw
  | cleanUp source age => exact Keeps.bind (keeps_cleanUp _ _) fun _ => keeps_pure fun _ hw => hw

end Calls

section Runs

variable {start : World} {visits : List Visit}

theorem IsSound.of_spares (h : s.IsSound w.files) (hspares : s.Spares w w') :
    s.IsSound w'.files := by
  intro bytes hbytes
  rw [hspares.keeps.placeOf_eq, hspares.index_eq] at hbytes
  exact h bytes hbytes

theorem HoldsIndex.of_spares (h : s.HoldsIndex w.files) (hspares : s.Spares w w') :
    s.HoldsIndex w'.files := by
  obtain ⟨hnull, i, table, hregular, hstores⟩ := h
  exact ⟨hnull, i, table, hregular, hstores.keep hspares.keeps hspares.index_eq⟩

/-- Calls that were made at times, with fair arguments. -/
def AreFair (s : Store) (visits : List Visit) : Prop :=
  ∀ v ∈ visits, v.before.now ≠ .nan ∧ v.call.IsFair s v.before

/-- After calls the index is sound, and it is regular if the last one succeeded. -/
theorem Reaches.isSound (h : s.Reaches start visits w) (hstart : s.IsSound start.files)
    (hfair : s.AreFair visits) : s.IsSound w.files ∧
      ∀ v ∈ visits.getLast?, v.succeeded = true → s.HoldsIndex w.files := by
  induction h with
  | start => exact ⟨hstart, nofun⟩
  | elapse _ hspares ih =>
    obtain ⟨hsound, hholds⟩ := ih hfair
    exact ⟨hsound.of_spares hspares, fun v hv hok => (hholds v hv hok).of_spares hspares⟩
  | @visit visits w w' call result _ hrun ih =>
    obtain ⟨hsound, -⟩ := ih fun v hv => hfair v (List.mem_append_left _ hv)
    obtain ⟨hnow, hcall⟩ := hfair ⟨w, call, result.isOk⟩ (by simp)
    obtain ⟨-, hsound', hholds⟩ := keeps_perform call w hnow hsound hcall
    rw [hrun] at hsound' hholds
    refine ⟨hsound', fun v hv hok => ?_⟩
    rw [List.getLast?_append, List.getLast?_singleton, Option.some_or, Option.mem_some_iff] at hv
    subst hv
    cases result with
    | error failure => cases hok
    | ok u => exact hholds u rfl

/-- A store lists all sessions of an index, and those of each source file in agreement. -/
structure ListsOverall (s : Store) (w : World) (i : Index) (all : List Json.Fields) : Prop where
  load_eq : s.loadIndex.run.run w = (.ok i, w)
  listAll_eq : s.listAll.run.run w = (.ok all, w)
  listSessions_eq : ∀ source sessions, i.listSessions (keyOf source) = .ok sessions →
    (s.listSessions source).run.run w = (.ok sessions, w)
  listsAll : i.ListsAll all

/-- The index of a store is not read, and nothing is listed for the same reason. -/
structure ListsNothing (s : Store) (w : World) (failure : Failure) : Prop where
  load_eq : s.loadIndex.run.run w = (.error failure, w)
  listAll_eq : s.listAll.run.run w = (.error failure, w)
  listSessions_eq : ∀ source, (s.listSessions source).run.run w = (.error failure, w)

theorem exists_listsOverall {i : Index} {table : Index.Table} (h : i.IsRegular table)
    (hload : s.loadIndex.run.run w = (.ok i, w)) : ∃ i all, s.ListsOverall w i all := by
  refine ⟨i, _, hload, ?_, fun source sessions hsessions => ?_, h.hasTable.listsAll⟩
  · unfold listAll
    rw [run_bind, hload]
    dsimp only
    rw [h.hasTable.listAll_eq]
    rfl
  · unfold listSessions
    rw [run_bind, hload]
    dsimp only
    rw [← keyOf, hsessions]
    rfl

theorem listsNothing_of_run {failure : Failure}
    (hload : s.loadIndex.run.run w = (.error failure, w)) : s.ListsNothing w failure := by
  refine ⟨hload, ?_, fun source => ?_⟩
  · unfold listAll
    rw [run_bind, hload]
  · unfold listSessions
    rw [run_bind, hload]

theorem HoldsIndex.run_loadIndex (h : s.HoldsIndex w.files) : ∃ i table, Index.IsRegular i table ∧
    s.loadIndex.run.run w = (.ok i, w) := by
  obtain ⟨hnull, i, table, hregular, hstores⟩ := h
  refine ⟨i, table, hregular, ?_⟩
  rw [Store.run_loadIndex, hstores.has hnull]
  simp only [hnull, Bool.false_eq_true, if_false]
  rw [hstores.read]
  exact hregular.run_readIndex w

/-- After any calls on a store that had no index, whatever their times and whether they succeeded,
the listing of all sessions agrees with those of the source files, or the index is not read at all.
It is read if no call was made, or if the last one succeeded. -/
theorem Reaches.listsOverall (h : s.Reaches start visits w)
    (hhas : start.files.has s.indexPath = .ok false)
    (hnone : start.files.content? (start.files.placeOf s.indexPath) = none)
    (hfair : s.AreFair visits) :
    ((∃ i all, s.ListsOverall w i all) ∨ ∃ failure, s.ListsNothing w failure) ∧
      ((∀ v ∈ visits.getLast?, v.succeeded = true) → ∃ i all, s.ListsOverall w i all) := by
  have hstart : s.IsSound start.files := by
    intro bytes hbytes
    rw [hnone] at hbytes
    cases hbytes
  obtain ⟨hsound, hholds⟩ := h.isSound hstart hfair
  constructor
  · rcases hsound.run_loadIndex with ⟨failure, hload⟩ | ⟨i, table, hregular, hload⟩
    · exact .inr ⟨failure, listsNothing_of_run hload⟩
    · exact .inl (exists_listsOverall hregular hload)
  · intro hlast
    cases hvisit : visits.getLast? with
    | none =>
      obtain rfl := List.getLast?_eq_none_iff.1 hvisit
      have hload : s.loadIndex.run.run w = (.ok .fresh, w) := by
        rw [Store.run_loadIndex, h.has_eq, hhas]
      exact exists_listsOverall .fresh hload
    | some v =>
      obtain ⟨i, table, hregular, hload⟩ := (hholds v hvisit (hlast v hvisit)).run_loadIndex
      exact exists_listsOverall hregular hload

/-- After a note of a source file it is listed overall. -/
theorem Reaches.listsOverall_noted : ∃ i all, plainStore.ListsOverall notedWorld i all :=
  (reaches_noted.listsOverall isEmpty_emptyWorld.has_eq isEmpty_emptyWorld.index_eq
    fun v hv => ⟨(arePlain_noted v hv).1, (arePlain_noted v hv).2.isFair⟩).2 (by
      intro v hv
      obtain rfl := Option.mem_some_iff.1 hv
      rfl)

end Runs

end PassTrace.Store

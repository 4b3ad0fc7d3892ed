import PassTrace.Proofs.Store.Listing

/-!
# What a save is to keep

From the arguments of a save and the world before it follows what is to be kept: the record of the
source file, the name of the session's file and its content. If names have no slashes, the file
stands in the directory of its source file, and is not the one that holds the name of the last
session.
-/

namespace PassTrace

namespace SourceFile

/-- The record of a source file in a file tree. -/
def recordIn (files : FileTree) (p : Path) : Json.Fields :=
  let resolved := files.resolve p
  let file : Json.Fields := [("file", .string resolved.toString)]
  match files.lookUp resolved with
  | .ok (.file bytes modified) =>
    file ++ [("checksum", .string (Sha256.hexDigest bytes)), ("mtime", .float modified)]
  | _ => file

/-- Recording a source file gives notices only. -/
theorem run_record (p : Path) (w : World) :
    ∃ notices, (record p).run.run w =
      (if p.holdsNull then .error .nullInPath else .ok (recordIn w.files p),
        { w with notices }) := by
  unfold record
  rw [Operation.run_bind, Operation.run_usable]
  cases hnull : p.holdsNull with
  | true => exact ⟨w.notices, rfl⟩
  | false =>
    simp only [Bool.false_eq_true, if_false]
    rw [Operation.run_get_bind]
    unfold recordIn
    dsimp only
    cases w.files.lookUp (w.files.resolve p) with
    | error cause => exact ⟨_, rfl⟩
    | ok entry =>
      cases entry with
      | directory => exact ⟨_, rfl⟩
      | file bytes modified => exact ⟨_, rfl⟩

theorem hasDistinctNames_recordIn (files : FileTree) (p : Path) :
    (Json.object (recordIn files p)).HasDistinctNames := by
  unfold recordIn
  dsimp only
  split
  · exact ⟨by simp, trivial, trivial, trivial, trivial⟩
  · exact ⟨by simp, trivial, trivial⟩

/-- The check sum in a record is a text, if there is one. -/
theorem get_checksum_recordIn (files : FileTree) (p : Path) :
    (recordIn files p).get "checksum" = .null ∨
      ∃ text, (recordIn files p).get "checksum" = .string text := by
  unfold recordIn
  dsimp only
  split
  · exact .inr ⟨_, rfl⟩
  · exact .inl rfl

/-- A record names its source file. -/
theorem exists_get_file_recordIn (files : FileTree) (p : Path) :
    ∃ text, (recordIn files p).get "file" = .string text := by
  unfold recordIn
  dsimp only
  split
  · exact ⟨_, rfl⟩
  · exact ⟨_, rfl⟩

/-- The file that a record names has the check sum of the record, if both are there. -/
def Matches (files : FileTree) (record : Json.Fields) : Prop :=
  ∀ text bytes, record.get "file" = .string text → files.read (Path.ofString text) = .ok bytes →
    (record.get "checksum").isVoid = false →
    (record.get "checksum").asString? = some (Sha256.hexDigest bytes)

/-- Whether a source file has drifted from its record can be told, if it has not, or if the time of
the session is that of a date. -/
theorem exists_drift {files : FileTree} {m : Metadata} {text : String} {time : Binary64}
    (hfile : m.source.get "file" = .string text) (htime : m.timestamp = .float time)
    (h : Matches files m.source ∨ ∃ date, DateTime.ofTimestamp time = .ok date) :
    ∃ found, drift files m = .ok found := by
  unfold drift
  rw [hfile]
  simp only [pathText?, bind, Except.bind, pure, Except.pure]
  split
  · exact ⟨_, rfl⟩
  · split
    · exact ⟨_, rfl⟩
    · split
      · exact ⟨_, rfl⟩
      · next hsaved =>
        split
        · exact ⟨_, rfl⟩
        · next bytes hread =>
          split
          · exact ⟨_, rfl⟩
          · next hchanged =>
            rcases h with hmatches | ⟨date, hdate⟩
            · exact absurd (hmatches text bytes hfile hread (by simpa using hsaved)) hchanged
            · have hdateOf : dateOf m.timestamp = .ok (some date) := by
                rw [htime]
                unfold dateOf
                dsimp only
                rw [hdate]
              rw [hdateOf]
              exact ⟨_, rfl⟩

end SourceFile

namespace DateTime

/-- The date in file names has no slashes. -/
theorem slash_not_mem_fileText (d : DateTime) : '/' ∉ d.fileText.toList := by
  have hdigits (n : Nat) : '/' ∉ Nat.toDigits 10 n := by
    intro hmem
    have hdigit := Nat.isDigit_of_mem_toDigits (by decide) (by decide) hmem
    exact absurd hdigit (by decide)
  have hpadded (width n : Nat) : '/' ∉ (padded width n).toList := by
    simp [padded, hdigits n]
  have hyear (year : Int) : '/' ∉ (toString year).toList := by
    rw [Json.toList_toString]
    unfold Json.signText
    split <;> simp [hdigits]
  have htext : d.fileText.toList = (toString d.year).toList ++ '-' :: (padded 2 d.month).toList ++
      '-' :: (padded 2 d.day).toList ++ '-' :: (padded 2 d.hour).toList ++
      (padded 2 d.minute).toList ++ (padded 2 d.second).toList ++
      '-' :: (padded 6 d.microsecond).toList := by
    have htoString (text : String) : toString text = text := rfl
    simp [fileText, dayText, clockText, String.toList_append, htoString]
  rw [htext]
  simp only [List.mem_append, List.mem_cons, hpadded, hyear, or_false, false_or, not_or]
  decide

end DateTime

namespace Store

/-- The name of a source file, under which its sessions are listed. -/
def keyOf (source : String) : String :=
  (Path.ofString source).name

/-- A source file has a name, and the stem of its name leads down to the directory of its
sessions. -/
structure IsSource (source : String) : Prop where
  ne_empty : keyOf source ≠ ""
  isPlain_stem : Path.IsPlain (Path.ofString source).stem

section Directories

variable (s : Store) {source : String}

theorem IsSource.isName (h : IsSource source) : Path.IsName (keyOf source) :=
  Path.isName_name source h.ne_empty

/-- A name that does not start with a dot is that of a source file. -/
theorem isSource_of_head?_ne (hne : keyOf source ≠ "")
    (hhead : (keyOf source).toList.head? ≠ some '.') : IsSource source :=
  ⟨hne, Path.isPlain_stem (Path.isName_name source hne) hhead⟩

theorem isEmpty_eq_false_of_ne_empty (h : keyOf source ≠ "") : source.isEmpty = false := by
  by_contra hempty
  have hsource : source = "" := by simpa using hempty
  rw [hsource] at h
  exact h rfl

theorem IsSource.sessionDirectory_eq (h : IsSource source) :
    s.sessionDirectory (some source) = (s.sessionDirectory none).join
      (Path.ofString source).stem := by
  unfold sessionDirectory
  simp [isEmpty_eq_false_of_ne_empty h.ne_empty]

theorem keyOf_keyOf (h : Path.IsName (keyOf source)) : keyOf (keyOf source) = keyOf source := by
  have hpath := Path.ofString_of_isName h
  unfold keyOf at hpath ⊢
  rw [hpath]
  rfl

theorem stem_keyOf (h : Path.IsName (keyOf source)) :
    (Path.ofString (keyOf source)).stem = (Path.ofString source).stem := by
  have hname : (Path.ofString (keyOf source)).name = (Path.ofString source).name := keyOf_keyOf h
  unfold Path.stem
  rw [hname]

/-- The name of a source file is a source file of its own. -/
theorem IsSource.keyOf (h : IsSource source) : IsSource (keyOf source) := by
  refine ⟨?_, ?_⟩
  · rw [keyOf_keyOf h.isName]
    exact h.ne_empty
  · rw [stem_keyOf h.isName]
    exact h.isPlain_stem

/-- The directory of a source file is told by its name. -/
theorem IsSource.sessionDirectory_keyOf (h : IsSource source) :
    s.sessionDirectory (some (Store.keyOf source)) = s.sessionDirectory (some source) := by
  rw [h.keyOf.sessionDirectory_eq, h.sessionDirectory_eq, stem_keyOf h.isName]

end Directories

section FileNames

/-- A name that a session file can have: it leads down, and is not that of the file beside the
sessions. -/
structure IsFileName (file : String) : Prop extends Path.IsPlain file where
  ne_latest : file ≠ latestName

theorem suffix_of_endsWith {text suffix : String} (h : text.endsWith suffix = true) :
    suffix.toList <:+ text.toList := by
  have hsuffix := String.Slice.endsWith_string_iff.mp h
  rwa [String.copy_toSlice] at hsuffix

theorem isFileName_of_suffix {file suffix : String} (hslash : '/' ∉ file.toList)
    (hsuffix : suffix.toList <:+ file.toList) (hend : suffix = ".json" ∨ suffix = ".json.gz") :
    IsFileName file := by
  have hlast : file.toList.getLast? = some 'n' ∨ file.toList.getLast? = some 'z' := by
    obtain ⟨front, hfront⟩ := hsuffix
    rw [← hfront]
    rcases hend with rfl | rfl
    · left
      rw [List.getLast?_append_of_ne_nil _ (by decide)]
      rfl
    · right
      rw [List.getLast?_append_of_ne_nil _ (by decide)]
      rfl
  have hne {other : String} (hother : other.toList.getLast? ≠ some 'n' ∧
      other.toList.getLast? ≠ some 'z') : file ≠ other := by
    rintro rfl
    rcases hlast with hlast | hlast
    · exact hother.1 hlast
    · exact hother.2 hlast
  exact ⟨⟨⟨hne (by decide), hne (by decide), hslash⟩, hne (by decide)⟩, hne (by decide)⟩

variable {s : Store} {now : Binary64} {name : Option String} {level : Json} {file : String}

/-- The name of the file for a session that is saved at a time. -/
def fileNameAt (s : Store) (now : Binary64) (name : Option String) (level : Json) :
    Except Failure String :=
  match name.filter fun name => !name.isEmpty with
  | some name =>
    if name.endsWith ".json" || name.endsWith ".json.gz" then .ok name
    else .ok (name ++ s.extension)
  | none =>
    match DateTime.ofTimestamp now with
    | .error fault => .error (.calendar fault)
    | .ok date => (levelSuffix level).map fun suffix => date.fileText ++ suffix ++ s.extension

theorem run_fileName (s : Store) (name : Option String) (level : Json) (w : World) :
    (s.fileName name level).run.run w = (s.fileNameAt w.now name level, w) := by
  unfold fileName fileNameAt
  cases name.filter fun name => !name.isEmpty with
  | some text =>
    dsimp only
    split <;> rfl
  | none =>
    unfold Operation.date
    dsimp only
    rw [Operation.run_bind, Operation.run_clock_bind]
    cases DateTime.ofTimestamp w.now with
    | error fault => rfl
    | ok date =>
      dsimp only
      cases levelSuffix level <;> rfl

/-- An optimization level of a session: a text without slashes, or none. -/
inductive IsLevel : Json → Prop
  | null : IsLevel .null
  | string {text : String} (h : '/' ∉ text.toList) : IsLevel (.string text)

theorem slash_not_mem_levelSuffix (hlevel : IsLevel level) {suffix : String}
    (h : levelSuffix level = .ok suffix) : '/' ∉ suffix.toList := by
  cases hlevel with
  | null =>
    obtain rfl := Except.ok.inj h
    decide
  | @string text htext =>
    unfold levelSuffix at h
    split at h
    · obtain rfl := Except.ok.inj h
      decide
    · obtain rfl := Except.ok.inj h
      have hrest : '/' ∉ text.toList.dropWhile (· = '-') := fun hmem =>
        htext ((List.dropWhile_sublist _).mem hmem)
      rw [String.toList_append, List.mem_append, not_or]
      refine ⟨by decide, ?_⟩
      rwa [String.toList_ofList]

theorem isFileName_append_extension {text : String} (h : '/' ∉ text.toList) :
    IsFileName (text ++ s.extension) := by
  have hextension : s.extension = ".json" ∨ s.extension = ".json.gz" := by
    unfold extension
    split <;> simp
  refine @isFileName_of_suffix _ s.extension ?_ ?_ hextension
  · rw [String.toList_append, List.mem_append, not_or]
    refine ⟨h, ?_⟩
    rcases hextension with hext | hext <;> rw [hext] <;> decide
  · rw [String.toList_append]
    exact List.suffix_append _ _

/-- Names and levels without slashes give file names. -/
theorem isFileName_fileNameAt (hname : ∀ text ∈ name, '/' ∉ text.toList) (hlevel : IsLevel level)
    (h : s.fileNameAt now name level = .ok file) : IsFileName file := by
  unfold fileNameAt at h
  split at h
  · next text htext =>
    have hslash : '/' ∉ text.toList := hname text (Option.mem_filter_iff.mp htext).1
    split at h
    · next hends =>
      obtain rfl := Except.ok.inj h
      rcases Bool.or_eq_true _ _ ▸ hends with hends | hends
      · exact isFileName_of_suffix hslash (suffix_of_endsWith hends) (.inl rfl)
      · exact isFileName_of_suffix hslash (suffix_of_endsWith hends) (.inr rfl)
    · obtain rfl := Except.ok.inj h
      exact isFileName_append_extension hslash
  · split at h
    · cases h
    · next date _ =>
      cases hsuffix : levelSuffix level with
      | error failure =>
        rw [hsuffix] at h
        cases h
      | ok suffix =>
        rw [hsuffix] at h
        obtain rfl := Except.ok.inj h
        refine isFileName_append_extension ?_
        rw [String.toList_append, List.mem_append, not_or]
        exact ⟨date.slash_not_mem_fileText, slash_not_mem_levelSuffix hlevel hsuffix⟩

end FileNames

end Store

namespace Saved

/-- A value without parts: none that is nested, and no integer. -/
inductive IsLeaf : Json → Prop
  | null : IsLeaf .null
  | string (text : String) : IsLeaf (.string text)

theorem IsLeaf.writeFault?_eq_none {v : Json} (h : IsLeaf v) (levels : Nat) :
    v.writeFault? levels = none := by
  cases h <;> rfl

theorem IsLeaf.hasDistinctNames {v : Json} (h : IsLeaf v) : v.HasDistinctNames := by
  cases h <;> trivial

theorem isLeaf_name (e : Saved) : IsLeaf (Json.ofOption .string e.name) := by
  cases e.name with
  | none => exact .null
  | some text => exact .string text

theorem writeFault?_natCast {n : Nat} (h : (toString n).length ≤ maxDigits) (levels : Nat) :
    (Json.int n).writeFault? levels = none := by
  rw [Json.writeFault?, Numeral.write, Int.natAbs_natCast, if_neg (Nat.not_lt.mpr h)]

/-- An entry can be written if its numbers can. -/
theorem isWritable {e : Saved} (hlevel : IsLeaf (e.compilation.get "opt_level"))
    (hchecksum : IsLeaf (e.record.get "checksum"))
    (hsize : (toString e.content.length).length ≤ maxDigits)
    (hpasses : (toString e.pipeline.size).length ≤ maxDigits)
    (hchanged : (toString e.pipeline.changedCount).length ≤ maxDigits) : e.IsWritable where
  hasDistinctNames := by
    refine ⟨by simp [entry], Json.fieldsHaveDistinctNames_of_forall fun field hfield => ?_⟩
    simp only [entry, List.mem_cons, List.not_mem_nil, or_false] at hfield
    rcases hfield with rfl | rfl | rfl | rfl | rfl | rfl | rfl | rfl
    · trivial
    · exact e.isLeaf_name.hasDistinctNames
    · exact hlevel.hasDistinctNames
    · exact hchecksum.hasDistinctNames
    all_goals trivial
  writeFault?_eq_none := by
    intro levels hlevels
    rw [Json.writeFault?, if_neg hlevels]
    refine Json.fieldsFault?_of_forall fun field hfield => ?_
    simp only [entry, List.mem_cons, List.not_mem_nil, or_false] at hfield
    rcases hfield with rfl | rfl | rfl | rfl | rfl | rfl | rfl | rfl
    · rfl
    · exact e.isLeaf_name.writeFault?_eq_none _
    · exact hlevel.writeFault?_eq_none _
    · exact hchecksum.writeFault?_eq_none _
    · rfl
    · exact writeFault?_natCast hsize _
    · exact writeFault?_natCast hpasses _
    · exact writeFault?_natCast hchanged _

/-- What a store keeps of a session of a source file: it stands in the source file's directory, and
its file was written with its content. -/
structure IsKept (s : Store) (key : String) (e : Saved) : Prop extends IsWritable e where
  isSource : Store.IsSource key
  isFileName : Store.IsFileName e.path.name
  path_eq : e.path = (s.sessionDirectory (some key)).join e.path.name
  isClean : e.path.IsClean
  holdsNull_eq : e.path.holdsNull = false
  savedAt_ne : e.savedAt ≠ .nan
  exists_file : ∃ text, e.record.get "file" = .string text
  namesDistinct : Session.HasDistinctNames e.pipeline e.record e.compilation
  content_eq : Session.contentAt e.path e.savedAt e.pipeline e.record e.compilation = .ok e.content

end Saved

namespace Store

/-- What a save keeps if it succeeds. -/
def draft (s : Store) (w : World) (pipeline : Pipeline) (source : String)
    (compilation : Json.Fields) (name : Option String) : Except Failure Saved := do
  let record := SourceFile.recordIn w.files (Path.ofString source)
  let file ← s.fileNameAt w.now name (compilation.get "opt_level")
  let path := (s.sessionDirectory (some source)).join file
  let content ← Session.contentAt path w.now pipeline record compilation
  return ⟨pipeline, record, compilation, name, w.now, path, content⟩

theorem IsLevel.isLeaf {level : Json} (h : IsLevel level) : Saved.IsLeaf level := by
  cases h with
  | null => exact .null
  | string => exact .string _

/-- A pipeline that was written has numbers of passes that can be written. -/
theorem shortCounts_of_contentAt {p : Path} {now : Binary64} {pipeline : Pipeline}
    {source compilation : Json.Fields} {content : Bytes}
    (h : Session.contentAt p now pipeline source compilation = .ok content) :
    (toString pipeline.size).length ≤ maxDigits ∧
      (toString pipeline.changedCount).length ≤ maxDigits := by
  unfold Session.contentAt at h
  split at h
  · cases h
  · next text htext =>
    have hshort := (Session.isWithinLimits_of_encode htext).2
    simp only [Session.payload, Json.HoldsLongInteger, Json.FieldsHoldLongInteger, not_or,
      Int.natAbs_natCast] at hshort
    omega

/-- The arguments of a save are plain: the source file has a name, the session's name and its
optimization level have no slashes, and objects have different names for their fields. -/
structure IsPlainSave (pipeline : Pipeline) (source : String) (compilation : Json.Fields)
    (name : Option String) : Prop where
  isSource : IsSource source
  slash_not_mem : ∀ text ∈ name, '/' ∉ text.toList
  isLevel : IsLevel (compilation.get "opt_level")
  namesDistinct : Session.HasDistinctNames pipeline [] compilation

variable {s : Store} {w : World} {pipeline : Pipeline} {source : String}
  {compilation : Json.Fields} {name : Option String} {e : Saved}

theorem draft_eq_ok (h : s.draft w pipeline source compilation name = .ok e) :
    ∃ file content, s.fileNameAt w.now name (compilation.get "opt_level") = .ok file ∧
      Session.contentAt ((s.sessionDirectory (some source)).join file) w.now pipeline
        (SourceFile.recordIn w.files (Path.ofString source)) compilation = .ok content ∧
      e = ⟨pipeline, SourceFile.recordIn w.files (Path.ofString source), compilation, name, w.now,
        (s.sessionDirectory (some source)).join file, content⟩ := by
  unfold draft at h
  cases hfile : s.fileNameAt w.now name (compilation.get "opt_level") with
  | error failure =>
    rw [hfile] at h
    cases h
  | ok file =>
    rw [hfile] at h
    dsimp only [bind, Except.bind] at h
    split at h
    · cases h
    · next content hcontent => exact ⟨file, content, rfl, hcontent, (Except.ok.inj h).symm⟩

theorem isClean_sessionDirectory (hroot : s.root.IsClean) (hsource : IsSource source) :
    (s.sessionDirectory (some source)).IsClean := by
  have hsessions : Path.IsName "sessions" := ⟨by decide, by decide, by decide⟩
  rw [hsource.sessionDirectory_eq]
  exact (hroot.join hsessions).join hsource.isPlain_stem.toIsName

/-- What is kept of a plain save that succeeded. -/
theorem isKept_draft (hroot : s.root.IsClean)
    (hplain : IsPlainSave pipeline source compilation name) (hnow : w.now ≠ .nan)
    (h : s.draft w pipeline source compilation name = .ok e)
    (hsize : (toString e.content.length).length ≤ maxDigits) (hnull : e.path.holdsNull = false) :
    e.IsKept s (keyOf source) := by
  obtain ⟨file, content, hfile, hcontent, rfl⟩ := draft_eq_ok h
  have hname := isFileName_fileNameAt hplain.slash_not_mem hplain.isLevel hfile
  have hpath := Path.name_join (s.sessionDirectory (some source)) hname.toIsName
  have hnames : Session.HasDistinctNames pipeline
      (SourceFile.recordIn w.files (Path.ofString source)) compilation :=
    ⟨SourceFile.hasDistinctNames_recordIn _ _, hplain.namesDistinct.2⟩
  have hlevel := hplain.isLevel.isLeaf
  have hchecksum : Saved.IsLeaf
      ((SourceFile.recordIn w.files (Path.ofString source)).get "checksum") := by
    rcases SourceFile.get_checksum_recordIn w.files (Path.ofString source) with hnull |
      ⟨text, htext⟩
    · rw [hnull]
      exact .null
    · rw [htext]
      exact .string text
  obtain ⟨hpasses, hchanged⟩ := shortCounts_of_contentAt hcontent
  refine ⟨Saved.isWritable hlevel hchecksum hsize hpasses hchanged, hplain.isSource.keyOf, ?_, ?_,
    ?_, hnull, hnow, SourceFile.exists_get_file_recordIn _ _, hnames, hcontent⟩
  · rwa [hpath]
  · rw [hpath, hplain.isSource.sessionDirectory_keyOf]
  · exact (isClean_sessionDirectory hroot hplain.isSource).join hname.toIsName

end Store
end PassTrace

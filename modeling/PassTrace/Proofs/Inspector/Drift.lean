import PassTrace.Proofs.Inspector.Saving

/-!
# Source files that drift from their records

With a session the path of its source file from the root and the check sum of the file are saved.
When the session is loaded, the file is looked for under this path: there is a notice if it is not
there, and if its check sum is another one. A path that is too long for the system leads to no file,
so that a source file deep below the root is missed although nothing happened to it.
-/

namespace PassTrace

/-- A digest has digits. -/
theorem Sha256.hexDigest_ne_empty (message : Bytes) : hexDigest message ≠ "" := by
  intro h
  have hlength := congrArg (fun text => text.toList.length) h
  simp [hexDigest, Text.hexDigits] at hlength

namespace Drift

theorem isPrefix_message_missing (file : Json) :
    "Source file not found".toList <+: (missing file).message.toList := by
  refine ⟨": ".toList ++ file.plain.toList, ?_⟩
  rw [← List.append_assoc, ← String.toList_append, ← String.toList_append]
  rfl

theorem isPrefix_message_changed (savedAt : Option DateTime) (file saved : Json)
    (current : String) :
    "Source file has changed".toList <+: (changed savedAt file saved current).message.toList := by
  have hstart : "Source file has changed".toList <+:
      "Source file has changed since session was saved (".toList := by decide
  unfold message
  simp only [String.toList_append, List.append_assoc]
  exact hstart.trans (List.prefix_append _ _)

end Drift

namespace SourceFile

variable {files : FileTree} {p : Path} {bytes : Bytes}

/-- A source file whose path from the root is short enough is recorded with its check sum. -/
theorem exists_recordIn_eq (hsound : files.IsSound) (hstores : files.Stores p bytes)
    (hsize : (files.resolve p).toString.utf8ByteSize ≤ FileTree.maxPathBytes) :
    ∃ modified, recordIn files p = [("file", .string (files.resolve p).toString),
      ("checksum", .string (Sha256.hexDigest bytes)), ("mtime", .float modified)] := by
  have hroot : files.Stores (files.resolve p) bytes := hsound.stores hsize hstores.content?_eq
  obtain ⟨modified, hentry⟩ := hroot.exists_lookUp
  refine ⟨modified, ?_⟩
  unfold recordIn
  dsimp only
  rw [hentry]
  rfl

/-- What the comparison of a record with a source file comes to, where both the path and the check
sum of the file are recorded. -/
theorem drift_eq {m : Metadata} {names : List String} {digest : String} {date : Option DateTime}
    (hsound : files.IsSound) (hnames : ∀ name ∈ names, Path.IsPlain name)
    (hsize : (Path.toString ⟨.root, names⟩).utf8ByteSize ≤ FileTree.maxPathBytes)
    (hfile : m.source.get "file" = .string (Path.toString ⟨.root, names⟩))
    (hchecksum : m.source.get "checksum" = .string digest) (hdigest : digest ≠ "")
    (hdate : dateOf m.timestamp = .ok date) :
    drift files m = .ok (match files.content? names with
      | none => some (.missing (m.source.get "file"))
      | some bytes =>
        if Sha256.hexDigest bytes = digest then none
        else some (.changed date (m.source.get "file") (m.source.get "checksum")
          (Sha256.hexDigest bytes))) := by
  have hisFile := hsound.isFile_toString_root hnames hsize
  have hclean : Path.IsClean ⟨.root, names⟩ := fun name hname => (hnames name hname).toIsName
  have hnamed : (Json.string (Path.toString ⟨.root, names⟩)).isVoid = false := by
    simp [Json.isVoid, Path.toString]
  have hsaved : (Json.string digest).isVoid = false := by
    simpa [Json.isVoid] using hdigest
  unfold drift
  rw [hfile, hchecksum]
  cases hcontent : files.content? names with
  | none =>
    rw [hcontent] at hisFile
    simp [hnamed, pathText?, hisFile, bind, Except.bind, pure, Except.pure]
  | some bytes =>
    rw [hcontent] at hisFile
    have hread : files.read ⟨.root, names⟩ = .ok bytes := (hsound.stores hsize hcontent).read
    rw [← Path.ofString_toString hclean] at hread
    by_cases heq : Sha256.hexDigest bytes = digest
    · simp [hnamed, hsaved, pathText?, hisFile, hread, heq, Json.asString?, bind, Except.bind,
        pure, Except.pure]
    · simp [hnamed, hsaved, pathText?, hisFile, hread, heq, Ne.symm heq, Json.asString?, hdate,
        bind, Except.bind, pure, Except.pure]

/-- A source file whose path from the root is too long for the system is recorded without a check
sum. -/
theorem recordIn_of_too_long
    (hsize : FileTree.maxPathBytes < (files.resolve p).toString.utf8ByteSize) :
    recordIn files p = [("file", .string (files.resolve p).toString)] := by
  have hlookUp : files.lookUp (files.resolve p) = .error .nameTooLong := by
    rw [FileTree.lookUp, FileTree.locate, if_pos hsize]
    rfl
  unfold recordIn
  dsimp only
  rw [hlookUp]

/-- A path that is too long for the system leads to no file. -/
theorem drift_of_too_long {m : Metadata} {text : String}
    (hfile : m.source.get "file" = .string text)
    (hsize : FileTree.maxPathBytes < text.utf8ByteSize) :
    drift files m = .ok (some (.missing (m.source.get "file"))) := by
  have hempty : text.isEmpty = false := by
    by_contra h
    have htext : text = "" := by simpa using h
    rw [htext] at hsize
    exact absurd hsize (by decide)
  have hisFile : files.isFile text = false := by
    simp [FileTree.isFile, FileTree.named?, FileTree.locateText, hempty, hsize]
  unfold drift
  rw [hfile]
  simp [Json.isVoid, hempty, pathText?, hisFile, bind, Except.bind, pure, Except.pure]

end SourceFile

namespace FileTree

variable {t : FileTree} {place other : Location} {names : List String}

/-- The tree with directories put below a location, each in the one before. -/
def nest (t : FileTree) (place : Location) : List String → FileTree
  | [] => t
  | name :: names => (t.put (place ++ [name]) .directory).nest (place ++ [name]) names

/-- Directories in a directory leave a tree sound. -/
theorem IsSound.nest (h : t.IsSound) (hplace : t.at? place = some .directory)
    (hnames : ∀ name ∈ names, Path.IsPlain name ∧ name.utf8ByteSize ≤ maxNameBytes) :
    (t.nest place names).IsSound ∧ (t.nest place names).at? (place ++ names) = some .directory ∧
      (t.nest place names).work = t.work := by
  induction names generalizing t place with
  | nil => exact ⟨h, by rwa [List.append_nil], rfl⟩
  | cons name names ih =>
    obtain ⟨⟨hname, hsize⟩, hnames⟩ := List.forall_mem_cons.mp hnames
    have hput : (t.put (place ++ [name]) .directory).IsSound :=
      h.put (admits_concat hname hsize hplace) fun _ => rfl
    obtain ⟨hsound, hdirectory, hwork⟩ := ih hput (t.at?_put_self (by simp) .directory) hnames
    rw [List.append_assoc] at hdirectory
    exact ⟨hsound, hdirectory, hwork⟩

/-- Directories leave alone what has another name. -/
theorem at?_nest_of_not_mem {last : String} (h : last ∉ names) :
    (t.nest place names).at? (other ++ [last]) = t.at? (other ++ [last]) := by
  induction names generalizing t place with
  | nil => rfl
  | cons name names ih =>
    obtain ⟨hname, hnames⟩ := not_or.mp (List.mem_cons.not.mp h)
    have hne : other ++ [last] ≠ place ++ [name] := by
      intro heq
      exact hname (List.singleton_inj.mp (List.append_inj' heq rfl).2)
    rw [nest, ih hnames, t.at?_put_of_ne hne]

end FileTree

namespace Inspection

variable {i i' j : Inspector} {w w' : World} {p source : Path} {compilation : Json.Fields}
  {size : Nat}

/-- A session that is read is installed and its source file compared with its record. There is a
notice if the file departs from it. -/
theorem run_loadSession {s : Session} {found : Option Drift}
    (hload : (Session.loadFile p).run.run w = (.ok s, w))
    (hdrift : SourceFile.drift w.files s.metadata = .ok found) :
    (loadSession p).run.run (j, w) = (.ok found, (j.install s.pipeline s.metadata,
      { w with notices := (found.map Notice.drift).toList ++ w.notices })) := by
  have hrun : (loadSession p).run.run (j, w) =
      (ofOperation (Session.loadFile p) >>= fun s => (do
        install s.pipeline s.metadata
        checkDrift s.metadata : Inspection (Option Drift))).run.run (j, w) := rfl
  have hinstall : (do
      install s.pipeline s.metadata
      checkDrift s.metadata : Inspection (Option Drift)).run.run (j, w) =
      (ofOperation (checkDrift s.metadata)).run.run (j.install s.pipeline s.metadata, w) := rfl
  rw [hrun, run_ofOperation_bind, hload]
  dsimp only
  rw [hinstall, run_ofOperation, run_checkDrift, hdrift]
  cases found <;> rfl

section Histories

variable {w₀ w₁ w₂ : World} {bytes : Bytes} {date : DateTime}

/-- A session that was saved with a source file is read with the record that the file had at the
save, as long as the session's file is not changed. -/
theorem exists_run_loadFile
    (hnames : Session.HasDistinctNames i.pipeline [] (compilationFor i compilation))
    (hsave : (saveSession p (some source) compilation).run.run (i, w₀) = (.ok size, (i', w₁)))
    (hkept : w₂.files.read p = w₁.files.read p) :
    ∃ s, (Session.loadFile p).run.run w₂ = (.ok s, w₂) ∧
      s.metadata.source = SourceFile.recordIn w₀.files source ∧
      s.metadata.timestamp = .float w₀.now := by
  obtain ⟨bytes, hcontent, hstores, hnull⟩ := stores_of_saveSession hsave
  have hstores₂ : w₂.files.Stores p bytes := FileTree.stores_of_read (hkept.trans hstores.read)
  have hdistinct : Session.HasDistinctNames i.pipeline (SourceFile.recordIn w₀.files source)
      (compilationFor i compilation) :=
    ⟨SourceFile.hasDistinctNames_recordIn w₀.files source, hnames.2⟩
  obtain ⟨s, hload, -, hsource, -, htimestamp⟩ :=
    Session.run_loadFile hdistinct hcontent hstores₂ hnull
  exact ⟨s, hload, hsource, htimestamp⟩

/-- Where the samples save their sessions. -/
def sessionPath : Path := Path.join ⟨.work, []⟩ "s.json"

theorem isPlain_sessionName : Path.IsPlain "s.json" :=
  ⟨⟨by decide, by decide, by decide⟩, by decide⟩

/-- A world with a work directory that holds a session file and, in directories of some names, an
empty source file. -/
def sampleWorld (above : List String) (name : String) : World where
  files := (((FileTree.empty "home").put (["home"] ++ ["s.json"]) (.file [] .zero)).nest ["home"]
    above).put (["home"] ++ above ++ [name]) (.file [] .zero)
  now := .zero

/-- The path of the source file. -/
def sampleSource (above : List String) (name : String) : Path :=
  ⟨.work, above ++ [name]⟩

/-- The names are such as entries can have, none is that of the session file, and the path of the
source file is one that the system takes. -/
structure IsSample (above : List String) (name : String) : Prop where
  isPlain : ∀ other ∈ above ++ [name], Path.IsPlain other
  size_le : ∀ other ∈ above ++ [name], other.utf8ByteSize ≤ FileTree.maxNameBytes
  fresh : "s.json" ∉ above ++ [name]
  not_mem : name ∉ above
  path_le : (sampleSource above name).toString.utf8ByteSize ≤ FileTree.maxPathBytes
  holdsNull_eq : (sampleSource above name).holdsNull = false

section Samples

variable {above : List String} {name : String}

theorem IsSample.files_spec (h : IsSample above name) :
    (sampleWorld above name).files.IsSound ∧ (sampleWorld above name).files.work = ["home"] ∧
      (sampleWorld above name).files.content? (["home"] ++ ["s.json"]) = some [] ∧
      (sampleWorld above name).files.content? (["home"] ++ above ++ [name]) = some [] := by
  obtain ⟨hfreshAbove, hfreshName⟩ := not_or.mp (List.mem_append.not.mp h.fresh)
  let t₀ : FileTree := (FileTree.empty "home").put (["home"] ++ ["s.json"]) (.file [] .zero)
  have hplace : ["home"] ++ above ++ [name] ≠ ["home"] ++ ["s.json"] := by
    intro heq
    exact hfreshName ((List.append_inj' heq rfl).2 ▸ List.mem_singleton_self _)
  have hempty : (FileTree.empty "home").IsSound :=
    FileTree.isSound_empty ⟨⟨by decide, by decide, by decide⟩, by decide⟩ (by decide)
  have h₀ : t₀.IsSound := by
    refine hempty.put (FileTree.admits_concat isPlain_sessionName (by decide)
      (FileTree.at?_empty_self "home")) fun hthere => ?_
    rw [FileTree.at?_empty_of_ne (by simp) (by simp)] at hthere
    cases hthere
  have hwork₀ : t₀.at? ["home"] = some .directory := h₀.work
  have habove (other : String) (hother : other ∈ above) : other ∈ above ++ [name] :=
    List.mem_append_left _ hother
  obtain ⟨h₁, hdirectory, hwork⟩ := h₀.nest hwork₀ fun other hother =>
    ⟨h.isPlain other (habove other hother), h.size_le other (habove other hother)⟩
  have hsession : (t₀.nest ["home"] above).at? (["home"] ++ ["s.json"]) =
      some (.file [] .zero) := by
    rw [FileTree.at?_nest_of_not_mem hfreshAbove, FileTree.at?_put_self _ (by simp)]
  have hfree : (t₀.nest ["home"] above).at? (["home"] ++ above ++ [name]) = none := by
    rw [FileTree.at?_nest_of_not_mem h.not_mem, FileTree.at?_put_of_ne _ hplace]
    exact FileTree.at?_empty_of_ne (by simp) (by simp)
  have hadmits : (t₀.nest ["home"] above).Admits (["home"] ++ above ++ [name]) :=
    FileTree.admits_concat (h.isPlain name List.mem_concat_self)
      (h.size_le name List.mem_concat_self) hdirectory
  refine ⟨h₁.put hadmits fun hthere => ?_, hwork, ?_, ?_⟩
  · rw [hfree] at hthere
    cases hthere
  · rw [FileTree.content?, sampleWorld, FileTree.at?_put_of_ne _ hplace.symm, hsession]
  · rw [FileTree.content?, sampleWorld, FileTree.at?_put_self _ (by simp)]

/-- The record of a source file is written with an empty pipeline. -/
theorem isWithinLimits_recordIn (files : FileTree) (p : Path) :
    (Session.payload .zero {} (SourceFile.recordIn files p) []).IsWithinLimits := by
  refine (Json.writeFault?_eq_none_iff _ _).1 ?_
  unfold SourceFile.recordIn
  dsimp only
  split <;> rfl

/-- The source file is where its names say. -/
theorem IsSample.placeOf_eq (h : IsSample above name) :
    (sampleWorld above name).files.placeOf (sampleSource above name) =
      ["home"] ++ above ++ [name] := by
  obtain ⟨-, hwork, -⟩ := h.files_spec
  rw [List.append_assoc, ← hwork]
  exact FileTree.resolveNames_of_isPlain h.isPlain

theorem IsSample.stores (h : IsSample above name) :
    (sampleWorld above name).files.Stores (sampleSource above name) [] := by
  obtain ⟨hsound, hwork, -, hcontent⟩ := h.files_spec
  refine hsound.stores h.path_le ?_
  rw [← hcontent, List.append_assoc, ← hwork]
  rfl

/-- A session of an empty pipeline is saved with the source file, which stays as it is. -/
theorem IsSample.exists_run_saveSession (h : IsSample above name) :
    ∃ size w₁, (saveSession sessionPath (some (sampleSource above name)) []).run.run
        (.new {}, sampleWorld above name) = (.ok size, (.new {}, w₁)) ∧
      w₁.files.IsSound ∧
      w₁.files.content? ((sampleWorld above name).files.placeOf (sampleSource above name)) =
        some [] := by
  obtain ⟨hsound, hwork, hsession, -⟩ := h.files_spec
  have hplace : (sampleWorld above name).files.placeOf sessionPath = ["home"] ++ ["s.json"] := by
    rw [← hwork]
    exact FileTree.resolveNames_of_isPlain fun other hother =>
      List.mem_singleton.mp hother ▸ isPlain_sessionName
  have hstores : (sampleWorld above name).files.Stores sessionPath [] := by
    refine hsound.stores (by decide) ?_
    rw [← hsession, ← hwork]
    rfl
  obtain ⟨size, w₁, hsave, halters, hkeeps⟩ := Inspection.exists_run_saveSession (i := .new {}) []
    isPlain_sessionName.toIsName hstores (by decide) (by decide) h.holdsNull_eq
    (isWithinLimits_recordIn (sampleWorld above name).files (sampleSource above name))
  have hclean : sessionPath.IsClean := fun other hother =>
    List.mem_singleton.mp hother ▸ isPlain_sessionName.toIsName
  have hkept := halters.stores h.stores fun q hq heq => by
    obtain rfl := Set.mem_singleton_iff.mp hq
    have hlocations := hplace.symm.trans (heq.trans h.placeOf_eq)
    have hname := List.singleton_inj.mp (List.append_inj' hlocations rfl).2
    exact h.fresh (hname ▸ List.mem_concat_self)
  refine ⟨size, w₁, hsave, hkeeps hsound hclean, ?_⟩
  rw [← halters.keeps.placeOf_eq]
  exact hkept.content?_eq

theorem ofTimestamp_zero : DateTime.ofTimestamp .zero = .ok ⟨1970, 1, 1, 0, 0, 0, 0⟩ := by
  decide +kernel

theorem hasDistinctNames_new :
    Session.HasDistinctNames (Inspector.new {}).pipeline [] (compilationFor (.new {}) []) :=
  ⟨⟨List.nodup_nil, trivial⟩, ⟨List.nodup_nil, trivial⟩,
    fun _ hpass => absurd hpass List.not_mem_nil⟩

end Samples

/-- A source file whose path from the root is too long for the system is always missed. -/
theorem run_loadSession_of_too_long
    (hsize : FileTree.maxPathBytes < (w₀.files.resolve source).toString.utf8ByteSize)
    (hnames : Session.HasDistinctNames i.pipeline [] (compilationFor i compilation))
    (hsave : (saveSession p (some source) compilation).run.run (i, w₀) = (.ok size, (i', w₁)))
    (hkept : w₂.files.read p = w₁.files.read p) :
    ∃ file j', (loadSession p).run.run (j, w₂) = (.ok (some (.missing file)),
      (j', { w₂ with notices := .drift (.missing file) :: w₂.notices })) := by
  obtain ⟨s, hload, hrecord, -⟩ := exists_run_loadFile hnames hsave hkept
  have hfile : s.metadata.source.get "file" = .string (w₀.files.resolve source).toString := by
    rw [hrecord, SourceFile.recordIn_of_too_long hsize]
    rfl
  exact ⟨_, _, run_loadSession hload (SourceFile.drift_of_too_long hfile hsize)⟩

/-- A name that repeats one character. -/
def nameOf (n : Nat) (c : Char) : String :=
  String.ofList (List.replicate n c)

theorem utf8ByteSize_nameOf (n : Nat) (c : Char) : (nameOf n c).utf8ByteSize = n * c.utf8Size := by
  unfold nameOf
  induction n with
  | zero => simp
  | succ n ih =>
    rw [List.replicate_succ, ← List.singleton_append, String.ofList_append,
      String.utf8ByteSize_append, ih, Nat.succ_mul, Nat.add_comm]
    simp

theorem isPlain_nameOf {n : Nat} {c : Char} (hn : 2 < n) (hc : c ≠ '/') :
    Path.IsPlain (nameOf n c) := by
  have hne {text : String} (htext : text.toList.length ≤ 2) : nameOf n c ≠ text := by
    rintro rfl
    simp [nameOf] at htext
    omega
  refine ⟨⟨hne (by decide), hne (by decide), fun hmem => ?_⟩, hne (by decide)⟩
  rw [nameOf, String.toList_ofList] at hmem
  exact hc (List.eq_of_mem_replicate hmem).symm

theorem not_contains_nameOf {n : Nat} {c other : Char} (h : c ≠ other) :
    ¬ (nameOf n c).toList.contains other = true := by
  rw [nameOf, String.toList_ofList, List.contains_iff_mem]
  exact fun hmem => h (List.eq_of_mem_replicate hmem).symm

/-- The names of fifteen directories, one in the other, as long as names can be. -/
def deepDirectories : List String :=
  List.replicate 15 (nameOf 255 'd')

/-- The name of a file in the last of them. -/
def deepName : String :=
  nameOf 255 'f'

theorem exists_eq_nameOf {name : String} (h : name ∈ deepDirectories ++ [deepName]) :
    name = nameOf 255 'd' ∨ name = nameOf 255 'f' := by
  rcases List.mem_append.mp h with h | h
  · exact .inl (List.eq_of_mem_replicate h)
  · exact .inr (List.mem_singleton.mp h)

theorem utf8ByteSize_deepNames :
    ("/".intercalate (deepDirectories ++ [deepName])).utf8ByteSize = FileTree.maxPathBytes := by
  have hsizes : ∀ name ∈ deepDirectories ++ [deepName], name.utf8ByteSize = 255 := by
    intro name hname
    rcases exists_eq_nameOf hname with rfl | rfl
    · exact utf8ByteSize_nameOf 255 'd'
    · exact utf8ByteSize_nameOf 255 'f'
  have hlength : (deepDirectories ++ [deepName]).length = 16 := by
    simp [deepDirectories]
  have hsize := Path.utf8ByteSize_intercalate (List.concat_ne_nil deepName deepDirectories) hsizes
  rw [hlength] at hsize
  rw [FileTree.maxPathBytes]
  omega

theorem isSample_deep : IsSample deepDirectories deepName where
  isPlain name hname := by
    rcases exists_eq_nameOf hname with rfl | rfl
    · exact isPlain_nameOf (by decide) (by decide)
    · exact isPlain_nameOf (by decide) (by decide)
  size_le name hname := by
    rcases exists_eq_nameOf hname with rfl | rfl
    · exact (utf8ByteSize_nameOf 255 'd').le
    · exact (utf8ByteSize_nameOf 255 'f').le
  fresh := by decide +kernel
  not_mem := by decide +kernel
  path_le := by
    have htext : (sampleSource deepDirectories deepName).toString =
        "/".intercalate (deepDirectories ++ [deepName]) := by
      simp [sampleSource, Path.toString]
    rw [htext, utf8ByteSize_deepNames]
  holdsNull_eq := by
    refine List.any_eq_false.mpr fun name hname => ?_
    rcases exists_eq_nameOf hname with rfl | rfl
    · exact not_contains_nameOf (by decide)
    · exact not_contains_nameOf (by decide)

end Histories

end Inspection
end PassTrace

import PassTrace.Proofs.Codec.Lengths
import PassTrace.Proofs.Store.History

/-!
# What a store answers about a source file

After any calls a store answers about a source file from the calls on this source file alone: it
lists the sessions that they have left and loads each as it was saved, as long as no other source
file was saved to the same files. If all calls are on one source file, its directory has the files
of these sessions only. A name finds the first session in the list that has this name or is in a
file whose name starts with it.
-/

namespace PassTrace.Store

open Operation

/-- A query loads a session: its file restores the pipeline that was saved, and so does loading by
the query, if the source file is as it was recorded or the time of the session is that of a date,
with which a change is reported. -/
def Loads (s : Store) (w : World) (source : String) (query : Index.Query) (e : Saved) : Prop :=
  ∃ session, (Session.loadFile e.path).run.run w = (.ok session, w) ∧
    Session.Restores e.pipeline session.pipeline ∧
    ((SourceFile.Matches w.files e.record ∨ ∃ date, DateTime.ofTimestamp e.savedAt = .ok date) →
      ∃ w', (s.load source query).run.run w = (.ok session, w') ∧ w'.files = w.files)

/-- The store answers about a source file with a shelf: it lists the sessions of the shelf, each of
which can be loaded by its number, finds and loads what a query picks, and fails if it picks
nothing. -/
structure Answers (s : Store) (w : World) (source : String) (shelf : Shelf) : Prop where
  lists : (s.listSessions source).run.run w = (.ok (Shelf.listing (keyOf source) shelf), w)
  loads : ∀ e ∈ shelf.numbered, s.Loads w source (.atIndex (.int e.2)) e.1
  finds : ∀ query e, shelf.pick? query = some e →
    (s.find source query).run.run w = (.ok (Saved.listed (keyOf source) e), w) ∧
      s.Loads w source query e.1
  misses : ∀ query, shelf.pick? query = none → ∃ failure,
    (s.find source query).run.run w = (.error failure, w) ∧
      (s.load source query).run.run w = (.error failure, w)

variable {s : Store} {start w w' : World} {visits : List Visit} {key source : String}
  {shelves : String → Shelf}

section Notes

/-- A store of files that are not compressed. -/
def plainStore : Store := ⟨⟨.work, ["store"]⟩, { compressSessions := false }⟩

/-- A world without files, as time begins. -/
def emptyWorld : World := ⟨.empty "work", .zero, [], []⟩

theorem isEmpty_emptyWorld : plainStore.IsEmpty emptyWorld.files where
  has_eq := by decide +kernel
  index_eq := by decide +kernel
  sessions_eq := fun _ => rfl

theorem isClean_plainStore : plainStore.root.IsClean := by
  rintro name hname
  obtain rfl := List.mem_singleton.mp hname
  exact ⟨by decide, by decide, by decide⟩

/-- A pipeline of one pass that leaves an empty module as it is. -/
def onePass : Pipeline :=
  ⟨[], [⟨"GVN", ⟨.module, none⟩, false, .inline [], none, none, none⟩]⟩

/-- A save of the pipeline under a name. -/
def note (source : String) : Call := .save onePass source [] (some "x")

/-- The payload of the pipeline with its packed text. -/
def notePayload (source : Json.Fields) (packed : String) : Json :=
  .object [
    ("version", .int schemaVersion),
    ("tool_version", .string toolVersion),
    ("timestamp", .float .zero),
    ("source", .object source),
    ("compilation", .object []),
    ("pipeline", .object [
      ("ir_table", .object [("0", .string packed)]),
      ("passes", .array (Session.passEntries onePass (Interning.ofPipeline onePass))),
      ("total_passes", .int 1),
      ("changed_count", .int 0),
      ("unchanged_count", .int 1)]),
    ("metadata", .object [("total_ir_entries", .int 1)])]

theorem payload_onePass (source : Json.Fields) :
    Session.payload .zero onePass source [] = notePayload source (Packing.packLines []) := rfl

theorem length_notePayload_le (source : Json.Fields) (packed : String) :
    (Json.render false (notePayload source packed)).length ≤
      (Json.render false (notePayload [] "")).length + (Json.renderFields false source).length +
        (Json.renderString false packed).length := by
  simp only [notePayload, Json.render, Json.renderFields, List.length_append, List.length_cons,
    List.length_nil]
  omega

theorem fileNameAt_note (now : Binary64) :
    plainStore.fileNameAt now (some "x") .null = .ok "x.json" := by
  have hname : (some "x").filter (fun name => !name.isEmpty) = some "x" := by decide +kernel
  have hend : ("x".endsWith ".json" || "x".endsWith ".json.gz") = false := by decide +kernel
  have hfile : "x" ++ plainStore.extension = "x.json" := by decide +kernel
  unfold fileNameAt
  rw [hname]
  dsimp only
  rw [hend, hfile]
  rfl

/-- The content of a note is short if the record of its source file is. -/
theorem length_contentAt_note {directory : Path} {source : Json.Fields} {content : Bytes}
    (hsource : (Json.renderFields false source).length ≤ 1000)
    (h : Session.contentAt (directory.join "x.json") .zero onePass source [] = .ok content) :
    content.length < 10 ^ 5 := by
  have hname : Path.IsName "x.json" := ⟨by decide, by decide, by decide⟩
  have hplain : Session.isCompressed (directory.join "x.json") = false := by
    unfold Session.isCompressed Path.suffix
    rw [Path.name_join directory hname]
    decide +kernel
  have hpack := Packing.length_pack_le (Json.strings []).asciiLine
  have htext : (Text.utf8 (Json.strings []).asciiLine).length = 2 := by decide +kernel
  rw [← Packing.packLines, htext] at hpack
  have hstring := Json.length_renderString_le false (Packing.packLines [])
  have hrest : (Json.render false (notePayload [] "")).length ≤ 500 := by decide +kernel
  have hrender := length_notePayload_le source (Packing.packLines [])
  unfold Session.contentAt Session.encode at h
  dsimp only at h
  split at h
  · cases h
  · next text htext' =>
    split at htext'
    · cases htext'
    · obtain rfl := Except.ok.inj htext'
      unfold Session.fileBytes at h
      rw [hplain] at h
      obtain rfl := Except.ok.inj h
      have hutf8 := Text.length_utf8_le (Session.payload .zero onePass source []).line
      rw [Json.line, String.toList_ofList, payload_onePass] at hutf8
      rw [Json.line, payload_onePass]
      have hlength : (Json.render false (notePayload source (Packing.packLines []))).length ≤
          500 + 1000 + (12 * (10 * 2 + 28) + 2) := by
        refine hrender.trans (Nat.add_le_add (Nat.add_le_add hrest hsource) (hstring.trans ?_))
        exact Nat.add_le_add_right (Nat.mul_le_mul_left 12 hpack) 2
      exact (hutf8.trans (Nat.mul_le_mul_left 4 hlength)).trans_lt (by decide)

theorem isPlain_note {source : String} {w : World} (hsource : IsSource source)
    (hnow : w.now = .zero)
    (hrecord : (Json.renderFields false
      (SourceFile.recordIn w.files (Path.ofString source))).length ≤ 1000) :
    (note source).IsPlain plainStore w := by
  refine ⟨⟨hsource, by simp, .null, ?_⟩, fun e he => ?_⟩
  · simp [onePass, Session.HasDistinctNames, Json.HasDistinctNames, Json.FieldsHaveDistinctNames]
  · obtain ⟨file, content, hfile, hcontent, rfl⟩ := draft_eq_ok he
    obtain rfl := Except.ok.inj ((fileNameAt_note w.now).symm.trans hfile)
    have hshort := length_contentAt_note hrecord (hnow ▸ hcontent)
    have hdigits := (Nat.length_toDigits_le_iff (b := 10) (by decide) (by decide)).mpr hshort
    rw [Nat.toString_eq_ofList_toDigits, String.length_ofList]
    exact hdigits.trans (by decide)

/-- The visit that saves a note of a source file. -/
def noted : List Visit := [⟨emptyWorld, note "a.ll", true⟩]

/-- The world with a note of a source file. -/
def notedWorld : World := (((note "a.ll").perform plainStore).run.run emptyWorld).2

theorem isSource_noted : IsSource "a.ll" :=
  isSource_of_head?_ne (by decide +kernel) (by decide +kernel)

theorem reaches_noted : plainStore.Reaches emptyWorld noted notedWorld := by
  have hok : (((note "a.ll").perform plainStore).run.run emptyWorld).1.isOk = true := by
    decide +kernel
  have hrun : ((note "a.ll").perform plainStore).run.run emptyWorld = (_, notedWorld) :=
    (Prod.eta _).symm
  have hvisit := Reaches.start.visit hrun
  rwa [hok] at hvisit

theorem arePlain_noted : plainStore.ArePlain noted := by
  intro v hv
  obtain rfl := List.mem_singleton.mp hv
  exact ⟨by decide +kernel, isPlain_note isSource_noted rfl (by decide +kernel)⟩

theorem names_history_noted :
    (plainStore.history noted (keyOf "a.ll")).map (·.name) = [some "x"] := by decide +kernel

end Notes

section Isolation

/-- The store answers with what the index lists, if the sessions are in their files. -/
theorem answers_of_isStored {table : Json.Fields} (hshelved : s.Shelved shelves)
    (hlists : s.Lists w.files shelves) (htable : Index.Tabulates table shelves)
    (hload : s.loadIndex.run.run w = (.ok (Index.ofTable table), w))
    (hstored : (shelves (keyOf source)).IsStored w.files) :
    s.Answers w source (shelves (keyOf source)) := by
  have hfinds : ∀ query e, (shelves (keyOf source)).pick? query = some e →
      (s.find source query).run.run w = (.ok (Saved.listed (keyOf source) e), w) ∧
        s.Loads w source query e.1 := by
    intro query e hpick
    have hindex := hlists.hasIndex_of_pick? hpick
    exact ⟨hindex.run_find hshelved hpick,
      hindex.run_load hshelved hpick (hstored e.1 (Shelf.mem_of_pick? hpick))⟩
  refine ⟨run_listSessions htable hload hshelved source,
    fun e he => (hfinds _ e (Shelf.pick?_atIndex he)).2, hfinds, fun query hpick => ?_⟩
  obtain ⟨failure, hfailed⟩ := hlists.run_find_of_pick?_eq_none hshelved hpick
  refine ⟨failure, hfailed, ?_⟩
  unfold load
  rw [run_bind, hfailed]

/-- Source files are isolated from each other: the store answers about one with the sessions that
the calls on it have left, each as a call has saved it, whatever is called for others in between, as
long as these are not saved to its files and no save to them fails. Only if no call has succeeded at
all it can be that there is no answer. -/
theorem isolated (hroot : s.root.IsClean) (hempty : s.IsEmpty start.files)
    (h : s.Reaches start visits w) (hplain : s.ArePlain visits)
    (haside : s.AreAside visits (keyOf source)) :
    let own := visits.filter fun v => v.call.Concerns (keyOf source)
    (s.Answers w source (s.history own (keyOf source)) ∨ (∀ v ∈ visits, v.succeeded = false) ∧
      ∃ failure, (s.listSessions source).run.run w = (.error failure, w)) ∧
    ∀ e ∈ s.history own (keyOf source), ∃ v ∈ own, v.succeeded = true ∧
      v.call.draft? s v.before (keyOf source) = some e := by
  intro own
  refine ⟨?_, fun e he => exists_draft?_of_mem_history he⟩
  obtain ⟨hshelved, hindex⟩ := h.keeps hroot hempty hplain
  have hlists : s.Lists w.files (s.history visits) := hindex.imp id And.left
  rw [history_filter]
  rcases hlists.run_loadIndex_cases hshelved with ⟨table, htable, hload⟩ | ⟨hlacks, failure, hload⟩
  · exact .inl (answers_of_isStored hshelved hlists htable hload
      (h.isStored hroot hempty hplain haside))
  · rcases hindex with hindex | ⟨-, hnone⟩
    · obtain ⟨table, -, -, hok⟩ := hindex.run_loadIndex hshelved
      rw [hok] at hload
      cases hload
    · refine .inr ⟨hnone, failure, ?_⟩
      unfold listSessions
      rw [run_bind, hload]

/-- A note of another source file leaves what the store answers about this one. -/
theorem isolated_noted : ∃ succeeded w,
    plainStore.Reaches emptyWorld (noted ++ [⟨notedWorld, note "b.ll", succeeded⟩]) w ∧
      plainStore.Answers w "a.ll" (plainStore.history noted (keyOf "a.ll")) := by
  have hsource : IsSource "b.ll" := isSource_of_head?_ne (by decide +kernel) (by decide +kernel)
  have hkeys : keyOf "b.ll" ≠ keyOf "a.ll" := by decide +kernel
  have hstems : (Path.ofString (keyOf "b.ll")).stem ≠ (Path.ofString (keyOf "a.ll")).stem := by
    decide +kernel
  have hnow : notedWorld.now = .zero := by decide +kernel
  have hrecord : (Json.renderFields false
      (SourceFile.recordIn notedWorld.files (Path.ofString "b.ll"))).length ≤ 1000 := by
    decide +kernel
  have hrun : ((note "b.ll").perform plainStore).run.run notedWorld = (_, _) := (Prod.eta _).symm
  have hreaches := reaches_noted.visit hrun
  generalize (((note "b.ll").perform plainStore).run.run notedWorld).1.isOk = succeeded at hreaches
  have hplain : plainStore.ArePlain (noted ++ [⟨notedWorld, note "b.ll", succeeded⟩]) := by
    intro v hv
    rcases List.mem_append.mp hv with hv | hv
    · exact arePlain_noted v hv
    · obtain rfl := List.mem_singleton.mp hv
      exact ⟨by rw [hnow]; decide, isPlain_note hsource hnow hrecord⟩
  have haside : plainStore.AreAside (noted ++ [⟨notedWorld, note "b.ll", succeeded⟩])
      (keyOf "a.ll") := by
    refine areAside_of_stems hplain (fun v hv other hother hne => ?_) fun v hv hsaves => ?_
    · rcases List.mem_append.mp hv with hv | hv
      · obtain rfl := List.mem_singleton.mp hv
        exact absurd hother.symm hne
      · obtain rfl := List.mem_singleton.mp hv
        obtain rfl : keyOf "b.ll" = other := hother
        exact hstems
    · rcases List.mem_append.mp hv with hv | hv
      · obtain rfl := List.mem_singleton.mp hv
        rfl
      · obtain rfl := List.mem_singleton.mp hv
        exact absurd hsaves hkeys
  refine ⟨succeeded, _, hreaches, ?_⟩
  obtain ⟨hanswers | ⟨hfailed, -⟩, -⟩ :=
    isolated isClean_plainStore isEmpty_emptyWorld hreaches hplain haside
  · have hown : (noted ++ [⟨notedWorld, note "b.ll", succeeded⟩] : List Visit).filter
        (fun v => v.call.Concerns (keyOf "a.ll")) = noted := by
      have hother : ¬ (note "b.ll").Concerns (keyOf "a.ll") := hkeys
      rw [List.filter_append, List.filter_cons_of_neg (by simpa using hother)]
      rfl
    rwa [hown] at hanswers
  · have hfalse := hfailed _ (List.mem_append_left _ (List.mem_singleton_self _))
    cases hfalse

end Isolation

section OneSource

/-- A call is on one source file, or it is a cleaning up of all of them. -/
def Call.IsOn (source : String) : Call → Prop
  | save _ other _ _ | delete other _ => other = source
  | cleanUp other _ => ∀ file ∈ other, file = source

/-- The store shows the sessions of a source file as they stand on a shelf: it answers with the
shelf, whose order is that of the list, the sessions have files with different names, these are the
files in the directory of the source file, and there are no more of them than are to be kept. -/
structure Shows (s : Store) (w : World) (source : String) (shelf : Shelf) : Prop
    extends Answers s w source shelf where
  arranged_eq : shelf.arranged = shelf
  names_nodup : (shelf.map (·.path.name)).Nodup
  files_iff : ∀ name bytes, name ≠ latestName →
    (w.files.content? (w.files.placeOf (s.sessionDirectory (some source)) ++ [name]) = some bytes ↔
      ∃ e ∈ shelf, e.path.name = name ∧ e.content = bytes)
  length_le : ∀ limit : Nat, s.config.maxSessions = some (limit : Int) → shelf.length ≤ limit

/-- Saves of one source file are no saves of others. -/
theorem Call.IsOn.eq_of_saves {call : Call} (h : call.IsOn source) {other : String}
    (hsaves : call.Saves other) : other = keyOf source := by
  cases call with
  | save pipeline file compilation name =>
    obtain rfl : file = source := h
    exact hsaves.symm
  | delete file query => cases hsaves
  | cleanUp file age => cases hsaves

/-- The names of the files on a shelf are different. -/
theorem Shelved.names_nodup (h : s.Shelved shelves) (key : String) :
    ((shelves key).map (·.path.name)).Nodup := by
  have hpaths : (shelves key).map (·.path) =
      ((shelves key).map (·.path.name)).map (s.sessionDirectory (some key)).join := by
    rw [List.map_map]
    exact List.map_congr_left fun e he => (h.kept key e he).path_eq
  have hnodup := h.nodup key
  rw [hpaths] at hnodup
  exact hnodup.of_map _

theorem placeOf_sessionDirectory_append (hsource : IsSource source) (t : FileTree) (name : String) :
    t.placeOf (s.sessionDirectory (some source)) ++ [name] = placeIn t s (keyOf source) name := by
  rw [placeOf_sessionDirectory t s hsource, placeIn, stem_keyOf hsource.isName, List.append_assoc]
  rfl

/-- The files in a tidy directory are those on the shelf of its source file. -/
theorem IsTidy.content?_eq_some_iff (hshelved : s.Shelved shelves)
    (htidy : s.IsTidy w.files key (shelves key)) (hstored : (shelves key).IsStored w.files)
    {name : String} {bytes : Bytes} (hname : name ≠ latestName) :
    w.files.content? (placeIn w.files s key name) = some bytes ↔
      ∃ e ∈ shelves key, e.path.name = name ∧ e.content = bytes := by
  have hcontent {e : Saved} (he : e ∈ shelves key) :
      w.files.content? (placeIn w.files s key e.path.name) = some e.content := by
    rw [← (hshelved.kept key e he).placeOf_eq]
    exact (hstored e he).content?_eq
  constructor
  · intro hbytes
    obtain ⟨e, he, rfl⟩ := htidy name bytes hname hbytes
    rw [hcontent he] at hbytes
    exact ⟨e, he, rfl, Option.some.inj hbytes⟩
  · rintro ⟨e, he, rfl, rfl⟩
    exact hcontent he

/-- Of one source file, used by calls that succeed under a clock that never goes back, the store
shows the sessions that the history tells: each save in front of those before it, as many as are
kept, without those that were deleted or cleaned up. -/
theorem shows_history (hroot : s.root.IsClean) (hsource : IsSource source)
    (hempty : s.IsEmpty start.files) (h : s.Reaches start visits w) (hplain : s.ArePlain visits)
    (hcalls : ∀ v ∈ visits, v.call.IsOn source ∧ v.succeeded = true)
    (hclock : visits.Pairwise fun v v' => v'.before.now.less v.before.now = false) :
    s.Shows w source (s.history visits (keyOf source)) ∧
      (s.history visits (keyOf source)).Sublist (s.saves visits (keyOf source)).reverse := by
  have haside : s.AreAside visits (keyOf source) := by
    intro v hv other p htarget _
    exact ⟨(hcalls v hv).1.eq_of_saves (Call.saves_of_target? htarget), (hcalls v hv).2⟩
  have hapart : ∀ v ∈ visits, v.call.IsApart (keyOf source) ∧ v.succeeded = true := fun v hv =>
    ⟨fun other hne hsaves => absurd ((hcalls v hv).1.eq_of_saves hsaves) hne, (hcalls v hv).2⟩
  obtain ⟨hshelved, hindex⟩ := h.keeps hroot hempty hplain
  have hlists : s.Lists w.files (s.history visits) := hindex.imp id And.left
  have hstored := h.isStored hroot hempty hplain haside
  have htidy := h.isTidy hroot hempty hplain hsource.keyOf haside hapart
  obtain ⟨table, htable, hload⟩ := h.exists_run_loadIndex hroot hempty hplain fun v hv =>
    (hcalls v hv).2
  refine ⟨⟨answers_of_isStored hshelved hlists htable hload hstored,
    arranged_history s (keyOf source) hclock, hshelved.names_nodup _, fun name bytes hname => ?_,
    fun limit hlimit => length_history_le hlimit visits _⟩, history_sublist s visits _⟩
  rw [placeOf_sessionDirectory_append hsource]
  exact htidy.content?_eq_some_iff hshelved hstored hname

/-- After a note of a source file the store shows it. -/
theorem shows_history_noted :
    plainStore.Shows notedWorld "a.ll" (plainStore.history noted (keyOf "a.ll")) ∧
      (plainStore.history noted (keyOf "a.ll")).map (·.name) = [some "x"] := by
  have hcalls : ∀ v ∈ noted, v.call.IsOn "a.ll" ∧ v.succeeded = true := by
    intro v hv
    obtain rfl := List.mem_singleton.mp hv
    exact ⟨rfl, rfl⟩
  exact ⟨(shows_history isClean_plainStore isSource_noted isEmpty_emptyWorld reaches_noted
    arePlain_noted hcalls (List.pairwise_singleton _ _)).1, names_history_noted⟩

end OneSource

section Names

/-- A session was deleted: it is no longer listed and its file is removed. All other sessions are
listed as before, and those that are in other files are still there. -/
structure Deletes (s : Store) (shelves : String → Shelf) (key : String) (e : Saved) (w w' : World) :
    Prop where
  lists : ∀ source, (s.listSessions source).run.run w' = (.ok (Shelf.listing (keyOf source)
    (Function.update shelves key ((shelves key).without e.path) (keyOf source))), w')
  leaves : ∀ other ∈ shelves key, other ∈ (shelves key).without e.path ↔ other ≠ e
  keeps : ∀ key', ∀ other ∈ shelves key', other.path ≠ e.path →
    w.files.Stores other.path other.content → w'.files.Stores other.path other.content
  gone : ∀ bytes, w.files.Stores e.path bytes → w'.files.content? (w'.files.placeOf e.path) = none

/-- A name picks the first session in the list that has it or is in a file whose name starts with
it. If a session has the name, the one that is picked has it exactly if no session listed before is
in such a file. -/
theorem exists_pick?_named {shelf : Shelf} {name : String} (h : ∃ e ∈ shelf, e.name = some name) :
    ∃ e, shelf.pick? (.named name) = some e ∧ (e.1.name = some name ↔
      ∀ other ∈ shelf.arranged.takeWhile (·.name ≠ some name),
        other.path.name.startsWith name = false) := by
  have hsome : ∃ e ∈ shelf.arranged, decide (e.name = some name) = true := by
    obtain ⟨e, he, hname⟩ := h
    exact ⟨e, Shelf.mem_arranged.mpr he, decide_eq_true hname⟩
  obtain ⟨e, hfind, hiff⟩ :=
    Shelf.find?_or_of_exists (q := fun e : Saved => e.path.name.startsWith name) hsome
  have hpick := Shelf.pick?_named shelf name
  rw [show shelf.arranged.find? (·.answersTo name) = some e from hfind] at hpick
  obtain ⟨picked, hpicked, rfl⟩ := Option.map_eq_some_iff.mp hpick
  refine ⟨picked, hpicked, ?_⟩
  simpa using hiff

/-- Deleting gives the session that a query picks, and no other session is deleted. -/
theorem HasIndex.deletes (h : s.HasIndex w.files shelves) (hshelved : s.Shelved shelves)
    {query : Index.Query} {e : Saved × Nat}
    (hpick : (shelves (keyOf source)).pick? query = some e) :
    ∃ w', (s.delete source query).run.run w = (.ok (Saved.listed (keyOf source) e), w') ∧
      s.Deletes shelves (keyOf source) e.1 w w' := by
  have hmem := Shelf.mem_of_pick? hpick
  have he := hshelved.kept _ e.1 hmem
  obtain ⟨w₁, w', hdelete, hremoves, halters, hindex⟩ := h.run_delete hshelved hpick
  refine ⟨w', hdelete, fun other => hindex.run_listSessions (hshelved.delete _ _) other,
    fun other hother => ?_, fun key' other hother hpath hstores => ?_, fun bytes hstores => ?_⟩
  · rw [Shelf.mem_without, and_iff_right hother, not_iff_not]
    exact ⟨fun hpath => List.inj_on_of_nodup_map (hshelved.nodup _) hother hmem hpath,
      congrArg Saved.path⟩
  · have hkept := hshelved.kept key' other hother
    refine halters.stores (hremoves.toAltersOnly.stores hstores ?_) ?_
    · rintro q rfl
      exact placeOf_ne_of_path_ne he hkept hpath.symm _
    · rintro q rfl
      exact (placeOf_ne_indexPath hkept.isSource (mem_pathsOf hkept) _).symm
  · have hgone := hremoves.gone e.1.path rfl bytes hstores
    rw [halters.keeps.placeOf_eq, halters.content?_eq, hremoves.keeps.placeOf_eq, hgone]
    rintro q rfl
    exact (placeOf_ne_indexPath he.isSource (mem_pathsOf he) _).symm

/-- A name that a session has finds a session that has it exactly if no session listed before is in
a file whose name starts with it. What it finds is what is loaded and deleted: no other session is
changed. -/
theorem named_designates (hroot : s.root.IsClean) (hempty : s.IsEmpty start.files)
    (h : s.Reaches start visits w) (hplain : s.ArePlain visits) {name : String}
    (hname : ∃ e ∈ s.history visits (keyOf source), e.name = some name) :
    let shelf := s.history visits (keyOf source)
    ∃ e ∈ shelf.numbered, (e.1.name = some name ↔
        ∀ other ∈ shelf.arranged.takeWhile (·.name ≠ some name),
          other.path.name.startsWith name = false) ∧
      (s.find source (.named name)).run.run w = (.ok (Saved.listed (keyOf source) e), w) ∧
      (w.files.Stores e.1.path e.1.content → s.Loads w source (.named name) e.1) ∧
      ∃ w', (s.delete source (.named name)).run.run w = (.ok (Saved.listed (keyOf source) e), w') ∧
        s.Deletes (s.history visits) (keyOf source) e.1 w w' := by
  intro shelf
  obtain ⟨hshelved, hindex⟩ := h.keeps hroot hempty hplain
  obtain ⟨e, hpick, hiff⟩ := exists_pick?_named hname
  have hindex := Lists.hasIndex_of_pick? (hindex.imp id And.left) hpick
  exact ⟨e, Shelf.mem_numbered_of_pick? hpick, hiff, hindex.run_find hshelved hpick,
    hindex.run_load hshelved hpick, hindex.deletes hshelved hpick⟩

/-- A note is found and deleted by its name. -/
theorem named_designates_noted : ∃ e ∈ (plainStore.history noted (keyOf "a.ll")).numbered,
    e.1.name = some "x" ∧ (plainStore.find "a.ll" (.named "x")).run.run notedWorld =
      (.ok (Saved.listed (keyOf "a.ll") e), notedWorld) ∧
    ∃ w, (plainStore.delete "a.ll" (.named "x")).run.run notedWorld =
        (.ok (Saved.listed (keyOf "a.ll") e), w) ∧
      plainStore.Deletes (plainStore.history noted) (keyOf "a.ll") e.1 notedWorld w := by
  have hname : ∃ e ∈ plainStore.history noted (keyOf "a.ll"), e.name = some "x" :=
    List.mem_map.mp (names_history_noted ▸ List.mem_singleton_self _)
  obtain ⟨e, he, -, hfind, -, hdelete⟩ := named_designates isClean_plainStore isEmpty_emptyWorld
    reaches_noted arePlain_noted hname
  have hmem : e.1.name ∈ (plainStore.history noted (keyOf "a.ll")).map (·.name) :=
    List.mem_map_of_mem (Shelf.mem_of_mem_numbered he)
  rw [names_history_noted] at hmem
  exact ⟨e, he, List.mem_singleton.mp hmem, hfind, hdelete⟩

end Names

end PassTrace.Store

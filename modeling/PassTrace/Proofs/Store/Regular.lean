import PassTrace.Proofs.Store.Drafts
import PassTrace.Proofs.Store.Order

/-!
# Regular indexes

An index is regular if it can be written and read again and lists nothing but entries that saves
have made. Replacing the list of a source file by another one of such entries keeps it regular. A
session file that was written in the place of the index does no harm: it is read as an index without
sessions, or it is no text at all.
-/

namespace PassTrace

namespace Json

theorem hasDistinctNames_of_mem {fields : Fields} (h : FieldsHaveDistinctNames fields)
    {field : String × Json} (hfield : field ∈ fields) : field.2.HasDistinctNames := by
  induction fields with
  | nil => cases hfield
  | cons first fields ih =>
    rcases List.mem_cons.mp hfield with rfl | hfield
    · exact h.1
    · exact ih h.2 hfield

theorem writeFault?_of_mem {levels : Nat} {fields : Fields} (h : fieldsFault? levels fields = none)
    {field : String × Json} (hfield : field ∈ fields) : writeFault? levels field.2 = none := by
  induction fields with
  | nil => cases hfield
  | cons first fields ih =>
    obtain ⟨hfirst, hfields⟩ := fieldsFault?_cons h
    rcases List.mem_cons.mp hfield with rfl | hfield
    · exact hfirst
    · exact ih hfields hfield

/-- A field is found by its name if no other one has it. -/
theorem Fields.get_of_mem {fields : Fields} {name : String} {value : Json}
    (h : (fields.map (·.1)).Nodup) (hfield : (name, value) ∈ fields) : fields.get name = value := by
  unfold get get?
  cases hfind : fields.find? fun field => field.1 = name with
  | none => exact absurd (List.find?_eq_none.mp hfind _ hfield) (by simp)
  | some field =>
    have hname : field.1 = name := by simpa using List.find?_some hfind
    obtain rfl := List.inj_on_of_nodup_map h (List.mem_of_find?_eq_some hfind) hfield hname
    rfl

/-- A field that is not there counts as `null`. -/
theorem Fields.get_of_not_mem {fields : Fields} {name : String} (h : name ∉ fields.map (·.1)) :
    fields.get name = .null := by
  have hnone : fields.find? (fun field => field.1 = name) = none := by
    rw [List.find?_eq_none]
    intro field hfield hname
    exact h (List.mem_map.mpr ⟨field, hfield, of_decide_eq_true hname⟩)
  unfold get get?
  rw [hnone]
  rfl

section CarriageReturns

mutual

theorem return_not_mem_render (ascii : Bool) : (v : Json) → '\r' ∉ render ascii v
  | null => by simp [render]
  | bool b => by cases b <;> simp [render]
  | int n => return_not_mem_renderIndented (int n) 0
  | float x => return_not_mem_renderFloat x
  | string s => return_not_mem_renderString ascii s
  | array items => by
    have hitems := return_not_mem_renderItems ascii items
    simp [render, hitems]
  | object fields => by
    have hfields := return_not_mem_renderFields ascii fields
    simp [render, hfields]

theorem return_not_mem_renderItems (ascii : Bool) : (items : List Json) →
    '\r' ∉ renderItems ascii items
  | [] => List.not_mem_nil
  | [item] => return_not_mem_render ascii item
  | item :: next :: items => by
    have hitem := return_not_mem_render ascii item
    have hitems := return_not_mem_renderItems ascii (next :: items)
    simp [renderItems, hitem, hitems]

theorem return_not_mem_renderFields (ascii : Bool) : (fields : Fields) →
    '\r' ∉ renderFields ascii fields
  | [] => List.not_mem_nil
  | [(name, item)] => by
    have hname := return_not_mem_renderString ascii name
    have hitem := return_not_mem_render ascii item
    simp [renderFields, hname, hitem]
  | (name, item) :: next :: fields => by
    have hname := return_not_mem_renderString ascii name
    have hitem := return_not_mem_render ascii item
    have hfields := return_not_mem_renderFields ascii (next :: fields)
    simp [renderFields, hname, hitem, hfields]

end

end CarriageReturns

/-- The line of a value denotes the value, read from a file with its line ends unified. -/
theorem parseChars_line {v : Json} (hnames : v.HasDistinctNames)
    (hwrite : v.writeFault? maxLevels = none) :
    parseChars (Text.unifyLineFeeds v.line.toList) = .ok v := by
  rw [line, String.toList_ofList, Text.unifyLineFeeds_of_not_mem (return_not_mem_render false v)]
  exact parseChars_render hnames hwrite false

end Json

/-- The start of a compressed file is no text. -/
theorem Gzip.exists_decodeUtf8_headStart (name rest : Bytes) :
    ∃ fault, Text.decodeUtf8 (headStart name ++ rest) = .error fault := by
  have hstart (rest : Bytes) : ∃ fault pieces, Text.utf8Pieces false 0 (0x1f :: 0x8b :: rest) =
      .ok '\x1f' :: .error fault :: pieces := by
    rw [Text.utf8Pieces_one (by decide), Text.utf8Pieces.eq_def]
    exact ⟨_, _, rfl⟩
  unfold headStart Text.decodeUtf8
  obtain ⟨fault, pieces, hpieces⟩ := hstart (8 :: (if name.isEmpty then 0 else 8) :: rest)
  refine ⟨fault, ?_⟩
  simp only [List.cons_append, List.nil_append, hpieces]
  rfl

namespace Index

/-- An entry that a save has made. -/
structure IsEntry (entry : Json.Fields) : Prop extends IsBare entry where
  timed : (sortNumber? entry).isSome
  hasDistinctNames : (Json.object entry).HasDistinctNames
  writeFault?_eq_none : (Json.object entry).writeFault? (Json.maxLevels - 3) = none

namespace Table

/-- The table with another list for a source file. -/
def set (source : String) (entries : List Json.Fields) : Table → Table
  | [] => [(source, entries)]
  | list :: rest =>
    if list.1 = source then (source, entries) :: rest else list :: set source entries rest

variable {table : Table} {source : String} {entries : List Json.Fields}

theorem fields_set : (set source entries table).fields =
    table.fields.set source (.array (entries.map .object)) := by
  induction table with
  | nil => rfl
  | cons list table ih =>
    by_cases hlist : list.1 = source
    · simp [set, fields, Json.Fields.set, hlist]
    · simpa [set, fields, Json.Fields.set, hlist] using ih

theorem mem_set {list : String × List Json.Fields} (h : list ∈ set source entries table) :
    list = (source, entries) ∨ list ∈ table := by
  induction table with
  | nil => exact .inl (List.mem_singleton.mp h)
  | cons first table ih =>
    rw [set] at h
    split at h
    · rcases List.mem_cons.mp h with rfl | h
      · exact .inl rfl
      · exact .inr (List.mem_cons_of_mem _ h)
    · rcases List.mem_cons.mp h with rfl | h
      · exact .inr List.mem_cons_self
      · exact (ih h).imp_right (List.mem_cons_of_mem _)

theorem map_fst_fields (table : Table) : table.fields.map (·.1) = table.map (·.1) := by
  simp [fields]

theorem nodup_set (h : (table.map (·.1)).Nodup) : ((set source entries table).map (·.1)).Nodup := by
  rw [← map_fst_fields] at h ⊢
  rw [fields_set]
  exact Json.Fields.nodup_set h

end Table

/-- An index that can be written, with a table of entries that saves have made. -/
structure IsRegular (i : Index) (table : Table) : Prop where
  nodup : (i.fields.map (·.1)).Nodup
  get_eq : i.fields.get sessionsField = .object table.fields
  others : ∀ field ∈ i.fields, field.1 ≠ sessionsField →
    field.2.HasDistinctNames ∧ field.2.writeFault? (Json.maxLevels - 1) = none
  sources_nodup : (table.map (·.1)).Nodup
  entries : ∀ list ∈ table, ∀ entry ∈ list.2, IsEntry entry

namespace IsRegular

variable {i : Index} {table : Table}

theorem hasTable (h : i.IsRegular table) : i.HasTable table where
  sessions_eq := by
    unfold Index.sessions
    rw [h.get_eq]
    rfl
  nodup := h.sources_nodup
  timed := fun list hlist entry hentry => (h.entries list hlist entry hentry).timed
  bare := fun list hlist entry hentry => (h.entries list hlist entry hentry).toIsBare

theorem sessionsOf_eq (h : i.IsRegular table) (source : String) :
    i.sessionsOf source = .array ((table.entriesOf source).map .object) := by
  unfold Index.sessionsOf
  rw [h.hasTable.sessions_eq, Table.get?_fields h.sources_nodup]

theorem isEntry_of_mem (h : i.IsRegular table) {source : String} {entry : Json.Fields}
    (hentry : entry ∈ table.entriesOf source) : IsEntry entry := by
  obtain ⟨entries, hlist, hentry⟩ := Table.exists_of_mem_entriesOf hentry
  exact h.entries _ hlist entry hentry

theorem fresh : Index.fresh.IsRegular [] where
  nodup := by decide
  get_eq := rfl
  others := by
    simp [Index.fresh, sessionsField, Json.HasDistinctNames]
    rfl
  sources_nodup := List.nodup_nil
  entries := nofun

/-- Another list of entries for a source file. -/
theorem setSessions (h : i.IsRegular table) (source : String) {entries : List Json.Fields}
    (hentries : ∀ entry ∈ entries, IsEntry entry) :
    (i.setSessions source (.array (entries.map .object))).IsRegular
      (Table.set source entries table) where
  nodup := Json.Fields.nodup_set h.nodup
  get_eq := by
    rw [Index.setSessions, get_set_self, h.hasTable.sessions_eq, Table.fields_set]
  others := by
    intro field hfield hne
    rcases Json.Fields.mem_set h.nodup hfield with rfl | ⟨-, hfield⟩
    · exact absurd rfl hne
    · exact h.others field hfield hne
  sources_nodup := Table.nodup_set h.sources_nodup
  entries := by
    intro list hlist entry hentry
    rcases Table.mem_set hlist with rfl | hlist
    · exact hentries entry hentry
    · exact h.entries list hlist entry hentry

theorem ofJson_eq (h : i.IsRegular table) : ofJson (.object i.fields) = .ok i := by
  unfold ofJson
  dsimp only
  rw [h.get_eq]

/-- An index is read back from its document. -/
theorem parseChars_document (h : i.IsRegular table) :
    Json.parseChars (Text.unifyLineFeeds (Json.object i.fields).document.toList) =
      .ok (.object i.fields) := by
  have hlist : ∀ list ∈ table.fields,
      list.2.HasDistinctNames ∧ list.2.writeFault? (Json.maxLevels - 2) = none := by
    intro list hlist
    obtain ⟨⟨source, entries⟩, hmem, rfl⟩ := List.mem_map.1 hlist
    constructor
    · refine Json.itemsHaveDistinctNames_of_forall fun item hitem => ?_
      obtain ⟨entry, hentry, rfl⟩ := List.mem_map.1 hitem
      exact (h.entries _ hmem entry hentry).hasDistinctNames
    · refine Json.itemsFault?_of_forall fun item hitem => ?_
      obtain ⟨entry, hentry, rfl⟩ := List.mem_map.1 hitem
      exact (h.entries _ hmem entry hentry).writeFault?_eq_none
  have hnames : (table.fields.map (·.1)).Nodup := by
    rw [Table.map_fst_fields]
    exact h.sources_nodup
  have hfield : ∀ field ∈ i.fields,
      field.2.HasDistinctNames ∧ field.2.writeFault? (Json.maxLevels - 1) = none := by
    intro ⟨name, value⟩ hmem
    by_cases hsessions : name = sessionsField
    · subst hsessions
      obtain rfl := (Json.Fields.get_of_mem h.nodup hmem).symm.trans h.get_eq
      exact ⟨⟨hnames, Json.fieldsHaveDistinctNames_of_forall fun list hmem => (hlist list hmem).1⟩,
        Json.fieldsFault?_of_forall fun list hmem => (hlist list hmem).2⟩
    · exact h.others _ hmem hsessions
  exact Json.parseChars_document
    ⟨h.nodup, Json.fieldsHaveDistinctNames_of_forall fun field hmem => (hfield field hmem).1⟩
    (Json.fieldsFault?_of_forall fun field hmem => (hfield field hmem).2)

end IsRegular

/-- Bytes from which an index is read that is regular, or bytes that are no text. -/
inductive IsSound (bytes : Bytes) : Prop
  | unreadable {fault : Text.Utf8Fault} (h : Text.decodeUtf8 bytes = .error fault)
  | regular {cs : List Char} {v : Json} {i : Index} {table : Table}
    (hdecode : Text.decodeUtf8 bytes = .ok cs)
    (hparse : Json.parseChars (Text.unifyLineFeeds cs) = .ok v) (hindex : ofJson v = .ok i)
    (h : i.IsRegular table)

theorem IsRegular.isSound {i : Index} {table : Table} (h : i.IsRegular table) :
    IsSound (Text.utf8 (Json.object i.fields).document) :=
  .regular (Text.decodeUtf8_utf8 _) h.parseChars_document h.ofJson_eq h

/-- An object without the field of the lists is read as an index without sessions. -/
theorem isSound_line {fields : Json.Fields} (hnames : (Json.object fields).HasDistinctNames)
    (hwrite : (Json.object fields).writeFault? Json.maxLevels = none)
    (hnew : sessionsField ∉ fields.map (·.1)) : IsSound (Text.utf8 (Json.object fields).line) := by
  have hindex : ofJson (.object fields) = .ok ⟨fields.set sessionsField (.object [])⟩ := by
    unfold ofJson
    dsimp only
    rw [Json.Fields.get_of_not_mem hnew]
  have hregular : IsRegular ⟨fields.set sessionsField (.object [])⟩ [] := {
    nodup := Json.Fields.nodup_set hnames.1
    get_eq := get_set_self
    others := by
      intro field hfield hne
      rcases Json.Fields.mem_set hnames.1 hfield with rfl | ⟨-, hfield⟩
      · exact absurd rfl hne
      · exact ⟨Json.hasDistinctNames_of_mem hnames.2 hfield, Json.writeFault?_of_mem hwrite hfield⟩
    sources_nodup := List.nodup_nil
    entries := nofun }
  exact .regular (Text.decodeUtf8_utf8 _) (Json.parseChars_line hnames hwrite) hindex hregular

/-- Reading sound bytes gives a regular index or fails, and does nothing else. -/
theorem IsSound.run_readIndex {bytes : Bytes} (h : IsSound bytes) (w : World) :
    (∃ failure, (Store.readIndex bytes).run.run w = (.error failure, w)) ∨
      ∃ i table, i.IsRegular table ∧ (Store.readIndex bytes).run.run w = (.ok i, w) := by
  unfold Store.readIndex
  cases h with
  | unreadable h =>
    rw [h]
    exact .inl ⟨_, rfl⟩
  | regular hdecode hparse hindex h =>
    rw [hdecode]
    dsimp only
    rw [hparse]
    dsimp only
    rw [hindex]
    exact .inr ⟨_, _, h, rfl⟩

/-- A regular index is read back from its document. -/
theorem IsRegular.run_readIndex {i : Index} {table : Table} (h : i.IsRegular table) (w : World) :
    (Store.readIndex (Text.utf8 (Json.object i.fields).document)).run.run w = (.ok i, w) := by
  unfold Store.readIndex
  rw [Text.decodeUtf8_utf8]
  dsimp only
  rw [h.parseChars_document]
  dsimp only
  rw [h.ofJson_eq]
  rfl

end Index

namespace Session

variable {p : Path} {now : Binary64} {pipeline : Pipeline} {source compilation : Json.Fields}
  {payload : String}

theorem isSound_enclose (name : Bytes) (time : UInt32) (stream bytes : Bytes) :
    Index.IsSound (Gzip.enclose name time stream bytes) := by
  unfold Gzip.enclose
  simp only [List.append_assoc]
  obtain ⟨fault, hfault⟩ := Gzip.exists_decodeUtf8_headStart name _
  exact .unreadable hfault

theorem isSound_cutShort (name : String) : Index.IsSound (Gzip.cutShort name) := by
  unfold Gzip.cutShort
  simp only [List.append_assoc]
  obtain ⟨fault, hfault⟩ := Gzip.exists_decodeUtf8_headStart (Gzip.nameBytes name) _
  exact .unreadable hfault

/-- The bytes that are written to a session file, all of them or what they are cut short to. -/
def written : Except (Bytes × Failure) Bytes → Bytes
  | .ok bytes | .error (bytes, _) => bytes

/-- What is written to a session file is sound in the place of an index. -/
theorem isSound_written (hnames : HasDistinctNames pipeline source compilation)
    (hpayload : encode now pipeline source compilation = .ok payload) :
    Index.IsSound (written (fileBytes p now payload)) := by
  have hwrite :
      (Session.payload now pipeline source compilation).writeFault? Json.maxLevels = none ∧
        payload = (Session.payload now pipeline source compilation).line := by
    unfold encode at hpayload
    dsimp only at hpayload
    split at hpayload
    · cases hpayload
    · next hwrite => exact ⟨hwrite, (Except.ok.inj hpayload).symm⟩
  unfold fileBytes
  dsimp only
  by_cases hgzip : isCompressed p = true
  · rw [if_pos hgzip]
    cases now.truncate with
    | error fault => exact isSound_cutShort _
    | ok second =>
      dsimp only
      cases Gzip.timeOf second with
      | error fault => exact isSound_cutShort _
      | ok time =>
        dsimp only [Gzip.compress, written]
        split
        · exact isSound_enclose _ _ _ _
        · exact isSound_enclose _ _ _ _
  · rw [if_neg hgzip, hwrite.2]
    exact Index.isSound_line (hasDistinctNames_payload now hnames) hwrite.1
      (by simp [Index.sessionsField])

end Session

end PassTrace

import PassTrace.Proofs.Session.Escapes
import PassTrace.Proofs.Session.Meaning

/-!
# The fields that are read

A reader of payloads looks at some fields of each object and at no others. Payloads that have the
same values there are read alike, with the same session or the same failure, and with the same
notices: whatever other fields a payload has, or its section for the pipeline, the entry of a pass,
its counts or its change.
-/

namespace PassTrace

namespace Json

/-- Fields with the same values under names. -/
def Fields.SameOn (names : List String) (fields fields' : Fields) : Prop :=
  ∀ name ∈ names, fields.get? name = fields'.get? name

/-- The same value, or two objects whose fields are alike. -/
def SameUpTo (alike : Fields → Fields → Prop) (v v' : Json) : Prop :=
  v = v' ∨ ∃ fields fields', v = .object fields ∧ v' = .object fields' ∧ alike fields fields'

namespace Fields

variable {names : List String} {name other : String} {value : Json} {fields fields' more : Fields}

theorem SameOn.get (h : fields.SameOn names fields') (hname : name ∈ names) :
    fields.get name = fields'.get name := by
  rw [Fields.get, Fields.get, h name hname]

theorem get?_set_of_ne (h : other ≠ name) : (fields.set name value).get? other =
    fields.get? other := by
  unfold get?
  induction fields with
  | nil => simp [set, h.symm]
  | cons field fields ih =>
    rw [set]
    split
    · next hfield => simp [hfield, h.symm]
    · simp only [List.find?_cons]
      split
      · rfl
      · exact ih

/-- Fields are the same under names if their values there are, one after the other. -/
theorem sameOn_iff : fields.SameOn names fields' ↔ names.map fields.get? = names.map fields'.get? :=
  List.map_inj_left.symm

/-- Fields under other names change nothing under the names that are looked at. -/
theorem sameOn_merge (h : ∀ field ∈ more, field.1 ∉ names) :
    fields.SameOn names (fields.merge more) := by
  induction more generalizing fields with
  | nil => exact fun _ _ => rfl
  | cons field more ih =>
    obtain ⟨hfield, hmore⟩ := List.forall_mem_cons.1 h
    intro name hname
    have hne : name ≠ field.1 := fun heq => hfield (heq ▸ hname)
    exact (get?_set_of_ne hne).symm.trans (ih hmore name hname)

end Fields
end Json

theorem Counter.mem_all (counter : Counter) : counter ∈ Counter.all := by
  cases counter <;> decide

namespace Session

/-- The names of the counts of a pass. -/
def countNames : List String :=
  Counter.all.map Counter.name

/-- The fields of an entry that a pass cannot do without, or that tell what it ran on. -/
def coreNames : List String :=
  ["name", "changed", "ir_ref", "scope_type", "scope_target"]

/-- Entries of passes with the same values in all fields that are read. -/
structure EntryAlike (fields fields' : Json.Fields) : Prop where
  core : fields.SameOn coreNames fields'
  counts : Json.SameUpTo (Json.Fields.SameOn countNames) (fields.get "stats") (fields'.get "stats")
  change : Json.SameUpTo (Json.Fields.SameOn LineChange.names) (fields.get "diff_stats")
    (fields'.get "diff_stats")
  remarks : fields.get "remarks" = fields'.get "remarks"

/-- Lists of passes that are the same value, or have entries that are alike. -/
def PassesAlike (v v' : Json) : Prop :=
  v = v' ∨ ∃ entries entries', v = .array entries ∧ v' = .array entries' ∧
    List.Forall₂ (Json.SameUpTo EntryAlike) entries entries'

/-- The fields of the section for the pipeline that are read, apart from the passes. -/
def partNames : List String :=
  ["ir_table", "total_passes", "changed_count", "unchanged_count"]

/-- Sections for the pipeline with the same values in all fields that are read. -/
structure PartAlike (part part' : Json.Fields) : Prop where
  same : part.SameOn partNames part'
  passes : PassesAlike (part.get "passes") (part'.get "passes")

/-- The fields of a payload that are read, apart from the section for the pipeline. -/
def originNames : List String :=
  ["version", "source", "compilation", "timestamp", "tool_version", "metadata"]

/-- Payloads with the same values in all fields that are read. -/
structure PayloadAlike (fields fields' : Json.Fields) : Prop where
  same : fields.SameOn originNames fields'
  part : Json.SameUpTo PartAlike (fields.get "pipeline") (fields'.get "pipeline")

open Reporting (require need)

variable {fields fields' part part' : Json.Fields} {entry entry' : Json}
  {entries entries' : List Json}
  {table : TextTable} {position : Nat} {s : Scan} {v : Json} {payload payload' : Payload}

/-! ### Entries -/

theorem ofFields?_congr (h : fields.SameOn countNames fields') :
    Counts.ofFields? fields = Counts.ofFields? fields' := by
  have hget (counter : Counter) : fields.get counter.name = fields'.get counter.name :=
    h.get (List.mem_map_of_mem counter.mem_all)
  simp only [Counts.ofFields?, hget]

theorem readCounts_congr (position : Nat)
    (h : Json.SameUpTo (Json.Fields.SameOn countNames) (fields.get "stats") (fields'.get "stats")) :
    readCounts fields position = readCounts fields' position := by
  unfold readCounts
  rcases h with h | ⟨stated, stated', hstated, hstated', h⟩
  · rw [h]
  · rw [hstated, hstated']
    simp only [Json.fieldsOrNone, ofFields?_congr h]

theorem ofFields_congr (h : fields.SameOn LineChange.names fields') :
    LineChange.ofFields fields = LineChange.ofFields fields' := by
  have hnumber {name : String} (hname : name ∈ LineChange.names) :
      LineChange.number fields name = LineChange.number fields' name := by
    rw [LineChange.number, LineChange.number, h name hname]
  unfold LineChange.ofFields
  rw [hnumber (by decide : "lines_before" ∈ LineChange.names),
    hnumber (by decide : "lines_after" ∈ LineChange.names),
    hnumber (by decide : "lines_changed" ∈ LineChange.names)]

theorem readChange_congr (position : Nat)
    (h : Json.SameUpTo (Json.Fields.SameOn LineChange.names) (fields.get "diff_stats")
      (fields'.get "diff_stats")) :
    readChange fields position = readChange fields' position := by
  unfold readChange
  rcases h with h | ⟨stated, stated', hstated, hstated', h⟩
  · rw [h]
  · rw [hstated, hstated']
    simp only [ofFields_congr h]

theorem readScope_congr (position : Nat) (h : fields.SameOn coreNames fields') :
    readScope fields position = readScope fields' position := by
  rw [readScope_eq_bind, readScope_eq_bind, h.get (by decide : "scope_type" ∈ coreNames),
    h.get (by decide : "scope_target" ∈ coreNames)]

/-- Entries that are alike are read alike. -/
theorem readPass_congr (table : TextTable) (s : Scan) (position : Nat)
    (h : Json.SameUpTo EntryAlike entry entry') :
    readPass table s position entry = readPass table s position entry' := by
  rcases h with rfl | ⟨fields, fields', rfl, rfl, h⟩
  · rfl
  · rw [readPass_eq_bind, readPass_eq_bind]
    simp only [Json.asObject?, need, pure_bind, h.core.get (by decide : "name" ∈ coreNames),
      h.core.get (by decide : "changed" ∈ coreNames), h.core.get (by decide : "ir_ref" ∈ coreNames),
      readScope_congr position h.core, readCounts_congr position h.counts,
      readChange_congr position h.change, h.remarks]

/-- Lists of entries that are alike are read alike. -/
theorem readPasses_congr (table : TextTable) (h : List.Forall₂ (Json.SameUpTo EntryAlike)
    entries entries')
    (position : Nat) (s : Scan) :
    readPasses table position s entries = readPasses table position s entries' := by
  induction h generalizing position s with
  | nil => rfl
  | cons hentry _ ih =>
    rw [readPasses, readPasses, readPass_congr table s position hentry]
    exact congrArg _ (funext fun s' => ih (position + 1) s')

/-! ### Payloads -/

theorem readMetadata_congr (version : Int) (h : fields.SameOn originNames fields')
    (hpart : part.SameOn partNames part') :
    readMetadata fields part version = readMetadata fields' part' version := by
  unfold readMetadata
  rw [h.get (by decide : "source" ∈ originNames), h.get (by decide : "compilation" ∈ originNames),
    h.get (by decide : "timestamp" ∈ originNames), h.get (by decide : "tool_version" ∈ originNames),
    h.get (by decide : "metadata" ∈ originNames),
    hpart.get (by decide : "changed_count" ∈ partNames),
    hpart.get (by decide : "unchanged_count" ∈ partNames)]

/-- What is read of the section for the pipeline, in a payload of a version. -/
def readPart (fields part : Json.Fields) (version : Int) : Reporting Session := do
  let rawTable ← need .noTable (part.get "ir_table").asObject?
  let rawPasses ← need .noPassList (part.get "passes").asArray?
  let table ← readTable rawTable
  let initial ← need .noInitialEntry (table.get? initialKey)
  let s ← readPasses table 1 ⟨[], [(initialKey, 0)]⟩ rawPasses
  let passes := s.passes.reverse
  let stated := part.get "total_passes"
  require (!contradicts stated passes.length) (.sizeMismatch stated passes.length)
  return ⟨⟨initial, passes⟩, readMetadata fields part version⟩

/-- A payload is read as its version and its section for the pipeline. -/
theorem ofJson_object (fields : Json.Fields) : ofJson (.object fields) = (do
    let version ← readVersion (fields.get "version")
    let part ← need .noPipeline (fields.get "pipeline").asObject?
    readPart fields part version) :=
  rfl

theorem readPart_congr (version : Int) (h : fields.SameOn originNames fields')
    (hpart : PartAlike part part') :
    readPart fields part version = readPart fields' part' version := by
  unfold readPart
  rw [hpart.same.get (by decide : "ir_table" ∈ partNames),
    hpart.same.get (by decide : "total_passes" ∈ partNames),
      readMetadata_congr version h hpart.same]
  rcases hpart.passes with hpasses | ⟨entries, entries', hentries, hentries', hpasses⟩
  · rw [hpasses]
  · rw [hentries, hentries']
    simp only [Json.asArray?, need, pure_bind, readPasses_congr _ hpasses]

/-- Payloads that are alike are read alike. -/
theorem ofJson_congr (h : PayloadAlike fields fields') :
    ofJson (.object fields) = ofJson (.object fields') := by
  rw [ofJson_object, ofJson_object, h.same.get (by decide : "version" ∈ originNames)]
  rcases h.part with hpart | ⟨part, part', hpart, hpart', halike⟩
  · have hsame (part : Json.Fields) (version : Int) :
        readPart fields part version = readPart fields' part version :=
      readPart_congr version h.same ⟨fun _ _ => rfl, .inl rfl⟩
    simp only [hpart, hsame]
  · simp only [hpart, hpart', Json.asObject?, need, pure_bind, readPart_congr _ h.same halike]

/-- A payload that is read as JSON is decoded as its value. -/
theorem decode_of_parses (h : payload.Parses (.ok v)) : decode payload = ofJson v := by
  have hread : readPayload payload = pure v := by
    cases payload with
    | text text =>
      change Json.parse text = .ok v at h
      rw [readPayload, h]
      rfl
    | bytes bytes =>
      obtain ⟨cs, hdecode, hparse⟩ := h
      rw [readPayload, hdecode]
      change ofParse (Json.parseUnmarked cs) = pure v
      rw [hparse]
      rfl
  rw [decode, hread, pure_bind]

/-- Payloads with the same values in all fields that are read, whatever their other fields are, are
read as the same session or refused for the same reason, with the same notices. -/
theorem decode_alike (h : PayloadAlike fields fields') :
    ofJson (.object fields) = ofJson (.object fields') ∧ ∀ payload payload' : Payload,
      payload.Parses (.ok (.object fields)) → payload'.Parses (.ok (.object fields')) →
        decode payload = decode payload' := by
  have hsame := ofJson_congr h
  refine ⟨hsame, fun payload payload' hparse hparse' => ?_⟩
  rw [decode_of_parses hparse, decode_of_parses hparse', hsame]

/-- The entry of a pass with counts and a change, and with more fields in each object. -/
def entryWith (more : Json.Fields) : Json.Fields :=
  Json.Fields.merge [("name", .string "gvn"), ("changed", .bool true),
    ("ir_ref", .string initialKey),
    ("stats", .object (Counts.toFields { instructions := 3 } |>.merge more)),
    ("diff_stats", .object (LineChange.toFields ⟨2, 2, 1⟩ |>.merge more))] more

/-- The section for the pipeline with one pass, and with more fields in each object. -/
def partWith (more : Json.Fields) : Json.Fields :=
  Json.Fields.merge [("ir_table", .object emptyTable),
    ("passes", .array [.object (entryWith more)])] more

/-- A payload with one pass, and with more fields in each object but the table. -/
def payloadWith (more : Json.Fields) : Json.Fields :=
  Json.Fields.merge [("version", .int schemaVersion), ("pipeline", .object (partWith more))] more

/-- Fields that no reader of payloads looks at. -/
def remarkFields : Json.Fields :=
  [("note", .array [.null, .object [("name", .int 1)]]), ("Name", .bool false)]

/-- The session that the payload without them is read as. -/
def countedSession : Session where
  pipeline.passes :=
    [{ name := "gvn", scope := ⟨.unknown, none⟩, changed := true, reference := .sameAs 0,
       counts := some { instructions := 3 }, change := some ⟨2, 2, 1⟩ }]
  metadata.statistics := [("changed_count", .null), ("unchanged_count", .null)]

/-- The payload with such fields or without them is the one that its characters are read as. -/
theorem parses_payloadWith {more : Json.Fields} (hmore : more = [] ∨ more = remarkFields) :
    (Payload.text (Json.object (payloadWith more)).asciiLine).Parses
      (.ok (.object (payloadWith more))) := by
  have hnames : (Json.object (payloadWith more)).HasDistinctNames := by
    rcases hmore with rfl | rfl <;>
      simp [payloadWith, partWith, entryWith, emptyTable, Json.Fields.merge, Counts.toFields,
        LineChange.toFields, Counter.all, Counter.name, Json.HasDistinctNames, initialKey,
        Json.FieldsHaveDistinctNames, Json.ItemsHaveDistinctNames, remarkFields, Json.Fields.set]
  have hlimits : (Json.object (payloadWith more)).writeFault? Json.maxLevels = none := by
    rcases hmore with rfl | rfl <;> rfl
  exact Json.parse_asciiLine hnames hlimits

/-- The payload without them is read. -/
theorem decode_payloadWith :
    decode (.text (Json.object (payloadWith [])).asciiLine) = pure countedSession := by
  have htable : readTable emptyTable = pure [(initialKey, [])] := by
    simp [readTable, emptyTable, readEntry_packLines]
  rw [decode_of_parses (parses_payloadWith (.inl rfl))]
  change ofJson (payloadOf emptyTable [.object (entryWith [])]) = _
  rw [ofJson_payloadOf, htable, pure_bind]
  rfl

/-- A payload with such fields in each object is read as the payload without them. -/
theorem decode_alike_padded :
    PayloadAlike (payloadWith []) (payloadWith remarkFields) ∧ ∃ session,
      decode (.text (Json.object (payloadWith [])).asciiLine) = pure session ∧
        decode (.text (Json.object (payloadWith remarkFields)).asciiLine) = pure session := by
  have hentry : EntryAlike (entryWith []) (entryWith remarkFields) :=
    ⟨Json.Fields.sameOn_iff.2 rfl, .inr ⟨_, _, rfl, rfl, Json.Fields.sameOn_merge (by decide)⟩,
      .inr ⟨_, _, rfl, rfl, Json.Fields.sameOn_merge (by decide)⟩, rfl⟩
  have hpart : PartAlike (partWith []) (partWith remarkFields) :=
    ⟨Json.Fields.sameOn_iff.2 rfl,
      .inr ⟨_, _, rfl, rfl, .cons (.inr ⟨_, _, rfl, rfl, hentry⟩) .nil⟩⟩
  have halike : PayloadAlike (payloadWith []) (payloadWith remarkFields) :=
    ⟨Json.Fields.sameOn_iff.2 rfl, .inr ⟨_, _, rfl, rfl, hpart⟩⟩
  have hsame := (decode_alike halike).2 _ _ (parses_payloadWith (.inl rfl))
    (parses_payloadWith (.inr rfl))
  exact ⟨halike, _, decode_payloadWith, hsame.symm.trans decode_payloadWith⟩

end Session
end PassTrace

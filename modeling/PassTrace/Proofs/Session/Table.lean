import Mathlib.Data.Finset.Card
import Mathlib.Data.Finset.Image
import PassTrace.Proofs.Session.Entries
import PassTrace.Proofs.Session.RoundTrip
import PassTrace.Proofs.Snapshot.References

/-!
# The table that is written

Saving takes up the text at each index in turn: a text that is met for the first time is put behind
the others, and a text that was met keeps its number. This holds whether a pass carries its text,
refers to an earlier one, or refers nowhere, so that the table has each text of the pipeline once
and no other.
-/

namespace PassTrace

namespace Interning

variable {t : Interning} {p : Pipeline} {initial lines : Lines} {rest : List Lines} {k number : Nat}

/-- The texts met after an initial one. -/
def ofTexts (initial : Lines) (rest : List Lines) : Interning :=
  rest.foldl addText (start initial)

theorem ofTexts_concat (initial : Lines) (rest : List Lines) (lines : Lines) :
    ofTexts initial (rest ++ [lines]) = (ofTexts initial rest).addText lines := by
  unfold ofTexts
  rw [List.foldl_append]
  rfl

/-- A text is taken up whatever notices there are. -/
theorem addText_notices (t : Interning) (lines : Lines) (notices : List Notice) :
    addText { t with notices } lines = { t.addText lines with notices } := by
  unfold addText
  dsimp only
  cases t.texts.findIdx? (· = lines) <;> rfl

/-- A text that is not there yet is put behind the others. -/
theorem texts_addText (t : Interning) (lines : Lines) :
    (t.addText lines).texts = if lines ∈ t.texts then t.texts else t.texts ++ [lines] := by
  unfold addText
  cases hfind : t.texts.findIdx? (· = lines) with
  | some number =>
    obtain ⟨hlt, hfound, -⟩ := List.findIdx?_eq_some_iff_getElem.1 hfind
    have hlines : t.texts[number] = lines := by simpa using hfound
    rw [if_pos (hlines ▸ List.getElem_mem hlt)]
  | none =>
    rw [if_neg]
    intro hmem
    simpa using List.findIdx?_eq_none_iff.1 hfind lines hmem

/-- A text that is there once is taken up with its number. -/
theorem addText_of_getElem? (hdistinct : t.texts.Nodup) (hlines : t.texts[number]? = some lines) :
    t.addText lines = { t with numbers := t.numbers ++ [number] } := by
  obtain ⟨hlt, hget⟩ := List.getElem?_eq_some_iff.1 hlines
  have hfind : t.texts.findIdx? (· = lines) = some number := by
    refine List.findIdx?_eq_some_iff_getElem.2 ⟨hlt, by simpa using hget, fun j hj => ?_⟩
    have hne : t.texts[j] ≠ lines := by
      rw [← hget]
      intro heq
      exact absurd (hdistinct.getElem_inj_iff.1 heq) (Nat.ne_of_lt hj)
    simpa using hne
  unfold addText
  rw [hfind]

/-- Different texts stay different. -/
theorem nodup_addText (h : t.texts.Nodup) (lines : Lines) : (t.addText lines).texts.Nodup := by
  rw [texts_addText]
  split
  · exact h
  · next hnew => simpa using List.Nodup.concat hnew h

/-- The texts that are met are different. -/
theorem nodup_ofTexts (initial : Lines) (rest : List Lines) :
    (ofTexts initial rest).texts.Nodup := by
  induction rest using List.reverseRecOn with
  | nil => exact List.nodup_singleton initial
  | append_singleton rest lines ih =>
    rw [ofTexts_concat]
    exact nodup_addText ih lines

/-- The texts taken up are those that are met. -/
theorem mem_ofTexts : lines ∈ (ofTexts initial rest).texts ↔ lines ∈ initial :: rest := by
  induction rest using List.reverseRecOn generalizing lines with
  | nil => rfl
  | append_singleton rest next ih =>
    rw [ofTexts_concat, texts_addText]
    split
    · next hmem =>
      rw [ih] at hmem ⊢
      grind
    · rw [List.mem_append, ih, ← List.mem_append, List.cons_append]

/-- Taking up a pass is taking up the text that it means, apart from the notices. -/
theorem Holds.addPass_eq (h : t.Holds p k) (hdistinct : t.texts.Nodup) {pass : Pass}
    (hpass : p.passes[k]? = some pass) :
    ∃ notices, t.addPass pass = { t.addText (p.meaning (k + 1)) with notices } := by
  rcases h.addPass_cases hpass with htext | ⟨number, hnumber, heq⟩
  · exact htext
  · -- A text that is there already is found where it is, which is the number that is copied.
    rw [heq, addText_of_getElem? hdistinct hnumber]
    exact ⟨_, rfl⟩

/-- The texts that the first `k` passes leave. -/
def textsAfter (p : Pipeline) (k : Nat) : List Lines :=
  (List.range k).map fun i => p.meaning (i + 1)

/-- The first `k` passes are taken up as the texts that they leave. -/
theorem foldl_addPass_eq (p : Pipeline) (hk : k ≤ p.size) : ∃ notices,
    (p.passes.take k).foldl addPass (start p.initial) =
      { ofTexts p.initial (textsAfter p k) with notices } := by
  induction k with
  | zero => exact ⟨[], rfl⟩
  | succ k ih =>
    have hlt : k < p.passes.length := hk
    obtain ⟨notices, hbefore⟩ := ih (by omega)
    have hholds := holds_take p (k := k) (by omega)
    rw [hbefore] at hholds
    obtain ⟨notices', hnext⟩ := hholds.addPass_eq (nodup_ofTexts _ _) (List.getElem?_eq_getElem hlt)
    have htexts : textsAfter p (k + 1) = textsAfter p k ++ [p.meaning (k + 1)] := by
      unfold textsAfter
      rw [List.range_succ, List.map_append]
      rfl
    rw [List.take_succ_eq_append_getElem hlt, List.foldl_append, hbefore, List.foldl_cons,
      List.foldl_nil, hnext, addText_notices, htexts, ofTexts_concat]
    exact ⟨notices', rfl⟩

/-- The table of a pipeline depends on nothing but the texts at its indices. -/
theorem ofPipeline_eq (p : Pipeline) : ∃ notices,
    ofPipeline p = { ofTexts p.initial (textsAfter p p.size) with notices } := by
  obtain ⟨notices, h⟩ := foldl_addPass_eq p (Nat.le_refl p.size)
  rw [Pipeline.size, List.take_length] at h
  exact ⟨notices, h⟩

/-- The texts of a pipeline's table are different. -/
theorem nodup_ofPipeline (p : Pipeline) : (ofPipeline p).texts.Nodup := by
  obtain ⟨notices, h⟩ := ofPipeline_eq p
  rw [h]
  exact nodup_ofTexts _ _

/-- The texts of a pipeline's table are those that its indices mean. -/
theorem mem_ofPipeline (p : Pipeline) :
    lines ∈ (ofPipeline p).texts ↔ ∃ i ≤ p.size, p.meaning i = lines := by
  obtain ⟨notices, h⟩ := ofPipeline_eq p
  rw [h]
  dsimp only
  rw [mem_ofTexts, List.mem_cons]
  unfold textsAfter
  constructor
  · rintro (rfl | hmem)
    · exact ⟨0, Nat.zero_le _, p.meaning_zero⟩
    · obtain ⟨i, hi, rfl⟩ := List.mem_map.1 hmem
      exact ⟨i + 1, List.mem_range.1 hi, rfl⟩
  · rintro ⟨i, hi, rfl⟩
    cases i with
    | zero => exact .inl p.meaning_zero
    | succ i => exact .inr (List.mem_map.2 ⟨i, List.mem_range.2 hi, rfl⟩)

end Interning

/-- The different texts at the indices of a pipeline. -/
def Pipeline.snapshots (p : Pipeline) : Finset Lines :=
  (Finset.range (p.size + 1)).image fun i : Nat => ((Resolver.new p).resolve i).lines

/-- The texts of a pipeline's table are its different texts. -/
theorem Interning.toFinset_ofPipeline (p : Pipeline) :
    (ofPipeline p).texts.toFinset = p.snapshots := by
  have hserves := Resolver.new_serves p
  ext lines
  rw [List.mem_toFinset, mem_ofPipeline, Pipeline.snapshots, Finset.mem_image]
  constructor
  · rintro ⟨i, hi, rfl⟩
    exact ⟨i, Finset.mem_range.2 (by omega), hserves.lines_resolve hi⟩
  · rintro ⟨i, hi, rfl⟩
    have hle : i ≤ p.size := Nat.le_of_lt_succ (Finset.mem_range.1 hi)
    exact ⟨i, hle, (hserves.lines_resolve hle).symm⟩

namespace Session

variable {texts : List Lines} {key : String} {lines : Lines}

/-- A written table holds each text under the key of its number, and nothing else. -/
theorem tableHolds_tableFields : TableHolds (tableFields texts) key lines ↔
    ∃ number, key = textKey number ∧ texts[number]? = some lines := by
  have hread : (readTable (tableFields texts)).outcome = .ok (textTable texts) := by
    rw [readTable_tableFields, Reporting.outcome_pure]
  rw [← get?_eq_some_iff hread]
  constructor
  · intro h
    obtain ⟨entry, hfind, -⟩ := Option.map_eq_some_iff.1 h
    obtain ⟨⟨text, number⟩, -, hentry⟩ := List.mem_map.1 (List.mem_of_find?_eq_some hfind)
    have hkey : entry.1 = key := by simpa using List.find?_some hfind
    obtain rfl : textKey number = key := by rw [← hkey, ← hentry]
    rw [get?_textTable] at h
    exact ⟨number, rfl, h⟩
  · rintro ⟨number, rfl, htext⟩
    rw [get?_textTable, htext]

/-- The texts of a written table are those that it was written from. -/
theorem exists_tableHolds_tableFields :
    (∃ key, TableHolds (tableFields texts) key lines) ↔ lines ∈ texts := by
  rw [List.mem_iff_getElem?]
  simp only [tableHolds_tableFields]
  constructor
  · rintro ⟨key, number, -, htext⟩
    exact ⟨number, htext⟩
  · rintro ⟨number, htext⟩
    exact ⟨_, number, rfl, htext⟩

/-- Where no text is written twice, each has one key. -/
theorem tableHolds_tableFields_unique {key' : String} (hdistinct : texts.Nodup)
    (h : TableHolds (tableFields texts) key lines)
    (h' : TableHolds (tableFields texts) key' lines) :
    key = key' := by
  obtain ⟨number, rfl, htext⟩ := tableHolds_tableFields.1 h
  obtain ⟨number', rfl, htext'⟩ := tableHolds_tableFields.1 h'
  obtain ⟨hlt, -⟩ := List.getElem?_eq_some_iff.1 htext
  rw [(List.getElem?_inj hlt hdistinct).1 (htext.trans htext'.symm)]

/-- A payload keeps the texts of a pipeline: its table has each text at an index under one key and
no other text, and each pass names the key of its text. -/
structure Tabulates (p : Pipeline) (v : Json) (entries : Json.Fields) (passes : List Json) :
    Prop where
  nodup_keys : (entries.map (·.1)).Nodup
  readable : ∀ entry ∈ entries, ∃ lines, EntryHolds entry.2 lines
  key_unique : ∀ {key key' : String} {lines : Lines}, TableHolds entries key lines →
    TableHolds entries key' lines → key = key'
  mem_snapshots : ∀ {lines : Lines}, (∃ key, TableHolds entries key lines) ↔ lines ∈ p.snapshots
  initial : TableHolds entries initialKey p.initial
  length_passes : passes.length = p.size
  pass : ∀ {k : Nat} {entry : Json}, passes[k]? = some entry → ∃ key, NamesText entry key ∧
    TableHolds entries key ((Resolver.new p).resolve ((k + 1 : Nat) : Int)).lines
  length_entries : entries.length = p.snapshots.card
  total : ∃ fields metadata : Json.Fields, v = .object fields ∧
    fields.get "metadata" = .object metadata ∧
    metadata.get "total_ir_entries" = .int p.snapshots.card

/-- The payload of a pipeline keeps its texts. -/
theorem tabulates_payload (now : Binary64) (p : Pipeline) (source compilation : Json.Fields) :
    ∃ entries passes, HasParts (payload now p source compilation) entries passes ∧
      Tabulates p (payload now p source compilation) entries passes := by
  let t := Interning.ofPipeline p
  have hholds : t.Holds p p.size := Interning.holds_ofPipeline p
  have hdistinct : t.texts.Nodup := Interning.nodup_ofPipeline p
  have hserves := Resolver.new_serves p
  have hlength : t.texts.length = p.snapshots.card := by
    rw [← Interning.toFinset_ofPipeline p, List.toFinset_card_of_nodup hdistinct]
  have hnumbers : (t.numbers.drop 1).length = p.size := by
    rw [List.length_drop, hholds.length_numbers]
    omega
  refine ⟨tableFields t.texts, passEntries p t, ⟨_, _, rfl, rfl, rfl, rfl, rfl⟩, ?_⟩
  constructor
  case nodup_keys => exact nodup_tableFields t.texts
  case readable =>
    intro entry hentry
    obtain ⟨named, -, rfl⟩ := List.mem_map.1 hentry
    exact ⟨_, entryHolds_packLines named.1⟩
  case key_unique => exact tableHolds_tableFields_unique hdistinct
  case mem_snapshots =>
    intro lines
    rw [← Interning.toFinset_ofPipeline p, List.mem_toFinset]
    exact exists_tableHolds_tableFields
  case initial =>
    have htext := hholds.meaning_of_number hholds.number_zero
    rw [Pipeline.meaning_zero] at htext
    exact tableHolds_tableFields.2 ⟨0, rfl, htext⟩
  case length_passes =>
    unfold passEntries
    rw [List.length_zipWith, hnumbers, Pipeline.size, Nat.min_self]
  case pass =>
    intro k entry hentry
    unfold passEntries at hentry
    obtain ⟨pass, number, hpass, hnumber, rfl⟩ := List.getElem?_zipWith_eq_some.1 hentry
    obtain ⟨hk, -⟩ := List.getElem?_eq_some_iff.1 hpass
    rw [List.getElem?_drop, Nat.add_comm] at hnumber
    have htext := hholds.meaning_of_number hnumber
    obtain ⟨fields, hfields, -, -, -, -, hkey, -⟩ := pass.entry_fields number
    refine ⟨textKey number, ⟨fields, hfields, hkey⟩, tableHolds_tableFields.2 ⟨number, rfl, ?_⟩⟩
    rw [htext, hserves.lines_resolve hk]
  case length_entries =>
    unfold tableFields
    rw [List.length_map, List.length_zipIdx, hlength]
  case total =>
    refine ⟨_, _, rfl, rfl, ?_⟩
    rw [← hlength]
    rfl

/-- What is written is within the limits of JSON text. -/
theorem isWithinLimits_of_encode {now : Binary64} {p : Pipeline} {source compilation : Json.Fields}
    {text : String} (h : encode now p source compilation = .ok text) :
    (payload now p source compilation).IsWithinLimits := by
  by_contra hbeyond
  obtain ⟨fault, hfault⟩ := encode_of_not_isWithinLimits now p source compilation hbeyond
  rw [hfault] at h
  cases h

/-- The text of a saved pipeline is read as a payload that keeps the pipeline's texts: each once,
and no other. -/
theorem tabulates_of_encode {now : Binary64} {p : Pipeline} {source compilation : Json.Fields}
    {text : String} (hnames : HasDistinctNames p source compilation)
    (h : encode now p source compilation = .ok text) : ∃ v entries passes,
      (Payload.bytes (Text.utf8 text)).Parses (.ok v) ∧ HasParts v entries passes ∧
        Tabulates p v entries passes := by
  have hlimits := isWithinLimits_of_encode h
  rw [encode_of_isWithinLimits now p source compilation hlimits] at h
  obtain rfl := Except.ok.inj h
  obtain ⟨entries, passes, hparts, htabulates⟩ := tabulates_payload now p source compilation
  refine ⟨_, entries, passes, outcome_readPayload_eq_ok.1 ?_, hparts, htabulates⟩
  rw [readPayload_line now p source compilation hnames hlimits, Reporting.outcome_pure]

/-- A pipeline of passes over the whole module, with given references. -/
def wholePipeline (references : List Reference) : Pipeline where
  initial := ["a"]
  passes := references.map fun reference =>
    { name := "gvn", scope := ⟨.module, none⟩, changed := true, reference }

/-- References that lead backwards, to the initial text once more, and nowhere. -/
def scatteredReferences : List Reference :=
  [.inline ["b"], .sameAs 1, .inline ["a"], .sameAs 9, .sameAs 2]

theorem hasDistinctNames_scattered :
    HasDistinctNames (wholePipeline scatteredReferences) fileOrigin [] := by
  simp [wholePipeline, scatteredReferences, fileOrigin, HasDistinctNames, Json.HasDistinctNames,
    Json.FieldsHaveDistinctNames]

theorem encode_scattered : ∃ text,
    encode .zero (wholePipeline scatteredReferences) fileOrigin [] = .ok text :=
  ⟨_, encode_of_isWithinLimits _ _ _ _ <|
    (Json.writeFault?_eq_none_iff _ _).1 (by decide +kernel)⟩

/-- Of the six indices of a pipeline with scattered references three different texts are written. -/
theorem tabulates_of_encode_scattered :
    HasDistinctNames (wholePipeline scatteredReferences) fileOrigin [] ∧
      (wholePipeline scatteredReferences).snapshots.card = 3 ∧ ∃ text v entries passes,
        encode .zero (wholePipeline scatteredReferences) fileOrigin [] = .ok text ∧
          (Payload.bytes (Text.utf8 text)).Parses (.ok v) ∧ HasParts v entries passes ∧
            Tabulates (wholePipeline scatteredReferences) v entries passes := by
  obtain ⟨text, htext⟩ := encode_scattered
  obtain ⟨v, entries, passes, htabulates⟩ := tabulates_of_encode hasDistinctNames_scattered htext
  exact ⟨hasDistinctNames_scattered, by decide +kernel, text, v, entries, passes, htext, htabulates⟩

end Session
end PassTrace

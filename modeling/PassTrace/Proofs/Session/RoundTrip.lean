import PassTrace.Proofs.Json.Limits
import PassTrace.Proofs.Session.Passes

/-!
# Sessions read back

A pipeline that is saved is read back with everything that can be asked of it, although
its references are replaced: the first pass with a text carries it, and the others refer
to that pass. Saving fails only for what JSON text cannot hold.
-/

namespace PassTrace

namespace Json

/-- The items of an array have no objects with a name twice if none of them has. -/
theorem itemsHaveDistinctNames_of_forall {items : List Json}
    (h : ∀ item ∈ items, item.HasDistinctNames) : ItemsHaveDistinctNames items := by
  induction items with
  | nil => trivial
  | cons item items ih =>
    exact ⟨h item List.mem_cons_self, ih fun other hother => h other
      (List.mem_cons_of_mem _ hother)⟩

/-- The fields of an object have no objects with a name twice if none of them has. -/
theorem fieldsHaveDistinctNames_of_forall {fields : Fields}
    (h : ∀ field ∈ fields, field.2.HasDistinctNames) : FieldsHaveDistinctNames fields := by
  induction fields with
  | nil => trivial
  | cons field fields ih =>
    exact ⟨h field List.mem_cons_self, ih fun other hother => h other
      (List.mem_cons_of_mem _ hother)⟩

/-- Whether a value can be written: it is not nested too deeply and holds no long integer. -/
def IsWithinLimits (v : Json) : Prop :=
  v.depth ≤ maxLevels ∧ ¬ v.HoldsLongInteger

end Json

/-- An entry has no name twice, if the remarks of its pass have none. -/
theorem Pass.hasDistinctNames_entry {p : Pass} (number : Nat)
    (hremarks : ∀ remarks ∈ p.remarks, Json.ItemsHaveDistinctNames remarks) :
    (p.entry number).HasDistinctNames := by
  unfold Pass.entry
  have htarget : (Json.ofOption Json.string p.scope.target).HasDistinctNames := by
    cases p.scope.target <;> trivial
  cases p.counts <;> cases p.change <;> cases hp : p.remarks <;>
    simp_all [Json.HasDistinctNames, Json.FieldsHaveDistinctNames, Counts.toFields,
      LineChange.toFields, Counter.all, Counter.name]

namespace Session

/-- Whether the objects that a session is to hold are objects: none has two fields of one name. -/
def HasDistinctNames (p : Pipeline) (source compilation : Json.Fields) : Prop :=
  (Json.object source).HasDistinctNames ∧ (Json.object compilation).HasDistinctNames ∧
    ∀ pass ∈ p.passes, ∀ remarks ∈ pass.remarks, (Json.array remarks).HasDistinctNames

/-- The keys of the table are different. -/
theorem nodup_tableFields (texts : List Lines) : ((tableFields texts).map (·.1)).Nodup := by
  have hkeys : (tableFields texts).map (·.1) = (List.range' 0 texts.length).map textKey := by
    rw [← List.zipIdx_map_snd, List.map_map, tableFields, List.map_map]
    rfl
  rw [hkeys, List.Nodup, List.pairwise_map]
  exact (List.nodup_range' 1).imp fun hne heq => hne (textKey_injective heq)

/-- No object in a payload has two fields of one name. -/
theorem hasDistinctNames_payload (now : Binary64) {p : Pipeline} {source compilation : Json.Fields}
    (h : HasDistinctNames p source compilation) :
    (payload now p source compilation).HasDistinctNames := by
  obtain ⟨hsource, hcompilation, hremarks⟩ := h
  let t := Interning.ofPipeline p
  have htable : (Json.object (tableFields t.texts)).HasDistinctNames := by
    refine ⟨nodup_tableFields t.texts, Json.fieldsHaveDistinctNames_of_forall
      fun field hfield => ?_⟩
    obtain ⟨entry, -, rfl⟩ := List.mem_map.1 hfield
    trivial
  have hpasses : (Json.array (passEntries p t)).HasDistinctNames := by
    refine Json.itemsHaveDistinctNames_of_forall fun item hitem => ?_
    unfold passEntries at hitem
    obtain ⟨i, hi, rfl⟩ := List.getElem_of_mem hitem
    rw [List.getElem_zipWith]
    exact Pass.hasDistinctNames_entry _ (hremarks _ (List.getElem_mem _))
  unfold payload
  simp only [Json.HasDistinctNames, Json.FieldsHaveDistinctNames] at *
  simp [*, t]

/-- What is kept of a pipeline that is saved and read back: everything that can be asked of it. Only
a target of the whole module is dropped, and texts may be found by other references. -/
structure Restores (p q : Pipeline) : Prop where
  size_eq : q.size = p.size
  initial_eq : q.initial = p.initial
  pass_eq : ∀ {i : Nat} {pass : Pass}, p.passes[i]? = some pass → ∃ pass',
    q.passes[i]? = some pass' ∧ pass'.name = pass.name ∧ pass'.changed = pass.changed ∧
      pass'.scope.kind = pass.scope.kind ∧
      pass'.scope.target = (if pass.scope.kind = .module then none else pass.scope.target) ∧
      pass'.change = pass.change ∧ pass'.counts = pass.counts ∧ pass'.remarks = pass.remarks
  resolve_eq : ∀ index : Int,
    ((Resolver.new q).resolve index).lines = ((Resolver.new p).resolve index).lines

/-- What was read of all passes restores the pipeline. -/
theorem Scan.Follows.restores {s : Scan} {p : Pipeline} {t : Interning}
    (h : s.Follows p t.numbers p.size) (ht : t.Holds p p.size) :
    Restores p ⟨p.initial, s.passes.reverse⟩ where
  size_eq := by
    rw [Pipeline.size, List.length_reverse]
    exact h.length_passes
  initial_eq := rfl
  pass_eq := by
    intro i pass hpass
    obtain ⟨hlt, -⟩ := List.getElem?_eq_some_iff.1 hpass
    obtain ⟨reference, hread, -⟩ := h.reread_of_pass hlt hpass
    exact ⟨_, hread, rfl, rfl, rfl, rfl, rfl, rfl, rfl⟩
  resolve_eq := by
    intro index
    have hsize : Pipeline.size ⟨p.initial, s.passes.reverse⟩ = p.size := by
      rw [Pipeline.size, List.length_reverse]
      exact h.length_passes
    rw [((Resolver.new_faithful _).resolve index).1, ((Resolver.new_faithful _).resolve index).1]
    change Pipeline.meaningAt ⟨p.initial, s.passes.reverse⟩ index = p.meaningAt index
    unfold Pipeline.meaningAt
    rw [hsize]
    split
    · exact h.meaning_eq ht (by omega)
    · rfl

/-- The fields of a payload, and of the part that holds its pipeline. -/
theorem payload_fields (now : Binary64) (p : Pipeline) (source compilation : Json.Fields) :
    ∃ fields part : Json.Fields, payload now p source compilation = .object fields ∧
      fields.get "version" = .int schemaVersion ∧ fields.get "source" = .object source ∧
      fields.get "compilation" = .object compilation ∧ fields.get "pipeline" = .object part ∧
      part.get "ir_table" = .object (tableFields (Interning.ofPipeline p).texts) ∧
      part.get "passes" = .array (passEntries p (Interning.ofPipeline p)) ∧
      part.get "total_passes" = .int p.size :=
  ⟨_, _, rfl, rfl, rfl, rfl, rfl, rfl, rfl, rfl⟩

/-- A payload is read as a session that restores the pipeline, without a notice. -/
theorem ofJson_payload (now : Binary64) (p : Pipeline) (source compilation : Json.Fields) :
    ∃ session, ofJson (payload now p source compilation) = pure session ∧
      Restores p session.pipeline ∧ session.metadata.source = source ∧
      session.metadata.compilation = compilation := by
  obtain ⟨fields, part, hpayload, hversion, hsource, hcompilation, hpart, htable,
    hpasses, htotal⟩ :=
    payload_fields now p source compilation
  let t := Interning.ofPipeline p
  have ht : t.Holds p p.size := Interning.holds_ofPipeline p
  have hstart : Scan.Follows ⟨[], [(initialKey, 0)]⟩ p t.numbers 0 := by
    refine ⟨rfl, fun hi _ => absurd hi (Nat.not_lt_zero _), fun hmem => ?_⟩
    obtain ⟨rfl, rfl⟩ := Prod.mk.inj (List.mem_singleton.1 hmem)
    exact ⟨Nat.le_refl _, 0, ht.number_zero, rfl⟩
  obtain ⟨s, hread, hs⟩ := readPasses_drop ht hstart (Nat.zero_le _)
  have hrestores := hs.restores ht
  have hinitial : (textTable t.texts).get? initialKey = some p.initial := by
    have h := get?_textTable t.texts 0
    rw [ht.meaning_of_number ht.number_zero, Pipeline.meaning_zero] at h
    exact h
  have hcount : contradicts (.int p.size) s.passes.reverse.length = false := by
    have hsize : s.passes.reverse.length = p.size := hrestores.size_eq
    simp [contradicts, hsize]
  have hvalid : readVersion (.int schemaVersion) = pure (schemaVersion : Int) := rfl
  have htexts : readTable (tableFields t.texts) = pure (textTable t.texts) :=
    readTable_tableFields t.texts
  refine ⟨⟨⟨p.initial, s.passes.reverse⟩, readMetadata fields part schemaVersion⟩, ?_, hrestores,
    ?_, ?_⟩
  · unfold ofJson
    simp only [hpayload, hversion, hpart, htable, hpasses, htotal, Json.asObject?, Json.asArray?,
      Reporting.need, pure_bind, hvalid]
    change (readTable (tableFields t.texts) >>= _) = _
    rw [htexts, pure_bind, hinitial]
    simp only [pure_bind]
    change (readPasses (textTable t.texts) 1 _ (passEntries p t) >>= _) = _
    rw [List.drop_zero] at hread
    rw [hread, pure_bind, hcount]
    rfl
  · simp [readMetadata, hsource, Json.fieldsOrNone]
  · simp [readMetadata, hcompilation, Json.fieldsOrNone]

section Limits

variable (now : Binary64) (p : Pipeline) (source compilation : Json.Fields)

/-- A payload within the limits of JSON text is saved as its text. -/
theorem encode_of_isWithinLimits (h : (payload now p source compilation).IsWithinLimits) :
    encode now p source compilation = .ok (payload now p source compilation).line := by
  have hwrite := (Json.writeFault?_eq_none_iff _ Json.maxLevels).2 h
  unfold encode
  dsimp only
  rw [hwrite]

/-- A payload beyond the limits of JSON text is not saved. -/
theorem encode_of_not_isWithinLimits (h : ¬ (payload now p source compilation).IsWithinLimits) :
    ∃ fault, encode now p source compilation = .error (.notWritten fault) := by
  cases hwrite : (payload now p source compilation).writeFault? Json.maxLevels with
  | none => exact absurd ((Json.writeFault?_eq_none_iff _ Json.maxLevels).1 hwrite) h
  | some fault =>
    refine ⟨fault, ?_⟩
    unfold encode
    dsimp only
    rw [hwrite]

/-- The bytes of a payload's text denote the payload. -/
theorem readPayload_line (hnames : HasDistinctNames p source compilation)
    (hlimits : (payload now p source compilation).IsWithinLimits) :
    readPayload (.bytes (Text.utf8 (payload now p source compilation).line)) =
      pure (payload now p source compilation) := by
  have hwrite := (Json.writeFault?_eq_none_iff _ Json.maxLevels).2 hlimits
  have htext : (payload now p source compilation).line.toList =
      Json.render false (payload now p source compilation) := String.toList_ofList
  obtain ⟨cs, hstart⟩ : ∃ cs, (payload now p source compilation).line.toList =
      '{' :: '"' :: cs := by
    obtain ⟨fields, part, hpayload, hversion, -⟩ := payload_fields now p source compilation
    have hne : fields ≠ [] := by
      rintro rfl
      cases hversion
    obtain ⟨cs, hcs⟩ := Json.renderFields_start false hne ['}']
    refine ⟨cs, ?_⟩
    rw [htext, hpayload, Json.render, hcs]
  unfold readPayload
  dsimp only
  rw [Text.decodeAny_utf8 hstart, htext]
  dsimp only
  rw [Json.parseUnmarked_render (hasDistinctNames_payload now hnames) hwrite false]
  rfl

/-- The bytes of a payload's text are read as a session that restores the pipeline and its
origin. -/
theorem decode_line (hnames : HasDistinctNames p source compilation)
    (hlimits : (payload now p source compilation).IsWithinLimits) :
    ∃ session,
      decode (.bytes (Text.utf8 (payload now p source compilation).line)) = pure session ∧
      Restores p session.pipeline ∧ session.metadata.source = source ∧
      session.metadata.compilation = compilation := by
  obtain ⟨session, hsession, hkept⟩ := ofJson_payload now p source compilation
  refine ⟨session, ?_, hkept⟩
  unfold decode
  rw [readPayload_line now p source compilation hnames hlimits, pure_bind]
  exact hsession

end Limits

/-- A pipeline whose references lead nowhere: beyond the last pass, and to the pass itself. -/
def danglingPipeline : Pipeline where
  initial := ["define void @f()"]
  passes :=
    [{ name := "sroa", scope := ⟨.module, some "f"⟩, changed := true, reference := .sameAs 5,
       remarks := some [.object [("line", .int 3)]] },
     { name := "gvn", scope := ⟨.function, some "f"⟩, changed := false, reference := .sameAs 2 }]

/-- The origin of a pipeline: its file. -/
def fileOrigin : Json.Fields := [("file", .string "a.ll"), ("size", .int 12)]

end Session
end PassTrace

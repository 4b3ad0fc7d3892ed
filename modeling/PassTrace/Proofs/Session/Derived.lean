import PassTrace.Proofs.Session.Fields

/-!
# Derived fields

Counts, change and remarks are computed from the pipeline, and the entry of a pass may state
anything in their place. Whatever it states, the rest of the session is read as before; what is
malformed is dropped. An infinite number in a change is the exception: it is not dropped, and
nothing is read then.
-/

namespace PassTrace
namespace Session

open Reporting

/-- An entry states counts: an integer for each counter. -/
def StatesCounts (fields : Json.Fields) (c : Counts) : Prop :=
  ∃ given : Json.Fields, fields.get "stats" = .object given ∧
    ∀ counter : Counter, given.get counter.name = .int (c.get counter)

/-- An entry states a change: three values that are read as integers. -/
def StatesChange (fields : Json.Fields) (c : LineChange) : Prop :=
  ∃ given : Json.Fields, fields.get "diff_stats" = .object given ∧
    LineChange.number given "lines_before" = .ok c.before ∧
    LineChange.number given "lines_after" = .ok c.after ∧
    LineChange.number given "lines_changed" = .ok c.changed

/-- Derived fields are those that an entry states, and missing where it states none. -/
structure Derives (fields : Json.Fields) (counts : Option Counts) (change : Option LineChange)
    (remarks : Option (List Json)) : Prop where
  counts : ∀ c, counts = some c ↔ StatesCounts fields c
  change : ∀ c, change = some c ↔ StatesChange fields c
  remarks : ∀ items, remarks = some items ↔ fields.get "remarks" = .array items

/-- A value has the same values as another in all fields that are read, but for the entry of the
pass at an index. There it states other fields, with the same values under all names that are not
derived. -/
def Restates (v v' : Json) (index : Nat) (stated : Json.Fields) : Prop :=
  ∃ fields fields' part part' entry : Json.Fields, ∃ above below : List Json,
    v = .object fields ∧ v' = .object fields' ∧ fields.SameOn originNames fields' ∧
    fields.get "pipeline" = .object part ∧ fields'.get "pipeline" = .object part' ∧
    part.SameOn partNames part' ∧
    part.get "passes" = .array (above ++ .object entry :: below) ∧
    part'.get "passes" = .array (above ++ .object stated :: below) ∧
    entry.SameOn coreNames stated ∧ index = above.length + 1

/-- A session with other derived fields in the pass at an index. -/
def rederived (session : Session) (index : Nat) (counts : Option Counts)
    (change : Option LineChange)
    (remarks : Option (List Json)) : Session :=
  { session with
    pipeline := session.pipeline.modifyPass index fun pass =>
      { pass with counts, change, remarks } }

variable {fields fields' stated part : Json.Fields} {v v' : Json} {above below entries : List Json}
  {table : TextTable} {position index : Nat} {version : Int} {s s' : Scan} {session : Session}
  {payload payload' : Payload} {counts : Option Counts} {change : Option LineChange}

/-! ### What an entry states -/

/-- Fields state counts if there is an integer for each counter. -/
theorem ofFields?_eq_some_iff {c : Counts} : Counts.ofFields? fields = some c ↔
    ∀ counter : Counter, fields.get counter.name = .int (c.get counter) := by
  unfold Counts.ofFields?
  constructor
  · intro h counter
    split at h
    · next hall =>
      obtain rfl := Option.some.inj h
      have hint := List.all_eq_true.1 hall counter counter.mem_all
      obtain ⟨n, hn⟩ := Option.isSome_iff_exists.1 hint
      rw [Counts.get_ofFunction, hn]
      exact Json.asInt?_eq_some_iff.1 hn
    · cases h
  · intro h
    simp only [h, Json.asInt?, Option.isSome_some, List.all_eq_true, implies_true, if_true,
      Option.getD_some]
    rfl

/-- Fields state a change if its three numbers are read. -/
theorem ofFields_eq_ok_iff {c : LineChange} : LineChange.ofFields fields = .ok c ↔
    LineChange.number fields "lines_before" = .ok c.before ∧
      LineChange.number fields "lines_after" = .ok c.after ∧
      LineChange.number fields "lines_changed" = .ok c.changed := by
  unfold LineChange.ofFields
  cases LineChange.number fields "lines_before" <;>
    cases LineChange.number fields "lines_after" <;>
    cases LineChange.number fields "lines_changed" <;>
    cases c <;> simp [bind, Except.bind, pure, Except.pure]

/-- The counts that are read are those that the entry states. -/
theorem counts_eq_some_iff (h : (readCounts fields position).outcome = .ok counts) (c : Counts) :
    counts = some c ↔ StatesCounts fields c := by
  unfold StatesCounts
  simp only [← ofFields?_eq_some_iff]
  unfold readCounts at h
  cases hstats : fields.get "stats" with
  | object given =>
    have hread : counts = Counts.ofFields? given := by
      rw [hstats] at h
      simp only [Json.fieldsOrNone] at h
      cases hgiven : Counts.ofFields? given <;> rw [hgiven] at h <;> exact (Except.ok.inj h).symm
    simp only [hread, Json.object.injEq, exists_eq_left']
  | _ =>
    rw [hstats] at h
    obtain rfl := Except.ok.inj h
    simp

/-- The change that is read is the one that the entry states. -/
theorem change_eq_some_iff (h : (readChange fields position).outcome = .ok change)
    (c : LineChange) :
    change = some c ↔ StatesChange fields c := by
  unfold StatesChange
  simp only [← ofFields_eq_ok_iff]
  unfold readChange at h
  cases hchange : fields.get "diff_stats" with
  | object given =>
    rw [hchange] at h
    dsimp only at h
    simp only [Json.object.injEq, exists_eq_left']
    cases hgiven : LineChange.ofFields given with
    | ok c' =>
      rw [hgiven] at h
      obtain rfl := Except.ok.inj h
      simp
    | error failure =>
      rw [hgiven] at h
      dsimp only at h
      split at h
      · obtain rfl := Except.ok.inj h
        simp
      · cases h
  | _ =>
    rw [hchange] at h
    obtain rfl := Except.ok.inj h
    simp

theorem statesInfinite_object : StatesInfinite (.object fields) ↔
    ∃ given, fields.get "diff_stats" = .object given ∧ IsInfinite given := by
  constructor
  · rintro ⟨_, given, heq, h⟩
    obtain rfl := Json.object.inj heq
    exact ⟨given, h⟩
  · rintro ⟨given, h⟩
    exact ⟨fields, given, rfl, h⟩

/-- What is read of the derived fields of an entry is what it states. -/
theorem derives_of_outcome (hcounts : (readCounts fields position).outcome = .ok counts)
    (hchange : (readChange fields position).outcome = .ok change) :
    Derives fields counts change (fields.get "remarks").asArray? :=
  ⟨counts_eq_some_iff hcounts, change_eq_some_iff hchange, fun _ => Json.asArray?_eq_some_iff⟩

/-- An entry states its derived fields in one way only. -/
theorem Derives.unique {counts' : Option Counts} {change' : Option LineChange}
    {remarks remarks' : Option (List Json)} (h : Derives fields counts change remarks)
    (h' : Derives fields counts' change' remarks') :
    counts = counts' ∧ change = change' ∧ remarks = remarks' :=
  ⟨Option.ext fun c => (h.counts c).trans (h'.counts c).symm,
    Option.ext fun c => (h.change c).trans (h'.change c).symm,
    Option.ext fun items => (h.remarks items).trans (h'.remarks items).symm⟩

/-! ### Passes -/

/-- Reads what a pass has besides its derived fields, and tells the keys met then. -/
def readCore (table : TextTable) (s : Scan) (position : Nat) (fields : Json.Fields) :
    Reporting (Pass × List (String × Nat)) := do
  let name ← need (.badPass position .noName) (fields.get "name").asString?
  let changed ← need (.badPass position .noChangedFlag) (fields.get "changed").asBool?
  let key ← need (.badPass position .noReference) (fields.get "ir_ref").asString?
  let lines ← need (.badPass position (.unknownEntry key)) (table.get? key)
  let scope ← readScope fields position
  let (reference, firstAt) := s.meet position key lines
  return ({ name, scope, changed, reference }, firstAt)

instance isSteady_readCore (table : TextTable) (s : Scan) (position : Nat) (fields : Json.Fields) :
    (readCore table s position fields).IsSteady := by
  unfold readCore
  infer_instance

/-- A pass is read as its core and its derived fields. -/
theorem readPass_object (table : TextTable) (s : Scan) (position : Nat) (fields : Json.Fields) :
    readPass table s position (.object fields) = (do
      let (core, firstAt) ← readCore table s position fields
      let counts ← readCounts fields position
      let change ← readChange fields position
      return ⟨{ core with counts, change, remarks := (fields.get "remarks").asArray? } :: s.passes,
        firstAt⟩) := by
  rw [readPass_eq_bind]
  simp only [readCore, Json.asObject?, need, pure_bind, bind_assoc]

theorem readCore_congr (table : TextTable) (s : Scan) (position : Nat)
    (h : fields.SameOn coreNames stated) :
    readCore table s position fields = readCore table s position stated := by
  unfold readCore
  rw [h.get (by decide : "name" ∈ coreNames), h.get (by decide : "changed" ∈ coreNames),
    h.get (by decide : "ir_ref" ∈ coreNames), readScope_congr position h]

theorem outcome_readPass_eq_ok : (readPass table s position (.object fields)).outcome = .ok s' ↔
    ∃ core counts change, (readCore table s position fields).outcome = .ok (core, s'.firstAt) ∧
      (readCounts fields position).outcome = .ok counts ∧
      (readChange fields position).outcome = .ok change ∧
      s'.passes =
        { core with counts, change, remarks := (fields.get "remarks").asArray? } :: s.passes := by
  rw [readPass_object]
  simp only [bind_pure_comp, outcome_bind_eq_ok, outcome_map_eq_ok]
  constructor
  · rintro ⟨⟨core, firstAt⟩, hcore, counts, hcounts, change, hchange, rfl⟩
    exact ⟨core, counts, change, hcore, hcounts, hchange, rfl⟩
  · rintro ⟨core, counts, change, hcore, hcounts, hchange, hpasses⟩
    refine ⟨(core, s'.firstAt), hcore, counts, hcounts, change, hchange, ?_⟩
    rw [← hpasses]

/-- What is read of an entry does not depend on the passes before it, but on the keys met. -/
theorem readPass_frame {entry : Json} (h : (readPass table s position entry).outcome = .ok s') :
    ∃ pass, s'.passes = pass :: s.passes ∧ ∀ others : List Pass,
      (readPass table ⟨others, s.firstAt⟩ position entry).outcome =
        .ok ⟨pass :: others, s'.firstAt⟩ := by
  obtain ⟨_, _, _, ⟨fields, rfl, -⟩, -⟩ := readPass_cases h
  obtain ⟨core, counts, change, hcore, hcounts, hchange, hpasses⟩ := outcome_readPass_eq_ok.1 h
  refine ⟨_, hpasses, fun others => ?_⟩
  exact outcome_readPass_eq_ok.2 ⟨core, counts, change, hcore, hcounts, hchange, rfl⟩

/-- What is read of entries does not depend on the passes before them, but on the keys met. -/
theorem readPasses_frame (h : (readPasses table position s entries).outcome = .ok s') :
    ∃ read, s'.passes = read ++ s.passes ∧ read.length = entries.length ∧ ∀ others : List Pass,
      (readPasses table position ⟨others, s.firstAt⟩ entries).outcome =
        .ok ⟨read ++ others, s'.firstAt⟩ := by
  induction entries generalizing position s with
  | nil =>
    obtain rfl := Except.ok.inj h
    exact ⟨[], rfl, rfl, fun _ => rfl⟩
  | cons entry entries ih =>
    rw [readPasses, outcome_bind_eq_ok] at h
    obtain ⟨next, hnext, h⟩ := h
    obtain ⟨pass, hpass, hentry⟩ := readPass_frame hnext
    obtain ⟨read, hread, hlength, hentries⟩ := ih h
    refine ⟨read ++ [pass], ?_, by simp [hlength], fun others => ?_⟩
    · rw [hread, hpass, List.append_assoc, List.singleton_append]
    · rw [readPasses, outcome_bind_eq_ok, List.append_assoc, List.singleton_append]
      exact ⟨_, hentry others, hentries (pass :: others)⟩

/-- Entries are read one part after the other. -/
theorem readPasses_append (table : TextTable) (position : Nat) (s : Scan)
    (above below : List Json) :
    readPasses table position s (above ++ below) = (do
      let s ← readPasses table position s above
      readPasses table (position + above.length) s below) := by
  induction above generalizing position s with
  | nil => rfl
  | cons entry above ih =>
    simp only [List.cons_append, readPasses, ih, bind_assoc, List.length_cons, Nat.add_assoc,
      Nat.add_comm 1]

/-- With an entry that has the same core, a pass is read with other derived fields. -/
theorem readPass_restated (h : (readPass table s position (.object fields)).outcome = .ok s')
    (hcore : fields.SameOn coreNames stated) (hfinite : ¬ StatesInfinite (.object stated)) :
    ∃ pass counts change remarks, Derives stated counts change remarks ∧
      s'.passes = pass :: s.passes ∧
      (readPass table s position (.object stated)).outcome =
        .ok ⟨{ pass with counts, change, remarks } :: s.passes, s'.firstAt⟩ := by
  obtain ⟨core, _, _, hread, -, -, hpasses⟩ := outcome_readPass_eq_ok.1 h
  rw [readCore_congr table s position hcore] at hread
  obtain ⟨counts, hcounts⟩ := exists_outcome_readCounts stated position
  rw [statesInfinite_object] at hfinite
  obtain ⟨change, hchange⟩ := (exists_outcome_readChange position).2 hfinite
  exact ⟨_, counts, change, _, derives_of_outcome hcounts hchange, hpasses,
    outcome_readPass_eq_ok.2 ⟨core, counts, change, hread, hcounts, hchange, rfl⟩⟩

/-- With an entry that has the same core but states an infinite change, reading a pass fails. -/
theorem escapes_readPass_restated (h : (readPass table s position (.object fields)).outcome =
    .ok s')
    (hcore : fields.SameOn coreNames stated) (hinfinite : StatesInfinite (.object stated)) :
    (readPass table s position (.object stated)).Escapes (.integer .infinite) := by
  obtain ⟨core, _, _, hread, -⟩ := outcome_readPass_eq_ok.1 h
  rw [readCore_congr table s position hcore] at hread
  obtain ⟨counts, hcounts⟩ := exists_outcome_readCounts stated position
  rw [statesInfinite_object] at hinfinite
  rw [readPass_object, escapes_bind]
  refine .inr ⟨_, hread, escapes_bind.2 (.inr ⟨counts, hcounts, escapes_bind.2 (.inl ?_)⟩)⟩
  exact (escapes_readChange position).2 ⟨hinfinite, rfl⟩

/-- The entries around one are read before it and behind it. -/
theorem outcome_readPasses_eq_ok {entry : Json} :
    (readPasses table position s (above ++ entry :: below)).outcome = .ok s' ↔ ∃ before behind,
      (readPasses table position s above).outcome = .ok before ∧
      (readPass table before (position + above.length) entry).outcome = .ok behind ∧
      (readPasses table (position + above.length + 1) behind below).outcome = .ok s' := by
  simp only [readPasses_append, readPasses, outcome_bind_eq_ok, ← exists_and_left]

/-- The passes above and below an entry are read as before, whatever it states. -/
theorem readPasses_restated
    (h : (readPasses table position s (above ++ .object fields :: below)).outcome = .ok s')
    (hcore : fields.SameOn coreNames stated) (hfinite : ¬ StatesInfinite (.object stated)) :
    ∃ front pass back counts change remarks, Derives stated counts change remarks ∧
      front.length = above.length ∧ s'.passes = back ++ pass :: (front ++ s.passes) ∧
      (readPasses table position s (above ++ .object stated :: below)).outcome =
        .ok ⟨back ++ { pass with counts, change, remarks } :: (front ++ s.passes), s'.firstAt⟩ := by
  obtain ⟨before, behind, habove, hentry, hbelow⟩ := outcome_readPasses_eq_ok.1 h
  obtain ⟨front, hfront, hlength, -⟩ := readPasses_frame habove
  obtain ⟨pass, counts, change, remarks, hderives, hpass, hstated⟩ :=
    readPass_restated hentry hcore hfinite
  obtain ⟨back, hback, -, hrest⟩ := readPasses_frame hbelow
  rw [hfront] at hpass hstated
  refine ⟨front, pass, back, counts, change, remarks, hderives, hlength, by rw [hback, hpass], ?_⟩
  exact outcome_readPasses_eq_ok.2 ⟨before, _, habove, hstated, hrest _⟩

/-- With an infinite change in one entry, reading passes fails there. -/
theorem escapes_readPasses_restated
    (h : (readPasses table position s (above ++ .object fields :: below)).outcome = .ok s')
    (hcore : fields.SameOn coreNames stated) (hinfinite : StatesInfinite (.object stated)) :
    (readPasses table position s (above ++ .object stated :: below)).Escapes
      (.integer .infinite) := by
  obtain ⟨before, behind, habove, hentry, -⟩ := outcome_readPasses_eq_ok.1 h
  rw [readPasses_append, escapes_bind]
  refine .inr ⟨before, habove, ?_⟩
  rw [readPasses, escapes_bind]
  exact .inl (escapes_readPass_restated hentry hcore hinfinite)

/-! ### Payloads -/

instance isSteady_readPart (fields part : Json.Fields) (version : Int) :
    (readPart fields part version).IsSteady := by
  unfold readPart
  infer_instance

/-- The section for the pipeline is read if its table and its passes are, and it states no other
number of passes. -/
theorem outcome_readPart_eq_ok : (readPart fields part version).outcome = .ok session ↔
    ∃ texts passes table initial s, part.get "ir_table" = .object texts ∧
      part.get "passes" = .array passes ∧ (readTable texts).outcome = .ok table ∧
      table.get? initialKey = some initial ∧
      (readPasses table 1 ⟨[], [(initialKey, 0)]⟩ passes).outcome = .ok s ∧
      contradicts (part.get "total_passes") s.passes.length = false ∧
      session = ⟨⟨initial, s.passes.reverse⟩, readMetadata fields part version⟩ := by
  simp only [readPart, bind_pure_comp, outcome_bind_eq_ok, outcome_map_eq_ok, outcome_need_eq_ok,
    outcome_require_eq_ok, Json.asObject?_eq_some_iff, Json.asArray?_eq_some_iff,
    List.length_reverse, Bool.not_eq_true']
  constructor
  · rintro ⟨texts, htexts, passes, hpasses, table, htable, initial, hinitial, s, hs, -, htotal, rfl⟩
    exact ⟨texts, passes, table, initial, s, htexts, hpasses, htable, hinitial, hs, htotal, rfl⟩
  · rintro ⟨texts, passes, table, initial, s, htexts, hpasses, htable, hinitial, hs, htotal, rfl⟩
    exact ⟨texts, htexts, passes, hpasses, table, htable, initial, hinitial, s, hs, (), htotal, rfl⟩

/-- A payload is read if its version is the present one and its section for the pipeline is read. -/
theorem outcome_ofJson_eq_ok : (ofJson (.object fields)).outcome = .ok session ↔
    fields.get "version" = .int schemaVersion ∧ ∃ part, fields.get "pipeline" = .object part ∧
      (readPart fields part schemaVersion).outcome = .ok session := by
  simp only [ofJson_object, outcome_bind_eq_ok, outcome_readVersion_eq_ok, outcome_need_eq_ok,
    Json.asObject?_eq_some_iff]
  constructor
  · rintro ⟨_, ⟨hversion, rfl⟩, part, hpart, h⟩
    exact ⟨hversion, part, hpart, h⟩
  · rintro ⟨hversion, part, hpart, h⟩
    exact ⟨_, ⟨hversion, rfl⟩, part, hpart, h⟩

/-- The value of a restated payload is read with other derived fields in one pass, or not at all. -/
theorem ofJson_restated (h : Restates v v' index stated)
    (hread : (ofJson v).outcome = .ok session) :
    1 ≤ index ∧ index ≤ session.pipeline.size ∧
      (¬ StatesInfinite (.object stated) → ∃ counts change remarks,
        Derives stated counts change remarks ∧
          (ofJson v').outcome = .ok (session.rederived index counts change remarks)) ∧
      (StatesInfinite (.object stated) → (ofJson v').Escapes (.integer .infinite)) := by
  obtain ⟨fields, fields', part, part', entry, above, below, rfl, rfl, hsame, hpart, hpart', hparts,
    hpasses, hpasses', hcore, rfl⟩ := h
  obtain ⟨hversion, part, hfound, hread⟩ := outcome_ofJson_eq_ok.1 hread
  obtain rfl := Json.object.inj (hfound.symm.trans hpart)
  obtain ⟨texts, passes, table, initial, s, htexts, hfound, htable, hinitial, hs, htotal, rfl⟩ :=
    outcome_readPart_eq_ok.1 hread
  obtain rfl := Json.array.inj (hfound.symm.trans hpasses)
  rw [hsame.get (by decide : "version" ∈ originNames)] at hversion
  rw [hparts.get (by decide : "ir_table" ∈ partNames)] at htexts
  rw [hparts.get (by decide : "total_passes" ∈ partNames)] at htotal
  obtain ⟨read, hlength, hcount, -⟩ := readPasses_frame hs
  refine ⟨by omega, ?_, fun hfinite => ?_, fun hinfinite => ?_⟩
  · rw [Pipeline.size, List.length_reverse, hlength, List.append_nil, hcount, List.length_append,
      List.length_cons]
    omega
  · obtain ⟨front, pass, back, counts, change, remarks, hderives, hfront, hbefore, hstated⟩ :=
      readPasses_restated hs hcore hfinite
    refine ⟨counts, change, remarks, hderives, outcome_ofJson_eq_ok.2 ⟨hversion, part', hpart', ?_⟩⟩
    refine outcome_readPart_eq_ok.2 ⟨texts, _, table, initial, _, htexts, hpasses',
      htable, hinitial, hstated, ?_, ?_⟩
    · rw [hbefore] at htotal
      simpa using htotal
    · have hreverse (pass : Pass) : (back ++ pass :: (front ++ [])).reverse =
          front.reverse ++ pass :: back.reverse := by simp
      have hmodify (f : Pass → Pass) : (front.reverse ++ pass :: back.reverse).modify
          above.length f = front.reverse ++ f pass :: back.reverse := by
        rw [← hfront, ← List.length_reverse]
        exact List.modifyTailIdx_add _ 0 _ _
      rw [readMetadata_congr _ hsame hparts, hbefore, rederived, Pipeline.modifyPass,
        hreverse, hreverse, Nat.add_sub_cancel, hmodify]
  · refine escapes_ofJson.2 ⟨texts, _, ⟨fields', part', rfl, hversion, hpart', htexts,
      hpasses'⟩, ?_⟩
    exact .inr ⟨table, initial, htable, hinitial, escapes_readPasses_restated hs hcore hinfinite⟩

/-- If the entry of a pass in a payload that is read states anything else in the place of its
counts, its change and its remarks, the payload is still read, and as the same session but for the
derived fields of that pass, which are those that the entry states. The exception is a change with
an infinite number: it is not dropped, and reading fails otherwise than by a refusal. -/
theorem decode_restated (hparse : payload.Parses (.ok v)) (hparse' : payload'.Parses (.ok v'))
    (hread : (decode payload).outcome = .ok session) (h : Restates v v' index stated) :
    1 ≤ index ∧ index ≤ session.pipeline.size ∧
      (¬ StatesInfinite (.object stated) → ∃ counts change remarks,
        Derives stated counts change remarks ∧
          (decode payload').outcome = .ok (session.rederived index counts change remarks)) ∧
      (StatesInfinite (.object stated) → (decode payload').Escapes (.integer .infinite)) := by
  rw [decode_of_parses hparse] at hread
  rw [decode_of_parses hparse']
  exact ofJson_restated h hread

/-- The entry of a pass with malformed counts, a change that is not stated by integers, and no list
of remarks. -/
def restatedEntry : Json.Fields :=
  [("name", .string "gvn"), ("changed", .bool true), ("ir_ref", .string initialKey),
    ("stats", .object [("instructions", .bool true)]),
    ("diff_stats", .object [("lines_before", .string "2"), ("lines_after", .bool true),
      ("lines_changed", .int 1)]),
    ("remarks", .string "none")]

/-- Of such an entry the change is read, and the counts and the remarks are dropped. With an
infinite number in its change nothing is read. -/
theorem decode_restated_dropped :
    (decode (.text (payloadOf emptyTable [.object restatedEntry]).asciiLine)).outcome =
        .ok (countedSession.rederived 1 none (some ⟨2, 1, 1⟩) none) ∧
      (decode (.text (payloadOf emptyTable [infiniteEntry]).asciiLine)).Escapes
        (.integer .infinite) := by
  have hread : (decode (.text (Json.object (payloadWith [])).asciiLine)).outcome =
      .ok countedSession := by
    rw [decode_payloadWith, outcome_pure]
  have hrestates (stated : Json.Fields) (hcore : (entryWith []).SameOn coreNames stated) :
      Restates (.object (payloadWith [])) (payloadOf emptyTable [.object stated]) 1 stated :=
    ⟨_, _, _, _, _, [], [], rfl, rfl, Json.Fields.sameOn_iff.2 rfl, rfl, rfl,
      Json.Fields.sameOn_iff.2 rfl, rfl, rfl, hcore, rfl⟩
  have hnames (stated : Json.Fields) (h : (Json.object stated).HasDistinctNames) :
      (payloadOf emptyTable [.object stated]).HasDistinctNames := by
    simpa [emptyTable, payloadOf, Json.HasDistinctNames, Json.FieldsHaveDistinctNames,
      Json.ItemsHaveDistinctNames] using h
  constructor
  · have hparse : (Payload.text (payloadOf emptyTable [.object restatedEntry]).asciiLine).Parses
        (.ok (payloadOf emptyTable [.object restatedEntry])) := by
      refine Json.parse_asciiLine (hnames _ ?_) rfl
      simp [restatedEntry, Json.HasDistinctNames, Json.FieldsHaveDistinctNames]
    have hcounts : (readCounts restatedEntry 1).outcome = .ok none := rfl
    have hchange : (readChange restatedEntry 1).outcome = .ok (some ⟨2, 1, 1⟩) := rfl
    have hfinite : ¬ StatesInfinite (.object restatedEntry) :=
      mt statesInfinite_object.1 ((exists_outcome_readChange 1).1 ⟨_, hchange⟩)
    obtain ⟨counts, change, remarks, hderives, hstated⟩ :=
      (decode_restated (parses_payloadWith (.inl rfl)) hparse hread
        (hrestates _ (Json.Fields.sameOn_iff.2 rfl))).2.2.1 hfinite
    obtain ⟨rfl, rfl, rfl⟩ := hderives.unique (derives_of_outcome hcounts hchange)
    exact hstated
  · have hparse : (Payload.text (payloadOf emptyTable [infiniteEntry]).asciiLine).Parses
        (.ok (payloadOf emptyTable [infiniteEntry])) := by
      refine Json.parse_asciiLine (hnames _ ?_) rfl
      simp [Json.HasDistinctNames, Json.FieldsHaveDistinctNames]
    exact (decode_restated (parses_payloadWith (.inl rfl)) hparse hread
      (hrestates _ (Json.Fields.sameOn_iff.2 rfl))).2.2.2
        ⟨_, _, rfl, rfl, [], _, _, false, rfl, by simp, rfl⟩

end Session
end PassTrace

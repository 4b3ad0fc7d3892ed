import PassTrace.Proofs.Session.Entries
import PassTrace.Proofs.Snapshot.References

/-!
# What an accepted payload means

Of the passes that name a key of the table the first one carries the text, and the others refer to
it; those that name the key of the initial text refer to that. The keys met so far lead to indices
that carry their texts, so that no reference is followed further than once.
-/

namespace PassTrace

namespace Pipeline

/-- The text that an index carries itself: the initial text, or that of a pass that has no
reference to another index. -/
def carried? (p : Pipeline) : Nat → Option Lines
  | 0 => some p.initial
  | k + 1 =>
    match p.passes[k]?.map Pass.reference with
    | some (.inline lines) => some lines
    | _ => none

variable {p : Pipeline} {initial lines : Lines} {passes : List Pass} {index k : Nat}

/-- A pass carries a text if its reference is that text. -/
theorem carried?_succ_eq_some_iff : p.carried? (k + 1) = some lines ↔
    p.passes[k]?.map Pass.reference = some (.inline lines) := by
  unfold carried?
  dsimp only
  cases p.passes[k]?.map Pass.reference with
  | none => simp
  | some reference => cases reference <;> simp

/-- An index means the text that it carries. -/
theorem meaning_eq_of_carried (h : p.carried? index = some lines) : p.meaning index = lines := by
  cases index with
  | zero =>
    rw [meaning_zero]
    exact Option.some.inj h
  | succ k => rw [meaning_succ, carried?_succ_eq_some_iff.1 h]

/-- More passes leave what the indices before them carry. -/
theorem carried?_append (more : List Pass) (h : carried? ⟨initial, passes⟩ index = some lines) :
    carried? ⟨initial, passes ++ more⟩ index = some lines := by
  cases index with
  | zero => exact h
  | succ k =>
    rw [carried?_succ_eq_some_iff] at h ⊢
    obtain ⟨pass, hpass, hreference⟩ := Option.map_eq_some_iff.1 h
    obtain ⟨hlt, -⟩ := List.getElem?_eq_some_iff.1 hpass
    dsimp only at hlt
    rw [List.getElem?_append_left hlt]
    exact h

/-- A reference behind `k` passes supplies a text: it is the text itself, or leads to an index up to
`k` that carries it. -/
def Supplies (p : Pipeline) (k : Nat) (lines : Lines) : Reference → Prop
  | .inline lines' => lines' = lines
  | .sameAs target => ∃ j ≤ k, target = (j : Int) ∧ p.carried? j = some lines

/-- More passes leave what a reference supplies. -/
theorem Supplies.append {reference : Reference} (more : List Pass)
    (h : Supplies ⟨initial, passes⟩ k lines reference) :
    Supplies ⟨initial, passes ++ more⟩ k lines reference := by
  cases reference with
  | inline lines' => exact h
  | sameAs target =>
    obtain ⟨j, hj, htarget, hcarried⟩ := h
    exact ⟨j, hj, htarget, carried?_append more hcarried⟩

/-- A pass means the text that its reference supplies. -/
theorem Supplies.meaning_eq {pass : Pass} (h : p.Supplies k lines pass.reference)
    (hpass : p.passes[k]? = some pass) : p.meaning (k + 1) = lines := by
  rw [meaning_succ, hpass, Option.map_some]
  cases hreference : pass.reference with
  | inline lines' =>
    rw [hreference] at h
    exact h
  | sameAs target =>
    rw [hreference] at h
    obtain ⟨j, hj, rfl, hcarried⟩ := h
    dsimp only
    rw [if_pos ⟨by omega, by omega⟩, Int.toNat_natCast]
    exact meaning_eq_of_carried hcarried

end Pipeline

namespace Session

/-- A pipeline means what a table of texts and a list of passes say. -/
structure Conveys (entries : Json.Fields) (passes : List Json) (p : Pipeline) : Prop where
  size_eq : p.size = passes.length
  /-- A reference leads back to an index that carries its text. -/
  reference : ∀ {k : Nat} {pass : Pass} {target : Int}, p.passes[k]? = some pass →
    pass.reference = .sameAs target → ∃ j ≤ k, target = (j : Int) ∧ (p.carried? j).isSome
  gap : ∀ {r : Resolver} {i : Nat}, r.Serves p → i ≤ p.size → (r.resolve i).gap = none
  initial : ∀ {r : Resolver}, r.Serves p → TableHolds entries initialKey (r.resolve 0).lines
  text : ∀ {r : Resolver} {k : Nat} {entry : Json}, r.Serves p → passes[k]? = some entry →
    ∃ key, NamesText entry key ∧ TableHolds entries key (r.resolve ((k + 1 : Nat) : Int)).lines

variable {table : TextTable} {initial lines : Lines} {s s' : Scan} {seen : List Json} {entry : Json}
  {key : String}

/-- The pipeline read so far. -/
def Scan.pipeline (s : Scan) (initial : Lines) : Pipeline :=
  ⟨initial, s.passes.reverse⟩

/-- The passes of some entries were read: each has a reference that supplies the text named, and
each key met stands with an index that carries its text. -/
structure Scan.Supplied (s : Scan) (table : TextTable) (initial : Lines) (seen : List Json) :
    Prop where
  length_passes : s.passes.length = seen.length
  supplies : ∀ {k : Nat} {pass : Pass}, s.passes.reverse[k]? = some pass →
    ∃ entry key lines, seen[k]? = some entry ∧ NamesText entry key ∧
      table.get? key = some lines ∧ (s.pipeline initial).Supplies k lines pass.reference
  carries : ∀ {key : String} {index : Nat}, (key, index) ∈ s.firstAt → index ≤ seen.length ∧
    ∃ lines, table.get? key = some lines ∧ (s.pipeline initial).carried? index = some lines

/-- Before any pass only the initial text is there. -/
theorem Scan.supplied_start (hinitial : table.get? initialKey = some initial) :
    Scan.Supplied ⟨[], [(initialKey, 0)]⟩ table initial [] := by
  constructor
  · rfl
  · intro k pass hpass
    cases hpass
  · intro key index hmem
    obtain ⟨rfl, rfl⟩ := Prod.mk.inj (List.mem_singleton.1 hmem)
    exact ⟨Nat.le_refl _, initial, hinitial, rfl⟩

/-- The reference that is found for a key supplies its text. -/
theorem Scan.Supplied.meet (h : s.Supplied table initial seen)
    (hlines : table.get? key = some lines) (position : Nat) :
    (s.pipeline initial).Supplies seen.length lines (s.meet position key lines).1 := by
  unfold Scan.meet
  split
  · next key' index hfind =>
    obtain ⟨hindex, lines', hlines', hcarried⟩ := h.carries (List.mem_of_find?_eq_some hfind)
    have hkey : key' = key := by simpa using List.find?_some hfind
    rw [hkey, hlines] at hlines'
    obtain rfl := Option.some.inj hlines'
    exact ⟨index, hindex, rfl, hcarried⟩
  · rfl

/-- A key met now was met before, or else its pass has its own text. -/
theorem Scan.mem_meet {position index : Nat} {key' : String}
    (hmem : (key', index) ∈ (s.meet position key lines).2) :
    (key', index) ∈ s.firstAt ∨
      (key' = key ∧ index = position ∧ (s.meet position key lines).1 = .inline lines) := by
  unfold Scan.meet at hmem ⊢
  split at hmem
  · exact .inl hmem
  · rcases List.mem_cons.1 hmem with heq | hmem
    · obtain ⟨rfl, rfl⟩ := Prod.mk.inj heq
      exact .inr ⟨rfl, rfl, rfl⟩
    · exact .inl hmem

/-- Reading the next pass keeps what was read, and supplies its text. -/
theorem Scan.Supplied.readPass (h : s.Supplied table initial seen)
    (hread : (readPass table s (seen.length + 1) entry).outcome = .ok s') :
    s'.Supplied table initial (seen ++ [entry]) := by
  obtain ⟨pass, key, lines, hnames, hlines, hreference, hpasses, hfirst⟩ := readPass_cases hread
  have hpipeline : s'.pipeline initial = ⟨initial, s.passes.reverse ++ [pass]⟩ := by
    unfold Scan.pipeline
    rw [hpasses, List.reverse_cons]
  have hlength : s.passes.reverse.length = seen.length := by
    rw [List.length_reverse, h.length_passes]
  constructor
  · rw [hpasses, List.length_cons, h.length_passes, List.length_append, List.length_singleton]
  · intro k other hother
    rw [hpasses, List.reverse_cons] at hother
    rw [hpipeline]
    by_cases hlt : k < seen.length
    · -- The passes before keep their places, and what their references lead to keeps its text.
      rw [List.getElem?_append_left (by omega)] at hother
      obtain ⟨entry', key', lines', hentry', hnames', hlines', hsupplies⟩ := h.supplies hother
      refine ⟨entry', key', lines', ?_, hnames', hlines', hsupplies.append [pass]⟩
      rw [List.getElem?_append_left hlt, hentry']
    · obtain ⟨hk, -⟩ := List.getElem?_eq_some_iff.1 hother
      rw [List.length_append, List.length_singleton] at hk
      obtain rfl : k = seen.length := by omega
      rw [← hlength, List.getElem?_concat_length] at hother
      obtain rfl := Option.some.inj hother
      refine ⟨entry, key, lines, List.getElem?_concat_length, hnames, hlines, ?_⟩
      rw [hreference]
      exact (h.meet hlines _).append [pass]
  · intro key' index hmem
    rw [hfirst] at hmem
    rw [hpipeline, List.length_append, List.length_singleton]
    rcases Scan.mem_meet hmem with hmem | ⟨rfl, rfl, hinline⟩
    · obtain ⟨hindex, lines', hlines', hcarried⟩ := h.carries hmem
      exact ⟨by omega, lines', hlines', Pipeline.carried?_append [pass] hcarried⟩
    · refine ⟨Nat.le_refl _, lines, hlines, ?_⟩
      rw [Pipeline.carried?_succ_eq_some_iff, ← hlength]
      dsimp only
      rw [List.getElem?_concat_length, Option.map_some, hreference, hinline]

/-- Reading passes keeps what was read, and supplies their texts. -/
theorem Scan.Supplied.readPasses {rest : List Json} (h : s.Supplied table initial seen)
    (hread : (readPasses table (seen.length + 1) s rest).outcome = .ok s') :
    s'.Supplied table initial (seen ++ rest) := by
  -- The entries read so far grow by one at each step, and with them the position.
  induction rest generalizing s seen with
  | nil =>
    obtain rfl := Except.ok.inj hread
    rwa [List.append_nil]
  | cons entry rest ih =>
    rw [Session.readPasses, Reporting.outcome_bind_eq_ok] at hread
    obtain ⟨next, hnext, hread⟩ := hread
    have hlength : (seen ++ [entry]).length = seen.length + 1 := by
      rw [List.length_append, List.length_singleton]
    rw [← hlength] at hread
    have hsupplied := ih (h.readPass hnext) hread
    rwa [List.append_assoc] at hsupplied

/-- References that supply texts lead backwards. -/
theorem Scan.Supplied.isBackward (h : s.Supplied table initial seen) :
    (s.pipeline initial).IsBackward := by
  intro k pass target hpass hreference
  obtain ⟨entry, key, lines, -, -, -, hsupplies⟩ := h.supplies hpass
  rw [hreference] at hsupplies
  obtain ⟨j, hj, rfl, -⟩ := hsupplies
  omega

/-- What was read of all passes means what the payload says. -/
theorem Scan.Supplied.conveys {entries : Json.Fields} (h : s.Supplied table initial seen)
    (htable : (readTable entries).outcome = .ok table)
    (hinitial : table.get? initialKey = some initial) :
    Conveys entries seen (s.pipeline initial) := by
  have hsize : (s.pipeline initial).size = seen.length := by
    rw [← h.length_passes]
    exact List.length_reverse
  constructor
  · exact hsize
  · intro k pass target hpass hreference
    obtain ⟨entry, key, lines, -, -, -, hsupplies⟩ := h.supplies hpass
    rw [hreference] at hsupplies
    obtain ⟨j, hj, rfl, hcarried⟩ := hsupplies
    exact ⟨j, hj, rfl, by rw [hcarried]; rfl⟩
  · intro r i hr hi
    have hpipeline := hr.1
    refine hr.faithful.gap_resolve ?_ ?_
    · rw [hpipeline]
      exact h.isBackward
    · rwa [hpipeline]
  · intro r hr
    have hlines : (r.resolve 0).lines = initial := by
      have := hr.lines_resolve (Nat.zero_le _)
      rwa [Pipeline.meaning_zero] at this
    rw [hlines]
    exact (get?_eq_some_iff htable).1 hinitial
  · intro r k entry hr hentry
    obtain ⟨hk, -⟩ := List.getElem?_eq_some_iff.1 hentry
    rw [← hsize] at hk
    have hpass : (s.pipeline initial).passes[k]? = some (s.pipeline initial).passes[k] :=
      List.getElem?_eq_getElem hk
    obtain ⟨entry', key, lines, hentry', hnames, hlines, hsupplies⟩ := h.supplies hpass
    obtain rfl : entry' = entry := Option.some.inj (hentry'.symm.trans hentry)
    refine ⟨key, hnames, ?_⟩
    rw [hr.lines_resolve hk, hsupplies.meaning_eq hpass]
    exact (get?_eq_some_iff htable).1 hlines

/-- A payload that is read, whatever wrote it, has a table of texts and a list of passes, and the
pipeline that is read means what they say. -/
theorem conveys_of_decode {payload : Payload} {session : Session}
    (h : (decode payload).outcome = .ok session) : ∃ v entries passes,
      payload.Parses (.ok v) ∧ HasParts v entries passes ∧
        Conveys entries passes session.pipeline := by
  rw [decode, Reporting.outcome_bind_eq_ok] at h
  obtain ⟨v, hparse, h⟩ := h
  obtain ⟨entries, passes, table, initial, s, hparts, htable, hinitial, hread, hpipeline⟩ :=
    outcome_ofJson_cases h
  refine ⟨v, entries, passes, outcome_readPayload_eq_ok.1 hparse, hparts, ?_⟩
  have hsupplied := (Scan.supplied_start hinitial).readPasses hread
  rw [List.nil_append] at hsupplied
  rw [hpipeline]
  exact hsupplied.conveys htable hinitial

/-- A payload with nothing but its parts is read part by part. -/
theorem ofJson_payloadOf (entries : Json.Fields) (passes : List Json) :
    ofJson (payloadOf entries passes) = do
      let table ← readTable entries
      let initial ← Reporting.need .noInitialEntry (table.get? initialKey)
      let s ← readPasses table 1 ⟨[], [(initialKey, 0)]⟩ passes
      return ⟨s.pipeline initial,
        { statistics := [("changed_count", .null), ("unchanged_count", .null)] }⟩ :=
  rfl

/-- A table with its keys out of order, two equal texts and a text that is not named. -/
def shuffledTable : Json.Fields :=
  [("x", .string (Packing.packLines ["b"])), (initialKey, .string (Packing.packLines ["a"])),
    ("z", .string (Packing.packLines [])), ("y", .string (Packing.packLines ["b"]))]

/-- The entry of a pass that names a key. -/
def entryNaming (key : String) : Json :=
  .object [("name", .string "gvn"), ("changed", .bool true), ("ir_ref", .string key)]

/-- A payload whose passes name the keys of the table out of order. -/
def shuffledPayload : Json :=
  payloadOf shuffledTable (["y", initialKey, "x", "y"].map entryNaming)

/-- The session that it is read as. -/
def shuffledSession : Session where
  pipeline.initial := ["a"]
  pipeline.passes := [.inline ["b"], .sameAs 0, .inline ["b"], .sameAs 1].map fun reference =>
    { name := "gvn", scope := ⟨.unknown, none⟩, changed := true, reference }
  metadata.statistics := [("changed_count", .null), ("unchanged_count", .null)]

/-- A payload with its keys out of order is read, and means what it says. -/
theorem conveys_of_decode_shuffled :
    (decode (.text shuffledPayload.asciiLine)).outcome = .ok shuffledSession ∧
      ∃ v entries passes, (Payload.text shuffledPayload.asciiLine).Parses (.ok v) ∧
        HasParts v entries passes ∧ Conveys entries passes shuffledSession.pipeline := by
  have hparse : readPayload (.text shuffledPayload.asciiLine) = pure shuffledPayload := by
    unfold readPayload
    dsimp only
    rw [Json.parse_asciiLine ?_ rfl]
    · rfl
    · simp [shuffledPayload, shuffledTable, payloadOf, entryNaming, initialKey,
        Json.HasDistinctNames, Json.FieldsHaveDistinctNames, Json.ItemsHaveDistinctNames]
  have htable : readTable shuffledTable =
      pure [("x", ["b"]), (initialKey, ["a"]), ("z", []), ("y", ["b"])] := by
    simp [readTable, shuffledTable, readEntry_packLines]
  have hsession : ofJson shuffledPayload = pure shuffledSession := by
    rw [shuffledPayload, ofJson_payloadOf, htable, pure_bind]
    rfl
  have hread : (decode (.text shuffledPayload.asciiLine)).outcome = .ok shuffledSession := by
    rw [decode, hparse, pure_bind, hsession, Reporting.outcome_pure]
  exact ⟨hread, conveys_of_decode hread⟩

end Session
end PassTrace

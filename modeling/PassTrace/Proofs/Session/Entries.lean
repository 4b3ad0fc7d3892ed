import PassTrace.Proofs.Session.Parts

/-!
# The entries of passes

An entry is read if what a pass cannot do without is there and its text is in the table. What it
states of a change is dropped if it is malformed, except that a number too great for a
floating-point number is neither read nor dropped.
-/

namespace PassTrace

/-- The fields of a change, in the order in which they are read. -/
def LineChange.names : List String :=
  ["lines_before", "lines_after", "lines_changed"]

namespace Session

/-- An entry of a pass names a key of the table. -/
def NamesText (entry : Json) (key : String) : Prop :=
  ∃ fields : Json.Fields, entry = .object fields ∧ fields.get "ir_ref" = .string key

/-- An entry states a kind, which may be empty, and a target, which may be missing. -/
def StatesScope (fields : Json.Fields) : Prop :=
  ((fields.get "scope_type").isVoid ∨
      ∃ kind : ScopeKind, fields.get "scope_type" = .string kind.name) ∧
    (fields.get "scope_target" = .null ∨ ∃ target, fields.get "scope_target" = .string target)

/-- An entry of a pass has what a pass cannot do without, with a text of the table. -/
def IsSound (entries : Json.Fields) (entry : Json) : Prop :=
  ∃ (fields : Json.Fields) (name : String) (changed : Bool) (key : String) (lines : Lines),
    entry = .object fields ∧ fields.get "name" = .string name ∧
      fields.get "changed" = .bool changed ∧ fields.get "ir_ref" = .string key ∧
      TableHolds entries key lines ∧ StatesScope fields

/-- The first field of a change that has no integer is an infinite number. -/
def IsInfinite (stated : Json.Fields) : Prop :=
  ∃ earlier name later negative, LineChange.names = earlier ++ name :: later ∧
    (∀ other ∈ earlier, ∃ n, LineChange.number stated other = .ok n) ∧
    stated.get? name = some (.float (.infinity negative))

/-- An entry of a pass states an infinite change. -/
def StatesInfinite (entry : Json) : Prop :=
  ∃ fields stated : Json.Fields, entry = .object fields ∧
    fields.get "diff_stats" = .object stated ∧ IsInfinite stated

open Reporting

variable {fields entries stated : Json.Fields} {entry : Json} {passes : List Json} {position : Nat}
  {table : TextTable} {s : Scan} {e : Failure}

/-! ### Changes -/

/-- A numeral is never too great. -/
theorem read_ne_infinite (text : String) : Numeral.read text ≠ .error .infinite := by
  unfold Numeral.read
  dsimp only
  intro h
  split at h
  · cases h
  · split at h
    · cases h
    · split at h <;> cases h

/-- Only infinite numbers are too great for an integer. -/
theorem toInteger_eq_infinite_iff {v : Json} :
    v.toInteger = .error (.integer .infinite) ↔ ∃ negative, v = .float (.infinity negative) := by
  constructor
  · intro h
    cases v with
    | float x =>
      cases x with
      | infinity negative => exact ⟨negative, rfl⟩
      | nan => cases h
      | finite negative m => cases h
    | string text =>
      have hread := read_ne_infinite text
      unfold Json.toInteger at h
      dsimp only at h
      split at h <;> simp_all
    | _ => cases h
  · rintro ⟨negative, rfl⟩
    rfl

theorem number_eq_infinite_iff {name : String} :
    LineChange.number stated name = .error (.integer .infinite) ↔
      ∃ negative, stated.get? name = some (.float (.infinity negative)) := by
  unfold LineChange.number
  cases stated.get? name with
  | none => simp
  | some v => simp [toInteger_eq_infinite_iff]

/-- Reading a change fails as reading its numbers in turn does. -/
theorem ofFields_eq_error_iff : LineChange.ofFields stated = .error e ↔
    LineChange.names.mapM (LineChange.number stated) = .error e := by
  unfold LineChange.ofFields LineChange.names
  simp only [List.mapM_cons, List.mapM_nil]
  cases LineChange.number stated "lines_before" <;>
    cases LineChange.number stated "lines_after" <;>
    cases LineChange.number stated "lines_changed" <;>
    simp [bind, Except.bind, pure, Except.pure]

/-- A change is not read for an infinite number if the first fault in it is such a number. -/
theorem ofFields_eq_infinite_iff :
    LineChange.ofFields stated = .error (.integer .infinite) ↔ IsInfinite stated := by
  rw [ofFields_eq_error_iff, Failure.mapM_eq_error_iff]
  simp only [number_eq_infinite_iff]
  constructor
  · rintro ⟨earlier, name, later, hnames, hearlier, negative, hname⟩
    exact ⟨earlier, name, later, negative, hnames, hearlier, hname⟩
  · rintro ⟨earlier, name, later, negative, hnames, hearlier, hname⟩
    exact ⟨earlier, name, later, hnames, hearlier, negative, hname⟩

/-- Every failure to read a change is passed over except for infinite numbers. -/
theorem isPassedOver_eq_false_iff : isPassedOver e = false ↔ e = .integer .infinite := by
  unfold isPassedOver
  split
  · simp
  · next hne => simpa using hne

instance isSteady_readChange (fields : Json.Fields) (position : Nat) :
    (readChange fields position).IsSteady := by
  unfold readChange
  split
  · split <;> infer_instance
  · infer_instance

/-- What an entry states of a change is read or dropped, except for an infinite number. -/
theorem readChange_cases (fields : Json.Fields) (position : Nat) :
    ((∃ change, (readChange fields position).outcome = .ok change) ∧
        ∀ stated, fields.get "diff_stats" = .object stated → ¬ IsInfinite stated) ∨
      (readChange fields position = throw (.integer .infinite) ∧
        ∃ stated, fields.get "diff_stats" = .object stated ∧ IsInfinite stated) := by
  cases hstated : fields.get "diff_stats" with
  | object stated =>
    unfold readChange
    simp only [hstated, ← ofFields_eq_infinite_iff, Json.object.injEq, forall_eq', exists_eq_left']
    cases hfields : LineChange.ofFields stated with
    | ok change => exact .inl ⟨⟨some change, rfl⟩, by simp⟩
    | error failure =>
      dsimp only
      cases hpassed : isPassedOver failure with
      | true =>
        refine .inl ⟨⟨none, rfl⟩, ?_⟩
        intro h
        obtain rfl := Except.error.inj h
        cases hpassed
      | false =>
        obtain rfl := isPassedOver_eq_false_iff.1 hpassed
        exact .inr ⟨rfl, rfl⟩
  | _ => exact .inl ⟨⟨none, by simp [readChange, hstated]⟩, by simp⟩

/-- An infinite number is the one thing in a change that is neither read nor dropped. -/
theorem exists_outcome_readChange (position : Nat) :
    (∃ change, (readChange fields position).outcome = .ok change) ↔
      ¬ ∃ stated, fields.get "diff_stats" = .object stated ∧ IsInfinite stated := by
  rcases readChange_cases fields position with ⟨hread, hfinite⟩ | ⟨hthrow, hinfinite⟩
  · simp only [hread, true_iff]
    rintro ⟨stated, hstated, h⟩
    exact hfinite stated hstated h
  · simp [hthrow, hinfinite]

/-- An infinite number is the one failure to read what an entry states of a change. -/
theorem escapes_readChange (position : Nat) : (readChange fields position).Escapes e ↔
    (∃ stated, fields.get "diff_stats" = .object stated ∧ IsInfinite stated) ∧
      e = .integer .infinite := by
  rcases readChange_cases fields position with ⟨⟨change, hread⟩, hfinite⟩ | ⟨hthrow, hinfinite⟩
  · constructor
    · rintro ⟨h, -⟩
      rw [hread] at h
      cases h
    · rintro ⟨⟨stated, hstated, h⟩, -⟩
      exact absurd h (hfinite stated hstated)
  · rw [hthrow, escapes_throw]
    constructor
    · rintro ⟨rfl, -⟩
      exact ⟨hinfinite, rfl⟩
    · rintro ⟨-, rfl⟩
      exact ⟨rfl, id⟩

/-! ### Scopes and counts -/

/-- Reads a kind, which may be empty. -/
def readKind (position : Nat) (stated : Json) : Reporting ScopeKind :=
  if stated.isVoid then pure .unknown
  else need (.badPass position (.unknownScope stated)) (stated.asString?.bind ScopeKind.ofName?)

/-- Reads a target, which may be missing. -/
def readTarget (position : Nat) : Json → Reporting (Option String)
  | .null => pure none
  | .string target => pure (some target)
  | _ => throw (.corrupt (.badPass position .badTarget) none)

/-- The scope of a pass is read as its kind and its target. -/
theorem readScope_eq_bind (fields : Json.Fields) (position : Nat) :
    readScope fields position = do
      let kind ← readKind position (fields.get "scope_type")
      let target ← readTarget position (fields.get "scope_target")
      return ⟨kind, if kind = .module then none else target⟩ := by
  unfold readScope readKind
  by_cases hvoid : (fields.get "scope_type").isVoid = true
  · simp only [if_pos hvoid]
    cases fields.get "scope_target" <;> rfl
  · simp only [if_neg hvoid]
    cases fields.get "scope_target" <;> rfl

instance isSteady_readKind (position : Nat) (stated : Json) :
    (readKind position stated).IsSteady := by
  unfold readKind
  infer_instance

instance isSteady_readTarget (position : Nat) (stated : Json) :
    (readTarget position stated).IsSteady := by
  unfold readTarget
  split <;> infer_instance

instance isSteady_readScope (fields : Json.Fields) (position : Nat) :
    (readScope fields position).IsSteady := by
  rw [readScope_eq_bind]
  infer_instance

/-- A kind is read if it is empty or has a name of a kind. -/
theorem exists_outcome_readKind (position : Nat) {stated : Json} :
    (∃ kind, (readKind position stated).outcome = .ok kind) ↔
      stated.isVoid ∨ ∃ kind : ScopeKind, stated = .string kind.name := by
  unfold readKind
  split
  · next hvoid => simp [hvoid]
  · next hvoid =>
    simp only [outcome_need_eq_ok, Option.bind_eq_some_iff]
    constructor
    · rintro ⟨kind, name, hname, hkind⟩
      cases stated with
      | string s =>
        obtain rfl := Option.some.inj hname
        have hfound : kind.name = s := by simpa using List.find?_some hkind
        exact .inr ⟨kind, congrArg Json.string hfound.symm⟩
      | _ => cases hname
    · rintro (h | ⟨kind, rfl⟩)
      · exact absurd h hvoid
      · exact ⟨kind, kind.name, rfl, ScopeKind.ofName?_name kind⟩

/-- A target is read if it is missing or a string. -/
theorem exists_outcome_readTarget (position : Nat) {stated : Json} :
    (∃ target, (readTarget position stated).outcome = .ok target) ↔
      stated = .null ∨ ∃ target, stated = .string target := by
  cases stated <;> simp [readTarget]

/-- What a pass ran on is read if its kind and its target are. -/
theorem exists_outcome_readScope (position : Nat) :
    (∃ scope, (readScope fields position).outcome = .ok scope) ↔ StatesScope fields := by
  unfold StatesScope
  rw [← exists_outcome_readKind position, ← exists_outcome_readTarget position, readScope_eq_bind]
  simp only [bind_pure_comp, outcome_bind_eq_ok, outcome_map_eq_ok]
  constructor
  · rintro ⟨-, kind, hkind, target, htarget, -⟩
    exact ⟨⟨kind, hkind⟩, target, htarget⟩
  · rintro ⟨⟨kind, hkind⟩, target, htarget⟩
    exact ⟨_, kind, hkind, target, htarget, rfl⟩

@[simp] theorem not_escapes_readScope : ¬ (readScope fields position).Escapes e := by
  have hkind {stated : Json} : ¬ (readKind position stated).Escapes e := by
    unfold readKind
    split <;> simp
  have htarget {stated : Json} : ¬ (readTarget position stated).Escapes e := by
    cases stated <;> simp [readTarget]
  simp [readScope_eq_bind, escapes_bind, hkind, htarget]

instance isSteady_readCounts (fields : Json.Fields) (position : Nat) :
    (readCounts fields position).IsSteady := by
  unfold readCounts
  split
  · infer_instance
  · split <;> infer_instance

/-- Counts are read or dropped. -/
theorem exists_outcome_readCounts (fields : Json.Fields) (position : Nat) :
    ∃ counts, (readCounts fields position).outcome = .ok counts := by
  unfold readCounts
  split
  · exact ⟨none, rfl⟩
  · split
    · exact ⟨_, rfl⟩
    · exact ⟨none, rfl⟩

@[simp] theorem not_escapes_readCounts : ¬ (readCounts fields position).Escapes e := by
  rintro ⟨h, -⟩
  obtain ⟨counts, hcounts⟩ := exists_outcome_readCounts fields position
  rw [h] at hcounts
  cases hcounts

/-! ### Passes -/

/-- The reference for a key, and the keys met then. A key that was met before refers to where it was
first met. -/
def Scan.meet (s : Scan) (position : Nat) (key : String) (lines : Lines) :
    Reference × List (String × Nat) :=
  match s.firstAt.find? fun first => first.1 = key with
  | some (_, index) => (.sameAs index, s.firstAt)
  | none => (.inline lines, (key, position) :: s.firstAt)

/-- A pass is read part by part. -/
theorem readPass_eq_bind (table : TextTable) (s : Scan) (position : Nat) (entry : Json) :
    readPass table s position entry = do
      let fields ← need (.badPass position .notObject) entry.asObject?
      let name ← need (.badPass position .noName) (fields.get "name").asString?
      let changed ← need (.badPass position .noChangedFlag) (fields.get "changed").asBool?
      let key ← need (.badPass position .noReference) (fields.get "ir_ref").asString?
      let lines ← need (.badPass position (.unknownEntry key)) (table.get? key)
      let scope ← readScope fields position
      let counts ← readCounts fields position
      let change ← readChange fields position
      return ⟨⟨name, scope, changed, (s.meet position key lines).1, change, counts,
        (fields.get "remarks").asArray?⟩ :: s.passes, (s.meet position key lines).2⟩ :=
  rfl

instance isSteady_readPass (table : TextTable) (s : Scan) (position : Nat) (entry : Json) :
    (readPass table s position entry).IsSteady := by
  rw [readPass_eq_bind]
  infer_instance

/-- A pass that is read names a key of the table, and has the reference that is found for it. -/
theorem readPass_cases {s' : Scan} (h : (readPass table s position entry).outcome = .ok s') :
    ∃ pass key lines, NamesText entry key ∧ table.get? key = some lines ∧
      pass.reference = (s.meet position key lines).1 ∧ s'.passes = pass :: s.passes ∧
      s'.firstAt = (s.meet position key lines).2 := by
  simp only [readPass_eq_bind, bind_pure_comp, outcome_bind_eq_ok, outcome_map_eq_ok,
    outcome_need_eq_ok, Json.asObject?_eq_some_iff, Json.asString?_eq_some_iff] at h
  obtain ⟨fields, hfields, -, -, -, -, key, hkey, lines, hlines, -, -, -, -, -, -, rfl⟩ := h
  exact ⟨_, key, lines, ⟨fields, hfields, hkey⟩, hlines, rfl, rfl, rfl⟩

/-- A pass is read if its entry is sound and states no infinite change. -/
theorem exists_outcome_readPass (s : Scan) (position : Nat)
    (htable : (readTable entries).outcome = .ok table) :
    (∃ s', (readPass table s position entry).outcome = .ok s') ↔
      IsSound entries entry ∧ ¬ StatesInfinite entry := by
  simp only [readPass_eq_bind, bind_pure_comp, outcome_bind_eq_ok, outcome_map_eq_ok,
    outcome_need_eq_ok, Json.asObject?_eq_some_iff, Json.asString?_eq_some_iff,
    Json.asBool?_eq_some_iff, get?_eq_some_iff htable]
  constructor
  · rintro ⟨s', fields, rfl, name, hname, changed, hchanged, key, hkey, lines, hlines,
      scope, hscope, -, -, change, hchange, -⟩
    refine ⟨⟨fields, name, changed, key, lines, rfl, hname, hchanged, hkey, hlines,
      (exists_outcome_readScope position).1 ⟨scope, hscope⟩⟩, ?_⟩
    rintro ⟨fields', stated, hfields', hstated⟩
    obtain rfl := Json.object.inj hfields'
    exact (exists_outcome_readChange position).1 ⟨change, hchange⟩ ⟨stated, hstated⟩
  · rintro ⟨⟨fields, name, changed, key, lines, rfl, hname, hchanged, hkey, hlines, hscope⟩,
      hfinite⟩
    obtain ⟨scope, hscope⟩ := (exists_outcome_readScope position).2 hscope
    obtain ⟨counts, hcounts⟩ := exists_outcome_readCounts fields position
    obtain ⟨change, hchange⟩ := (exists_outcome_readChange position).2 <| by
      rintro ⟨stated, hstated⟩
      exact hfinite ⟨fields, stated, rfl, hstated⟩
    exact ⟨_, fields, rfl, name, hname, changed, hchanged, key, hkey, lines, hlines, scope, hscope,
      counts, hcounts, change, hchange, rfl⟩

/-- A pass is not refused if its entry is sound but states an infinite change. -/
theorem escapes_readPass (htable : (readTable entries).outcome = .ok table) :
    (readPass table s position entry).Escapes e ↔
      (IsSound entries entry ∧ StatesInfinite entry) ∧ e = .integer .infinite := by
  simp only [readPass_eq_bind, bind_pure_comp, escapes_bind, escapes_map, outcome_need_eq_ok,
    not_escapes_need, not_escapes_readScope, not_escapes_readCounts, false_or,
    escapes_readChange, Json.asObject?_eq_some_iff, Json.asString?_eq_some_iff,
    Json.asBool?_eq_some_iff, get?_eq_some_iff htable]
  constructor
  · rintro ⟨fields, rfl, name, hname, changed, hchanged, key, hkey, lines, hlines, scope, hscope,
      -, -, ⟨stated, hstated⟩, rfl⟩
    exact ⟨⟨⟨fields, name, changed, key, lines, rfl, hname, hchanged, hkey, hlines,
      (exists_outcome_readScope position).1 ⟨scope, hscope⟩⟩, fields, stated, rfl, hstated⟩, rfl⟩
  · rintro ⟨⟨⟨fields, name, changed, key, lines, rfl, hname, hchanged, hkey, hlines, hscope⟩,
      fields', stated, hfields', hstated⟩, rfl⟩
    obtain rfl := Json.object.inj hfields'
    obtain ⟨scope, hscope⟩ := (exists_outcome_readScope position).2 hscope
    obtain ⟨counts, hcounts⟩ := exists_outcome_readCounts fields position
    exact ⟨fields, rfl, name, hname, changed, hchanged, key, hkey, lines, hlines, scope, hscope,
      counts, hcounts, ⟨stated, hstated⟩, rfl⟩

instance isSteady_readPasses (table : TextTable) (position : Nat) (s : Scan) (passes : List Json) :
    (readPasses table position s passes).IsSteady := by
  induction passes generalizing position s with
  | nil =>
    unfold readPasses
    infer_instance
  | cons entry rest ih =>
    unfold readPasses
    infer_instance

/-- Passes are not refused if the first entry that is not read is sound but states an infinite
change. -/
theorem escapes_readPasses (htable : (readTable entries).outcome = .ok table) :
    (readPasses table position s passes).Escapes e ↔ ∃ front entry back,
      passes = front ++ entry :: back ∧
        (∀ other ∈ front, IsSound entries other ∧ ¬ StatesInfinite other) ∧
        (IsSound entries entry ∧ StatesInfinite entry) ∧ e = .integer .infinite := by
  induction passes generalizing position s with
  | nil => simp [readPasses]
  | cons entry rest ih =>
    rw [readPasses, escapes_bind, escapes_readPass htable]
    simp only [ih]
    constructor
    · rintro (h | ⟨s', hs', front, entry', back, rfl, hfront, h⟩)
      · exact ⟨[], entry, rest, rfl, by simp, h⟩
      · have hentry := (exists_outcome_readPass s position htable).1 ⟨s', hs'⟩
        exact ⟨entry :: front, entry', back, rfl, List.forall_mem_cons.2 ⟨hentry, hfront⟩, h⟩
    · rintro ⟨_ | ⟨first, front⟩, entry', back, heq, hfront, h⟩
      · obtain ⟨rfl, rfl⟩ := List.cons.inj heq
        exact .inl h
      · obtain ⟨rfl, rfl⟩ := List.cons.inj heq
        obtain ⟨hentry, hfront⟩ := List.forall_mem_cons.1 hfront
        obtain ⟨s', hs'⟩ := (exists_outcome_readPass s position htable).2 hentry
        exact .inr ⟨s', hs', front, entry', back, rfl, hfront, h⟩

/-! ### Whole payloads -/

variable {v : Json}

/-- A value with a table of texts and a list of passes, and nothing else. -/
def payloadOf (entries : Json.Fields) (passes : List Json) : Json :=
  .object [("version", .int schemaVersion),
    ("pipeline", .object [("ir_table", .object entries), ("passes", .array passes)])]

theorem hasParts_payloadOf (entries : Json.Fields) (passes : List Json) :
    HasParts (payloadOf entries passes) entries passes :=
  ⟨_, _, rfl, rfl, rfl, rfl, rfl⟩

/-- What a value that is read as a session was read from. -/
theorem outcome_ofJson_cases {session : Session} (h : (ofJson v).outcome = .ok session) :
    ∃ entries passes table initial s, HasParts v entries passes ∧
      (readTable entries).outcome = .ok table ∧ table.get? initialKey = some initial ∧
      (readPasses table 1 ⟨[], [(initialKey, 0)]⟩ passes).outcome = .ok s ∧
      session.pipeline = ⟨initial, s.passes.reverse⟩ := by
  simp only [ofJson, bind_pure_comp, outcome_bind_eq_ok, outcome_map_eq_ok, outcome_need_eq_ok,
    outcome_readVersion_eq_ok, Json.asObject?_eq_some_iff, Json.asArray?_eq_some_iff] at h
  obtain ⟨fields, hfields, -, ⟨hversion, -⟩, part, hpart, entries, hentries, passes, hpasses, table,
    htable, initial, hinitial, s, hs, -, -, rfl⟩ := h
  exact ⟨entries, passes, table, initial, s, ⟨fields, part, hfields, hversion, hpart, hentries,
    hpasses⟩, htable, hinitial, hs, rfl⟩

/-- A value with the parts of a payload is not refused if its table or its passes are not. -/
theorem escapes_ofJson : (ofJson v).Escapes e ↔ ∃ entries passes, HasParts v entries passes ∧
    ((readTable entries).Escapes e ∨ ∃ table initial, (readTable entries).outcome = .ok table ∧
      table.get? initialKey = some initial ∧
      (readPasses table 1 ⟨[], [(initialKey, 0)]⟩ passes).Escapes e) := by
  simp only [ofJson, bind_pure_comp, escapes_bind, escapes_map, not_escapes_need,
    not_escapes_require, not_escapes_readVersion, outcome_need_eq_ok, outcome_readVersion_eq_ok,
    Json.asObject?_eq_some_iff, Json.asArray?_eq_some_iff, false_or, and_false, exists_false,
    or_false]
  constructor
  · rintro ⟨fields, hfields, -, ⟨hversion, -⟩, part, hpart, entries, hentries, passes, hpasses, h⟩
    refine ⟨entries, passes, ⟨fields, part, hfields, hversion, hpart, hentries, hpasses⟩, ?_⟩
    rcases h with h | ⟨table, htable, initial, hinitial, h⟩
    · exact .inl h
    · exact .inr ⟨table, initial, htable, hinitial, h⟩
  · rintro ⟨entries, passes, ⟨fields, part, hfields, hversion, hpart, hentries, hpasses⟩, h⟩
    refine ⟨fields, hfields, _, ⟨hversion, rfl⟩, part, hpart, entries, hentries,
      passes, hpasses, ?_⟩
    rcases h with h | ⟨table, initial, htable, hinitial, h⟩
    · exact .inl h
    · exact .inr ⟨table, htable, initial, hinitial, h⟩

instance isSteady_ofJson (v : Json) : (ofJson v).IsSteady := by
  unfold ofJson
  infer_instance

end Session
end PassTrace

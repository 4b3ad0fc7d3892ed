import PassTrace.Proofs.Reporting
import PassTrace.Proofs.Session.Texts

/-!
# The parts of a payload

A payload that is read has a table of texts and a list of passes. Whether it is read, and how it may
fail otherwise than by a refusal, is told part by part.
-/

namespace PassTrace

/-- The characters of a payload are read as JSON with a result. -/
def Payload.Parses (result : Except Json.Fault Json) : Payload → Prop
  | .text s => Json.parse s = result
  | .bytes bs => ∃ cs, Text.decodeAny bs = .ok cs ∧ Json.parseUnmarked cs = result

namespace Json

variable {v : Json}

@[simp] theorem asObject?_eq_some_iff {fields : Fields} :
    v.asObject? = some fields ↔ v = .object fields := by
  cases v <;> simp [asObject?]

@[simp] theorem asArray?_eq_some_iff {items : List Json} :
    v.asArray? = some items ↔ v = .array items := by
  cases v <;> simp [asArray?]

@[simp] theorem asString?_eq_some_iff {s : String} : v.asString? = some s ↔ v = .string s := by
  cases v <;> simp [asString?]

@[simp] theorem asBool?_eq_some_iff {b : Bool} : v.asBool? = some b ↔ v = .bool b := by
  cases v <;> simp [asBool?]

@[simp] theorem asInt?_eq_some_iff {n : Int} : v.asInt? = some n ↔ v = .int n := by
  cases v <;> simp [asInt?]

/-- The strings of a value are the items of an array of strings. -/
theorem asStrings?_eq_some_iff {items : List String} :
    v.asStrings? = some items ↔ v = strings items := by
  constructor
  · intro h
    cases v with
    | array values =>
      change values.mapM asString? = some items at h
      refine congrArg array ?_
      induction values generalizing items with
      | nil =>
        obtain rfl := Option.some.inj h
        rfl
      | cons value values ih =>
        rw [List.mapM_cons] at h
        obtain ⟨item, hitem, h⟩ := Option.bind_eq_some_iff.1 h
        obtain ⟨rest, hrest, h⟩ := Option.bind_eq_some_iff.1 h
        obtain rfl := Option.some.inj h
        rw [asString?_eq_some_iff.1 hitem, ih hrest, List.map_cons]
    | _ => cases h
  · rintro rfl
    exact asStrings?_strings items

/-- Different lists have different arrays. -/
theorem strings_injective {items items' : List String} (h : strings items = strings items') :
    items = items' := by
  have hitems := asStrings?_strings items
  rw [h, asStrings?_strings] at hitems
  exact (Option.some.inj hitems).symm

end Json

namespace Session

/-- A value of the version that is read has a table of texts and a list of passes. -/
def HasParts (v : Json) (entries : Json.Fields) (passes : List Json) : Prop :=
  ∃ fields part : Json.Fields, v = .object fields ∧ fields.get "version" = .int schemaVersion ∧
    fields.get "pipeline" = .object part ∧ part.get "ir_table" = .object entries ∧
    part.get "passes" = .array passes

/-- An entry of a table is a packed list of lines. -/
def EntryHolds (entry : Json) (lines : Lines) : Prop :=
  ∃ packed, entry = .string packed ∧ unpackEntry packed = .ok (Json.strings lines)

/-- A table of texts holds lines under a key. -/
def TableHolds (entries : Json.Fields) (key : String) (lines : Lines) : Prop :=
  ∃ entry, entries.get? key = some entry ∧ EntryHolds entry lines

open Reporting

variable {payload : Payload} {v entry : Json} {entries : Json.Fields} {passes : List Json}
  {key : String} {lines : Lines} {table : TextTable} {e : Failure}

/-! ### The value of a payload -/

instance isSteady_ofParse (result : Except Json.Fault Json) : (ofParse result).IsSteady := by
  rcases result with (_ | _ | _) | _ <;> exact ⟨fun _ => rfl⟩

theorem outcome_ofParse_eq_ok {result : Except Json.Fault Json} :
    (ofParse result).outcome = .ok v ↔ result = .ok v := by
  rcases result with (_ | _ | _) | _ <;> simp [ofParse]

/-- Beyond the limits of reading the parser fails otherwise than by a refusal. -/
theorem escapes_ofParse {result : Except Json.Fault Json} :
    (ofParse result).Escapes e ↔
      (∃ fault, result = .error (.badInteger fault) ∧ e = .integer fault) ∨
        ∃ kind, result = .error (.tooDeep kind) ∧ e = .tooDeep kind := by
  rcases result with (_ | _ | _) | _ <;> simp [ofParse, Failure.IsRefusal, eq_comm]

theorem outcome_readPayload_eq_ok :
    (readPayload payload).outcome = .ok v ↔ payload.Parses (.ok v) := by
  cases payload with
  | text text => exact outcome_ofParse_eq_ok
  | bytes bytes =>
    unfold readPayload Payload.Parses
    cases hdecode : Text.decodeAny bytes with
    | ok cs => simp [hdecode, outcome_ofParse_eq_ok]
    | error fault => simp [hdecode]

theorem escapes_readPayload :
    (readPayload payload).Escapes e ↔
      (∃ fault, payload.Parses (.error (.badInteger fault)) ∧ e = .integer fault) ∨
        ∃ kind, payload.Parses (.error (.tooDeep kind)) ∧ e = .tooDeep kind := by
  cases payload with
  | text text => exact escapes_ofParse
  | bytes bytes =>
    unfold readPayload Payload.Parses
    cases hdecode : Text.decodeAny bytes with
    | ok cs => simp [hdecode, escapes_ofParse]
    | error fault => simp [hdecode]

instance isSteady_readVersion (found : Json) : (readVersion found).IsSteady := by
  unfold readVersion
  split <;> infer_instance

/-- Only the present version is read. -/
theorem outcome_readVersion_eq_ok {found : Json} {version : Int} :
    (readVersion found).outcome = .ok version ↔
      found = .int schemaVersion ∧ version = schemaVersion := by
  unfold readVersion
  split
  · next n =>
    simp only [outcome_bind_eq_ok, outcome_require_eq_ok, Json.int.injEq, decide_eq_true_eq]
    constructor
    · rintro ⟨-, hpos, h⟩
      split at h
      · cases h
      · next hle =>
        obtain rfl := Except.ok.inj h
        unfold schemaVersion at *
        omega
    · rintro ⟨rfl, rfl⟩
      exact ⟨(), by decide, rfl⟩
  · next hint =>
    simp only [outcome_throw, reduceCtorEq, false_iff, not_and]
    rintro rfl
    exact absurd rfl (hint _)

@[simp] theorem not_escapes_readVersion {found : Json} : ¬ (readVersion found).Escapes e := by
  unfold readVersion
  split
  · rw [escapes_bind]
    rintro (h | ⟨-, -, h⟩)
    · exact not_escapes_require h
    · split at h
      · simp at h
      · exact not_escapes_pure h
  · simp

/-! ### The table of texts -/

instance isSteady_readEntry (key : String) (entry : Json) :
    (readEntry key entry).IsSteady := by
  unfold readEntry
  have hunpacked (packed : String) : (match unpackEntry packed with
      | .error (.json (.tooDeep kind)) => throw (.tooDeep kind)
      | .error fault => throw (.corrupt (.entryUnreadable key fault) none)
      | .ok v => need (.entryNotLines key) v.asStrings? : Reporting Lines).IsSteady := by
    split <;> infer_instance
  infer_instance

/-- What an entry with a packed text comes to. -/
theorem readEntry_string (key packed : String) : readEntry key (.string packed) =
    match unpackEntry packed with
    | .error (.json (.tooDeep kind)) => throw (.tooDeep kind)
    | .error fault => throw (.corrupt (.entryUnreadable key fault) none)
    | .ok v => need (.entryNotLines key) v.asStrings? :=
  rfl

/-- An entry holds one list of lines. -/
theorem EntryHolds.unique {lines' : Lines} (h : EntryHolds entry lines)
    (h' : EntryHolds entry lines') : lines = lines' := by
  obtain ⟨packed, rfl, hunpack⟩ := h
  obtain ⟨packed', heq, hunpack'⟩ := h'
  obtain rfl := Json.string.inj heq
  exact Json.strings_injective (Except.ok.inj (hunpack.symm.trans hunpack'))

/-- An entry is read as the lines that it holds. -/
theorem outcome_readEntry_eq_ok :
    (readEntry key entry).outcome = .ok lines ↔ EntryHolds entry lines := by
  unfold EntryHolds
  constructor
  · intro h
    cases entry with
    | string packed =>
      refine ⟨packed, rfl, ?_⟩
      rw [readEntry_string] at h
      split at h
      · cases h
      · cases h
      · next v hunpack =>
        rw [outcome_need_eq_ok, Json.asStrings?_eq_some_iff] at h
        rw [hunpack, h]
    | _ => cases h
  · rintro ⟨packed, rfl, hunpack⟩
    rw [readEntry_string, hunpack, outcome_need_eq_ok]
    exact Json.asStrings?_strings lines

/-- A packed list of lines is an entry that holds them. -/
theorem entryHolds_packLines (lines : Lines) :
    EntryHolds (.string (Packing.packLines lines)) lines := by
  have hread : (readEntry initialKey (.string (Packing.packLines lines))).outcome = .ok lines := by
    rw [readEntry_packLines, outcome_pure]
  exact outcome_readEntry_eq_ok.1 hread

/-- An entry that is nested too deeply is not refused. -/
theorem escapes_readEntry : (readEntry key entry).Escapes e ↔ ∃ packed kind,
    entry = .string packed ∧ unpackEntry packed = .error (.json (.tooDeep kind)) ∧
      e = .tooDeep kind := by
  constructor
  · intro h
    cases entry with
    | string packed =>
      rw [readEntry_string] at h
      split at h
      · next kind hunpack =>
        obtain ⟨rfl, -⟩ := escapes_throw.1 h
        exact ⟨packed, kind, rfl, hunpack, rfl⟩
      · simp at h
      · exact absurd h not_escapes_need
    | _ => exact absurd h (by simp [readEntry, Json.asString?, need])
  · rintro ⟨packed, kind, rfl, hunpack, rfl⟩
    rw [readEntry_string, hunpack]
    exact escapes_throw.2 ⟨rfl, id⟩

/-- Reads an entry of the table with its key. -/
def readField (field : String × Json) : Reporting (String × Lines) := do
  return (field.1, ← readEntry field.1 field.2)

instance isSteady_readField (field : String × Json) : (readField field).IsSteady := by
  unfold readField
  infer_instance

theorem outcome_readField_eq_ok {field : String × Json} {named : String × Lines} :
    (readField field).outcome = .ok named ↔ named.1 = field.1 ∧ EntryHolds field.2 named.2 := by
  simp only [readField, bind_pure_comp, outcome_map_eq_ok, outcome_readEntry_eq_ok]
  constructor
  · rintro ⟨lines, h, rfl⟩
    exact ⟨rfl, h⟩
  · rintro ⟨hkey, h⟩
    exact ⟨_, h, Prod.ext hkey.symm rfl⟩

/-- Whether an entry is read does not depend on its key. -/
theorem exists_outcome_readField {field : String × Json} :
    (∃ named, (readField field).outcome = .ok named) ↔ ∃ lines, EntryHolds field.2 lines := by
  simp only [outcome_readField_eq_ok]
  constructor
  · rintro ⟨named, -, h⟩
    exact ⟨_, h⟩
  · rintro ⟨lines, h⟩
    exact ⟨(field.1, lines), rfl, h⟩

/-- The table is read entry by entry. -/
theorem readTable_eq (entries : Json.Fields) : readTable entries = entries.mapM readField :=
  rfl

instance isSteady_readTable (entries : Json.Fields) : (readTable entries).IsSteady := by
  rw [readTable_eq]
  infer_instance

/-- A table is read if each of its entries holds lines. -/
theorem exists_outcome_readTable : (∃ table, (readTable entries).outcome = .ok table) ↔
    ∀ field ∈ entries, ∃ lines, EntryHolds field.2 lines := by
  simp only [readTable_eq, exists_outcome_mapM, exists_outcome_readField]

/-- A table is not refused if an entry behind sound ones is nested too deeply. -/
theorem escapes_readTable : (readTable entries).Escapes e ↔ ∃ front key packed back kind,
    entries = front ++ (key, .string packed) :: back ∧
      (∀ field ∈ front, ∃ lines, EntryHolds field.2 lines) ∧
      unpackEntry packed = .error (.json (.tooDeep kind)) ∧ e = .tooDeep kind := by
  have hfield {field : String × Json} :
      (readField field).Escapes e ↔ (readEntry field.1 field.2).Escapes e := by
    simp only [readField, bind_pure_comp, escapes_map]
  simp only [readTable_eq, escapes_mapM, exists_outcome_readField, hfield, escapes_readEntry]
  constructor
  · rintro ⟨front, ⟨key, entry⟩, back, hentries, hfront, packed, kind, rfl, h⟩
    exact ⟨front, key, packed, back, kind, hentries, hfront, h⟩
  · rintro ⟨front, key, packed, back, kind, hentries, hfront, h⟩
    exact ⟨front, _, back, hentries, hfront, packed, kind, rfl, h⟩

/-- The table that is read has the texts that the entries hold. -/
theorem get?_eq_some_iff (h : (readTable entries).outcome = .ok table) :
    table.get? key = some lines ↔ TableHolds entries key lines := by
  rw [readTable_eq, outcome_mapM_eq_ok] at h
  unfold TextTable.get? TableHolds Json.Fields.get?
  induction h with
  | nil => simp
  | @cons field named entries table hfield _ ih =>
    obtain ⟨hname, hholds⟩ := outcome_readField_eq_ok.1 hfield
    by_cases hkey : field.1 = key
    · have hnamed : named.1 = key := hname.trans hkey
      simp only [List.find?_cons, hkey, hnamed, decide_true, Option.map_some, Option.some.injEq,
        exists_eq_left']
      constructor
      · rintro rfl
        exact hholds
      · exact hholds.unique
    · have hnamed : named.1 ≠ key := hname ▸ hkey
      simpa [hkey, hnamed] using ih

end Session
end PassTrace

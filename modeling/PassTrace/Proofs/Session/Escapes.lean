import PassTrace.Proofs.Session.Entries

/-!
# Payloads that are neither read nor refused

A payload is meant to be read as a session, or to be refused as damaged or as of a newer kind. It
fails otherwise in four ways: if an integer in it has too many digits, if it is nested too deeply,
if an entry of its table is, and if the change of a pass has an infinite number.
-/

namespace PassTrace

open Session in
/-- A payload goes beyond what is read or refused, and fails otherwise. Whatever stands in front of
the place where it does so must be sound, since a refusal comes first. -/
inductive Payload.Overreaches (payload : Payload) : Failure → Prop
  /-- An integer in it has too many digits. -/
  | integer {fault : IntegerFault} (hparse : payload.Parses (.error (.badInteger fault))) :
    Overreaches payload (.integer fault)
  /-- Its values are nested too deeply. -/
  | nesting {kind : Json.Compound} (hparse : payload.Parses (.error (.tooDeep kind))) :
    Overreaches payload (.tooDeep kind)
  /-- The values in an entry of its table are nested too deeply. -/
  | entry {v : Json} {front back : Json.Fields} {key packed : String} {passes : List Json}
    {kind : Json.Compound} (hparse : payload.Parses (.ok v))
    (hparts : HasParts v (front ++ (key, .string packed) :: back) passes)
    (hfront : ∀ field ∈ front, ∃ lines, EntryHolds field.2 lines)
    (hunpack : unpackEntry packed = .error (.json (.tooDeep kind))) :
    Overreaches payload (.tooDeep kind)
  /-- The change of a pass has an infinite number. -/
  | change {v : Json} {entries : Json.Fields} {front back : List Json} {entry : Json}
    {initial : Lines} (hparse : payload.Parses (.ok v))
    (hparts : HasParts v entries (front ++ entry :: back))
    (htable : ∀ field ∈ entries, ∃ lines, EntryHolds field.2 lines)
    (hinitial : TableHolds entries initialKey initial)
    (hfront : ∀ other ∈ front, IsSound entries other ∧ ¬ StatesInfinite other)
    (hsound : IsSound entries entry) (hinfinite : StatesInfinite entry) :
    Overreaches payload (.integer .infinite)

namespace Session

open Reporting

variable {payload : Payload} {e : Failure}

/-- A payload fails otherwise than by a refusal in its characters or in its value. -/
theorem escapes_decode : (decode payload).Escapes e ↔
    (readPayload payload).Escapes e ∨ ∃ v, payload.Parses (.ok v) ∧ (ofJson v).Escapes e := by
  unfold decode
  simp only [escapes_bind, outcome_readPayload_eq_ok]

/-- A payload that overreaches is neither read nor refused. -/
theorem escapes_of_overreaches (h : payload.Overreaches e) : (decode payload).Escapes e := by
  rw [escapes_decode, escapes_readPayload]
  cases h with
  | integer hparse => exact .inl (.inl ⟨_, hparse, rfl⟩)
  | nesting hparse => exact .inl (.inr ⟨_, hparse, rfl⟩)
  | entry hparse hparts hfront hunpack =>
    refine .inr ⟨_, hparse, escapes_ofJson.2 ⟨_, _, hparts, .inl ?_⟩⟩
    exact escapes_readTable.2 ⟨_, _, _, _, _, rfl, hfront, hunpack, rfl⟩
  | change hparse hparts htable hinitial hfront hsound hinfinite =>
    obtain ⟨table, htable⟩ := exists_outcome_readTable.2 htable
    have hget := (get?_eq_some_iff htable).2 hinitial
    refine .inr ⟨_, hparse, escapes_ofJson.2 ⟨_, _, hparts, .inr ⟨table, _, htable, hget, ?_⟩⟩⟩
    exact (escapes_readPasses htable).2 ⟨_, _, _, rfl, hfront, ⟨hsound, hinfinite⟩, rfl⟩

/-- The payloads that are neither read nor refused are those that overreach, and they fail with what
they overreach. -/
theorem escapes_decode_iff (payload : Payload) (e : Failure) :
    (decode payload).Escapes e ↔ payload.Overreaches e := by
  constructor
  · intro h
    rw [escapes_decode, escapes_readPayload] at h
    rcases h with (⟨fault, hparse, rfl⟩ | ⟨kind, hparse, rfl⟩) | ⟨v, hparse, h⟩
    · exact .integer hparse
    · exact .nesting hparse
    · obtain ⟨entries, passes, hparts, h⟩ := escapes_ofJson.1 h
      rcases h with h | ⟨table, initial, htable, hinitial, h⟩
      · obtain ⟨front, key, packed, back, kind, rfl, hfront, hunpack, rfl⟩ := escapes_readTable.1 h
        exact .entry hparse hparts hfront hunpack
      · obtain ⟨front, entry, back, rfl, hfront, ⟨hsound, hinfinite⟩, rfl⟩ :=
          (escapes_readPasses htable).1 h
        have hheld := exists_outcome_readTable.1 ⟨table, htable⟩
        exact .change hparse hparts hheld ((get?_eq_some_iff htable).1 hinitial) hfront hsound
          hinfinite
  · exact escapes_of_overreaches

/-- A table with an empty initial text. -/
def emptyTable : Json.Fields :=
  [(initialKey, .string (Packing.packLines []))]

/-- An entry of a pass whose change has an infinite number. -/
def infiniteEntry : Json :=
  .object [("name", .string "gvn"), ("changed", .bool true), ("ir_ref", .string initialKey),
    ("diff_stats", .object [("lines_before", .float (.infinity false))])]

/-- A payload with an infinite number is neither read nor refused. -/
theorem escapes_infiniteEntry :
    (decode (.text (payloadOf emptyTable [infiniteEntry]).asciiLine)).Escapes
      (.integer .infinite) := by
  have hparse : (Payload.text (payloadOf emptyTable [infiniteEntry]).asciiLine).Parses
      (.ok (payloadOf emptyTable [infiniteEntry])) := by
    refine Json.parse_asciiLine ?_ rfl
    simp [infiniteEntry, emptyTable, payloadOf, Json.HasDistinctNames,
      Json.FieldsHaveDistinctNames, Json.ItemsHaveDistinctNames]
  have hparts : HasParts (payloadOf emptyTable [infiniteEntry]) emptyTable
    ([] ++ [infiniteEntry]) :=
    hasParts_payloadOf _ _
  have hempty : EntryHolds (.string (Packing.packLines [])) [] := entryHolds_packLines []
  have hinitial : TableHolds emptyTable initialKey [] := ⟨_, rfl, hempty⟩
  refine escapes_of_overreaches (.change hparse hparts ?_ hinitial ?_ ?_ ?_)
  · simpa [emptyTable] using ⟨_, hempty⟩
  · simp
  · exact ⟨_, "gvn", true, initialKey, [], rfl, rfl, rfl, rfl, hinitial, .inl rfl, .inl rfl⟩
  · exact ⟨_, _, rfl, rfl, [], _, _, false, rfl, by simp, rfl⟩

end Session
end PassTrace

import Mathlib.Data.List.Sort
import PassTrace.Proofs.Files.Paths
import PassTrace.Proofs.Json.Document
import PassTrace.Proofs.Json.Limits
import PassTrace.Proofs.Session.Files
import PassTrace.Store.Basic

/-!
# Shelves of sessions

What a store keeps of a source file is a shelf: a list of sessions as they were saved, the newest
first. The index has an entry for each of them, from which it answers for the shelf. It lists the
sessions in the order in which they stand there, gives the one that is asked for, and is read back
from its text.
-/

namespace PassTrace

/-- A session as it was saved: what it was made of, when it was saved under what name, and the path
and the content of its file. -/
structure Saved where
  pipeline : Pipeline
  /-- The record of the source file. -/
  record : Json.Fields
  compilation : Json.Fields
  name : Option String
  savedAt : Binary64
  path : Path
  content : Bytes

namespace Saved

/-- The entry that the index has for a session. -/
def entry (e : Saved) : Json.Fields :=
  [("timestamp", .float e.savedAt),
    ("name", Json.ofOption .string e.name),
    ("opt_level", e.compilation.get "opt_level"),
    ("checksum", e.record.get "checksum"),
    ("file", .string e.path.toString),
    ("size", .int e.content.length),
    ("passes", .int e.pipeline.size),
    ("changed_passes", .int e.pipeline.changedCount)]

/-- The entry of a session in a list: with its number, and the source file. -/
def listed (key : String) (e : Saved × Nat) : Json.Fields :=
  (e.1.entry.set "index" (.int e.2)).set "source_key" (.string key)

/-- Whether a session is asked for by a name: its own, or the start of that of its file. -/
def answersTo (key : String) (e : Saved) : Bool :=
  e.name = some key || e.path.name.startsWith key

theorem get_file (e : Saved) : e.entry.get "file" = .string e.path.toString := rfl

/-- An entry can be written and is read back as it was written. -/
structure IsWritable (e : Saved) : Prop where
  hasDistinctNames : (Json.object e.entry).HasDistinctNames
  writeFault?_eq_none : ∀ {levels : Nat}, levels ≠ 0 →
    (Json.object e.entry).writeFault? levels = none

variable (key : String) (e : Saved × Nat)

theorem get?_file_listed : Json.Fields.get? (listed key e) "file" =
    some (.string e.1.path.toString) := by
  simp [listed, entry, Json.Fields.set, Json.Fields.get?]

theorem get_file_listed : (listed key e).get "file" = .string e.1.path.toString := by
  rw [Json.Fields.get, get?_file_listed]
  rfl

theorem get_name_listed : (listed key e).get "name" = Json.ofOption .string e.1.name := by
  simp [listed, entry, Json.Fields.set, Json.Fields.get, Json.Fields.get?]

end Saved

namespace Json

theorem equal_string (s t : String) : equal (.string s) (.string t) = decide (s = t) := by
  rw [equal]

theorem itemsFault?_of_forall {levels : Nat} {items : List Json}
    (h : ∀ item ∈ items, writeFault? levels item = none) : itemsFault? levels items = none := by
  induction items with
  | nil => rfl
  | cons item items ih =>
    obtain ⟨hitem, hitems⟩ := List.forall_mem_cons.mp h
    rw [itemsFault?, hitem]
    exact ih hitems

theorem fieldsFault?_of_forall {levels : Nat} {fields : Fields}
    (h : ∀ field ∈ fields, writeFault? levels field.2 = none) :
    fieldsFault? levels fields = none := by
  induction fields with
  | nil => rfl
  | cons field fields ih =>
    obtain ⟨hfield, hfields⟩ := List.forall_mem_cons.mp h
    rw [fieldsFault?, hfield]
    exact ih hfields

namespace Fields

variable {name : String} {value : Json} {fields : Fields}

/-- Setting a field leaves the names as they are, or puts a new one at the end. -/
theorem names_set : (fields.set name value).map (·.1) =
    if name ∈ fields.map (·.1) then fields.map (·.1) else fields.map (·.1) ++ [name] := by
  induction fields with
  | nil => rfl
  | cons field fields ih =>
    by_cases hfield : field.1 = name
    · simp [set, hfield]
    · rw [set, if_neg hfield, List.map_cons, List.map_cons, ih]
      by_cases hmem : name ∈ fields.map (·.1)
      · rw [if_pos hmem, if_pos (List.mem_cons_of_mem _ hmem)]
      · have hnot : name ∉ field.1 :: fields.map (·.1) := by
          rw [List.mem_cons, not_or]
          exact ⟨Ne.symm hfield, hmem⟩
        rw [if_neg hmem, if_neg hnot, List.cons_append]

theorem nodup_set (h : (fields.map (·.1)).Nodup) : ((fields.set name value).map (·.1)).Nodup := by
  rw [names_set]
  split
  · exact h
  · next hnew =>
    rw [List.nodup_append_comm]
    exact List.nodup_cons.mpr ⟨hnew, h⟩

/-- A field behind setting one was there with another name, or is the one that was set. -/
theorem mem_set (h : (fields.map (·.1)).Nodup) {field : String × Json}
    (hfield : field ∈ fields.set name value) :
    field = (name, value) ∨ field.1 ≠ name ∧ field ∈ fields := by
  induction fields with
  | nil => exact .inl (List.mem_singleton.mp hfield)
  | cons first fields ih =>
    obtain ⟨hfirst, hnodup⟩ := List.nodup_cons.mp h
    rw [set] at hfield
    split at hfield
    · next hname =>
      rcases List.mem_cons.mp hfield with rfl | hmem
      · exact .inl rfl
      · refine .inr ⟨?_, List.mem_cons_of_mem _ hmem⟩
        intro hfield
        have hnames : field.1 ∈ fields.map (·.1) := List.mem_map_of_mem hmem
        rw [hfield, ← hname] at hnames
        exact hfirst hnames
    · next hname =>
      rcases List.mem_cons.mp hfield with rfl | hmem
      · exact .inr ⟨hname, List.mem_cons_self⟩
      · rcases ih hnodup hmem with heq | ⟨hne, hmem⟩
        · exact .inl heq
        · exact .inr ⟨hne, List.mem_cons_of_mem _ hmem⟩

end Fields

end Json

namespace Index

/-- An index with lists of sessions. -/
def ofTable (table : Json.Fields) : Index :=
  ⟨[("version", .int 1), (sessionsField, .object table)]⟩

theorem sessions_ofTable (table : Json.Fields) : (ofTable table).sessions = table := rfl

theorem setSessions_ofTable (table : Json.Fields) (key : String) (v : Json) :
    (ofTable table).setSessions key v = ofTable (table.set key v) := rfl

/-- The list of a shelf. -/
def shelved (shelf : List Saved) : Json :=
  .array (shelf.map fun e => .object e.entry)

/-- A table has the lists of shelves. A shelf that it does not have is empty. -/
structure Tabulates (table : Json.Fields) (shelves : String → List Saved) : Prop where
  nodup : (table.map (·.1)).Nodup
  list_eq : ∀ {key : String} {list : Json}, (key, list) ∈ table → list = shelved (shelves key)
  absent : ∀ {key : String}, key ∉ table.map (·.1) → shelves key = []

section Tables

variable {table : Json.Fields} {shelves : String → List Saved}

theorem tabulates_empty : Tabulates [] fun _ => [] where
  nodup := List.nodup_nil
  list_eq := nofun
  absent := fun _ => rfl

theorem Tabulates.sessionsOf (h : Tabulates table shelves) (key : String) :
    (ofTable table).sessionsOf key = shelved (shelves key) := by
  unfold Index.sessionsOf
  rw [sessions_ofTable]
  unfold Json.Fields.get?
  cases hfind : table.find? fun field => field.1 = key with
  | none =>
    have habsent : key ∉ table.map (·.1) := by
      intro hmem
      obtain ⟨field, hfield, rfl⟩ := List.mem_map.mp hmem
      exact absurd (List.find?_eq_none.mp hfind field hfield) (by simp)
    rw [h.absent habsent]
    rfl
  | some field =>
    obtain ⟨key', list⟩ := field
    have hkey : key' = key := by simpa using List.find?_some hfind
    subst hkey
    exact h.list_eq (List.mem_of_find?_eq_some hfind)

/-- Another list for one shelf. -/
theorem Tabulates.set (h : Tabulates table shelves) (key : String) (shelf : List Saved) :
    Tabulates (table.set key (shelved shelf)) (Function.update shelves key shelf) where
  nodup := Json.Fields.nodup_set h.nodup
  list_eq := by
    intro key' list hmem
    rcases Json.Fields.mem_set h.nodup hmem with heq | ⟨hne, hmem⟩
    · obtain ⟨rfl, rfl⟩ := Prod.mk.inj heq
      rw [Function.update_self]
    · rw [Function.update_of_ne hne]
      exact h.list_eq hmem
  absent := by
    intro key' habsent
    have hnames := @Json.Fields.names_set key (shelved shelf) table
    have hne : key' ≠ key := by
      rintro rfl
      rw [hnames] at habsent
      split at habsent
      · next hmem => exact habsent hmem
      · exact habsent (List.mem_append_right _ (List.mem_singleton_self _))
    rw [Function.update_of_ne hne]
    refine h.absent fun hmem => habsent ?_
    rw [hnames]
    split
    · exact hmem
    · exact List.mem_append_left _ hmem

end Tables

section Texts

variable {table : Json.Fields} {shelves : String → List Saved}

/-- The index of shelves whose entries can be written can be written. -/
theorem Tabulates.writeFault?_eq_none (h : Tabulates table shelves)
    (hentries : ∀ key, ∀ e ∈ shelves key, e.IsWritable) :
    (Json.object (ofTable table).fields).writeFault? Json.maxLevels = none := by
  have hlist : ∀ field ∈ table, Json.writeFault? (Json.maxLevels - 2) field.2 = none := by
    intro ⟨key, list⟩ hfield
    obtain rfl := h.list_eq hfield
    have hitems : Json.itemsFault? (Json.maxLevels - 3)
        ((shelves key).map fun e => .object e.entry) = none := by
      refine Json.itemsFault?_of_forall fun item hitem => ?_
      obtain ⟨e, he, rfl⟩ := List.mem_map.mp hitem
      exact (hentries key e he).writeFault?_eq_none (by decide)
    exact hitems
  have htable : Json.fieldsFault? (Json.maxLevels - 2) table = none :=
    Json.fieldsFault?_of_forall hlist
  have hsessions : Json.writeFault? (Json.maxLevels - 1) (.object table) = none := htable
  have hversion : Json.writeFault? (Json.maxLevels - 1) (.int 1) = none := rfl
  refine Json.fieldsFault?_of_forall fun field hfield => ?_
  simp only [ofTable, List.mem_cons, List.not_mem_nil, or_false] at hfield
  rcases hfield with rfl | rfl
  · exact hversion
  · exact hsessions

theorem Tabulates.hasDistinctNames (h : Tabulates table shelves)
    (hentries : ∀ key, ∀ e ∈ shelves key, e.IsWritable) :
    (Json.object (ofTable table).fields).HasDistinctNames := by
  have hlist : ∀ field ∈ table, field.2.HasDistinctNames := by
    intro ⟨key, list⟩ hfield
    obtain rfl := h.list_eq hfield
    refine Json.itemsHaveDistinctNames_of_forall fun item hitem => ?_
    obtain ⟨e, he, rfl⟩ := List.mem_map.mp hitem
    exact (hentries key e he).hasDistinctNames
  have htable : (Json.object table).HasDistinctNames :=
    ⟨h.nodup, Json.fieldsHaveDistinctNames_of_forall hlist⟩
  exact ⟨by simp [ofTable, sessionsField], trivial, htable, trivial⟩

/-- The index is read back from its document. -/
theorem Tabulates.run_readIndex (h : Tabulates table shelves)
    (hentries : ∀ key, ∀ e ∈ shelves key, e.IsWritable) (w : World) :
    (Store.readIndex (Text.utf8 (Json.object (ofTable table).fields).document)).run.run w =
      (.ok (ofTable table), w) := by
  have hparse := Json.parseChars_document (h.hasDistinctNames hentries)
    (h.writeFault?_eq_none hentries)
  unfold Store.readIndex
  rw [Text.decodeUtf8_utf8]
  dsimp only
  rw [hparse]
  rfl

end Texts

end Index
end PassTrace

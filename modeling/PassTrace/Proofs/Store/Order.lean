import PassTrace.Proofs.Session.Fields
import PassTrace.Proofs.Store.Listing

/-!
# Sessions of several source files in order

All sessions of an index are sorted at once, and those of a source file for themselves. Both sorts
are stable; so the sessions of a source file stand in the long list as they do in the short one,
also those that were saved at one time.
-/

namespace PassTrace

namespace Json.Number

/-- A place among all numbers: below the finite ones, at the units of one of them, or above. -/
structure Rank where
  side : Int
  units : Int

namespace Rank

/-- The place below all finite numbers. -/
def lowest : Rank := ⟨-1, 0⟩

/-- Whether a place comes before another. -/
def less (r r' : Rank) : Bool :=
  r.side < r'.side || r.side = r'.side && r.units < r'.units

theorem less_trans {a b c : Rank} (hab : b.less a = false) (hbc : c.less b = false) :
    c.less a = false := by
  simp only [less, Bool.or_eq_false_iff, Bool.and_eq_false_iff, decide_eq_false_iff_not] at *
  omega

theorem less_asymm (a b : Rank) : a.less b = false ∨ b.less a = false := by
  simp only [less, Bool.or_eq_false_iff, Bool.and_eq_false_iff, decide_eq_false_iff_not]
  omega

end Rank

/-- The place of a number among all numbers. -/
def rank : Number → Rank
  | int n => ⟨0, n * Magnitude.unitsPerOne⟩
  | float .nan => .lowest
  | float (.infinity negative) => if negative then .lowest else ⟨1, 0⟩
  | float (.finite negative m) => ⟨0, Binary64.units negative m⟩

/-- Numbers are compared by their places. -/
theorem less_eq {n m : Number} (hn : n ≠ .float .nan) (hm : m ≠ .float .nan) :
    n.less m = n.rank.less m.rank := by
  have hone : 0 < (Magnitude.unitsPerOne : Int) := Int.natCast_pos.2 Magnitude.unitsPerOne_pos
  have hunits (a b : Int) : Rank.less ⟨0, a⟩ ⟨0, b⟩ = decide (a < b) := by simp [Rank.less]
  rcases n with n | (_ | s | ⟨s, x⟩) <;> rcases m with m | (_ | t | ⟨t, y⟩)
  case float.nan.int | float.nan.float.nan | float.nan.float.infinity | float.nan.float.finite =>
    exact absurd rfl hn
  case int.float.nan | float.infinity.float.nan | float.finite.float.nan => exact absurd rfl hm
  case float.infinity.float.infinity => cases s <;> cases t <;> rfl
  case int.float.infinity | float.finite.float.infinity => cases t <;> rfl
  case float.infinity.int | float.infinity.float.finite => cases s <;> rfl
  case int.float.finite | float.finite.int | float.finite.float.finite => exact (hunits _ _).symm
  case int.int =>
    rw [rank, rank, hunits, decide_eq_decide.mpr (Int.mul_lt_mul_right hone)]
    rfl

end Json.Number

section Sorting

variable {α : Type} {le : α → α → Bool} {x : α} {front back xs : List α}

/-- A list that was cut where the values start that a value comes before is put together again. -/
theorem filter_append_eq (hfront : ∀ y ∈ front, (!le x y) = true)
    (hback : ∀ y ∈ back, le x y = true) :
    (front ++ back).filter (fun y => !le x y) = front ∧ (front ++ back).filter (le x) = back := by
  constructor
  · rw [List.filter_append, List.filter_eq_self.2 hfront,
      List.filter_eq_nil_iff.2 fun y hy => by simp [hback y hy], List.append_nil]
  · rw [List.filter_append, List.filter_eq_self.2 hback,
      List.filter_eq_nil_iff.2 fun y hy => by simpa using hfront y hy, List.nil_append]

variable (htrans : ∀ a b c, le a b = true → le b c = true → le a c = true)
  (htotal : ∀ a b, (le a b || le b a) = true)
include htrans htotal

/-- One more value in front is put behind all that come before it, and in front of the others. -/
theorem exists_mergeSort_cons (x : α) (xs : List α) : ∃ front back,
    (x :: xs).mergeSort le = front ++ x :: back ∧ xs.mergeSort le = front ++ back ∧
      (∀ y ∈ front, (!le x y) = true) ∧ ∀ y ∈ back, le x y = true := by
  obtain ⟨front, back, hsort, hrest, hfront⟩ := List.mergeSort_cons htrans htotal x xs
  have hsorted := List.pairwise_mergeSort htrans htotal (x :: xs)
  rw [hsort] at hsorted
  exact ⟨front, back, hsort, hrest, hfront,
    (List.pairwise_cons.1 (List.pairwise_append.1 hsorted).2.1).1⟩

/-- A stable sort and a choice of values can change places. -/
theorem filter_mergeSort (p : α → Bool) (xs : List α) :
    (xs.mergeSort le).filter p = (xs.filter p).mergeSort le := by
  induction xs with
  | nil => simp
  | cons x xs ih =>
    obtain ⟨front, back, hsort, hrest, hfront, hback⟩ := exists_mergeSort_cons htrans htotal x xs
    rw [hrest, List.filter_append] at ih
    rw [hsort, List.filter_append]
    cases hx : p x with
    | false =>
      rw [List.filter_cons_of_neg (by simp [hx]), List.filter_cons_of_neg (by simp [hx]), ih]
    | true =>
      obtain ⟨front', back', hsort', hrest', hfront', hback'⟩ :=
        exists_mergeSort_cons htrans htotal x (xs.filter p)
      have hfrontp : ∀ y ∈ front.filter p, (!le x y) = true := fun y hy =>
        hfront y (List.mem_of_mem_filter hy)
      have hbackp : ∀ y ∈ back.filter p, le x y = true := fun y hy =>
        hback y (List.mem_of_mem_filter hy)
      have hcut := filter_append_eq hfrontp hbackp
      have hcut' := filter_append_eq hfront' hback'
      rw [← hrest', ← ih] at hcut'
      rw [List.filter_cons_of_pos hx, List.filter_cons_of_pos hx, hsort', ← hcut'.1, ← hcut'.2,
        hcut.1, hcut.2]

end Sorting

namespace Index

/-- The place of the time at which a session was saved. -/
def timeOf (entry : Json.Fields) : Json.Number.Rank :=
  ((sortNumber? entry).map Json.Number.rank).getD .lowest

variable {entry entry' : Json.Fields} {entries : List Json.Fields}

theorem ne_nan_of_sortNumber? {n : Json.Number} (h : sortNumber? entry = some n) :
    n ≠ .float .nan := by
  rintro rfl
  unfold sortNumber? at h
  split at h
  · cases h
  · cases h
  · next hnan _ => exact hnan (Option.some.inj h)

/-- Whether a session was saved at the time of another or later. -/
def notEarlier (entry entry' : Json.Fields) : Bool :=
  !(timeOf entry).less (timeOf entry')

theorem isNotOlder_eq (h : (sortNumber? entry).isSome) (h' : (sortNumber? entry').isSome) :
    isNotOlder entry entry' = notEarlier entry entry' := by
  obtain ⟨n, hn⟩ := Option.isSome_iff_exists.1 h
  obtain ⟨m, hm⟩ := Option.isSome_iff_exists.1 h'
  unfold isNotOlder notEarlier timeOf
  rw [hn, hm]
  dsimp only [Option.map_some, Option.getD_some]
  rw [Json.Number.less_eq (ne_nan_of_sortNumber? hn) (ne_nan_of_sortNumber? hm)]

theorem notEarlier_iff : notEarlier entry entry' = true ↔
    (timeOf entry).less (timeOf entry') = false := by
  unfold notEarlier
  rw [Bool.not_eq_true']

theorem notEarlier_trans (a b c : Json.Fields) (hab : notEarlier a b = true)
    (hbc : notEarlier b c = true) : notEarlier a c = true := by
  rw [notEarlier_iff] at *
  exact Json.Number.Rank.less_trans hbc hab

theorem notEarlier_total (a b : Json.Fields) : (notEarlier a b || notEarlier b a) = true := by
  rw [Bool.or_eq_true, notEarlier_iff, notEarlier_iff]
  exact Json.Number.Rank.less_asymm _ _

/-- Sessions sorted by their times, the latest first. -/
def byTime (entries : List Json.Fields) : List Json.Fields :=
  entries.mergeSort notEarlier

/-- Sessions with numbers for times are sorted by their times. -/
theorem newestFirst_eq (h : ∀ entry ∈ entries, (sortNumber? entry).isSome) :
    newestFirst entries = .ok (byTime entries) := by
  unfold newestFirst byTime
  rw [if_pos (List.all_eq_true.2 h)]
  have hsort := List.map_mergeSort (f := id) (l := entries) (r := isNotOlder) (s := notEarlier)
    fun entry he entry' he' => isNotOlder_eq (h entry he) (h entry' he')
  rw [List.map_id, List.map_id] at hsort
  exact congrArg Except.ok hsort

theorem pairwise_byTime (entries : List Json.Fields) :
    (byTime entries).Pairwise fun entry entry' => (timeOf entry).less (timeOf entry') = false :=
  (List.pairwise_mergeSort notEarlier_trans notEarlier_total entries).imp notEarlier_iff.mp

theorem filter_byTime (p : Json.Fields → Bool) (entries : List Json.Fields) :
    (byTime entries).filter p = byTime (entries.filter p) :=
  filter_mergeSort notEarlier_trans notEarlier_total p entries

theorem map_byTime {f : Json.Fields → Json.Fields} (hf : ∀ entry, timeOf (f entry) = timeOf entry)
    (entries : List Json.Fields) : (byTime entries).map f = byTime (entries.map f) :=
  List.map_mergeSort fun entry _ entry' _ => by rw [notEarlier, notEarlier, hf, hf]

section Fields

variable {fields : Json.Fields} {name : String} {value : Json}

/-- An entry of a list without its number. -/
def unnumbered (fields : Json.Fields) : Json.Fields :=
  fields.filter fun field => field.1 ≠ "index"

/-- An entry as the index has it: neither with a number nor with the name of its source file. -/
structure IsBare (fields : Json.Fields) : Prop where
  index_not_mem : "index" ∉ fields.map (·.1)
  source_not_mem : "source_key" ∉ fields.map (·.1)

theorem unnumbered_eq_self (h : "index" ∉ fields.map (·.1)) : unnumbered fields = fields := by
  refine List.filter_eq_self.2 fun field hfield => decide_eq_true ?_
  rintro heq
  exact h (List.mem_map.2 ⟨field, hfield, heq⟩)

/-- An entry of a list with the name of its source file. -/
def attributed (source : String) (fields : Json.Fields) : Json.Fields :=
  fields.set "source_key" (.string source)

theorem attributed_eq (h : IsBare fields) (source : String) :
    attributed source fields = fields ++ [("source_key", .string source)] :=
  Json.Fields.set_of_new _ h.source_not_mem

theorem index_not_mem_attributed (h : IsBare fields) (source : String) :
    "index" ∉ (attributed source fields).map (·.1) := by
  rw [attributed_eq h, List.map_append, List.mem_append, not_or]
  exact ⟨h.index_not_mem, by simp⟩

/-- Numbering an entry and taking the number away gives the entry. -/
theorem unnumbered_set (h : "index" ∉ fields.map (·.1)) (n : Json) :
    unnumbered (fields.set "index" n) = fields := by
  rw [Json.Fields.set_of_new n h, unnumbered, List.filter_append, ← unnumbered,
    unnumbered_eq_self h]
  simp

/-- An entry can be numbered before it is given the name of its source file. -/
theorem unnumbered_attributed_set (h : IsBare fields) (source : String) (n : Json) :
    unnumbered (attributed source (fields.set "index" n)) = attributed source fields := by
  have hnew : "source_key" ∉ (fields.set "index" n).map (·.1) := by
    rw [Json.Fields.set_of_new n h.index_not_mem, List.map_append, List.mem_append, not_or]
    exact ⟨h.source_not_mem, by simp⟩
  rw [attributed, Json.Fields.set_of_new _ hnew, unnumbered, List.filter_append, ← unnumbered,
    unnumbered_set h.index_not_mem, attributed_eq h]
  simp

theorem get_set_of_ne {other : String} (h : other ≠ name) :
    (fields.set name value).get other = fields.get other := by
  rw [Json.Fields.get, Json.Fields.get, Json.Fields.get?_set_of_ne h]

theorem get_set_self : (fields.set name value).get name = value := by
  unfold Json.Fields.get Json.Fields.get?
  induction fields with
  | nil => simp [Json.Fields.set]
  | cons field fields ih =>
    rw [Json.Fields.set]
    split
    · simp
    · next hne => simpa [hne] using ih

theorem sortNumber?_set (h : name ≠ "timestamp") :
    sortNumber? (fields.set name value) = sortNumber? fields := by
  unfold sortNumber? sortKey
  rw [get_set_of_ne h.symm]

theorem timeOf_set (h : name ≠ "timestamp") : timeOf (fields.set name value) = timeOf fields := by
  unfold timeOf
  rw [sortNumber?_set h]

end Fields

/-- The sessions of a source file as they are listed with all others. -/
def collect (field : String × Json) : Except Failure (List Json.Fields) := do
  (← items field.2).mapM fun item => return attributed field.1 (← writable item)

theorem listAll_eq_collect (i : Index) : i.listAll = (do
    let lists ← i.sessions.mapM collect
    return numbered (← newestFirst lists.flatten)) := rfl

/-- Sessions of source files, each list with the name of the file. -/
abbrev Table := List (String × List Json.Fields)

namespace Table

/-- The sessions of a source file. -/
def entriesOf (table : Table) (source : String) : List Json.Fields :=
  table.flatMap fun (other, entries) => if other = source then entries else []

/-- All sessions, each with the name of its source file. -/
def recorded (table : Table) : List Json.Fields :=
  table.flatMap fun (source, entries) => entries.map (attributed source)

/-- The lists as the index has them. -/
def fields (table : Table) : Json.Fields :=
  table.map fun (source, entries) => (source, .array (entries.map .object))

variable {table : Table} {source : String} {entry : Json.Fields}

theorem exists_of_mem_entriesOf (h : entry ∈ table.entriesOf source) :
    ∃ entries, (source, entries) ∈ table ∧ entry ∈ entries := by
  obtain ⟨⟨other, entries⟩, hlist, hentry⟩ := List.mem_flatMap.1 h
  dsimp only at hentry
  split at hentry
  · next heq => exact ⟨entries, heq ▸ hlist, hentry⟩
  · cases hentry

theorem exists_of_mem_recorded (h : entry ∈ table.recorded) : ∃ source entries bare,
    (source, entries) ∈ table ∧ bare ∈ entries ∧ attributed source bare = entry := by
  obtain ⟨⟨source, entries⟩, hlist, hentry⟩ := List.mem_flatMap.1 h
  obtain ⟨bare, hbare, rfl⟩ := List.mem_map.1 hentry
  exact ⟨source, entries, bare, hlist, hbare, rfl⟩

/-- The name of the source file of a session. -/
def sourceOf (entry : Json.Fields) : Option String :=
  (entry.get "source_key").asString?

theorem sourceOf_attributed (source : String) (entry : Json.Fields) :
    sourceOf (attributed source entry) = some source := by
  rw [sourceOf, attributed, get_set_self]
  rfl

theorem sourceOf_unnumbered (entry : Json.Fields) :
    sourceOf (unnumbered entry) = sourceOf entry := by
  have hget : (unnumbered entry).get? "source_key" = entry.get? "source_key" := by
    unfold unnumbered Json.Fields.get?
    rw [List.find?_filter]
    congr 2
    funext field
    by_cases hname : field.1 = "source_key" <;> simp [hname]
  unfold sourceOf Json.Fields.get
  rw [hget]

/-- The sessions with the name of a source file are those of its list. -/
theorem filter_recorded (table : Table) (source : String) :
    table.recorded.filter (fun entry => sourceOf entry = some source) =
      (table.entriesOf source).map (attributed source) := by
  unfold recorded entriesOf
  rw [List.filter_flatMap, List.map_flatMap]
  congr 1
  funext ⟨other, entries⟩
  dsimp only
  by_cases hother : other = source
  · subst hother
    rw [if_pos rfl, List.filter_eq_self]
    intro entry hentry
    obtain ⟨bare, -, rfl⟩ := List.mem_map.1 hentry
    exact decide_eq_true (sourceOf_attributed _ _)
  · rw [if_neg hother, List.map_nil, List.filter_eq_nil_iff]
    intro entry hentry
    obtain ⟨bare, -, rfl⟩ := List.mem_map.1 hentry
    simp [sourceOf_attributed, hother]

/-- The list that an index has for a source file is found under its name. -/
theorem get?_fields (h : (table.map (·.1)).Nodup) (source : String) :
    (table.fields.get? source).getD (.array []) =
      .array ((table.entriesOf source).map .object) := by
  induction table with
  | nil => rfl
  | cons list table ih =>
    obtain ⟨other, entries⟩ := list
    obtain ⟨hother, hnodup⟩ := List.nodup_cons.1 h
    by_cases heq : other = source
    · subst heq
      have hnone : entriesOf table other = [] := List.flatMap_eq_nil_iff.2 fun list hlist =>
        if_neg fun heq => hother (List.mem_map.2 ⟨list, hlist, heq⟩)
      rw [entriesOf, List.flatMap_cons, ← entriesOf, hnone]
      simp [fields, Json.Fields.get?]
    · rw [entriesOf, List.flatMap_cons, ← entriesOf]
      simpa [fields, Json.Fields.get?, heq] using ih hnodup

end Table

/-- The lists of an index are a table of sessions with numbers for times. -/
structure HasTable (i : Index) (table : Table) : Prop where
  sessions_eq : i.sessions = table.fields
  nodup : (table.map (·.1)).Nodup
  timed : ∀ list ∈ table, ∀ entry ∈ list.2, (sortNumber? entry).isSome
  bare : ∀ list ∈ table, ∀ entry ∈ list.2, IsBare entry

/-- The listing of all sessions of an index: each session once, with the name of its source file,
the latest first, and with numbers from one. Those of a source file stand there as they do in the
listing of that source file alone. -/
structure ListsAll (i : Index) (all : List Json.Fields) : Prop where
  listAll_eq : i.listAll = .ok all
  exists_perm : ∃ table : Table, i.sessions = table.fields ∧
    (all.map unnumbered).Perm table.recorded
  ordered : all.Pairwise fun entry entry' => ∃ n m, sortNumber? entry = some n ∧
    sortNumber? entry' = some m ∧ n.less m = false
  numbers : all.map (·.get "index") = (List.range' 1 all.length).map fun (n : Nat) => .int n
  sources : ∀ source, ∃ sessions, i.listSessions source = .ok sessions ∧
    (all.filter fun entry => Table.sourceOf entry = some source).map unnumbered =
      sessions.map unnumbered

namespace HasTable

variable {i : Index} {table : Table}

theorem entries_array (entries : List Json.Fields) :
    Index.entries (.array (entries.map .object)) = .ok entries := by
  have hmap : (entries.map Json.object).mapM readable = .ok entries := by
    induction entries with
    | nil => rfl
    | cons entry entries ih =>
      rw [List.map_cons, List.mapM_cons, ih]
      rfl
  exact hmap

/-- The sessions of a source file are listed by their times. -/
theorem listSessions_eq (h : i.HasTable table) (source : String) : i.listSessions source =
    .ok ((numbered (byTime (table.entriesOf source))).map (attributed source)) := by
  have htimed : ∀ entry ∈ table.entriesOf source, (sortNumber? entry).isSome := by
    intro entry hentry
    obtain ⟨entries, hlist, hentry⟩ := Table.exists_of_mem_entriesOf hentry
    exact h.timed _ hlist entry hentry
  have hlist : i.sessionsOf source = .array ((table.entriesOf source).map .object) := by
    unfold Index.sessionsOf
    rw [h.sessions_eq, Table.get?_fields h.nodup]
  unfold Index.listSessions
  rw [hlist, entries_array]
  simp only [bind, Except.bind, newestFirst_eq htimed, pure, Except.pure]
  rfl

theorem collect_array (source : String) (entries : List Json.Fields) :
    collect (source, .array (entries.map .object)) = .ok (entries.map (attributed source)) := by
  change (entries.map Json.object).mapM (fun item => return attributed source (← writable item)) =
    Except.ok (entries.map (attributed source))
  induction entries with
  | nil => rfl
  | cons entry entries ih =>
    rw [List.map_cons, List.mapM_cons, ih]
    rfl

theorem timed_recorded (h : i.HasTable table) {entry : Json.Fields}
    (hentry : entry ∈ table.recorded) : (sortNumber? entry).isSome := by
  obtain ⟨source, entries, bare, hlist, hbare, rfl⟩ := Table.exists_of_mem_recorded hentry
  rw [attributed, sortNumber?_set (by decide)]
  exact h.timed _ hlist bare hbare

theorem mapM_recorded (table : Table) : table.fields.mapM collect =
    .ok (table.map fun (source, entries) => entries.map (attributed source)) := by
  induction table with
  | nil => rfl
  | cons list table ih =>
    rw [Table.fields, List.map_cons, List.mapM_cons, ← Table.fields, ih, collect_array]
    rfl

/-- All sessions are listed by their times. -/
theorem listAll_eq (h : i.HasTable table) :
    i.listAll = .ok (numbered (byTime table.recorded)) := by
  rw [listAll_eq_collect, h.sessions_eq, mapM_recorded]
  simp only [bind, Except.bind, pure, Except.pure, ← List.flatMap_def]
  rw [← Table.recorded, newestFirst_eq fun _ => h.timed_recorded]

theorem map_numbered {α : Type} {f g : Json.Fields → α} {entries : List Json.Fields}
    (h : ∀ entry ∈ entries, ∀ n, f (entry.set "index" n) = g entry) :
    (numbered entries).map f = entries.map g := by
  have hfirst : entries.map g = ((entries.zipIdx 1).map Prod.fst).map g := by
    rw [List.zipIdx_map_fst]
  rw [hfirst, numbered, List.map_map, List.map_map]
  refine List.map_congr_left fun entry hentry => ?_
  exact h entry.1 (List.fst_mem_of_mem_zipIdx hentry) _

theorem get_index_numbered (entries : List Json.Fields) : (numbered entries).map (·.get "index") =
    (List.range' 1 entries.length).map fun (n : Nat) => .int n := by
  have hnumbers : (numbered entries).map (·.get "index") =
      ((entries.zipIdx 1).map Prod.snd).map fun (n : Nat) => .int n := by
    rw [numbered, List.map_map, List.map_map]
    exact List.map_congr_left fun entry _ => get_set_self
  rw [hnumbers, List.zipIdx_map_snd]

/-- The sessions of the table that are numbered are those of the table. -/
theorem map_unnumbered (h : i.HasTable table) :
    (numbered (byTime table.recorded)).map unnumbered = byTime table.recorded := by
  refine (map_numbered fun entry hentry n => unnumbered_set ?_ n).trans (List.map_id _)
  obtain ⟨source, entries, bare, hlist, hbare, rfl⟩ :=
    Table.exists_of_mem_recorded (List.mem_mergeSort.1 hentry)
  exact index_not_mem_attributed (h.bare _ hlist bare hbare) source

theorem pairwise_numbered (h : i.HasTable table) :
    (numbered (byTime table.recorded)).Pairwise fun entry entry' => ∃ n m,
      sortNumber? entry = some n ∧ sortNumber? entry' = some m ∧ n.less m = false := by
  have hsame : (numbered (byTime table.recorded)).map sortNumber? =
      (byTime table.recorded).map sortNumber? :=
    map_numbered fun entry _ n => sortNumber?_set (by decide)
  have hpairs := List.pairwise_map (f := sortNumber?) (l := numbered (byTime table.recorded))
    (R := fun time time' => ∃ n m, time = some n ∧ time' = some m ∧ n.less m = false)
  rw [← hpairs, hsame, List.pairwise_map]
  refine (pairwise_byTime table.recorded).imp_of_mem fun {entry entry'} he he' hless => ?_
  obtain ⟨n, hn⟩ := Option.isSome_iff_exists.1 (h.timed_recorded (List.mem_mergeSort.1 he))
  obtain ⟨m, hm⟩ := Option.isSome_iff_exists.1 (h.timed_recorded (List.mem_mergeSort.1 he'))
  refine ⟨n, m, hn, hm, ?_⟩
  unfold timeOf at hless
  rw [hn, hm] at hless
  rw [Json.Number.less_eq (ne_nan_of_sortNumber? hn) (ne_nan_of_sortNumber? hm)]
  exact hless

/-- Those of one source file are in both lists alike. -/
theorem filter_numbered (h : i.HasTable table) (source : String) :
    ((numbered (byTime table.recorded)).filter fun entry =>
      Table.sourceOf entry = some source).map unnumbered =
      ((numbered (byTime (table.entriesOf source))).map (attributed source)).map unnumbered := by
  have hlong : ((numbered (byTime table.recorded)).filter fun entry =>
      Table.sourceOf entry = some source).map unnumbered =
        byTime ((table.entriesOf source).map (attributed source)) := by
    have hsource : (fun entry => decide (Table.sourceOf entry = some source)) =
        (fun entry => decide (Table.sourceOf entry = some source)) ∘ unnumbered := by
      funext entry
      rw [Function.comp_apply, Table.sourceOf_unnumbered]
    rw [hsource, ← List.filter_map, h.map_unnumbered, filter_byTime, Table.filter_recorded]
  have hshort : ((numbered (byTime (table.entriesOf source))).map (attributed source)).map
      unnumbered = (byTime (table.entriesOf source)).map (attributed source) := by
    rw [List.map_map]
    refine map_numbered fun entry hentry n => unnumbered_attributed_set ?_ source n
    obtain ⟨entries, hlist, hentry⟩ :=
      Table.exists_of_mem_entriesOf (List.mem_mergeSort.1 hentry)
    exact h.bare _ hlist entry hentry
  have htimes (entry : Json.Fields) : timeOf (attributed source entry) = timeOf entry :=
    timeOf_set (by decide)
  rw [hlong, hshort, map_byTime htimes]

/-- The listing of all sessions agrees with those of the source files. -/
theorem listsAll (h : i.HasTable table) : i.ListsAll (numbered (byTime table.recorded)) where
  listAll_eq := h.listAll_eq
  exists_perm := by
    refine ⟨table, h.sessions_eq, ?_⟩
    rw [h.map_unnumbered]
    exact List.mergeSort_perm _ _
  ordered := h.pairwise_numbered
  numbers := by
    rw [get_index_numbered, numbered, List.length_map, List.length_zipIdx]
  sources := fun source => ⟨_, h.listSessions_eq source, h.filter_numbered source⟩

end HasTable

end Index

end PassTrace

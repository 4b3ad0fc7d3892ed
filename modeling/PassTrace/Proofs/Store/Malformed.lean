import PassTrace.Proofs.Store.Answers
import PassTrace.Proofs.Store.Regular
import PassTrace.Proofs.Store.Sorting

/-!
# Indexes that nobody can list

The file of an index may hold anything. Bytes that are not JSON are given up in favour of an index
without sessions, but some others break the calls that read the index: bytes that are no text or go
beyond the limits of JSON, values that are no object, lists that do not hold sessions, time stamps
without a common order, and file names that are no strings.
-/

namespace PassTrace

/-- A failure that concerns neither a session file nor a session that is not there. -/
def Failure.IsForeign : Failure → Prop
  | sessionFile _ _ | noSession _ => False
  | _ => True

namespace Index

section Stamps

/-- The kinds of time stamps that have an order among themselves. -/
inductive StampKind
  | number
  | text
  | list
  deriving DecidableEq

/-- The kind of the time stamp of a session, if it is of one. -/
def stampKind? (entry : Json.Fields) : Option StampKind :=
  match sortKey entry with
  | .bool _ | .int _ | .float _ => some .number
  | .string _ => some .text
  | .array _ => some .list
  | .null | .object _ => none

/-- The time stamps of two sessions are of one kind. -/
def AreAlike (entry entry' : Json.Fields) : Prop :=
  ∃ kind, stampKind? entry = some kind ∧ stampKind? entry' = some kind

/-- Sessions cannot be sorted. Of arrays it depends on the comparisons that are made. -/
inductive Disordered (entries : List Json.Fields) : Prop
  /-- Two of the time stamps are not of one kind. -/
  | mixed (h : ¬ entries.Pairwise AreAlike)
  /-- All time stamps are arrays, and the sort comes upon two of them that have no order. -/
  | lists (hkind : ∀ entry ∈ entries, stampKind? entry = some .list)
    (h : Sorting.sortFalling older entries = .error .wrongKind)

variable {entry entry' : Json.Fields} {entries : List Json.Fields} {failure : Failure}

theorem AreAlike.symm (h : AreAlike entry entry') : AreAlike entry' entry := by
  obtain ⟨kind, hentry, hentry'⟩ := h
  exact ⟨kind, hentry', hentry⟩

theorem AreAlike.trans {entry'' : Json.Fields} (h : AreAlike entry entry')
    (h' : AreAlike entry' entry'') : AreAlike entry entry'' := by
  obtain ⟨kind, hentry, hentry'⟩ := h
  obtain ⟨kind', hother, hother'⟩ := h'
  obtain rfl := Option.some.inj (hentry'.symm.trans hother)
  exact ⟨kind, hentry, hother'⟩

/-- Only time stamps of one kind are compared. -/
theorem areAlike_of_older {isOlder : Bool} (h : older entry entry' = .ok isOlder) :
    AreAlike entry entry' := by
  unfold older at h
  unfold AreAlike stampKind?
  cases hkey : sortKey entry <;> cases hkey' : sortKey entry' <;>
    simp [hkey, hkey', Json.less?, Json.asNumber?] at h ⊢

/-- Time stamps of one kind other than arrays are always compared. -/
theorem stampKind?_of_older (h : older entry entry' = .error failure)
    (halike : AreAlike entry entry') : stampKind? entry = some .list := by
  obtain ⟨kind, hentry, hentry'⟩ := halike
  have hkinds := hentry.trans hentry'.symm
  unfold older at h
  unfold stampKind? at hentry hkinds ⊢
  cases hkey : sortKey entry <;> cases hkey' : sortKey entry' <;>
    simp [hkey, hkey', Json.less?, Json.asNumber?] at h hentry hkinds ⊢

theorem eq_wrongKind_of_older (h : older entry entry' = .error failure) : failure = .wrongKind := by
  unfold older at h
  split at h
  · cases h
  · exact (Except.error.inj h).symm

theorem stampKind?_of_sortNumber? (h : (sortNumber? entry).isSome) :
    stampKind? entry = some .number := by
  unfold sortNumber? at h
  unfold stampKind?
  cases hkey : sortKey entry <;> simp_all [Json.asNumber?]

/-- Where all of two or more time stamps are of one kind, each of them is of a kind. -/
theorem areAlike_of_pairwise (hpairs : entries.Pairwise AreAlike) (hlength : 1 < entries.length)
    (hentry : entry ∈ entries) (hentry' : entry' ∈ entries) : AreAlike entry entry' := by
  have : Std.Symm AreAlike := ⟨fun _ _ => AreAlike.symm⟩
  by_cases heq : entry = entry'
  · subst heq
    match entries, hlength with
    | first :: second :: rest, _ =>
      by_cases hfirst : entry = first
      · subst hfirst
        have hpair := List.rel_of_pairwise_cons hpairs List.mem_cons_self
        exact hpair.trans hpair.symm
      · have hpair := hpairs.forall hentry List.mem_cons_self hfirst
        exact hpair.trans hpair.symm
  · exact hpairs.forall hentry hentry' heq

/-- Numbers have a common order. -/
theorem not_disordered_of_numbers (h : ∀ entry ∈ entries, stampKind? entry = some .number) :
    ¬ Disordered entries := by
  intro hdisordered
  cases hdisordered with
  | mixed hmixed =>
    exact hmixed (List.pairwise_of_forall_mem_list fun entry hentry entry' hentry' =>
      ⟨_, h entry hentry, h entry' hentry'⟩)
  | lists hkind hsort =>
    obtain ⟨entry, hentry, -⟩ := Sorting.exists_of_sortFalling hsort
    cases (hkind entry hentry).symm.trans (h entry hentry)

/-- A sort that fails came upon time stamps without a common order. -/
theorem disordered_of_sortFalling (h : Sorting.sortFalling older entries = .error failure) :
    failure = .wrongKind ∧ Disordered entries := by
  obtain ⟨entry, hentry, entry', hentry', holder⟩ := Sorting.exists_of_sortFalling h
  obtain rfl := eq_wrongKind_of_older holder
  refine ⟨rfl, ?_⟩
  -- If all stamps are of one kind, it is that of the two that have no order: arrays.
  by_cases hpairs : entries.Pairwise AreAlike
  · have hlength : 1 < entries.length := by
      by_contra hshort
      rw [Sorting.sortFalling_of_length older (Nat.le_of_not_lt hshort)] at h
      cases h
    have halike {entry entry' : Json.Fields} (hentry : entry ∈ entries)
        (hentry' : entry' ∈ entries) : AreAlike entry entry' :=
      areAlike_of_pairwise hpairs hlength hentry hentry'
    refine .lists (fun other hother => ?_) h
    obtain ⟨kind, hkind, hkind'⟩ := halike hentry hother
    rw [hkind', ← hkind]
    exact stampKind?_of_older holder (halike hentry hentry')
  · exact .mixed hpairs

theorem Disordered.sortFalling_eq (h : Disordered entries) :
    Sorting.sortFalling older entries = .error .wrongKind := by
  cases h with
  | mixed h =>
    cases hsort : Sorting.sortFalling older entries with
    | ok sorted =>
      have hpairs : entries.Pairwise AreAlike :=
        Sorting.pairwise_of_sortFalling AreAlike.symm AreAlike.trans
          (fun _ _ _ => areAlike_of_older) hsort
      exact absurd hpairs h
    | error failure =>
      obtain ⟨entry, -, entry', -, holder⟩ := Sorting.exists_of_sortFalling hsort
      rw [eq_wrongKind_of_older holder]
  | lists _ h => exact h

/-- Sorting fails exactly for sessions without a common order. -/
theorem newestFirst_eq_error_iff : newestFirst entries = .error failure ↔
    failure = .wrongKind ∧ Disordered entries := by
  unfold newestFirst
  by_cases hnumbers : (entries.all fun entry => (sortNumber? entry).isSome) = true
  · have hkinds : ∀ entry ∈ entries, stampKind? entry = some .number := fun entry hentry =>
      stampKind?_of_sortNumber? (List.all_eq_true.mp hnumbers entry hentry)
    rw [if_pos hnumbers]
    exact ⟨nofun, fun ⟨_, h⟩ => absurd h (not_disordered_of_numbers hkinds)⟩
  · rw [if_neg hnumbers]
    refine ⟨disordered_of_sortFalling, ?_⟩
    rintro ⟨rfl, h⟩
    exact h.sortFalling_eq

end Stamps

section Lists

/-- A value that can be gone through. -/
inductive IsIterable : Json → Prop
  | array (values : List Json) : IsIterable (.array values)
  | object (fields : Json.Fields) : IsIterable (.object fields)
  | string (s : String) : IsIterable (.string s)

/-- A value that lists sessions and nothing else. An empty object or string lists none. -/
inductive Lists : Json → List Json.Fields → Prop
  | array (entries : List Json.Fields) : Lists (.array (entries.map .object)) entries
  | object : Lists (.object []) []
  | string : Lists (.string "") []

/-- A value is no list of sessions. -/
def IsNoList (list : Json) : Prop :=
  ∀ entries, ¬ Lists list entries

/-- A value by which the sessions of a source file are listed causes a failure. -/
inductive Breaks (list : Json) : Failure → Prop
  | notIterable (h : ¬ IsIterable list) : Breaks list .wrongKind
  | noList (h : IsIterable list) (hlist : IsNoList list) : Breaks list .lacksOperation
  | disordered {entries : List Json.Fields} (hlist : Lists list entries)
    (h : Disordered entries) : Breaks list .wrongKind

/-- Lists of sessions by their source files list some sessions altogether. -/
inductive ListAll : Json.Fields → List Json.Fields → Prop
  | nil : ListAll [] []
  | cons {source : String} {list : Json} {entries all : List Json.Fields} {lists : Json.Fields}
    (hlist : Lists list entries) (hlists : ListAll lists all) :
    ListAll ((source, list) :: lists) (entries.map (attributed source) ++ all)

/-- The values by which the sessions of all source files are listed cause a failure. -/
inductive BreakTogether (lists : Json.Fields) : Prop
  | noList {field : String × Json} (h : field ∈ lists) (hlist : IsNoList field.2)
  | disordered {all : List Json.Fields} (hlists : ListAll lists all) (h : Disordered all)

variable {list : Json} {values : List Json} {entries : List Json.Fields}

theorem mapM_cons_of_none {step : Json → Except Failure Json.Fields} {failure : Failure}
    (hother : ∀ v, v.asObject? = none → step v = .error failure) {v : Json}
    (hv : v.asObject? = none) (values : List Json) :
    (v :: values).mapM step = .error failure := by
  rw [List.mapM_cons, hother v hv]
  rfl

/-- A step through values that fails for all but objects. -/
theorem mapM_fields {step : Json → Except Failure Json.Fields} {make : Json.Fields → Json.Fields}
    {failure : Failure} (hobject : ∀ fields, step (.object fields) = .ok (make fields))
    (hother : ∀ v, v.asObject? = none → step v = .error failure) (values : List Json) :
    (∃ entries : List Json.Fields, values = entries.map .object ∧
      values.mapM step = .ok (entries.map make)) ∨
    (∀ entries : List Json.Fields, values ≠ entries.map .object) ∧
      values.mapM step = .error failure := by
  induction values with
  | nil => exact .inl ⟨[], rfl, rfl⟩
  | cons v values ih =>
    cases hv : v.asObject? with
    | none =>
      refine .inr ⟨fun entries h => ?_, mapM_cons_of_none hother hv values⟩
      cases entries with
      | nil => cases h
      | cons entry entries =>
        obtain rfl := (List.cons.inj h).1
        cases hv
    | some fields =>
      obtain rfl : v = .object fields := by cases v <;> cases hv; rfl
      rw [List.mapM_cons, hobject]
      rcases ih with ⟨entries, rfl, hentries⟩ | ⟨hnone, hfailure⟩
      · exact .inl ⟨fields :: entries, rfl, by rw [hentries]; rfl⟩
      · refine .inr ⟨fun entries h => ?_, by rw [hfailure]; rfl⟩
        cases entries with
        | nil => cases h
        | cons entry entries => exact hnone entries (List.cons.inj h).2

/-- What going through a list comes to. -/
theorem mapM_items {step : Json → Except Failure Json.Fields} {make : Json.Fields → Json.Fields}
    {failure : Failure} (hobject : ∀ fields, step (.object fields) = .ok (make fields))
    (hother : ∀ v, v.asObject? = none → step v = .error failure) (list : Json) :
    (∃ entries, Lists list entries ∧ (items list >>= (·.mapM step)) = .ok (entries.map make)) ∨
    (¬ IsIterable list ∧ (items list >>= (·.mapM step)) = .error .wrongKind) ∨
    IsIterable list ∧ IsNoList list ∧ (items list >>= (·.mapM step)) = .error failure := by
  cases list with
  | null | bool | int | float => exact .inr (.inl ⟨nofun, rfl⟩)
  | array values =>
    rcases mapM_fields hobject hother values with ⟨entries, rfl, hentries⟩ | ⟨hnone, hfailure⟩
    · exact .inl ⟨entries, .array entries, hentries⟩
    · refine .inr (.inr ⟨.array values, fun entries hlist => ?_, hfailure⟩)
      cases hlist
      exact hnone entries rfl
  | object fields =>
    cases fields with
    | nil => exact .inl ⟨[], .object, rfl⟩
    | cons field fields => exact .inr (.inr ⟨.object _, nofun, mapM_cons_of_none hother rfl _⟩)
  | string s =>
    have hitems : items (.string s) =
        .ok (s.toList.map fun c => .string (String.singleton c)) := rfl
    rw [hitems]
    cases hs : s.toList with
    | nil =>
      obtain rfl := String.toList_eq_nil_iff.mp hs
      exact .inl ⟨[], .string, rfl⟩
    | cons c cs =>
      refine .inr (.inr ⟨.string s, fun entries hlist => ?_, mapM_cons_of_none hother rfl _⟩)
      cases hlist
      cases hs

theorem Lists.isIterable (h : Lists list entries) : IsIterable list := by
  cases h with
  | array => exact .array _
  | object => exact .object _
  | string => exact .string _

theorem Lists.entries_eq (h : Lists list entries) : Index.entries list = .ok entries := by
  cases h with
  | array => exact HasTable.entries_array entries
  | object | string => rfl

theorem Lists.unique {entries' : List Json.Fields} (h : Lists list entries)
    (h' : Lists list entries') : entries' = entries :=
  Except.ok.inj (h'.entries_eq.symm.trans h.entries_eq)

/-- What reading the sessions of a list comes to. -/
theorem entries_cases (list : Json) :
    (∃ entries, Lists list entries ∧ Index.entries list = .ok entries) ∨
    (¬ IsIterable list ∧ Index.entries list = .error .wrongKind) ∨
    IsIterable list ∧ IsNoList list ∧ Index.entries list = .error .lacksOperation := by
  have hobject : ∀ fields, readable (.object fields) = .ok (id fields) := fun _ => rfl
  have hother : ∀ v : Json, v.asObject? = none → readable v = .error .lacksOperation := by
    intro v hv
    cases v <;> first | rfl | cases hv
  have h := mapM_items hobject hother list
  simp only [List.map_id] at h
  exact h

variable {i : Index} {source : String} {failure : Failure}

theorem Breaks.isForeign (h : Breaks list failure) : failure.IsForeign := by
  cases h <;> trivial

theorem listSessions_eq_error_of_entries (h : Index.entries (i.sessionsOf source) = .ok entries) :
    i.listSessions source = .error failure ↔ newestFirst entries = .error failure := by
  unfold Index.listSessions
  rw [h]
  simp only [bind, Except.bind, pure, Except.pure]
  cases newestFirst entries <;> simp

/-- Listing the sessions of a source file fails exactly as its value breaks it. -/
theorem listSessions_eq_error_iff : i.listSessions source = .error failure ↔
    Breaks (i.sessionsOf source) failure := by
  have herror {failure' : Failure} (h : Index.entries (i.sessionsOf source) = .error failure') :
      i.listSessions source = .error failure' := by
    unfold Index.listSessions
    rw [h]
    rfl
  rcases entries_cases (i.sessionsOf source) with
    ⟨entries, hlist, hentries⟩ | ⟨hiterable, hentries⟩ | ⟨hiterable, hlist, hentries⟩
  · rw [listSessions_eq_error_of_entries hentries, newestFirst_eq_error_iff]
    constructor
    · rintro ⟨rfl, h⟩
      exact .disordered hlist h
    · intro h
      cases h with
      | notIterable h => exact absurd hlist.isIterable h
      | noList _ h => exact absurd hlist (h _)
      | disordered hlist' h => exact ⟨rfl, hlist.unique hlist' ▸ h⟩
  · rw [herror hentries]
    constructor
    · rintro ⟨⟩
      exact .notIterable hiterable
    · intro h
      cases h with
      | notIterable => rfl
      | noList h => exact absurd h hiterable
      | disordered hlist => exact absurd hlist.isIterable hiterable
  · rw [herror hentries]
    constructor
    · rintro ⟨⟩
      exact .noList hiterable hlist
    · intro h
      cases h with
      | notIterable h => exact absurd hiterable h
      | noList => rfl
      | disordered hlist' => exact absurd hlist' (hlist _)

/-- What reading a list among all others comes to: there it does not matter what it lacks. -/
theorem collect_cases (field : String × Json) :
    (∃ entries, Lists field.2 entries ∧
      collect field = .ok (entries.map (attributed field.1))) ∨
    IsNoList field.2 ∧ collect field = .error .wrongKind := by
  have hobject : ∀ fields, (do return attributed field.1 (← writable (.object fields)) :
      Except Failure Json.Fields) = .ok (attributed field.1 fields) := fun _ => rfl
  have hother : ∀ v : Json, v.asObject? = none →
      (do return attributed field.1 (← writable v) : Except Failure Json.Fields) =
        .error .wrongKind := by
    intro v hv
    cases v <;> first | rfl | cases hv
  rcases mapM_items hobject hother field.2 with h | ⟨hiterable, h⟩ | ⟨-, hlist, h⟩
  · exact .inl h
  · exact .inr ⟨fun entries hlist => hiterable hlist.isIterable, h⟩
  · exact .inr ⟨hlist, h⟩

/-- What going through the lists of all source files comes to. -/
theorem mapM_collect (lists : Json.Fields) :
    (∃ parts, ListAll lists parts.flatten ∧ lists.mapM collect = .ok parts) ∨
    (∃ field ∈ lists, IsNoList field.2) ∧ lists.mapM collect = .error .wrongKind := by
  induction lists with
  | nil => exact .inl ⟨[], .nil, rfl⟩
  | cons field lists ih =>
    rw [List.mapM_cons]
    rcases collect_cases field with ⟨entries, hentries, hcollect⟩ | ⟨hlist, hcollect⟩
    · rw [hcollect]
      rcases ih with ⟨parts, hparts, hall⟩ | ⟨⟨other, hother, hlist⟩, hall⟩
      · rw [hall]
        exact .inl ⟨_ :: parts, .cons hentries hparts, rfl⟩
      · rw [hall]
        exact .inr ⟨⟨other, List.mem_cons_of_mem _ hother, hlist⟩, rfl⟩
    · rw [hcollect]
      exact .inr ⟨⟨field, List.mem_cons_self, hlist⟩, rfl⟩

theorem ListAll.exists_lists {lists : Json.Fields} {all : List Json.Fields}
    (h : ListAll lists all) {field : String × Json} (hfield : field ∈ lists) :
    ∃ entries, Lists field.2 entries := by
  induction h with
  | nil => cases hfield
  | cons hlist _ ih =>
    rcases List.mem_cons.mp hfield with rfl | hfield
    · exact ⟨_, hlist⟩
    · exact ih hfield

theorem ListAll.unique {lists : Json.Fields} {all all' : List Json.Fields}
    (h : ListAll lists all) (h' : ListAll lists all') : all' = all := by
  induction h generalizing all' with
  | nil =>
    cases h'
    rfl
  | cons hlist _ ih =>
    cases h' with
    | cons hlist' hlists' => rw [hlist.unique hlist', ih hlists']

/-- Listing the sessions of all source files fails exactly as their values break it. -/
theorem listAll_eq_error_iff : i.listAll = .error failure ↔
    failure = .wrongKind ∧ BreakTogether i.sessions := by
  rw [listAll_eq_collect]
  rcases mapM_collect i.sessions with ⟨parts, hparts, hall⟩ | ⟨⟨field, hfield, hlist⟩, hall⟩
  · have hsort : (do
        let lists ← i.sessions.mapM collect
        return numbered (← newestFirst lists.flatten)) = .error failure ↔
          newestFirst parts.flatten = .error failure := by
      rw [hall]
      simp only [bind, Except.bind, pure, Except.pure]
      cases newestFirst parts.flatten <;> simp
    rw [hsort, newestFirst_eq_error_iff]
    constructor
    · rintro ⟨rfl, h⟩
      exact ⟨rfl, .disordered hparts h⟩
    · rintro ⟨rfl, h⟩
      refine ⟨rfl, ?_⟩
      cases h with
      | noList hfield hlist =>
        obtain ⟨entries, hentries⟩ := hparts.exists_lists hfield
        exact absurd hentries (hlist entries)
      | disordered hlists h => exact hparts.unique hlists ▸ h
  · rw [hall]
    constructor
    · rintro ⟨⟩
      exact ⟨rfl, .noList hfield hlist⟩
    · rintro ⟨rfl, -⟩
      rfl

end Lists

section Searches

/-- The name of the file of a session, unless the file is no string. Without a file it is empty. -/
def fileName? (entry : Json.Fields) : Option String :=
  ((entry.get? "file").getD (.string "")).asString?.map fun text => (Path.ofString text).name

/-- A search for a name goes on behind a session. -/
def IsPassed (key : String) (entry : Json.Fields) : Prop :=
  (entry.get "name").asString? ≠ some key ∧
    ∃ name, fileName? entry = some name ∧ name.startsWith key = false

/-- A search for a name comes to a session with another name whose file is no string. -/
def IsInterrupted (key : String) (entries : List Json.Fields) : Prop :=
  ∃ front entry back, entries = front ++ entry :: back ∧ (∀ other ∈ front, IsPassed key other) ∧
    (entry.get "name").asString? ≠ some key ∧ fileName? entry = none

/-- A session that is asked for is not looked up to the end. -/
inductive BreaksSearch (i : Index) (source : String) (query : Query) : Failure → Prop
  | listing {failure : Failure} (h : Breaks (i.sessionsOf source) failure) :
    BreaksSearch i source query failure
  | naming {key : String} {entries : List Json.Fields} (hquery : query = .named key)
    (hlist : i.listSessions source = .ok entries) (h : IsInterrupted key entries) :
    BreaksSearch i source query .wrongKind

variable {entry : Json.Fields} {entries : List Json.Fields} {i : Index} {source key : String}
  {query : Query} {failure : Failure}

theorem isInterrupted_cons : IsInterrupted key (entry :: entries) ↔
    (entry.get "name").asString? ≠ some key ∧ fileName? entry = none ∨
      IsPassed key entry ∧ IsInterrupted key entries := by
  constructor
  · rintro ⟨front, other, back, heq, hfront, hother⟩
    cases front with
    | nil =>
      obtain ⟨rfl, -⟩ := List.cons.inj heq
      exact .inl hother
    | cons first front =>
      obtain ⟨rfl, rfl⟩ := List.cons.inj heq
      obtain ⟨hfirst, hfront⟩ := List.forall_mem_cons.mp hfront
      exact .inr ⟨hfirst, front, other, back, rfl, hfront, hother⟩
  · rintro (hentry | ⟨hentry, front, other, back, rfl, hfront, hother⟩)
    · exact ⟨[], entry, entries, rfl, nofun, hentry⟩
    · exact ⟨entry :: front, other, back, rfl, List.forall_mem_cons.mpr ⟨hentry, hfront⟩, hother⟩

/-- A search for a name looks at the name of a session first, and then at that of its file. -/
theorem findNamed_cons (key : String) (entry : Json.Fields) (entries : List Json.Fields) :
    findNamed key (entry :: entries) =
      if (entry.get "name").asString? = some key then .ok entry
      else
        match fileName? entry with
        | some name => if name.startsWith key then .ok entry else findNamed key entries
        | none => .error .wrongKind := by
  rw [findNamed]
  unfold isNamed fileName?
  by_cases hname : (entry.get "name").asString? = some key
  · rw [if_pos hname, if_pos hname]
    rfl
  · rw [if_neg hname, if_neg hname]
    cases (entry.get? "file").getD (.string "") <;> rfl

/-- A search for a name is interrupted, or it finds no session. -/
theorem findNamed_eq_error (h : findNamed key entries = .error failure) :
    failure = .wrongKind ∧ IsInterrupted key entries ∨ failure = .noSession (.named key) := by
  induction entries with
  | nil => exact .inr (Except.error.inj h).symm
  | cons entry entries ih =>
    rw [isInterrupted_cons]
    rw [findNamed_cons] at h
    split at h
    · cases h
    · next hname =>
      split at h
      · next name hfile =>
        split at h
        · cases h
        · next hstart =>
          have hpassed : IsPassed key entry := ⟨hname, name, hfile, by simpa using hstart⟩
          exact (ih h).imp_left (And.imp_right fun hrest => .inr ⟨hpassed, hrest⟩)
      · next hfile => exact .inl ⟨(Except.error.inj h).symm, .inl ⟨hname, hfile⟩⟩

/-- An interrupted search for a name fails. -/
theorem findNamed_of_isInterrupted (h : IsInterrupted key entries) :
    findNamed key entries = .error .wrongKind := by
  induction entries with
  | nil =>
    obtain ⟨front, entry, back, heq, -⟩ := h
    exact absurd heq.symm (by simp)
  | cons entry entries ih =>
    rw [findNamed_cons]
    rcases isInterrupted_cons.mp h with ⟨hname, hfile⟩ | ⟨⟨hname, name, hfile, hstart⟩, h⟩
    · simp only [hname, hfile, if_false]
    · simp only [hname, hfile, hstart, if_false, Bool.false_eq_true]
      exact ih h

/-- Looking up a session fails exactly as the index breaks it, or because there is no session. -/
theorem find_eq_error_iff {source : String} :
    (i.find source query = .error failure ∧ failure.IsForeign) ↔
      BreaksSearch i (Path.ofString source).name query failure := by
  unfold find
  constructor
  · rintro ⟨h, hforeign⟩
    -- That there is no such session does not break the index.
    have hfound (missing : MissingSession) : failure ≠ .noSession missing := by
      rintro rfl
      exact hforeign
    cases hlist : i.listSessions (Path.ofString source).name with
    | error failure' =>
      rw [hlist] at h
      obtain rfl := Except.error.inj h
      exact .listing (listSessions_eq_error_iff.mp hlist)
    | ok entries =>
      rw [hlist] at h
      cases entries with
      | nil => exact absurd (Except.error.inj h).symm (hfound _)
      | cons latest rest =>
        cases query with
        | latest => cases h
        | atIndex index =>
          dsimp only [bind, Except.bind] at h
          split at h
          · split at h
            · cases h
            · exact absurd (Except.error.inj h).symm (hfound _)
          · exact absurd (Except.error.inj h).symm (hfound _)
        | named key =>
          rcases findNamed_eq_error h with ⟨rfl, hinterrupted⟩ | hnone
          · exact .naming rfl hlist hinterrupted
          · exact absurd hnone (hfound _)
  · intro h
    cases h with
    | listing h =>
      rw [listSessions_eq_error_iff.mpr h]
      exact ⟨rfl, h.isForeign⟩
    | naming hquery hlist h =>
      subst hquery
      rw [hlist]
      refine ⟨?_, trivial⟩
      have hfind := findNamed_of_isInterrupted h
      obtain ⟨front, entry, back, rfl, -⟩ := h
      cases front <;> exact hfind

end Searches

section Contents

/-- The characters of some bytes are read as a JSON value, or have a fault. -/
def Parses (bytes : Bytes) (result : Except Json.Fault Json) : Prop :=
  ∃ cs, Text.decodeUtf8 bytes = .ok cs ∧ Json.parseChars (Text.unifyLineFeeds cs) = result

/-- No index is read from some bytes. -/
inductive IsUnreadable (bytes : Bytes) : Failure → Prop
  /-- They are not UTF-8. -/
  | text {fault : Text.Utf8Fault} (h : Text.decodeUtf8 bytes = .error fault) :
    IsUnreadable bytes (.text fault)
  /-- An integer has too many digits. -/
  | integer {fault : IntegerFault} (h : Parses bytes (.error (.badInteger fault))) :
    IsUnreadable bytes (.integer fault)
  /-- The values are nested too deeply. -/
  | nesting {kind : Json.Compound} (h : Parses bytes (.error (.tooDeep kind))) :
    IsUnreadable bytes (.tooDeep kind)
  /-- The value is no object. -/
  | noObject {v : Json} (h : Parses bytes (.ok v)) (hv : v.asObject? = none) :
    IsUnreadable bytes .lacksOperation

/-- An index is read from some bytes. -/
inductive Holds (bytes : Bytes) : Index → Prop
  /-- They are not JSON. -/
  | fresh {fault : Json.SyntaxFault} {place : Json.Place}
    (h : Parses bytes (.error (.badSyntax fault place))) : Holds bytes .fresh
  /-- They are an object with lists of sessions. -/
  | lists {fields lists : Json.Fields} (h : Parses bytes (.ok (.object fields)))
    (hlists : fields.get sessionsField = .object lists) : Holds bytes ⟨fields⟩
  /-- They are an object without lists. -/
  | noLists {fields : Json.Fields} (h : Parses bytes (.ok (.object fields)))
    (hlists : (fields.get sessionsField).asObject? = none) :
    Holds bytes ⟨fields.set sessionsField (.object [])⟩

variable {bytes : Bytes} {w : World}

/-- The index of a value or a fault that was read. -/
def ofParsed : Except Json.Fault Json → Except Failure Index
  | .ok v => ofJson v
  | .error (.badInteger fault) => .error (.integer fault)
  | .error (.tooDeep kind) => .error (.tooDeep kind)
  | .error (.badSyntax _ _) => .ok .fresh

theorem run_readIndex_of_parses {result : Except Json.Fault Json} (h : Parses bytes result) :
    ((Store.readIndex bytes).run.run w).1 = ofParsed result := by
  obtain ⟨cs, hdecode, hparse⟩ := h
  unfold Store.readIndex
  rw [hdecode]
  dsimp only
  rw [hparse]
  cases result with
  | error fault => cases fault <;> rfl
  | ok v =>
    unfold ofParsed
    dsimp only
    cases ofJson v <;> rfl

theorem IsUnreadable.run_readIndex {failure : Failure} (h : IsUnreadable bytes failure) :
    ((Store.readIndex bytes).run.run w).1 = .error failure := by
  cases h with
  | text h =>
    unfold Store.readIndex
    rw [h]
    rfl
  | integer h | nesting h => exact run_readIndex_of_parses h
  | @noObject v h hv =>
    rw [run_readIndex_of_parses h]
    cases v <;> first | rfl | cases hv

theorem Holds.run_readIndex {i : Index} (h : Holds bytes i) :
    ((Store.readIndex bytes).run.run w).1 = .ok i := by
  cases h with
  | fresh h => exact run_readIndex_of_parses h
  | lists h hlists =>
    rw [run_readIndex_of_parses h]
    unfold ofParsed ofJson
    dsimp only
    rw [hlists]
  | @noLists fields h hlists =>
    rw [run_readIndex_of_parses h]
    unfold ofParsed ofJson
    dsimp only
    cases hsessions : fields.get sessionsField with
    | object =>
      rw [hsessions] at hlists
      cases hlists
    | null | bool | int | float | string | array => rfl

/-- An index is read from any bytes, or it is not. -/
theorem isUnreadable_or_holds (bytes : Bytes) :
    (∃ failure, IsUnreadable bytes failure) ∨ ∃ i, Holds bytes i := by
  cases hdecode : Text.decodeUtf8 bytes with
  | error fault => exact .inl ⟨_, .text hdecode⟩
  | ok cs =>
    cases hparse : Json.parseChars (Text.unifyLineFeeds cs) with
    | error fault =>
      cases fault with
      | badSyntax => exact .inr ⟨_, .fresh ⟨cs, hdecode, hparse⟩⟩
      | badInteger => exact .inl ⟨_, .integer ⟨cs, hdecode, hparse⟩⟩
      | tooDeep => exact .inl ⟨_, .nesting ⟨cs, hdecode, hparse⟩⟩
    | ok v =>
      cases hv : v.asObject? with
      | none => exact .inl ⟨_, .noObject ⟨cs, hdecode, hparse⟩ hv⟩
      | some fields =>
        obtain rfl : v = .object fields := by cases v <;> cases hv; rfl
        cases hsessions : fields.get sessionsField with
        | object => exact .inr ⟨_, .lists ⟨cs, hdecode, hparse⟩ hsessions⟩
        | null | bool | int | float | string | array =>
          exact .inr ⟨_, .noLists ⟨cs, hdecode, hparse⟩ (by rw [hsessions]; rfl)⟩

end Contents

end Index

/-- An operation fails in a world, and neither because a session file cannot be used nor because a
session is not there. -/
def Operation.Escapes {α : Type} (x : Operation α) (w : World) (failure : Failure) : Prop :=
  (x.run.run w).1 = .error failure ∧ failure.IsForeign

theorem Index.IsUnreadable.isForeign {bytes : Bytes} {failure : Failure}
    (h : IsUnreadable bytes failure) : failure.IsForeign := by
  cases h <;> trivial

namespace Store

open Index Operation

variable {s : Store} {w : World} {bytes : Bytes} {failure : Failure}

/-- What the file of an index makes of a call that reads it. -/
theorem escapes_of_read {α : Type} {call : Index → Except Failure α}
    {broken : Index → Prop} (hread : w.files.read s.indexPath = .ok bytes)
    (hnull : s.indexPath.holdsNull = false)
    (hbroken : ∀ i, (call i = .error failure ∧ failure.IsForeign) ↔ broken i) :
    Escapes (do orThrow (call (← s.loadIndex))) w failure ↔
      IsUnreadable bytes failure ∨ ∃ i, Holds bytes i ∧ broken i := by
  have hstores := FileTree.stores_of_read hread
  have hload : s.loadIndex.run.run w = (readIndex bytes).run.run w := by
    rw [run_loadIndex, hstores.has hnull]
    simp only [hnull, Bool.false_eq_true, if_false]
    rw [hread]
  have hrun : ((do orThrow (call (← s.loadIndex)) : Operation α).run.run w).1 =
      ((readIndex bytes).run.run w).1 >>= call := by
    rw [run_bind, hload]
    cases (readIndex bytes).run.run w with
    | mk result w' =>
      cases result with
      | error failure' => rfl
      | ok i =>
        change ((orThrow (call i)).run.run w').1 = call i
        cases call i <;> rfl
  unfold Escapes
  rw [hrun]
  constructor
  · rintro ⟨herror, hforeign⟩
    rcases isUnreadable_or_holds bytes with ⟨failure', h⟩ | ⟨i, h⟩
    · rw [h.run_readIndex] at herror
      obtain rfl := Except.error.inj herror
      exact .inl h
    · rw [h.run_readIndex] at herror
      exact .inr ⟨i, h, (hbroken i).mp ⟨herror, hforeign⟩⟩
  · rintro (h | ⟨i, h, hi⟩)
    · rw [h.run_readIndex]
      exact ⟨rfl, h.isForeign⟩
    · rw [h.run_readIndex]
      exact (hbroken i).mpr hi

/-- The calls that read the index of a store fail with a foreign failure exactly if no index is read
from some bytes, which its file holds, or one that breaks the call. -/
structure EscapesExactly (s : Store) (w : World) (bytes : Bytes) : Prop where
  listSessions : ∀ source failure, Escapes (s.listSessions source) w failure ↔
    IsUnreadable bytes failure ∨
      ∃ i, Holds bytes i ∧ Breaks (i.sessionsOf (Path.ofString source).name) failure
  listAll : ∀ failure, Escapes s.listAll w failure ↔
    IsUnreadable bytes failure ∨
      ∃ i, Holds bytes i ∧ failure = .wrongKind ∧ BreakTogether i.sessions
  find : ∀ source query failure, Escapes (s.find source query) w failure ↔
    IsUnreadable bytes failure ∨
      ∃ i, Holds bytes i ∧ BreaksSearch i (Path.ofString source).name query failure

/-- Whatever bytes the file of the index holds, they decide which calls fail with a foreign failure,
and with which one. -/
theorem escapesExactly (hread : w.files.read s.indexPath = .ok bytes)
    (hnull : s.indexPath.holdsNull = false) : s.EscapesExactly w bytes where
  listSessions source failure := escapes_of_read hread hnull fun i => by
    rw [← listSessions_eq_error_iff]
    refine ⟨And.left, fun h => ⟨h, ?_⟩⟩
    exact (listSessions_eq_error_iff.mp h).isForeign
  listAll failure := escapes_of_read hread hnull fun i => by
    rw [← listAll_eq_error_iff]
    refine ⟨And.left, fun h => ⟨h, ?_⟩⟩
    rw [(listAll_eq_error_iff.mp h).1]
    trivial
  find source query failure := escapes_of_read hread hnull fun i =>
    find_eq_error_iff

/-- A world in which the index of a store holds some bytes. -/
def foreignWorld (bytes : Bytes) : World :=
  let files := (FileTree.empty "work").put ["work", "store"] .directory
  ⟨files.put ["work", "store", "metadata.json"] (.file bytes .zero), .zero, [], []⟩

theorem read_foreignWorld (bytes : Bytes) :
    (foreignWorld bytes).files.read plainStore.indexPath = .ok bytes := rfl

/-- An index that is an empty array breaks all calls. -/
theorem escapesExactly_emptyArray :
    let w := foreignWorld (Text.utf8 (Json.array []).line)
    Escapes (plainStore.listSessions "a.ll") w .lacksOperation ∧
      Escapes plainStore.listAll w .lacksOperation ∧
      Escapes (plainStore.find "a.ll" .latest) w .lacksOperation := by
  have hparse : Parses (Text.utf8 (Json.array []).line) (.ok (.array [])) :=
    ⟨_, Text.decodeUtf8_utf8 _, Json.parseChars_line trivial rfl⟩
  have hunreadable : IsUnreadable (Text.utf8 (Json.array []).line) .lacksOperation :=
    .noObject hparse rfl
  have h := escapesExactly (read_foreignWorld (Text.utf8 (Json.array []).line)) (by decide)
  exact ⟨(h.listSessions _ _).mpr (.inl hunreadable), (h.listAll _).mpr (.inl hunreadable),
    (h.find _ _ _).mpr (.inl hunreadable)⟩

end Store
end PassTrace

import PassTrace.Proofs.Store.Shelves

/-!
# Listing a shelf

The sessions of a shelf are listed by the times at which they were saved, the newest first, where
those of one time keep their order; so a shelf that was filled by a clock that never went back is
listed as it stands. A query picks a session by its place in the list, or as the first that answers
to a name.
-/

namespace PassTrace

namespace Binary64

variable {x : Binary64}

theorem units_of_isZero {negative : Bool} {m : Magnitude} (h : (finite negative m).isZero = true) :
    units negative m = 0 := by
  have hsignificand : m.significand = 0 := by simpa [isZero] using h
  simp [units, Magnitude.scaled, hsignificand]

theorem units_eq_of_isZero {negative : Bool} {m : Magnitude}
    (h : (finite negative m).isZero = true) : units negative m = 0 * Magnitude.unitsPerOne :=
  (units_of_isZero h).trans (Int.zero_mul _).symm

/-- A zero is less than what the integer zero is less than. -/
theorem less_of_isZero (h : x.isZero = true) (y : Binary64) : x.less y = intLess 0 y := by
  cases x with
  | nan => cases h
  | infinity => cases h
  | finite s m =>
    cases y with
    | nan => rfl
    | infinity => rfl
    | finite t n => rw [less, intLess, units_eq_of_isZero h]

/-- What is less than a zero is less than the integer zero. -/
theorem less_isZero (h : x.isZero = true) (y : Binary64) : y.less x = y.lessInt 0 := by
  cases x with
  | nan => cases h
  | infinity => cases h
  | finite s m =>
    cases y with
    | nan => rfl
    | infinity => rfl
    | finite t n => rw [less, lessInt, units_eq_of_isZero h]

/-- No zero is less than another. -/
theorem less_eq_false_of_isZero {y : Binary64} (hx : x.isZero = true) (hy : y.isZero = true) :
    x.less y = false := by
  cases x with
  | nan => cases hx
  | infinity => cases hx
  | finite s m =>
    cases y with
    | nan => cases hy
    | infinity => cases hy
    | finite t n =>
      rw [less, units_of_isZero hx, units_of_isZero hy]
      rfl

end Binary64

namespace Saved

/-- The number by which a session is sorted. -/
def sortNumber (e : Saved) : Json.Number :=
  if e.savedAt.isZero then .int 0 else .float e.savedAt

theorem sortNumber?_entry {e : Saved} (h : e.savedAt ≠ .nan) :
    Index.sortNumber? e.entry = some e.sortNumber := by
  have hkey : Index.sortKey e.entry =
      if e.savedAt.isZero then .int 0 else .float e.savedAt := rfl
  unfold Index.sortNumber? sortNumber
  rw [hkey]
  by_cases hzero : e.savedAt.isZero = true
  · rw [if_pos hzero, if_pos hzero]
    rfl
  · rw [if_neg hzero, if_neg hzero]
    cases htime : e.savedAt with
    | nan => exact absurd htime h
    | infinity => rfl
    | finite => rfl

/-- The numbers by which sessions are sorted compare like their times. -/
theorem less_sortNumber (e e' : Saved) :
    e.sortNumber.less e'.sortNumber = e.savedAt.less e'.savedAt := by
  unfold sortNumber
  by_cases hzero : e.savedAt.isZero = true
  · by_cases hzero' : e'.savedAt.isZero = true
    · rw [if_pos hzero, if_pos hzero', Binary64.less_eq_false_of_isZero hzero hzero']
      rfl
    · rw [if_pos hzero, if_neg hzero', Binary64.less_of_isZero hzero]
      rfl
  · by_cases hzero' : e'.savedAt.isZero = true
    · rw [if_neg hzero, if_pos hzero', Binary64.less_isZero hzero']
      rfl
    · rw [if_neg hzero, if_neg hzero']
      rfl

end Saved

/-- What is kept of a source file: sessions as they were saved, the newest first. -/
abbrev Shelf := List Saved

namespace Shelf

/-- The sessions in the order in which they are listed. -/
def arranged (shelf : Shelf) : Shelf :=
  shelf.mergeSort fun e e' => !e.savedAt.less e'.savedAt

/-- The sessions in the order in which they are listed, with their numbers. -/
def numbered (shelf : Shelf) : List (Saved × Nat) :=
  shelf.arranged.zipIdx 1

/-- The list of the sessions of a source file. -/
def listing (key : String) (shelf : Shelf) : List Json.Fields :=
  shelf.numbered.map (Saved.listed key)

/-- The session that a query picks, with its number. -/
def pick? (shelf : Shelf) : Index.Query → Option (Saved × Nat)
  | .latest => shelf.numbered.head?
  | .atIndex index =>
    let n := Index.indexNumber index
    if 1 ≤ n then shelf.numbered[(n - 1).toNat]? else none
  | .named name => shelf.numbered.find? (·.1.answersTo name)

variable {shelf : Shelf} {key : String}

theorem mem_arranged {e : Saved} : e ∈ shelf.arranged ↔ e ∈ shelf :=
  List.mem_mergeSort

/-- A shelf that was filled by a clock that never went back is listed as it stands. -/
theorem arranged_eq_self
    (h : shelf.Pairwise fun newer older => newer.savedAt.less older.savedAt = false) :
    shelf.arranged = shelf :=
  List.mergeSort_of_pairwise (h.imp fun hless => by rw [hless]; rfl)

theorem mem_of_mem_numbered {e : Saved × Nat} (h : e ∈ shelf.numbered) : e.1 ∈ shelf :=
  mem_arranged.mp (List.fst_mem_of_mem_zipIdx h)

theorem mem_numbered_of_pick? {query : Index.Query} {e : Saved × Nat}
    (h : shelf.pick? query = some e) : e ∈ shelf.numbered := by
  cases query with
  | latest => exact List.mem_of_head? h
  | atIndex index =>
    unfold pick? at h
    dsimp only at h
    split at h
    · exact List.mem_of_getElem? h
    · cases h
  | named name => exact List.mem_of_find?_eq_some h

theorem mem_of_pick? {query : Index.Query} {e : Saved × Nat} (h : shelf.pick? query = some e) :
    e.1 ∈ shelf :=
  mem_of_mem_numbered (mem_numbered_of_pick? h)

/-- A number asks for the session that has it. -/
theorem pick?_atIndex {e : Saved × Nat} (h : e ∈ shelf.numbered) :
    shelf.pick? (.atIndex (.int e.2)) = some e := by
  obtain ⟨i, hi, rfl⟩ := List.getElem_of_mem h
  have hlength : i < shelf.arranged.length := by simpa [numbered] using hi
  have hnumber : shelf.numbered[i].2 = i + 1 := by
    simp [numbered, Nat.add_comm]
  have hplace : (Index.indexNumber (.int shelf.numbered[i].2) - 1).toNat = i := by
    rw [hnumber, Index.indexNumber]
    omega
  have hfirst : 1 ≤ Index.indexNumber (.int shelf.numbered[i].2) := by
    rw [hnumber, Index.indexNumber]
    omega
  unfold pick?
  dsimp only
  rw [if_pos hfirst, hplace, List.getElem?_eq_getElem hi]

/-- The first of two kinds in a list that has the one kind is of that kind if none of those before
is of the other. -/
theorem find?_or_of_exists {α : Type} {p q : α → Bool} {xs : List α} (h : ∃ x ∈ xs, p x = true) :
    ∃ x, xs.find? (fun x => p x || q x) = some x ∧
      (p x = true ↔ ∀ y ∈ xs.takeWhile (fun y => !p y), q y = false) := by
  induction xs with
  | nil => simp at h
  | cons x xs ih =>
    cases hp : p x with
    | true => exact ⟨x, by simp [hp], by simp [hp]⟩
    | false =>
      cases hq : q x with
      | true => exact ⟨x, by simp [hq], by simp [hp, hq]⟩
      | false =>
        obtain ⟨y, hy, hiff⟩ := ih (by simpa [hp] using h)
        exact ⟨y, by simp [hp, hq, hy], by simpa [hp, hq] using hiff⟩

/-- A name asks for the first session in the list that answers to it. -/
theorem pick?_named (shelf : Shelf) (name : String) :
    (shelf.pick? (.named name)).map (·.1) = shelf.arranged.find? (·.answersTo name) := by
  have hfst : shelf.arranged = shelf.numbered.map (·.1) :=
    (List.zipIdx_map_fst 1 shelf.arranged).symm
  rw [hfst, List.find?_map]
  rfl

theorem pick?_nil (query : Index.Query) : pick? [] query = none := by
  have hnumbered : numbered [] = [] := by simp [numbered, arranged]
  cases query <;> simp [pick?, hnumbered]

end Shelf

namespace Index

open PassTrace.Shelf

variable {shelf : Shelf}

theorem newestFirst_entries (h : ∀ e ∈ shelf, e.savedAt ≠ .nan) :
    newestFirst (shelf.map Saved.entry) = .ok (shelf.arranged.map Saved.entry) := by
  have hnumbers : ∀ e ∈ shelf, sortNumber? e.entry = some e.sortNumber := fun e he =>
    Saved.sortNumber?_entry (h e he)
  have hall : (shelf.map Saved.entry).all (fun entry => (sortNumber? entry).isSome) = true := by
    rw [List.all_map, List.all_eq_true]
    intro e he
    simp [hnumbers e he]
  unfold newestFirst arranged
  rw [if_pos hall]
  congr 1
  refine (List.map_mergeSort fun e he e' he' => ?_).symm
  unfold isNotOlder
  rw [hnumbers e he, hnumbers e' he']
  dsimp only
  rw [Saved.less_sortNumber]

theorem entries_shelved (shelf : Shelf) : entries (shelved shelf) =
    .ok (shelf.map Saved.entry) := by
  have hmap : (shelf.map fun e => Json.object e.entry).mapM readable =
      .ok (shelf.map Saved.entry) := by
    induction shelf with
    | nil => rfl
    | cons e shelf ih =>
      rw [List.map_cons, List.mapM_cons, ih]
      rfl
  exact hmap

section Tables

variable {table : Json.Fields} {shelves : String → Shelf} {key : String}

theorem Tabulates.listSessions (h : Tabulates table shelves)
    (htimes : ∀ e ∈ shelves key, e.savedAt ≠ .nan) :
    (ofTable table).listSessions key = .ok (listing key (shelves key)) := by
  unfold Index.listSessions
  rw [h.sessionsOf, entries_shelved]
  have hsorted := newestFirst_entries htimes
  have hlist : (Index.numbered ((shelves key).arranged.map Saved.entry)).map
      (·.set "source_key" (.string key)) = listing key (shelves key) := by
    unfold Index.numbered listing Shelf.numbered
    rw [List.zipIdx_map, List.map_map, List.map_map]
    rfl
  simp only [bind, Except.bind, hsorted, pure, Except.pure, hlist]

/-- A session is named by its own name or by the start of that of its file. -/
theorem isNamed_listed {e : Saved × Nat} (hclean : e.1.path.IsClean) (name : String) :
    isNamed name (Saved.listed key e) = .ok (e.1.answersTo name) := by
  have hname : (Json.ofOption Json.string e.1.name).asString? = e.1.name := by
    cases e.1.name <;> rfl
  unfold isNamed Saved.answersTo
  rw [Saved.get_name_listed, Saved.get?_file_listed, hname]
  by_cases hexact : e.1.name = some name
  · simp [hexact, pure, Except.pure]
  · simp [hexact, pathOf, Path.ofString_toString hclean, bind, Except.bind, pure, Except.pure]

theorem findNamed_listed {numbered : List (Saved × Nat)}
    (hclean : ∀ e ∈ numbered, e.1.path.IsClean) (name : String) :
    findNamed name (numbered.map (Saved.listed key)) =
      match numbered.find? (·.1.answersTo name) with
      | some e => .ok (Saved.listed key e)
      | none => .error (.noSession (.named name)) := by
  induction numbered with
  | nil => rfl
  | cons first rest ih =>
    obtain ⟨hfirst, hrest⟩ := List.forall_mem_cons.mp hclean
    rw [List.map_cons, findNamed, isNamed_listed hfirst]
    cases hanswers : first.1.answersTo name with
    | true => simp [hanswers, bind, Except.bind, pure, Except.pure]
    | false => simp [hanswers, bind, Except.bind, ih hrest]

/-- Finding gives the session that a query picks, and fails if it picks none. -/
theorem Tabulates.find (h : Tabulates table shelves) {source : String}
    (hsource : (Path.ofString source).name = key)
    (hclean : ∀ e ∈ shelves key, e.path.IsClean) (htimes : ∀ e ∈ shelves key, e.savedAt ≠ .nan)
    (query : Query) :
    match (shelves key).pick? query with
    | some e => (ofTable table).find source query = .ok (Saved.listed key e)
    | none => ∃ failure, (ofTable table).find source query = .error failure := by
  have hlist : (ofTable table).listSessions (Path.ofString source).name =
      .ok ((shelves key).numbered.map (Saved.listed key)) := by
    rw [hsource]
    exact h.listSessions htimes
  have hnumbered : ∀ e ∈ (shelves key).numbered, e.1.path.IsClean := fun e he =>
    hclean e.1 (mem_of_mem_numbered he)
  unfold Index.find pick?
  rw [hlist]
  simp only [bind, Except.bind]
  -- Of the list it matters only that its paths are clean, by which a name tells one of them.
  generalize (shelves key).numbered = numbered at hnumbered ⊢
  cases numbered with
  | nil => cases query <;> simp
  | cons first rest =>
    cases query with
    | latest => rfl
    | atIndex index =>
      have hget := List.getElem?_map (f := Saved.listed key) (l := first :: rest)
        (i := (indexNumber index - 1).toNat)
      rw [List.map_cons] at hget ⊢
      dsimp only
      by_cases hindex : 1 ≤ indexNumber index
      · rw [if_pos hindex, if_pos hindex, hget]
        cases (first :: rest)[(indexNumber index - 1).toNat]? with
        | none => exact ⟨_, rfl⟩
        | some picked => rfl
      · rw [if_neg hindex, if_neg hindex]
        exact ⟨_, rfl⟩
    | named name =>
      have hfind := @findNamed_listed key _ hnumbered name
      rw [List.map_cons] at hfind ⊢
      dsimp only
      rw [hfind]
      cases (first :: rest).find? (·.1.answersTo name) with
      | none => exact ⟨_, rfl⟩
      | some picked => rfl

end Tables

end Index
end PassTrace

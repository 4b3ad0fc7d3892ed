import PassTrace.Proofs.Store.Calls

/-!
# Calls on a store and their shelves

What a call makes of the shelves of a store can be told from the shelves and the world before it. A
call that succeeds leaves the index with these shelves, and the files of a source file match its
shelf as before, unless another source file has its files in the same directory.
-/

namespace PassTrace.Store

open Operation

/-- A call that changes a store. -/
inductive Call
  | save (pipeline : Pipeline) (source : String) (compilation : Json.Fields) (name : Option String)
  | delete (source : String) (query : Index.Query)
  | cleanUp (source : Option String) (age : Json)

namespace Call

/-- Makes a call, whose result is dropped. -/
def perform (s : Store) : Call → Operation Unit
  | save pipeline source compilation name => do
    let _ ← s.save pipeline source compilation name
    return ()
  | delete source query => do
    let _ ← s.delete source query
    return ()
  | cleanUp source age => do
    let _ ← s.cleanUp source age
    return ()

/-- Whether a call is one on a source file. -/
def Concerns (key : String) : Call → Prop
  | save _ source _ _ | delete source _ => keyOf source = key
  | cleanUp source _ => cleansUp source key

instance (key : String) : DecidablePred (Concerns key) := fun call => by
  unfold Concerns
  cases call <;> infer_instance

/-- Whether a call saves sessions of a source file. -/
def Saves (key : String) : Call → Prop
  | save _ source _ _ => keyOf source = key
  | _ => False

/-- The session of a source file that a call saves in a world, if it succeeds. -/
def draft? (s : Store) (w : World) (key : String) : Call → Option Saved
  | save pipeline source compilation name =>
    if keyOf source = key then (s.draft w pipeline source compilation name).toOption else none
  | _ => none

/-- The path of the file that a call is to write for a source file in a world, if it is a save. -/
def target? (s : Store) (w : World) (key : String) : Call → Option Path
  | save _ source compilation name =>
    if keyOf source = key then s.target? w.now source compilation name else none
  | _ => none

/-- Whether the arguments of a call are plain, and what it saves in a world has a size that can be
written. -/
def IsPlain (s : Store) (w : World) : Call → Prop
  | save pipeline source compilation name => IsPlainSave pipeline source compilation name ∧
    ∀ e, s.draft w pipeline source compilation name = .ok e →
      (toString e.content.length).length ≤ maxDigits
  | _ => True

end Call

/-- The shelves after a call that succeeded in a world: a save puts its session in front of the
others that are not in the same file and keeps the first of them, deleting drops the session that is
asked for, and cleaning up drops those that are too old. -/
def revise (s : Store) (w : World) (shelves : String → Shelf) : Call → String → Shelf
  | .save pipeline source compilation name =>
    match s.draft w pipeline source compilation name with
    | .ok e => Function.update shelves (keyOf source)
      (s.retained (e :: (shelves (keyOf source)).without e.path))
    | .error _ => shelves
  | .delete source query =>
    match (shelves (keyOf source)).pick? query with
    | some e => Function.update shelves (keyOf source)
      ((shelves (keyOf source)).without e.1.path)
    | none => shelves
  | .cleanUp source age =>
    match cutoff w.now (s.ageOf age) with
    | .ok limit => cleaned limit source shelves
    | .error _ => shelves

variable {s : Store} {shelves : String → Shelf} {shelf : Shelf} {key : String} {w w' : World}

theorem Call.draft?_eq_some {call : Call} {e : Saved} (h : call.draft? s w key = some e) :
    ∃ pipeline source compilation name, call = .save pipeline source compilation name ∧
      keyOf source = key ∧ s.draft w pipeline source compilation name = .ok e := by
  cases call with
  | save pipeline source compilation name =>
    simp only [draft?] at h
    split at h
    · next hkey =>
      refine ⟨pipeline, source, compilation, name, rfl, hkey, ?_⟩
      cases hdraft : s.draft w pipeline source compilation name with
      | error failure =>
        rw [hdraft] at h
        cases h
      | ok e' =>
        rw [hdraft] at h
        exact congrArg _ (Option.some.inj h)
    · cases h
  | delete source query => cases h
  | cleanUp source age => cases h

/-- A session that is saved is in the file that the call is to write. -/
theorem Call.target?_of_draft? {call : Call} {e : Saved} (h : call.draft? s w key = some e) :
    call.target? s w key = some e.path := by
  obtain ⟨pipeline, source, compilation, name, rfl, hkey, hdraft⟩ := draft?_eq_some h
  obtain ⟨file, content, hfile, -, rfl⟩ := draft_eq_ok hdraft
  simp only [target?, if_pos hkey]
  unfold Store.target?
  rw [hfile]
  rfl

theorem Call.saves_of_target? {call : Call} {q : Path} (h : call.target? s w key = some q) :
    call.Saves key := by
  cases call with
  | save pipeline source compilation name =>
    simp only [target?] at h
    split at h
    · next hkey => exact hkey
    · cases h
  | delete source query => cases h
  | cleanUp source age => cases h

/-- The file that a plain call is to write stands in the directory of its source file. -/
theorem Call.mem_pathsOf_of_target? {call : Call} (hplain : call.IsPlain s w) {q : Path}
    (h : call.target? s w key = some q) : IsSource key ∧ q ∈ s.pathsOf key := by
  cases call with
  | save pipeline source compilation name =>
    obtain ⟨hplain, -⟩ := hplain
    simp only [target?] at h
    split at h
    · next hkey =>
      subst hkey
      exact ⟨hplain.isSource.keyOf, hplain.mem_pathsOf h⟩
    · cases h
  | delete source query => cases h
  | cleanUp source age => cases h

section Shelves

/-- A call leaves the shelves of other source files as they are. -/
theorem revise_of_not_concerns {call : Call} (h : ¬ call.Concerns key) :
    s.revise w shelves call key = shelves key := by
  cases call with
  | save pipeline source compilation name =>
    cases hdraft : s.draft w pipeline source compilation name with
    | error failure => simp only [revise, hdraft]
    | ok e =>
      simp only [revise, hdraft]
      exact Function.update_of_ne (Ne.symm h) _ _
  | delete source query =>
    cases hpick : (shelves (keyOf source)).pick? query with
    | none => simp only [revise, hpick]
    | some e =>
      simp only [revise, hpick]
      exact Function.update_of_ne (Ne.symm h) _ _
  | cleanUp source age =>
    cases hlimit : cutoff w.now (s.ageOf age) with
    | error failure => simp only [revise, hlimit]
    | ok limit =>
      simp only [revise, hlimit]
      exact if_neg h

/-- What a call makes of a shelf depends on no other shelf. -/
theorem revise_congr {shelves' : String → Shelf} (call : Call) (h : shelves key = shelves' key) :
    s.revise w shelves call key = s.revise w shelves' call key := by
  by_cases hconcerns : call.Concerns key
  · cases call with
    | save pipeline source compilation name =>
      obtain rfl : keyOf source = key := hconcerns
      cases hdraft : s.draft w pipeline source compilation name with
      | error failure => simp only [revise, hdraft, h]
      | ok e => simp only [revise, hdraft, Function.update_self, h]
    | delete source query =>
      obtain rfl : keyOf source = key := hconcerns
      cases hpick : (shelves' (keyOf source)).pick? query with
      | none => simp only [revise, h, hpick]
      | some e => simp only [revise, h, hpick, Function.update_self]
    | cleanUp source age =>
      cases hlimit : cutoff w.now (s.ageOf age) with
      | error failure => simp only [revise, hlimit, h]
      | ok limit => simp only [revise, hlimit, cleaned, h]
  · rw [revise_of_not_concerns hconcerns, revise_of_not_concerns hconcerns, h]

/-- A call puts at most the session that it saves on a shelf, in front of others that were there. -/
theorem revise_sublist (call : Call) : (s.revise w shelves call key).Sublist
    ((call.draft? s w key).toList ++ shelves key) := by
  by_cases hconcerns : call.Concerns key
  · cases call with
    | save pipeline source compilation name =>
      obtain rfl : keyOf source = key := hconcerns
      cases hdraft : s.draft w pipeline source compilation name with
      | error failure => simp [revise, hdraft]
      | ok e =>
        simp only [revise, hdraft, Call.draft?, Function.update_self, if_pos]
        exact (List.take_sublist _ _).trans (List.filter_sublist.cons_cons e)
    | delete source query =>
      obtain rfl : keyOf source = key := hconcerns
      cases hpick : (shelves (keyOf source)).pick? query with
      | none => simp [revise, hpick]
      | some e =>
        simp only [revise, hpick, Call.draft?, Function.update_self]
        exact List.filter_sublist
    | cleanUp source age =>
      cases hlimit : cutoff w.now (s.ageOf age) with
      | error failure => simp [revise, hlimit]
      | ok limit =>
        simp only [revise, hlimit, Call.draft?, cleaned]
        split
        · exact List.filter_sublist
        · exact List.Sublist.refl _
  · rw [revise_of_not_concerns hconcerns]
    exact List.sublist_append_right _ _

/-- A shelf has no more sessions than are to be kept. -/
theorem length_revise_le {limit : Nat} (hlimit : s.config.maxSessions = some (limit : Int))
    (call : Call) (h : (shelves key).length ≤ limit) :
    (s.revise w shelves call key).length ≤ limit := by
  cases call with
  | save pipeline source compilation name =>
    cases hdraft : s.draft w pipeline source compilation name with
    | error failure => simpa only [revise, hdraft] using h
    | ok e =>
      simp only [revise, hdraft]
      by_cases hsame : key = keyOf source
      · subst hsame
        rw [Function.update_self, retained_eq_take hlimit]
        exact List.length_take_le _ _
      · rwa [Function.update_of_ne hsame]
  | delete source query => exact (revise_sublist (.delete source query)).length_le.trans h
  | cleanUp source age => exact (revise_sublist (.cleanUp source age)).length_le.trans h

/-- The sessions of a shelf are in different files. -/
theorem nodup_cons_without {e : Saved} (h : (shelf.map (·.path)).Nodup) :
    ((e :: shelf.without e.path).map (·.path)).Nodup := by
  rw [List.map_cons, List.nodup_cons]
  refine ⟨?_, h.sublist (List.filter_sublist.map _)⟩
  intro hmem
  obtain ⟨other, hother, hpath⟩ := List.mem_map.mp hmem
  exact (Shelf.mem_without.mp hother).2 hpath

theorem cleaned_subset {limit : Binary64} {source : Option String} {e : Saved}
    (h : e ∈ cleaned limit source shelves key) : e ∈ shelves key := by
  unfold cleaned at h
  split at h
  · exact (Shelf.mem_since.mp h).1
  · exact h

theorem Shelved.cleaned (h : s.Shelved shelves) (limit : Binary64) (source : Option String) :
    s.Shelved (cleaned limit source shelves) where
  kept := fun key e he => h.kept key e (cleaned_subset he)
  nodup := by
    intro key
    unfold Store.cleaned
    split
    · exact (h.nodup key).sublist (List.filter_sublist.map _)
    · exact h.nodup key
  limited := by
    intro key hne
    obtain ⟨e, he⟩ := List.exists_mem_of_ne_nil _ hne
    exact h.limited key (List.ne_nil_of_mem (cleaned_subset he))

/-- A session that is saved is shelved. -/
theorem Shelved.save (h : s.Shelved shelves) {source : String} {e : Saved}
    (he : e.IsKept s (keyOf source)) (hlimit : s.config.maxSessions ≠ none) :
    s.Shelved (Function.update shelves (keyOf source)
      (s.retained (e :: (shelves (keyOf source)).without e.path))) := by
  refine h.update (fun other hother => ?_) ?_ fun _ => hlimit
  · rcases List.mem_cons.mp (List.mem_of_mem_take hother) with rfl | hother
    · exact he
    · exact h.kept _ other (Shelf.mem_without.mp hother).1
  · exact (nodup_cons_without (h.nodup _)).sublist ((List.take_sublist _ _).map _)

/-- The others are shelved when sessions are dropped. -/
theorem Shelved.delete (h : s.Shelved shelves) (key : String) (p : Path) :
    s.Shelved (Function.update shelves key ((shelves key).without p)) := by
  refine h.update (fun e he => h.kept key e (Shelf.mem_without.mp he).1)
    ((h.nodup key).sublist (List.filter_sublist.map _)) fun hne => ?_
  obtain ⟨e, he⟩ := List.exists_mem_of_ne_nil _ hne
  exact h.limited key (List.ne_nil_of_mem (Shelf.mem_without.mp he).1)

end Shelves

section Places

/-- Sessions in different files are in different places. -/
theorem placeOf_ne_of_path_ne {key' : String} {e e' : Saved} (he : e.IsKept s key)
    (he' : e'.IsKept s key') (h : e.path ≠ e'.path) (t : FileTree) :
    t.placeOf e.path ≠ t.placeOf e'.path := fun hplace =>
  h (eq_of_placeOf_eq he.isSource he'.isSource (mem_pathsOf he) (mem_pathsOf he') hplace)

/-- What stands in the directories of other source files is not in the directory of this one. -/
theorem placeOf_ne_placeIn {other : String} (hother : IsSource other)
    (hstems : (Path.ofString other).stem ≠ (Path.ofString key).stem) {q : Path}
    (hq : q ∈ s.pathsOf other) (t : FileTree) (name : String) :
    t.placeOf q ≠ placeIn t s key name := by
  obtain ⟨name', -, hplace⟩ := exists_placeIn hother hq t
  rw [hplace, ne_eq, placeIn_inj]
  exact fun h => hstems h.1

/-- The paths of the files beside sessions: the index, and the notes of last sessions. -/
def sidePaths (s : Store) : Set Path :=
  {q | q = s.indexPath ∨
    ∃ source, IsSource source ∧ q = (s.sessionDirectory (some source)).join latestName}

theorem placeOf_side_ne_placeIn {q : Path} (hq : q ∈ s.sidePaths) {name : String}
    (hname : name ≠ latestName) (t : FileTree) : t.placeOf q ≠ placeIn t s key name := by
  rcases hq with rfl | ⟨source, hsource, rfl⟩
  · exact placeIn_ne_indexPath.symm
  · rw [← hsource.sessionDirectory_keyOf,
      placeOf_join_sessionDirectory t s hsource.keyOf isPlain_latestName, ne_eq, placeIn_inj]
    exact fun h => hname h.2.symm

variable {paths : Set Path} {left : Shelf} {w₁ : World} (hkept : ∀ e ∈ shelf, e.IsKept s key)
include hkept

/-- The sessions that are left are in their files when others are removed. -/
theorem isStored_of_removes (h : shelf.IsStored w.files) (hremoves : w.Removes paths w₁)
    (halters : w₁.AltersOnly s.sidePaths w') (hleft : ∀ e ∈ left, e ∈ shelf)
    (hpaths : ∀ q ∈ paths, ∀ e ∈ left, w.files.placeOf q ≠ w.files.placeOf e.path) :
    left.IsStored w'.files := by
  have hbefore : left.IsStored w.files := fun e he => h e (hleft e he)
  refine (hbefore.of_altersOnly hremoves.toAltersOnly hpaths).of_altersOnly halters ?_
  intro q hq e he
  have he' := hkept e (hleft e he)
  rw [he'.placeOf_eq]
  exact placeOf_side_ne_placeIn hq he'.isFileName.ne_latest _

/-- The directory of a source file has the sessions that are left when others are removed. -/
theorem isTidy_of_removes (h : s.IsTidy w.files key shelf) (hremoves : w.Removes paths w₁)
    (halters : w₁.AltersOnly s.sidePaths w')
    (hgone : ∀ e ∈ shelf, e ∈ left ∨ e.path ∈ paths ∧ w.files.Stores e.path e.content) :
    s.IsTidy w'.files key left :=
  (h.remove hkept hremoves hgone).of_altersOnly halters fun _ hq _ hname =>
    placeOf_side_ne_placeIn hq hname _

end Places

section Saving

/-- A session is written beside the others of its source file. -/
theorem isStored_cons_without {e : Saved} {w₁ : World} (he : e.IsKept s key)
    (hkept : ∀ e ∈ shelf, e.IsKept s key) (h : shelf.IsStored w.files)
    (halters : w.AltersOnly {e.path} w₁) (hstores : w₁.files.Stores e.path e.content) :
    Shelf.IsStored w₁.files (e :: shelf.without e.path) := by
  refine List.forall_mem_cons.mpr ⟨hstores, fun other hother => ?_⟩
  obtain ⟨hmem, hne⟩ := Shelf.mem_without.mp hother
  refine halters.stores (h other hmem) ?_
  rintro q rfl
  exact placeOf_ne_of_path_ne he (hkept other hmem) hne.symm _

variable {source file : String} {all : Shelf} (hsettles : s.Settles shelves source file all w w')
  (hsource : IsSource source)
include hsettles hsource

theorem Settles.exists_sides : ∃ w₁, w.Removes (Shelf.paths (s.evicted all)) w₁ ∧
    w₁.AltersOnly s.sidePaths w' := by
  obtain ⟨w₁, hremoves, hbeside⟩ := hsettles.exists_removes
  refine ⟨w₁, hremoves, hbeside.mono ?_⟩
  rintro q (rfl | rfl)
  · exact .inl rfl
  · exact .inr ⟨source, hsource, rfl⟩

variable (hall : ∀ e ∈ all, e.IsKept s (keyOf source))
include hall

/-- The sessions that are kept are in their files. -/
theorem Settles.isStored_retained (hnodup : (all.map (·.path)).Nodup)
    (hstored : Shelf.IsStored w.files all) : (s.retained all).IsStored w'.files := by
  obtain ⟨w₁, hremoves, hsides⟩ := hsettles.exists_sides hsource
  refine isStored_of_removes hall hstored hremoves hsides (fun _ => List.mem_of_mem_take) ?_
  rintro q ⟨gone, hgone, rfl⟩ e he
  refine placeOf_ne_of_path_ne (hall _ (List.mem_of_mem_drop hgone))
    (hall _ (List.mem_of_mem_take he)) (fun hpath => ?_) _
  rw [← List.take_append_drop (s.keptCount all.length) all, List.map_append] at hnodup
  exact (List.nodup_append.mp hnodup).2.2 _ (List.mem_map_of_mem he) _
    (List.mem_map_of_mem hgone) hpath.symm

/-- The sessions of another source file stay in their files if these are different ones. -/
theorem Settles.isStored_elsewhere (hkept : ∀ e ∈ shelf, e.IsKept s key)
    (hne : ∀ gone ∈ all, ∀ e ∈ shelf, gone.path ≠ e.path) (hstored : shelf.IsStored w.files) :
    shelf.IsStored w'.files := by
  obtain ⟨w₁, hremoves, hsides⟩ := hsettles.exists_sides hsource
  refine isStored_of_removes hkept hstored hremoves hsides (fun _ => id) ?_
  rintro q ⟨gone, hgone, rfl⟩ e he
  have hmem := List.mem_of_mem_drop hgone
  exact placeOf_ne_of_path_ne (hall gone hmem) (hkept e he) (hne gone hmem e he) _

/-- The directory of the source file has the sessions that are kept. -/
theorem Settles.isTidy_retained (hstored : Shelf.IsStored w.files all)
    (htidy : s.IsTidy w.files (keyOf source) all) :
    s.IsTidy w'.files (keyOf source) (s.retained all) := by
  obtain ⟨w₁, hremoves, hsides⟩ := hsettles.exists_sides hsource
  refine isTidy_of_removes hall htidy hremoves hsides fun e he => ?_
  have hsplit := he
  rw [← List.take_append_drop (s.keptCount all.length) all] at hsplit
  exact (List.mem_append.mp hsplit).imp id fun hgone => ⟨⟨e, hgone, rfl⟩, hstored e he⟩

omit hall in
theorem Settles.isTidy_elsewhere (hkept : ∀ e ∈ shelf, e.IsKept s key)
    (htidy : s.IsTidy w.files key shelf) : s.IsTidy w'.files key shelf := by
  obtain ⟨w₁, hremoves, hsides⟩ := hsettles.exists_sides hsource
  exact isTidy_of_removes hkept htidy hremoves hsides fun _ => .inl

end Saving

section Calls

/-- The file that a call writes for another source file is not among those of a source file, and
neither are those of its sessions. -/
def Aside (s : Store) (w : World) (shelves : String → Shelf) (call : Call) (key : String) : Prop :=
  ∀ other, other ≠ key → ∀ e ∈ (call.draft? s w other).toList ++ shelves other,
    ∀ e' ∈ (call.draft? s w key).toList ++ shelves key, e.path ≠ e'.path

/-- A call saves nothing for another source file in the directory of a source file. -/
def Call.IsApart (key : String) (call : Call) : Prop :=
  ∀ other, other ≠ key → call.Saves other → (Path.ofString other).stem ≠ (Path.ofString key).stem

/-- What a call reaches even if it fails: the directory of the source file whose session it
saves. -/
def reach (s : Store) (call : Call) : Set Path :=
  {p | ∃ key, call.Saves key ∧ IsSource key ∧ p ∈ s.pathsOf key}

/-- A call that succeeded left the store with its shelves revised. -/
structure Revises (s : Store) (shelves : String → Shelf) (call : Call) (w w' : World) : Prop where
  hasIndex : s.HasIndex w'.files (s.revise w shelves call)
  shelved : s.Shelved (s.revise w shelves call)
  stored : ∀ key, s.Aside w shelves call key → (shelves key).IsStored w.files →
    (s.revise w shelves call key).IsStored w'.files
  tidy : ∀ key, IsSource key → call.IsApart key → (shelves key).IsStored w.files →
    s.IsTidy w.files key (shelves key) → s.IsTidy w'.files key (s.revise w shelves call key)

variable (hshelved : s.Shelved shelves)
include hshelved

theorem revises_delete {source : String} {query : Index.Query} {e : Saved × Nat} {w₁ : World}
    (hpick : (shelves (keyOf source)).pick? query = some e)
    (hremoves : w.Removes {e.1.path} w₁) (halters : w₁.AltersOnly {s.indexPath} w')
    (hindex : s.HasIndex w'.files (Function.update shelves (keyOf source)
      ((shelves (keyOf source)).without e.1.path))) :
    s.Revises shelves (.delete source query) w w' := by
  have hmem := Shelf.mem_of_pick? hpick
  have he := hshelved.kept _ e.1 hmem
  have hsides : w₁.AltersOnly s.sidePaths w' := halters.of_mem (.inl rfl)
  have hrevise : s.revise w shelves (.delete source query) = Function.update shelves (keyOf source)
      ((shelves (keyOf source)).without e.1.path) := by
    simp only [revise, hpick]
  refine ⟨hrevise ▸ hindex, hrevise ▸ hshelved.delete _ _, fun key haside hstored => ?_,
    fun key _ _ hstored htidy => ?_⟩
  · rw [hrevise]
    by_cases hsame : key = keyOf source
    · subst hsame
      rw [Function.update_self]
      refine isStored_of_removes (hshelved.kept _) hstored hremoves hsides
        (fun other hother => (Shelf.mem_without.mp hother).1) ?_
      rintro q rfl other hother
      obtain ⟨hother, hne⟩ := Shelf.mem_without.mp hother
      exact placeOf_ne_of_path_ne he (hshelved.kept _ other hother) hne.symm _
    · rw [Function.update_of_ne hsame]
      refine isStored_of_removes (hshelved.kept _) hstored hremoves hsides (fun _ => id) ?_
      rintro q rfl other hother
      exact placeOf_ne_of_path_ne he (hshelved.kept _ other hother)
        (haside _ (Ne.symm hsame) e.1 (List.mem_append_right _ hmem) other
          (List.mem_append_right _ hother)) _
  · rw [hrevise]
    by_cases hsame : key = keyOf source
    -- All sessions in the file that was deleted have left the shelf with it.
    · subst hsame
      rw [Function.update_self]
      refine isTidy_of_removes (hshelved.kept _) htidy hremoves hsides fun other hother => ?_
      by_cases hpath : other.path = e.1.path
      · exact .inr ⟨hpath, hstored other hother⟩
      · exact .inl (Shelf.mem_without.mpr ⟨hother, hpath⟩)
    · rw [Function.update_of_ne hsame]
      exact isTidy_of_removes (hshelved.kept _) htidy hremoves hsides fun _ => .inl

theorem revises_cleanUp {source : Option String} {age : Json} {limit : Binary64} {w₁ : World}
    (hlimit : cutoff w.now (s.ageOf age) = .ok limit)
    (hremoves : w.Removes {p | ∃ key, cleansUp source key ∧ p ∈ agedPaths limit (shelves key)} w₁)
    (halters : w₁.AltersOnly {s.indexPath} w')
    (hindex : s.HasIndex w'.files (cleaned limit source shelves)) :
    s.Revises shelves (.cleanUp source age) w w' := by
  have hrevise : s.revise w shelves (.cleanUp source age) = cleaned limit source shelves := by
    simp only [revise, hlimit]
  have hsides : w₁.AltersOnly s.sidePaths w' := halters.of_mem (.inl rfl)
  refine ⟨hrevise ▸ hindex, hrevise ▸ hshelved.cleaned limit source, fun key haside hstored => ?_,
    fun key _ _ hstored htidy => ?_⟩
  · rw [hrevise]
    refine isStored_of_removes (hshelved.kept _) hstored hremoves hsides
      (fun _ => cleaned_subset) ?_
    rintro q ⟨other, hclean, gone, hgone, hold, rfl⟩ e he
    refine placeOf_ne_of_path_ne (hshelved.kept _ gone hgone)
      (hshelved.kept _ e (cleaned_subset he)) (fun hpath => ?_) _
    by_cases hsame : other = key
    · subst hsame
      obtain rfl := List.inj_on_of_nodup_map (hshelved.nodup other) hgone (cleaned_subset he) hpath
      rw [cleaned, if_pos hclean] at he
      rw [(Shelf.mem_since.mp he).2] at hold
      cases hold
    · exact haside other hsame gone (List.mem_append_right _ hgone) e
        (List.mem_append_right _ (cleaned_subset he)) hpath
  · rw [hrevise]
    refine isTidy_of_removes (hshelved.kept _) htidy hremoves hsides fun e he => ?_
    unfold cleaned
    split
    · next hclean =>
      cases hold : e.savedAt.less limit with
      | false => exact .inl (Shelf.mem_since.mpr ⟨he, hold⟩)
      | true => exact .inr ⟨⟨key, hclean, e, he, hold, rfl⟩, hstored e he⟩
    · exact .inl he

theorem revises_save {pipeline : Pipeline} {source : String} {compilation : Json.Fields}
    {name : Option String} {e : Saved} {w₁ : World}
    (hdraft : s.draft w pipeline source compilation name = .ok e) (hsource : IsSource source)
    (he : e.IsKept s (keyOf source)) (halters : w.AltersOnly {e.path} w₁)
    (hstores : w₁.files.Stores e.path e.content)
    (hsettles : s.Settles shelves source e.path.name
      (e :: (shelves (keyOf source)).without e.path) w₁ w') :
    s.Revises shelves (.save pipeline source compilation name) w w' := by
  have hrevise : s.revise w shelves (.save pipeline source compilation name) =
      Function.update shelves (keyOf source)
        (s.retained (e :: (shelves (keyOf source)).without e.path)) := by
    simp only [revise, hdraft]
  have hdrafted : (Call.save pipeline source compilation name).draft? s w (keyOf source) =
      some e := by
    simp only [Call.draft?, hdraft, if_pos]
    rfl
  have hkept := hshelved.kept (keyOf source)
  have hall : ∀ other ∈ e :: (shelves (keyOf source)).without e.path,
      other.IsKept s (keyOf source) := by
    refine List.forall_mem_cons.mpr ⟨he, fun other hother => ?_⟩
    exact hkept other (Shelf.mem_without.mp hother).1
  -- On the shelf of the source file the new session is in front. The others are as they were, as
  -- long as their files are apart from those that were written or deleted.
  refine ⟨hrevise ▸ hsettles.hasIndex, hrevise ▸ hshelved.save he hsettles.limited,
    fun key haside hstored => ?_, fun key hkey hapart hstored htidy => ?_⟩
  · rw [hrevise]
    by_cases hsame : key = keyOf source
    · subst hsame
      rw [Function.update_self]
      exact hsettles.isStored_retained hsource hall (nodup_cons_without (hshelved.nodup _))
        (isStored_cons_without he hkept hstored halters hstores)
    · rw [Function.update_of_ne hsame]
      have hne : ∀ gone ∈ e :: shelves (keyOf source), ∀ other ∈ shelves key,
          gone.path ≠ other.path := by
        intro gone hgone other hother
        refine haside _ (Ne.symm hsame) gone ?_ other (List.mem_append_right _ hother)
        rwa [hdrafted]
      refine hsettles.isStored_elsewhere hsource hall (hshelved.kept key) (fun gone hgone => ?_)
        (hstored.of_altersOnly halters ?_)
      · exact hne gone ((List.filter_sublist.cons_cons e).mem hgone)
      · rintro q rfl other hother
        exact placeOf_ne_of_path_ne he (hshelved.kept _ other hother)
          (hne e List.mem_cons_self other hother) _
  · rw [hrevise]
    by_cases hsame : key = keyOf source
    · subst hsame
      rw [Function.update_self]
      exact hsettles.isTidy_retained hsource hall
        (isStored_cons_without he hkept hstored halters hstores) (htidy.write he halters)
    · rw [Function.update_of_ne hsame]
      refine hsettles.isTidy_elsewhere hsource (hshelved.kept key) (htidy.of_altersOnly halters ?_)
      rintro q rfl name -
      exact placeOf_ne_placeIn hsource.keyOf (hapart _ (Ne.symm hsame) rfl) (mem_pathsOf he) _ name

/-- A call succeeds and leaves the store with its shelves revised, or it fails and has changed no
more than files beside the session that it saves. -/
theorem perform_cases {call : Call} {result : Except Failure Unit} (hroot : s.root.IsClean)
    (hlists : s.Lists w.files shelves) (hnow : w.now ≠ .nan) (hplain : call.IsPlain s w)
    (h : (call.perform s).run.run w = (result, w')) :
    (∃ failure, result = .error failure ∧ w.AltersOnly (s.reach call) w' ∧
      ((∃ key, shelves key ≠ []) → w.AltersOnly {q | ∃ key, call.target? s w key = some q} w')) ∨
      result = .ok () ∧ s.Revises shelves call w w' := by
  cases call with
  | save pipeline source compilation name =>
    obtain ⟨hplain, hsize⟩ := hplain
    have hreach : s.pathsOf (keyOf source) ⊆ s.reach (.save pipeline source compilation name) :=
      fun q hq => ⟨keyOf source, rfl, hplain.isSource.keyOf, hq⟩
    have htarget : {q | s.target? w.now source compilation name = some q} ⊆
        {q | ∃ key, (Call.save pipeline source compilation name).target? s w key = some q} :=
      fun q hq => ⟨keyOf source, (if_pos rfl).trans hq⟩
    rcases run_bind_cases h with ⟨failure, hfailed, rfl⟩ | ⟨path, w'', hsave, hreturn⟩
    · rcases run_save_cases hroot hshelved hlists hplain hnow hsize hfailed with
        ⟨-, -, halters, hsome⟩ | ⟨e, w₁, hok, -⟩
      · exact .inl ⟨failure, rfl, halters.mono hreach, fun hne => (hsome hne).mono htarget⟩
      · cases hok
    · obtain ⟨hresult, rfl⟩ := Prod.mk.inj hreturn
      rcases run_save_cases hroot hshelved hlists hplain hnow hsize hsave with
        ⟨failure, hfailed, -⟩ | ⟨e, w₁, -, hdraft, he, halters, hstores, hsettles⟩
      · cases hfailed
      · exact .inr ⟨hresult.symm,
          revises_save hshelved hdraft hplain.isSource he halters hstores hsettles⟩
  | delete source query =>
    cases hpick : (shelves (keyOf source)).pick? query with
    | none =>
      obtain ⟨failure, hfailed⟩ := hlists.run_delete_of_pick?_eq_none hshelved hpick
      rcases run_bind_cases h with ⟨failure', hfailed', rfl⟩ | ⟨entry, w'', hok, -⟩
      · rw [hfailed] at hfailed'
        obtain ⟨-, rfl⟩ := Prod.mk.inj hfailed'
        exact .inl ⟨failure', rfl, .refl _, fun _ => .refl _⟩
      · rw [hfailed] at hok
        cases hok
    | some e =>
      obtain ⟨w₁, w₂, hdelete, hremoves, halters, hindex⟩ :=
        (hlists.hasIndex_of_pick? hpick).run_delete hshelved hpick
      rcases run_bind_cases h with ⟨failure, hfailed, -⟩ | ⟨entry, w'', hok, hreturn⟩
      · rw [hdelete] at hfailed
        cases hfailed
      · rw [hdelete] at hok
        obtain ⟨-, rfl⟩ := Prod.mk.inj hok
        obtain ⟨hresult, rfl⟩ := Prod.mk.inj hreturn
        exact .inr ⟨hresult.symm, revises_delete hshelved hpick hremoves halters hindex⟩
  | cleanUp source age =>
    rcases run_bind_cases h with ⟨failure, hfailed, rfl⟩ | ⟨count, w'', hclean, hreturn⟩
    · rcases run_cleanUp_cases hshelved hlists hfailed with ⟨-, -, halters⟩ | ⟨_, _, _, hok, -⟩
      · exact .inl ⟨failure, rfl, halters.of_empty, fun _ => halters.of_empty⟩
      · cases hok
    · obtain ⟨hresult, rfl⟩ := Prod.mk.inj hreturn
      rcases run_cleanUp_cases hshelved hlists hclean with
        ⟨_, hfailed, -⟩ | ⟨_, limit, w₁, -, hlimit, hremoves, halters, hindex⟩
      · cases hfailed
      · exact .inr ⟨hresult.symm, revises_cleanUp hshelved hlimit hremoves halters hindex⟩

end Calls

end PassTrace.Store

import PassTrace.Proofs.Store.Visits

/-!
# The history of a store

A store that was empty is used by calls, one after the other, while time goes by and others change
files that are not the store's. The calls that succeed tell which sessions each source file has.
These are in the index, and in their files as long as no other source file is saved to the same
files and no save to them fails.
-/

namespace PassTrace.Store

open Operation

/-- A call that was made: the world before it, and whether it succeeded. -/
structure Visit where
  before : World
  call : Call
  succeeded : Bool

/-- The shelves after calls that were made on an empty store. -/
def history (s : Store) (visits : List Visit) : String → Shelf :=
  visits.foldl
    (fun shelves v => if v.succeeded then s.revise v.before shelves v.call else shelves) fun _ => []

/-- The sessions of a source file that calls have saved, in order. -/
def saves (s : Store) (visits : List Visit) (key : String) : Shelf :=
  visits.filterMap fun v => if v.succeeded then v.call.draft? s v.before key else none

/-- Others leave a store as it is: its index is there as before, its files have their contents, and
no directory is removed. Time may go by, and other files may change. -/
structure Spares (s : Store) (w w' : World) : Prop where
  keeps : w.files.KeepsDirectories w'.files
  has_eq : w'.files.has s.indexPath = w.files.has s.indexPath
  index_eq : w'.files.content? (w.files.placeOf s.indexPath) =
    w.files.content? (w.files.placeOf s.indexPath)
  sessions_eq : ∀ names, w'.files.content? (w.files.placeOf s.root ++ "sessions" :: names) =
    w.files.content? (w.files.placeOf s.root ++ "sessions" :: names)

/-- The worlds in which calls can leave a world, with what is done by others in between. -/
inductive Reaches (s : Store) (start : World) : List Visit → World → Prop
  | start : Reaches s start [] start
  | elapse {visits : List Visit} {w w' : World} (h : Reaches s start visits w)
    (hspares : s.Spares w w') : Reaches s start visits w'
  | visit {visits : List Visit} {w w' : World} {call : Call} {result : Except Failure Unit}
    (h : Reaches s start visits w) (hrun : (call.perform s).run.run w = (result, w')) :
    Reaches s start (visits ++ [⟨w, call, result.isOk⟩]) w'

/-- A store of which there is nothing. -/
structure IsEmpty (s : Store) (t : FileTree) : Prop where
  has_eq : t.has s.indexPath = .ok false
  index_eq : t.content? (t.placeOf s.indexPath) = none
  sessions_eq : ∀ names, t.content? (t.placeOf s.root ++ "sessions" :: names) = none

/-- Calls that were made at times, with plain arguments. -/
def ArePlain (s : Store) (visits : List Visit) : Prop :=
  ∀ v ∈ visits, v.before.now ≠ .nan ∧ v.call.IsPlain s v.before

variable {s : Store} {start w w' : World} {visits : List Visit} {key : String}

section Histories

theorem history_concat (s : Store) (visits : List Visit) (v : Visit) :
    s.history (visits ++ [v]) =
      if v.succeeded then s.revise v.before (s.history visits) v.call else s.history visits := by
  rw [history, List.foldl_append, ← history]
  rfl

/-- The history of a source file is that of the calls on it. -/
theorem history_filter (s : Store) (visits : List Visit) (key : String) :
    s.history (visits.filter fun v => v.call.Concerns key) key = s.history visits key := by
  induction visits using List.reverseRecOn with
  | nil => rfl
  | append_singleton visits v ih =>
    rw [List.filter_append, history_concat]
    by_cases hconcerns : v.call.Concerns key
    · rw [List.filter_cons_of_pos (by simpa using hconcerns), List.filter_nil, history_concat]
      split
      · exact revise_congr v.call ih
      · exact ih
    · rw [List.filter_cons_of_neg (by simpa using hconcerns), List.filter_nil, List.append_nil, ih]
      split
      · exact (revise_of_not_concerns hconcerns).symm
      · rfl

theorem saves_concat (s : Store) (visits : List Visit) (v : Visit) (key : String) :
    s.saves (visits ++ [v]) key = s.saves visits key ++
      (if v.succeeded then v.call.draft? s v.before key else none).toList := by
  unfold saves
  rw [List.filterMap_append]
  congr 1

/-- The sessions of a source file are some of those that were saved, the last one first. -/
theorem history_sublist (s : Store) (visits : List Visit) (key : String) :
    (s.history visits key).Sublist (s.saves visits key).reverse := by
  induction visits using List.reverseRecOn with
  | nil => exact List.Sublist.refl _
  | append_singleton visits v ih =>
    rw [history_concat, saves_concat, List.reverse_append]
    cases v.succeeded with
    | false => simpa using ih
    | true =>
      simp only [if_true]
      refine (revise_sublist v.call).trans ?_
      rw [show (v.call.draft? s v.before key).toList.reverse =
        (v.call.draft? s v.before key).toList by cases v.call.draft? s v.before key <;> rfl]
      exact ih.append_left _

/-- Of a source file no more sessions are kept than the limit says. -/
theorem length_history_le {limit : Nat} (hlimit : s.config.maxSessions = some (limit : Int))
    (visits : List Visit) (key : String) : (s.history visits key).length ≤ limit := by
  induction visits using List.reverseRecOn with
  | nil => exact Nat.zero_le _
  | append_singleton visits v ih =>
    rw [history_concat]
    split
    · exact length_revise_le hlimit v.call ih
    · exact ih

/-- A session of a source file was saved by a call. -/
theorem exists_draft?_of_mem_history {e : Saved} (h : e ∈ s.history visits key) :
    ∃ v ∈ visits, v.succeeded = true ∧ v.call.draft? s v.before key = some e := by
  have hmem := List.mem_reverse.mp ((history_sublist s visits key).mem h)
  obtain ⟨v, hv, hdraft⟩ := List.mem_filterMap.mp hmem
  split at hdraft
  · next hsucceeded => exact ⟨v, hv, hsucceeded, hdraft⟩
  · cases hdraft

/-- A session was saved at the time of the call. -/
theorem savedAt_of_draft? {call : Call} {e : Saved} (h : call.draft? s w key = some e) :
    e.savedAt = w.now := by
  obtain ⟨pipeline, source, compilation, name, -, -, hdraft⟩ := Call.draft?_eq_some h
  obtain ⟨file, content, -, -, rfl⟩ := draft_eq_ok hdraft
  rfl

/-- Under a clock that never goes back no session of a source file is older than one behind it. -/
theorem pairwise_history (s : Store) (key : String)
    (hclock : visits.Pairwise fun v v' => v'.before.now.less v.before.now = false) :
    (s.history visits key).Pairwise fun newer older =>
      newer.savedAt.less older.savedAt = false := by
  refine List.Pairwise.sublist (history_sublist s visits key) ?_
  rw [List.pairwise_reverse]
  refine List.Pairwise.filterMap _ (fun v v' hless e he e' he' => ?_) hclock
  split at he
  · split at he'
    · rw [savedAt_of_draft? he, savedAt_of_draft? he']
      exact hless
    · cases he'
  · cases he

/-- Under a clock that never goes back the sessions of a source file are listed the last one
first. -/
theorem arranged_history (s : Store) (key : String)
    (hclock : visits.Pairwise fun v v' => v'.before.now.less v.before.now = false) :
    (s.history visits key).arranged = s.history visits key :=
  Shelf.arranged_eq_self (pairwise_history s key hclock)

end Histories

section Sparing

variable {shelves : String → Shelf}

theorem HasIndex.of_spares (h : s.HasIndex w.files shelves) (hspares : s.Spares w w') :
    s.HasIndex w'.files shelves := by
  obtain ⟨hnull, table, htable, hstores⟩ := h
  exact ⟨hnull, table, htable, hstores.keep hspares.keeps hspares.index_eq⟩

theorem LacksIndex.of_spares (h : s.LacksIndex w.files shelves) (hspares : s.Spares w w') :
    s.LacksIndex w'.files shelves := by
  refine ⟨?_, h.shelves_eq⟩
  rw [hspares.keeps.placeOf_eq, hspares.index_eq, h.content?_eq]

theorem isStored_of_spares {shelf : Shelf} (hkept : ∀ e ∈ shelf, e.IsKept s key)
    (h : shelf.IsStored w.files) (hspares : s.Spares w w') : shelf.IsStored w'.files := by
  intro e he
  refine (h e he).keep hspares.keeps ?_
  rw [(hkept e he).placeOf_eq]
  exact hspares.sessions_eq _

theorem IsTidy.of_spares {shelf : Shelf} (h : s.IsTidy w.files key shelf)
    (hspares : s.Spares w w') : s.IsTidy w'.files key shelf := by
  intro name bytes hname hcontent
  rw [hspares.keeps.placeIn_eq] at hcontent
  exact h name bytes hname (hcontent ▸ (hspares.sessions_eq _).symm)

end Sparing

section Runs

/-- After calls the shelves are those of the history, which the index has as soon as a call has
succeeded. -/
theorem Reaches.keeps (h : s.Reaches start visits w) (hroot : s.root.IsClean)
    (hempty : s.IsEmpty start.files) (hplain : s.ArePlain visits) :
    s.Shelved (s.history visits) ∧ (s.HasIndex w.files (s.history visits) ∨
      s.LacksIndex w.files (s.history visits) ∧ ∀ v ∈ visits, v.succeeded = false) := by
  induction h with
  | start =>
    exact ⟨⟨nofun, fun _ => List.nodup_nil, fun _ hne => absurd rfl hne⟩,
      .inr ⟨⟨hempty.index_eq, rfl⟩, nofun⟩⟩
  | elapse _ hspares ih =>
    obtain ⟨hshelved, hindex⟩ := ih hplain
    exact ⟨hshelved, hindex.imp (·.of_spares hspares) fun h => ⟨h.1.of_spares hspares, h.2⟩⟩
  | @visit visits w w' call result _ hrun ih =>
    obtain ⟨hshelved, hindex⟩ := ih fun v hv => hplain v (List.mem_append_left _ hv)
    obtain ⟨hnow, hcall⟩ := hplain ⟨w, call, result.isOk⟩ (by simp)
    rw [history_concat]
    rcases perform_cases hshelved hroot (hindex.imp id And.left) hnow hcall hrun with
      ⟨failure, rfl, halters, -⟩ | ⟨rfl, hrevises⟩
    · have hpaths : ∀ q ∈ s.reach call, w.files.placeOf q ≠ w.files.placeOf s.indexPath := by
        rintro q ⟨other, -, hother, hq⟩
        exact placeOf_ne_indexPath hother hq _
      refine ⟨hshelved, hindex.imp (·.of_altersOnly halters hpaths) fun h =>
        ⟨h.1.of_altersOnly halters hpaths, ?_⟩⟩
      intro v hv
      rcases List.mem_append.mp hv with hv | hv
      · exact h.2 v hv
      · rw [List.mem_singleton.mp hv]
        rfl
    · exact ⟨hrevises.shelved, .inl hrevises.hasIndex⟩

/-- Calls write files in which sessions of a source file were saved only by saving its sessions, and
then succeed. -/
def AreAside (s : Store) (visits : List Visit) (key : String) : Prop :=
  ∀ v ∈ visits, ∀ other p, v.call.target? s v.before other = some p →
    (∃ e ∈ s.saves visits key, e.path = p) → other = key ∧ v.succeeded = true

theorem AreAside.of_concat {v : Visit} (h : s.AreAside (visits ++ [v]) key) :
    s.AreAside visits key := by
  intro v' hv' other p htarget ⟨e, he, hpath⟩
  refine h v' (List.mem_append_left _ hv') other p htarget ⟨e, ?_, hpath⟩
  rw [saves_concat]
  exact List.mem_append_left _ he

/-- A saved session is in the file that its call was to write. -/
theorem exists_target?_of_mem_saves {e : Saved} (h : e ∈ s.saves visits key) :
    ∃ v ∈ visits, v.call.target? s v.before key = some e.path := by
  obtain ⟨v, hv, hdraft⟩ := List.mem_filterMap.mp h
  split at hdraft
  · exact ⟨v, hv, Call.target?_of_draft? hdraft⟩
  · cases hdraft

/-- A source file has its files for itself if others have different stems. -/
theorem areAside_of_stems (hplain : s.ArePlain visits)
    (hstems : ∀ v ∈ visits, ∀ other, v.call.Saves other → other ≠ key →
      (Path.ofString other).stem ≠ (Path.ofString key).stem)
    (hsaves : ∀ v ∈ visits, v.call.Saves key → v.succeeded = true) : s.AreAside visits key := by
  rintro v hv other p htarget ⟨e, he, rfl⟩
  have hother := Call.saves_of_target? htarget
  by_cases hsame : other = key
  · subst hsame
    exact ⟨rfl, hsaves v hv hother⟩
  · obtain ⟨v', hv', htarget'⟩ := exists_target?_of_mem_saves he
    obtain ⟨hsource, hpath⟩ := Call.mem_pathsOf_of_target? (hplain v hv).2 htarget
    obtain ⟨hsource', hpath'⟩ := Call.mem_pathsOf_of_target? (hplain v' hv').2 htarget'
    obtain ⟨name, -, hplace⟩ := exists_placeIn hsource hpath v.before.files
    obtain ⟨name', -, hplace'⟩ := exists_placeIn hsource' hpath' v.before.files
    exact absurd (placeIn_inj.mp (hplace.symm.trans hplace')).1 (hstems v hv other hother hsame)

theorem mem_saves_of_mem_history {e : Saved} (h : e ∈ s.history visits key) :
    e ∈ s.saves visits key :=
  List.mem_reverse.mp ((history_sublist s visits key).mem h)

/-- The last of calls that leave the files of a source file alone, if it succeeds. -/
theorem AreAside.aside {v : Visit} (h : s.AreAside (visits ++ [v]) key)
    (hsucceeded : v.succeeded = true) : s.Aside v.before (s.history visits) v.call key := by
  intro other hother e he e' he' hpath
  -- The session of the other source file was written by one of the calls.
  obtain ⟨v', hv', hdraft⟩ : ∃ v' ∈ visits ++ [v], v'.call.draft? s v'.before other = some e := by
    rcases List.mem_append.mp he with he | he
    · exact ⟨v, List.mem_append_right _ (List.mem_singleton_self v), by simpa using he⟩
    · obtain ⟨v', hv', -, hdraft⟩ := exists_draft?_of_mem_history he
      exact ⟨v', List.mem_append_left _ hv', hdraft⟩
  refine hother (h v' hv' other e.path (Call.target?_of_draft? hdraft) ⟨e', ?_, hpath.symm⟩).1
  rw [saves_concat, if_pos hsucceeded]
  rcases List.mem_append.mp he' with he' | he'
  · exact List.mem_append_right _ he'
  · exact List.mem_append_left _ (mem_saves_of_mem_history he')

/-- The sessions of a source file are in their files, if no other source file was saved to these,
and no save of its own to them has failed. -/
theorem Reaches.isStored (h : s.Reaches start visits w) (hroot : s.root.IsClean)
    (hempty : s.IsEmpty start.files) (hplain : s.ArePlain visits) (haside : s.AreAside visits key) :
    (s.history visits key).IsStored w.files := by
  induction h with
  | start => exact nofun
  | elapse h hspares ih =>
    exact isStored_of_spares ((h.keeps hroot hempty hplain).1.kept key) (ih hplain haside) hspares
  | @visit visits w w' call result h hrun ih =>
    have hbefore : s.ArePlain visits := fun v hv => hplain v (List.mem_append_left _ hv)
    have hstored := ih hbefore haside.of_concat
    obtain ⟨hshelved, hindex⟩ := h.keeps hroot hempty hbefore
    obtain ⟨hnow, hcall⟩ := hplain ⟨w, call, result.isOk⟩ (by simp)
    rw [history_concat]
    rcases perform_cases hshelved hroot (hindex.imp id And.left) hnow hcall hrun with
      ⟨failure, rfl, -, hsome⟩ | ⟨rfl, hrevises⟩
    · intro e he
      have halters := hsome ⟨key, List.ne_nil_of_mem he⟩
      have hkept := hshelved.kept key e he
      refine halters.stores (hstored e he) ?_
      rintro q ⟨other, htarget⟩ hplace
      obtain ⟨hother, hq⟩ := Call.mem_pathsOf_of_target? hcall htarget
      obtain rfl := eq_of_placeOf_eq hother hkept.isSource hq (mem_pathsOf hkept) hplace
      have hfailed := (haside _ (List.mem_append_right _ List.mem_cons_self) other _ htarget
        ⟨e, ?_, rfl⟩).2
      · cases hfailed
      · rw [saves_concat]
        exact List.mem_append_left _ (mem_saves_of_mem_history he)
    · exact hrevises.stored key (haside.aside rfl) hstored

/-- The files in the directory of a source file are those of its sessions, if no other source file
was saved to this directory and all calls have succeeded. -/
theorem Reaches.isTidy (h : s.Reaches start visits w) (hroot : s.root.IsClean)
    (hempty : s.IsEmpty start.files) (hplain : s.ArePlain visits) (hkey : IsSource key)
    (haside : s.AreAside visits key)
    (hcalls : ∀ v ∈ visits, v.call.IsApart key ∧ v.succeeded = true) :
    s.IsTidy w.files key (s.history visits key) := by
  induction h with
  | start =>
    intro name bytes _ hcontent
    rw [placeIn, hempty.sessions_eq] at hcontent
    cases hcontent
  | elapse _ hspares ih => exact (ih hplain haside hcalls).of_spares hspares
  | @visit visits w w' call result h hrun ih =>
    have hbefore : s.ArePlain visits := fun v hv => hplain v (List.mem_append_left _ hv)
    have htidy := ih hbefore haside.of_concat fun v hv => hcalls v (List.mem_append_left _ hv)
    have hstored := h.isStored hroot hempty hbefore haside.of_concat
    obtain ⟨hshelved, hindex⟩ := h.keeps hroot hempty hbefore
    obtain ⟨hnow, hcall⟩ := hplain ⟨w, call, result.isOk⟩ (by simp)
    obtain ⟨hapart, hsucceeded⟩ := hcalls ⟨w, call, result.isOk⟩ (by simp)
    rw [history_concat]
    rcases perform_cases hshelved hroot (hindex.imp id And.left) hnow hcall hrun with
      ⟨failure, rfl, -⟩ | ⟨rfl, hrevises⟩
    · cases hsucceeded
    · exact hrevises.tidy key hkey hapart hstored htidy

/-- Calls that succeeded left an index. -/
theorem Reaches.hasIndex (h : s.Reaches start visits w) (hroot : s.root.IsClean)
    (hempty : s.IsEmpty start.files) (hplain : s.ArePlain visits)
    (hsome : ∃ v ∈ visits, v.succeeded = true) : s.HasIndex w.files (s.history visits) := by
  obtain ⟨v, hv, hsucceeded⟩ := hsome
  rcases (h.keeps hroot hempty hplain).2 with hindex | ⟨-, hnone⟩
  · exact hindex
  · rw [hnone v hv] at hsucceeded
    cases hsucceeded

/-- As long as no call was made it is known that there is no index. -/
theorem Reaches.has_eq (h : s.Reaches start [] w) :
    w.files.has s.indexPath = start.files.has s.indexPath := by
  generalize hvisits : ([] : List Visit) = visits at h
  induction h with
  | start => rfl
  | elapse _ hspares ih => exact hspares.has_eq.trans (ih hvisits)
  | visit => exact absurd hvisits.symm (List.append_ne_nil_of_right_ne_nil _ (List.cons_ne_nil _ _))

/-- The index can be read after calls that succeeded. -/
theorem Reaches.exists_run_loadIndex (h : s.Reaches start visits w) (hroot : s.root.IsClean)
    (hempty : s.IsEmpty start.files) (hplain : s.ArePlain visits)
    (hcalls : ∀ v ∈ visits, v.succeeded = true) :
    ∃ table, Index.Tabulates table (s.history visits) ∧
      s.loadIndex.run.run w = (.ok (Index.ofTable table), w) := by
  cases visits with
  | nil =>
    refine ⟨[], Index.tabulates_empty, ?_⟩
    have hhas : (askFiles (·.has s.indexPath)).run.run w = (.ok (.ok false), w) :=
      congrArg (fun found => (Except.ok found, w)) (h.has_eq.trans hempty.has_eq)
    unfold loadIndex
    dsimp only
    rw [run_bind, hhas]
    rfl
  | cons v visits =>
    have hindex := h.hasIndex hroot hempty hplain ⟨v, List.mem_cons_self,
      hcalls v List.mem_cons_self⟩
    obtain ⟨table, htable, -, hload⟩ := hindex.run_loadIndex (h.keeps hroot hempty hplain).1
    exact ⟨table, htable, hload⟩

end Runs

end PassTrace.Store

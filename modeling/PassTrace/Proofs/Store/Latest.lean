import PassTrace.Proofs.Store.Answers

/-!
# The note of the last session

Beside the sessions of a source file stands the name of the file of the session that was saved last.
Deleting sessions and cleaning up leave this note as it is. So it names the newest of the sessions
that are listed until the session that was saved last is deleted, and then it names none of them.
-/

namespace PassTrace

/-- A number that is not above another is below what that one is below. -/
theorem Binary64.less_of_less {x y z : Binary64} (hx : x ≠ .nan) (hyx : y.less x = false)
    (hyz : y.less z = true) : x.less z = true := by
  cases x <;> cases y <;> cases z <;> simp_all [less]
  omega

namespace Store

open Operation

/-- What the file beside the sessions of a source file holds. -/
def noteOf? (s : Store) (t : FileTree) (source : String) : Option Bytes :=
  t.content? (t.placeOf (s.sessionDirectory (some source)) ++ [latestName])

/-- A call deletes the session of a source file that the calls before it have saved last. -/
def DeletesLast (s : Store) (before : List Visit) (key : String) (v : Visit) : Prop :=
  v.succeeded = true ∧ ∃ source query last number, v.call = .delete source query ∧
    keyOf source = key ∧ (s.saves before key).getLast? = some last ∧
    (s.history before key).pick? query = some (last, number)

/-- The session of a source file that was saved last is deleted, and no session was saved since. -/
def LastDeleted (s : Store) (visits : List Visit) (key : String) : Prop :=
  ∃ before v since, visits = before ++ v :: since ∧ s.saves (v :: since) key = [] ∧
    s.DeletesLast before key v

variable {s : Store} {start w w' : World} {visits : List Visit} {key source : String}
  {shelves : String → Shelf}

section Notes

theorem noteOf?_eq (hsource : IsSource source) (t : FileTree) :
    s.noteOf? t source = t.content? (placeIn t s (keyOf source) latestName) := by
  rw [noteOf?, placeOf_sessionDirectory_append hsource]

/-- A note that was written is what the file holds. -/
theorem noteOf?_of_stores (hsource : IsSource source) {t : FileTree} {bytes : Bytes}
    (h : t.Stores ((s.sessionDirectory (some source)).join latestName) bytes) :
    s.noteOf? t source = some bytes := by
  have hplace := placeOf_join_sessionDirectory t s hsource.keyOf isPlain_latestName
  rw [hsource.sessionDirectory_keyOf] at hplace
  rw [noteOf?_eq hsource, ← hplace]
  exact h.content?_eq

/-- Changes to the index and to files of sessions leave the note as it is. -/
theorem noteOf?_of_altersOnly {paths : Set Path} (hsource : IsSource source)
    (halters : w.AltersOnly paths w')
    (hpaths : ∀ q ∈ paths, q = s.indexPath ∨ ∃ key e, Saved.IsKept s key e ∧ e.path = q) :
    s.noteOf? w'.files source = s.noteOf? w.files source := by
  rw [noteOf?_eq hsource, noteOf?_eq hsource, halters.keeps.placeIn_eq]
  refine halters.content?_eq _ fun q hq => ?_
  rcases hpaths q hq with rfl | ⟨key, e, he, rfl⟩
  · exact placeIn_ne_indexPath.symm
  · rw [he.placeOf_eq, ne_eq, placeIn_inj]
    exact fun hplace => he.isFileName.ne_latest hplace.2

theorem noteOf?_of_spares (hspares : s.Spares w w') (hsource : IsSource source) :
    s.noteOf? w'.files source = s.noteOf? w.files source := by
  rw [noteOf?_eq hsource, noteOf?_eq hsource, hspares.keeps.placeIn_eq]
  exact hspares.sessions_eq _

/-- The note after a call that has saved a session, or none. -/
structure Notes (s : Store) (source : String) (saved : Option Saved) (w w' : World) : Prop where
  keeps : w.files.KeepsDirectories w'.files
  note_eq : s.CanNote w'.files source → s.noteOf? w'.files source =
    (saved.map fun e => Text.utf8 e.path.name).or (s.noteOf? w.files source)

/-- Removing sessions and writing the index leaves the note as it is. -/
theorem notes_none_of_removes {paths : Set Path} {w₁ : World} (hsource : IsSource source)
    (hremoves : w.Removes paths w₁) (halters : w₁.AltersOnly {s.indexPath} w')
    (hpaths : ∀ q ∈ paths, ∃ key e, Saved.IsKept s key e ∧ e.path = q) :
    s.Notes source none w w' := by
  have hboth : w.AltersOnly (paths ∪ {s.indexPath}) w' := hremoves.toAltersOnly.union halters
  refine ⟨hboth.keeps, fun _ => noteOf?_of_altersOnly hsource hboth ?_⟩
  rintro q (hq | rfl)
  · exact .inr (hpaths q hq)
  · exact .inl rfl

/-- A call that succeeded has noted down the file of the session that it saved. If it saved none,
the note is as it was. -/
theorem notes_of_perform {call : Call} (hroot : s.root.IsClean) (hshelved : s.Shelved shelves)
    (hlists : s.Lists w.files shelves) (hnow : w.now ≠ .nan) (hplain : call.IsPlain s w)
    (hon : call.IsOn source) (hsource : IsSource source)
    (h : (call.perform s).run.run w = (.ok (), w')) :
    s.Notes source (call.draft? s w (keyOf source)) w w' := by
  cases call with
  | save pipeline file compilation name =>
    obtain rfl : file = source := hon
    obtain ⟨hplain, hsize⟩ := hplain
    obtain ⟨path, w'', hsave, hreturn⟩ := run_bind_eq_ok h
    obtain ⟨-, rfl⟩ := Prod.mk.inj hreturn
    rcases run_save_cases hroot hshelved hlists hplain hnow hsize hsave with
      ⟨failure, hfailed, -⟩ | ⟨e, w₁, -, hdraft, he, halters, hstores, hsettles⟩
    · cases hfailed
    · have hdrafted : (Call.save pipeline file compilation name).draft? s w (keyOf file) =
          some e := by
        simp only [Call.draft?, hdraft, if_pos]
        rfl
      -- The session's file stands beside the note, so that their directory is there.
      rw [he.path_eq, hsource.sessionDirectory_keyOf] at hstores
      obtain ⟨hlocate, hdirectory⟩ := hstores.parent he.isFileName.toIsName
      obtain ⟨w₂, hremoves, hsides⟩ := hsettles.exists_removes
      rw [hdrafted]
      exact ⟨halters.keeps.trans (hremoves.keeps.trans hsides.keeps), fun hcan =>
        noteOf?_of_stores hsource (hsettles.noted hlocate hdirectory hcan)⟩
  | delete file query =>
    obtain rfl : file = source := hon
    obtain ⟨entry, w'', hdelete, hreturn⟩ := run_bind_eq_ok h
    obtain ⟨-, rfl⟩ := Prod.mk.inj hreturn
    cases hpick : (shelves (keyOf file)).pick? query with
    | none =>
      obtain ⟨failure, hfailed⟩ := hlists.run_delete_of_pick?_eq_none hshelved hpick
      rw [hfailed] at hdelete
      cases hdelete
    | some e =>
      obtain ⟨w₁, w₂, hok, hremoves, halters, -⟩ :=
        (hlists.hasIndex_of_pick? hpick).run_delete hshelved hpick
      rw [hok] at hdelete
      obtain ⟨-, rfl⟩ := Prod.mk.inj hdelete
      refine notes_none_of_removes hsource hremoves halters ?_
      rintro q rfl
      exact ⟨_, e.1, hshelved.kept _ e.1 (Shelf.mem_of_pick? hpick), rfl⟩
  | cleanUp file age =>
    obtain ⟨count, w'', hclean, hreturn⟩ := run_bind_eq_ok h
    obtain ⟨-, rfl⟩ := Prod.mk.inj hreturn
    rcases run_cleanUp_cases hshelved hlists hclean with
      ⟨failure, hfailed, -⟩ | ⟨_, limit, w₁, -, -, hremoves, halters, -⟩
    · cases hfailed
    · refine notes_none_of_removes hsource hremoves halters ?_
      rintro q ⟨key, -, e, he, -, rfl⟩
      exact ⟨key, e, hshelved.kept key e he, rfl⟩

/-- After calls on one source file that succeeded, the note names the file of the session that was
saved last, if it can be written where it stands. -/
theorem Reaches.noteOf?_eq (h : s.Reaches start visits w) (hroot : s.root.IsClean)
    (hsource : IsSource source) (hempty : s.IsEmpty start.files) (hplain : s.ArePlain visits)
    (hcalls : ∀ v ∈ visits, v.call.IsOn source ∧ v.succeeded = true)
    (hcan : s.CanNote w.files source) :
    s.noteOf? w.files source =
      (s.saves visits (keyOf source)).getLast?.map fun e => Text.utf8 e.path.name := by
  induction h with
  | start => rw [Store.noteOf?_eq hsource, placeIn, hempty.sessions_eq]; rfl
  | elapse _ hspares ih =>
    rw [noteOf?_of_spares hspares hsource]
    exact ih hplain hcalls (hcan.of_keeps hspares.keeps)
  | @visit visits w w' call result h hrun ih =>
    have hbefore : s.ArePlain visits := fun v hv => hplain v (List.mem_append_left _ hv)
    obtain ⟨hshelved, hindex⟩ := h.keeps hroot hempty hbefore
    obtain ⟨hnow, hcall⟩ := hplain ⟨w, call, result.isOk⟩ (by simp)
    obtain ⟨hon, hsucceeded⟩ := hcalls ⟨w, call, result.isOk⟩ (by simp)
    obtain rfl : result = .ok () := by
      cases result with
      | error failure => cases hsucceeded
      | ok u => rfl
    obtain ⟨hkeeps, hnote⟩ := notes_of_perform hroot hshelved
      (hindex.imp id And.left) hnow hcall hon hsource hrun
    rw [hnote hcan, ih hbefore (fun v hv => hcalls v (List.mem_append_left _ hv))
      (hcan.of_keeps hkeeps), saves_concat, List.getLast?_append]
    cases call.draft? s w (keyOf source) <;> rfl

end Notes

section Deletions

/-- The session that was saved last is deleted by the last of calls, or it was before, and the last
of them saves none. -/
theorem lastDeleted_concat_iff {v : Visit} : s.LastDeleted (visits ++ [v]) key ↔
    s.saves [v] key = [] ∧ (s.LastDeleted visits key ∨ s.DeletesLast visits key v) := by
  have happend (first rest : List Visit) :
      s.saves (first ++ rest) key = s.saves first key ++ s.saves rest key :=
    List.filterMap_append
  constructor
  · rintro ⟨before, v', since, hvisits, hsaves, hdeletes⟩
    rcases List.eq_nil_or_concat' since with rfl | ⟨since, last, rfl⟩
    · obtain ⟨rfl, hv⟩ := List.append_inj' hvisits rfl
      obtain rfl := List.singleton_inj.mp hv
      exact ⟨hsaves, .inr hdeletes⟩
    · rw [← List.cons_append, ← List.append_assoc] at hvisits
      obtain ⟨rfl, hv⟩ := List.append_inj' hvisits rfl
      obtain rfl := List.singleton_inj.mp hv
      rw [← List.cons_append, happend, List.append_eq_nil_iff] at hsaves
      exact ⟨hsaves.2, .inl ⟨before, v', since, rfl, hsaves.1, hdeletes⟩⟩
  · rintro ⟨hsaves, ⟨before, v', since, rfl, hsince, hdeletes⟩ | hdeletes⟩
    · refine ⟨before, v', since ++ [v], by simp, ?_, hdeletes⟩
      rw [← List.cons_append, happend, hsince, hsaves]
      rfl
    · exact ⟨visits, v, [], rfl, hsaves, hdeletes⟩

/-- How the session that was saved last stands to those that are listed: it is the first of them, or
it was deleted, and none of them is in its file. -/
def Tops (s : Store) (visits : List Visit) (key : String) (last : Saved) : Prop :=
  (s.history visits key).head? = some last ∧ ¬ s.LastDeleted visits key ∨
    (∀ e ∈ s.history visits key, e.path ≠ last.path) ∧ s.LastDeleted visits key

variable {v : Visit} {last : Saved}

/-- A call that saves no session and does not delete the last one leaves it in front, unless it
takes all. -/
theorem Tops.concat (h : s.Tops visits key last) (hsaves : s.saves [v] key = [])
    (hdeletes : ¬ s.DeletesLast visits key v)
    (hsub : (s.history (visits ++ [v]) key).Sublist (s.history visits key))
    (hfront : (s.history visits key).head? = some last →
      (s.history (visits ++ [v]) key).head? = some last) : s.Tops (visits ++ [v]) key last := by
  unfold Tops
  rw [lastDeleted_concat_iff, and_iff_right hsaves, or_iff_left hdeletes]
  refine h.imp (fun h => ⟨hfront h.1, h.2⟩) fun h => ⟨fun e he => h.1 e (hsub.mem he), h.2⟩

/-- A session that is saved is in front. -/
theorem tops_of_draft? {limit : Nat} (hlimit : s.config.maxSessions = some (limit : Int))
    (hpos : 0 < limit) (hsucceeded : v.succeeded = true)
    (hdraft : v.call.draft? s v.before key = some last) : s.Tops (visits ++ [v]) key last := by
  have hsaves : s.saves [v] key ≠ [] := by simp [saves, hsucceeded, hdraft]
  refine .inl ⟨?_, fun h => hsaves (lastDeleted_concat_iff.mp h).1⟩
  obtain ⟨pipeline, source, compilation, name, hcall, rfl, hsaved⟩ := Call.draft?_eq_some hdraft
  rw [history_concat, if_pos hsucceeded, hcall]
  simp only [revise, hsaved, Function.update_self]
  rw [retained_eq_take hlimit, List.head?_take, if_neg (by omega), List.head?_cons]

/-- Deleting a session leaves the last one in front, unless it is this one. -/
theorem Tops.delete {query : Index.Query} (h : s.Tops visits (keyOf source) last)
    (hnodup : ((s.history visits (keyOf source)).map (·.path)).Nodup)
    (hlast : (s.saves visits (keyOf source)).getLast? = some last) (hsucceeded : v.succeeded = true)
    (hcall : v.call = .delete source query) : s.Tops (visits ++ [v]) (keyOf source) last := by
  have hsaves : s.saves [v] (keyOf source) = [] := by simp [saves, hsucceeded, hcall, Call.draft?]
  have hhistory : s.history (visits ++ [v]) (keyOf source) =
      s.revise v.before (s.history visits) (.delete source query) (keyOf source) := by
    rw [history_concat, if_pos hsucceeded, hcall]
  cases hpick : (s.history visits (keyOf source)).pick? query with
  | none =>
    have hsame : s.history (visits ++ [v]) (keyOf source) = s.history visits (keyOf source) := by
      simp only [hhistory, revise, hpick]
    refine h.concat hsaves ?_ (hsame ▸ List.Sublist.refl _) (fun hfront => hsame ▸ hfront)
    rintro ⟨-, source', query', last', number, hcall', hkey, -, hpick'⟩
    obtain ⟨rfl, rfl⟩ := Call.delete.inj (hcall.symm.trans hcall')
    rw [hpick] at hpick'
    cases hpick'
  | some e =>
    have hwithout : s.history (visits ++ [v]) (keyOf source) =
        (s.history visits (keyOf source)).without e.1.path := by
      simp only [hhistory, revise, hpick, Function.update_self]
    by_cases hgone : e.1 = last
    · refine .inr ⟨fun other hother => ?_, lastDeleted_concat_iff.mpr ⟨hsaves, .inr ?_⟩⟩
      · rw [hwithout] at hother
        exact hgone ▸ (Shelf.mem_without.mp hother).2
      · exact ⟨hsucceeded, source, query, last, e.2, hcall, rfl, hlast, hgone ▸ hpick⟩
    · refine h.concat hsaves ?_ (hwithout ▸ List.filter_sublist) fun hfront => ?_
      · rintro ⟨-, source', query', last', number, hcall', hkey, hlast', hpick'⟩
        obtain ⟨rfl, rfl⟩ := Call.delete.inj (hcall.symm.trans hcall')
        rw [hpick] at hpick'
        obtain rfl := Option.some.inj hpick'
        exact hgone (Option.some.inj (hlast'.symm.trans hlast))
      · have hpath : last.path ≠ e.1.path := fun hpath => hgone
          (List.inj_on_of_nodup_map hnodup (List.mem_of_head? hfront) (Shelf.mem_of_pick? hpick)
            hpath).symm
        obtain ⟨rest, hrest⟩ := List.head?_eq_some_iff.mp hfront
        rw [hwithout, hrest, Shelf.without, List.filter_cons_of_pos (by simpa using hpath),
          List.head?_cons]

/-- Cleaning up leaves the last session in front, unless it leaves none. -/
theorem Tops.cleanUp {file : Option String} {age : Json} (h : s.Tops visits key last)
    (hpairwise : (s.history visits key).Pairwise fun newer older =>
      newer.savedAt.less older.savedAt = false)
    (htimes : ∀ e ∈ s.history visits key, e.savedAt ≠ .nan) (hsucceeded : v.succeeded = true)
    (hcall : v.call = .cleanUp file age) (hne : s.history (visits ++ [v]) key ≠ []) :
    s.Tops (visits ++ [v]) key last := by
  have hsaves : s.saves [v] key = [] := by simp [saves, hsucceeded, hcall, Call.draft?]
  have hdeletes : ¬ s.DeletesLast visits key v := by
    rintro ⟨-, source', query', last', number, hcall', -⟩
    rw [hcall] at hcall'
    cases hcall'
  have hhistory : s.history (visits ++ [v]) key =
      s.revise v.before (s.history visits) (.cleanUp file age) key := by
    rw [history_concat, if_pos hsucceeded, hcall]
  have hsub := @revise_sublist s (s.history visits) key v.before (.cleanUp file age)
  rw [← hhistory] at hsub
  refine h.concat hsaves hdeletes hsub fun hfront => ?_
  cases hlimit : cutoff v.before.now (s.ageOf age) with
  | error failure =>
    simp only [hhistory, revise, hlimit]
    exact hfront
  | ok limit =>
    simp only [hhistory, revise, hlimit, cleaned] at hne ⊢
    split at hne
    · next hclean =>
      rw [if_pos hclean]
      obtain ⟨rest, hrest⟩ := List.head?_eq_some_iff.mp hfront
      obtain ⟨e, he⟩ := List.exists_mem_of_ne_nil _ hne
      obtain ⟨hmem, hkept⟩ := Shelf.mem_since.mp he
      -- Were the last session too old, so were all others.
      have hlast : last.savedAt.less limit = false := by
        by_contra hold
        rw [hrest] at hmem hpairwise
        rcases List.mem_cons.mp hmem with rfl | hrestmem
        · exact hold hkept
        · have hless := Binary64.less_of_less (htimes e (hrest ▸ hmem))
            (List.rel_of_pairwise_cons hpairwise hrestmem) (by simpa using hold)
          rw [hkept] at hless
          cases hless
      rw [hrest, Shelf.since, List.filter_cons_of_pos (by simp [hlast]), List.head?_cons]
    · next hclean => rwa [if_neg hclean]

/-- After calls on one source file that succeeded under a clock that never goes back, the session
that was saved last is the first of those that are listed, or it was deleted. -/
theorem Reaches.tops {limit : Nat} (h : s.Reaches start visits w) (hroot : s.root.IsClean)
    (hempty : s.IsEmpty start.files) (hplain : s.ArePlain visits)
    (hcalls : ∀ v ∈ visits, v.call.IsOn source ∧ v.succeeded = true)
    (hclock : visits.Pairwise fun v v' => v'.before.now.less v.before.now = false)
    (hlimit : s.config.maxSessions = some (limit : Int)) (hpos : 0 < limit)
    (hlast : (s.saves visits (keyOf source)).getLast? = some last)
    (hne : s.history visits (keyOf source) ≠ []) : s.Tops visits (keyOf source) last := by
  induction h generalizing last with
  | start => cases hlast
  | elapse _ _ ih => exact ih hplain hcalls hclock hlast hne
  | @visit visits w w' call result h hrun ih =>
    have hbefore : s.ArePlain visits := fun v hv => hplain v (List.mem_append_left _ hv)
    obtain ⟨hshelved, -⟩ := h.keeps hroot hempty hbefore
    obtain ⟨hon, hsucceeded⟩ := hcalls ⟨w, call, result.isOk⟩ (by simp)
    have hearlier := (List.pairwise_append.mp hclock).1
    -- Either the call saves the last session, or that was saved before and may move.
    cases hdraft : call.draft? s w (keyOf source) with
    | some e =>
      rw [saves_concat, if_pos hsucceeded, hdraft, Option.toList_some, List.getLast?_concat]
        at hlast
      obtain rfl := Option.some.inj hlast
      exact tops_of_draft? hlimit hpos hsucceeded hdraft
    | none =>
      rw [saves_concat, if_pos hsucceeded, hdraft, Option.toList_none, List.append_nil] at hlast
      have hsub := @revise_sublist s (s.history visits) (keyOf source) w call
      have hhistory : s.history (visits ++ [⟨w, call, result.isOk⟩]) (keyOf source) =
          s.revise w (s.history visits) call (keyOf source) := by
        rw [history_concat, if_pos hsucceeded]
      rw [hdraft, Option.toList_none, List.nil_append, ← hhistory] at hsub
      have htops := ih hbefore (fun v hv => hcalls v (List.mem_append_left _ hv)) hearlier hlast
        fun hnil => hne (List.sublist_nil.mp (hnil ▸ hsub))
      cases call with
      | save pipeline file compilation name =>
        obtain rfl : file = source := hon
        have herror : ∃ failure, s.draft w pipeline file compilation name = .error failure := by
          cases hsaved : s.draft w pipeline file compilation name with
          | error failure => exact ⟨failure, rfl⟩
          | ok e =>
            simp only [Call.draft?, hsaved, if_pos] at hdraft
            cases hdraft
        obtain ⟨failure, hfailed⟩ := herror
        have hsame : s.history (visits ++ [⟨w, .save pipeline file compilation name, result.isOk⟩])
            (keyOf file) = s.history visits (keyOf file) := by
          simp only [hhistory, revise, hfailed]
        refine htops.concat (by simp [saves, hdraft]) ?_ (hsame ▸ List.Sublist.refl _)
          fun hfront => hsame ▸ hfront
        rintro ⟨-, _, _, _, _, hcall, -⟩
        cases hcall
      | delete file query =>
        obtain rfl : file = source := hon
        exact htops.delete (hshelved.nodup _) hlast hsucceeded rfl
      | cleanUp file age =>
        exact htops.cleanUp (pairwise_history s _ hearlier)
          (fun e he => (hshelved.kept _ e he).savedAt_ne) hsucceeded rfl hne

end Deletions

/-- What stands in the directory of a source file is the same if it has the same name. -/
theorem eq_of_name_eq {q q' : Path} (h : q ∈ s.pathsOf key) (h' : q' ∈ s.pathsOf key)
    (hname : q.name = q'.name) : q = q' := by
  obtain ⟨name, hplain, rfl⟩ := h
  obtain ⟨name', hplain', rfl⟩ := h'
  rw [Path.name_join _ hplain.toIsName, Path.name_join _ hplain'.toIsName] at hname
  rw [hname]

/-- The note of a source file has the name of the file of the first session in the list. -/
def NotesNewest (s : Store) (w : World) (source : String) : Prop :=
  ∃ newest older file, (s.listSessions source).run.run w = (.ok (newest :: older), w) ∧
    newest.get "file" = .string file ∧
    s.noteOf? w.files source = some (Text.utf8 (Path.ofString file).name)

theorem notesNewest_iff_of_listing {newest : Saved} {older : List Json.Fields}
    {last : String} (hclean : newest.path.IsClean)
    (hlist : (s.listSessions source).run.run w =
      (.ok (Saved.listed (keyOf source) (newest, 1) :: older), w))
    (hnote : s.noteOf? w.files source = some (Text.utf8 last)) :
    s.NotesNewest w source ↔ newest.path.name = last := by
  constructor
  · rintro ⟨newest', older', file, hlist', hfile, hnote'⟩
    rw [hlist] at hlist'
    obtain ⟨rfl, rfl⟩ := List.cons.inj (Except.ok.inj (Prod.mk.inj hlist').1)
    obtain rfl := Json.string.inj ((Saved.get_file_listed _ _).symm.trans hfile)
    rw [hnote, Path.ofString_toString hclean] at hnote'
    exact (Text.utf8_inj.mp (Option.some.inj hnote')).symm
  · rintro rfl
    refine ⟨_, _, newest.path.toString, hlist, Saved.get_file_listed _ _, ?_⟩
    rw [hnote, Path.ofString_toString hclean]

/-- After calls on one source file that succeeded under a clock that never goes back, as long as
there are sessions, the note names the file of the session that was saved last. So it names that of
the newest session exactly if the session that was saved last is not deleted. -/
theorem notesNewest_iff {limit : Nat} (hroot : s.root.IsClean) (hsource : IsSource source)
    (hempty : s.IsEmpty start.files) (h : s.Reaches start visits w) (hplain : s.ArePlain visits)
    (hcalls : ∀ v ∈ visits, v.call.IsOn source ∧ v.succeeded = true)
    (hclock : visits.Pairwise fun v v' => v'.before.now.less v.before.now = false)
    (hlimit : s.config.maxSessions = some (limit : Int)) (hpos : 0 < limit)
    (hcan : s.CanNote w.files source) (hne : s.history visits (keyOf source) ≠ []) :
    (∃ last, (s.saves visits (keyOf source)).getLast? = some last ∧
      s.noteOf? w.files source = some (Text.utf8 last.path.name)) ∧
    (s.NotesNewest w source ↔ ¬ s.LastDeleted visits (keyOf source)) := by
  obtain ⟨last, hlast⟩ : ∃ last, (s.saves visits (keyOf source)).getLast? = some last := by
    obtain ⟨e, he⟩ := List.exists_mem_of_ne_nil _ hne
    exact ⟨_, List.getLast?_eq_some_getLast (List.ne_nil_of_mem (mem_saves_of_mem_history he))⟩
  have hnote := h.noteOf?_eq hroot hsource hempty hplain hcalls hcan
  rw [hlast, Option.map_some] at hnote
  refine ⟨⟨last, hlast, hnote⟩, ?_⟩
  obtain ⟨table, htable, hload⟩ := h.exists_run_loadIndex hroot hempty hplain fun v hv =>
    (hcalls v hv).2
  have hshelved := (h.keeps hroot hempty hplain).1
  obtain ⟨newest, older, hhistory⟩ := List.exists_cons_of_ne_nil hne
  have hlist := run_listSessions htable hload hshelved source
  rw [Shelf.listing, Shelf.numbered, arranged_history s _ hclock, hhistory, List.zipIdx_cons,
    List.map_cons] at hlist
  obtain ⟨v, hv, htarget⟩ := exists_target?_of_mem_saves (List.mem_of_getLast? hlast)
  have hlastpath := (Call.mem_pathsOf_of_target? (hplain v hv).2 htarget).2
  have hmem : newest ∈ s.history visits (keyOf source) := hhistory ▸ List.mem_cons_self
  have hkept := hshelved.kept _ newest hmem
  rw [notesNewest_iff_of_listing hkept.isClean hlist hnote]
  rcases h.tops hroot hempty hplain hcalls hclock hlimit hpos hlast hne with
    ⟨hfront, hnot⟩ | ⟨hothers, hdeleted⟩
  · rw [hhistory, List.head?_cons] at hfront
    obtain rfl := Option.some.inj hfront
    exact iff_of_true rfl hnot
  · refine iff_of_false (fun hname => ?_) (not_not_intro hdeleted)
    exact hothers newest hmem (eq_of_name_eq (mem_pathsOf hkept) hlastpath hname)

/-- After a note of a source file, which is not deleted, the newest session is noted down. -/
theorem notesNewest_noted : plainStore.NotesNewest notedWorld "a.ll" := by
  have hcalls : ∀ v ∈ noted, v.call.IsOn "a.ll" ∧ v.succeeded = true := by
    intro v hv
    obtain rfl := List.mem_singleton.mp hv
    exact ⟨rfl, rfl⟩
  have hcan : plainStore.CanNote notedWorld.files "a.ll" :=
    ⟨by decide +kernel, by decide +kernel⟩
  have hlimit : plainStore.config.maxSessions = some ((10 : Nat) : Int) := rfl
  have hne : plainStore.history noted (keyOf "a.ll") ≠ [] := by
    intro hnil
    have hnames := names_history_noted
    rw [hnil] at hnames
    cases hnames
  refine (notesNewest_iff isClean_plainStore isSource_noted isEmpty_emptyWorld reaches_noted
    arePlain_noted hcalls (List.pairwise_singleton _ _) hlimit (by decide) hcan hne).2.mpr ?_
  rintro ⟨before, v, since, hnoted, -, -, source, query, last, number, hcall, -⟩
  obtain rfl := List.mem_singleton.mp (hnoted ▸ List.mem_append_right before List.mem_cons_self :
    v ∈ noted)
  cases hcall

end Store
end PassTrace

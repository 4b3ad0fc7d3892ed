import PassTrace.Batch

/-!
# Calls on a batch

Work on a batch is called for in any order: a chunk at a time, by iterations that are left behind or
taken turns with, or to the end, with cancellations between. Whatever property of the work done one
more pass keeps, every call keeps, and each chunk that is completed leaves the schedule as many
passes further as the chunk has.

A cancellation that comes while a chunk is worked on is the same as one behind that chunk, as it is
not looked at before.
-/

namespace PassTrace

/-- What stands in a list that has grown at its end stood there before, or came last. -/
theorem getElem?_concat_cases {α : Type} {l : List α} {a b : α} {k : Nat}
    (h : (l ++ [a])[k]? = some b) :
    k < l.length ∧ l[k]? = some b ∨ k = l.length ∧ b = a := by
  have hk := (List.getElem?_eq_some_iff.mp h).1
  rw [List.length_append, List.length_singleton] at hk
  rcases Nat.lt_or_eq_of_le (Nat.le_of_lt_succ hk) with hlt | rfl
  · rw [List.getElem?_append_left hlt] at h
    exact .inl ⟨hlt, h⟩
  · rw [List.getElem?_concat_length] at h
    exact .inr ⟨rfl, (Option.some.inj h).symm⟩

namespace Schedule

/-- A call on a batch. -/
inductive Call
  /-- Works on the next chunk. -/
  | chunk
  /-- Asks an iteration for its next chunk. If the iteration begins with that, a cancellation is
  taken back. -/
  | pull (begins : Bool)
  /-- Works on the chunks that are left. After each one `stop` is asked, with the number of reports,
  whether to cancel. -/
  | run (stop : Nat → Bool)
  | cancel

section Perform

variable {m : Type → Type} [Monad m] {ε : Type}

/-- What a call comes to. -/
def Call.perform (work : Nat → m (Except ε Unit)) : Call → Schedule → m (Run ε)
  | .chunk, s => do
    let (s, failure) ← s.runChunk work
    return ⟨s, [], failure⟩
  | .pull begins, s => do
    match ← (if begins then s.uncancel else s).pull work with
    | (s, .ended) => return ⟨s, [], none⟩
    | (s, .reported progress) => return ⟨s, [progress], none⟩
    | (s, .failed fault) => return ⟨s, [], some fault⟩
  | .run stop, s => s.resume work stop
  | .cancel, s => return ⟨s.cancel, [], none⟩

/-- The schedule behind calls. -/
def behind (work : Nat → m (Except ε Unit)) : List Call → Schedule → m Schedule
  | [], s => return s
  | c :: calls, s => do behind work calls (← c.perform work s).schedule

/-- The number of chunks that a call completed. -/
def Call.completed (c : Call) (r : Run ε) : Nat :=
  match c with
  | .chunk => if r.failure.isNone then 1 else 0
  | .pull _ | .run _ => r.reports.length
  | .cancel => 0

end Perform

/-- The number of passes that are done when some more chunks have been completed. -/
def doneAfter (s : Schedule) : Nat → Nat
  | 0 => s.done
  | chunks + 1 => s.doneAfter chunks + min s.chunkSize (s.total - s.doneAfter chunks)

/-- The progress behind each of the chunks that come next. -/
def progressOver (s : Schedule) (chunks : Nat) : List Progress :=
  (List.range chunks).map fun k => ⟨s.doneAfter (k + 1), s.total⟩

/-- A call completed its chunks one after the other, and reported each with what was done then. If
it failed, it did so within the next chunk. -/
structure Call.Advances {ε : Type} (c : Call) (s : Schedule) (r : Run ε) : Prop where
  total_eq : r.schedule.total = s.total
  chunkSize_eq : r.schedule.chunkSize = s.chunkSize
  done_le : r.schedule.done ≤ s.total
  reports_eq : r.reports = s.progressOver r.reports.length
  completed : r.failure = none → r.schedule.done = s.doneAfter (c.completed r)
  failed : ∀ e, r.failure = some e → s.doneAfter (c.completed r) ≤ r.schedule.done ∧
    r.schedule.done < s.doneAfter (c.completed r + 1)
  /-- An iteration that was asked for its next chunk ends where there is none or the work was
  cancelled. -/
  pulled : ∀ begins, c = .pull begins →
    (r.reports = [] ∧ r.failure = none ↔
      s.isComplete = true ∨ begins = false ∧ s.cancelled = true)
  /-- A run ends where all is done or the work is to be cancelled. -/
  ends : ∀ stop, c = .run stop → r.failure = none →
    r.schedule.isComplete = true ∨ stop r.reports.length = true

section DoneAfter

variable (s : Schedule)

theorem doneAfter_le (h : s.done ≤ s.total) (chunks : Nat) : s.doneAfter chunks ≤ s.total := by
  induction chunks with
  | zero => exact h
  | succ chunks ih =>
    rw [doneAfter]
    omega

theorem le_doneAfter (chunks : Nat) : s.done ≤ s.doneAfter chunks := by
  induction chunks with
  | zero => exact Nat.le_refl _
  | succ chunks ih => exact Nat.le_add_right_of_le ih

/-- Cancellations do not count. -/
theorem doneAfter_cancelled (cancelled : Bool) (chunks : Nat) :
    doneAfter { s with cancelled } chunks = s.doneAfter chunks := by
  induction chunks with
  | zero => rfl
  | succ chunks ih =>
    rw [doneAfter, ih]
    rfl

/-- What is done behind the first chunk is where the others start. -/
theorem doneAfter_succ (cancelled : Bool) (chunks : Nat) :
    doneAfter { s with done := s.doneAfter 1, cancelled } chunks = s.doneAfter (chunks + 1) := by
  induction chunks with
  | zero => rfl
  | succ chunks ih =>
    rw [doneAfter, ih]
    rfl

@[simp] theorem length_progressOver (chunks : Nat) : (s.progressOver chunks).length = chunks := by
  rw [progressOver, List.length_map, List.length_range]

theorem progressOver_cancelled (cancelled : Bool) (chunks : Nat) :
    progressOver { s with cancelled } chunks = s.progressOver chunks := by
  simp only [progressOver, doneAfter_cancelled]

/-- Behind the first chunk are the others. -/
theorem progressOver_succ (cancelled : Bool) (chunks : Nat) : s.progressOver (chunks + 1) =
    ⟨s.doneAfter 1, s.total⟩ ::
      progressOver { s with done := s.doneAfter 1, cancelled } chunks := by
  simp only [progressOver, List.range_succ_eq_map, List.map_cons, List.map_map, doneAfter_succ]
  rfl

/-- A chunk takes the work further, unless all is done. -/
theorem done_lt_doneAfter_one (h : s.isComplete = false) : s.done < s.doneAfter 1 := by
  have hpos := s.chunkSize_pos
  have hleft : s.done < s.total := by simpa [isComplete] using h
  have hone : s.doneAfter 1 = s.done + min s.chunkSize (s.total - s.done) := rfl
  omega

end DoneAfter

/-- What is done stays done. -/
theorem Call.Advances.le_done {ε : Type} {c : Call} {s : Schedule} {r : Run ε}
    (h : c.Advances s r) : s.done ≤ r.schedule.done := by
  cases hfailure : r.failure with
  | none =>
    rw [h.completed hfailure]
    exact le_doneAfter s _
  | some e => exact Nat.le_trans (le_doneAfter s _) (h.failed e hfailure).1

variable {τ ε : Type} {work : Nat → StateM τ (Except ε Unit)} {I : Nat → τ → Prop}
  {F : Nat → ε → τ → Prop} {s s' : Schedule} {x y : τ} {failure : Option ε} {r : Run ε}

/-- Work on one more pass keeps a property of what was worked on, and if it fails, something may be
said of the failure. -/
structure Keeps (work : Nat → StateM τ (Except ε Unit)) (total : Nat) (I : Nat → τ → Prop)
    (F : Nat → ε → τ → Prop) : Prop where
  ok : ∀ {d x y}, d < total → I d x → (work (d + 1)).run x = (.ok (), y) → I (d + 1) y
  error : ∀ {d x y e}, d < total → I d x → (work (d + 1)).run x = (.error e, y) → I d y ∧ F d e y

/-- Work went on to a goal, or to a failure before it. -/
structure Goes (I : Nat → τ → Prop) (F : Nat → ε → τ → Prop) (s : Schedule) (goal : Nat)
    (s' : Schedule) (failure : Option ε) (y : τ) : Prop where
  kept : I s'.done y
  rest : s' = { s with done := s'.done }
  reached : failure = none → s'.done = goal
  failed : ∀ e, failure = some e → s.done ≤ s'.done ∧ s'.done < goal ∧ F s'.done e y

/-- Work that did not fail has come to its goal. -/
theorem Goes.eq_of_none {goal : Nat} (h : Goes I F s goal s' none y) :
    s' = { s with done := goal } := by
  rw [h.rest, h.reached rfl]

theorem run_workOn_succ (count : Nat) (s : Schedule) (x : τ) :
    (workOn work (count + 1) s).run x =
      match (work (s.done + 1)).run x with
      | (.ok (), y) => (workOn work count s.advance).run y
      | (.error e, y) => ((s, some e), y) := by
  rw [workOn, StateT.run_bind]
  rcases (work (s.done + 1)).run x with ⟨_ | _, y⟩ <;> rfl

/-- Work on some passes keeps what work on one keeps. -/
theorem Keeps.workOn (h : Keeps work s.total I F) {count : Nat} (hcount : s.done + count ≤ s.total)
    (hx : I s.done x) (hrun : (workOn work count s).run x = ((s', failure), y)) :
    Goes I F s (s.done + count) s' failure y := by
  induction count generalizing s x with
  | zero =>
    cases hrun
    exact ⟨hx, rfl, fun _ => rfl, nofun⟩
  | succ count ih =>
    have hlt : s.done < s.total := by omega
    rw [run_workOn_succ] at hrun
    cases hwork : (work (s.done + 1)).run x with
    | mk result z =>
      rw [hwork] at hrun
      cases result with
      | ok value =>
        have hgoes := ih (s := s.advance) h (by simp only [advance]; omega) (h.ok hlt hx hwork) hrun
        have hgoal : s.advance.done + count = s.done + (count + 1) := by
          simp only [advance]
          omega
        rw [hgoal] at hgoes
        refine ⟨hgoes.kept, hgoes.rest, hgoes.reached, fun e he => ?_⟩
        obtain ⟨hle, hshort, hF⟩ := hgoes.failed e he
        simp only [advance] at hle
        exact ⟨by omega, hshort, hF⟩
      | error fault =>
        cases hrun
        obtain ⟨hkept, hF⟩ := h.error hlt hx hwork
        refine ⟨hkept, rfl, nofun, fun e he => ?_⟩
        obtain rfl := Option.some.inj he
        exact ⟨Nat.le_refl _, by omega, hF⟩

/-- Work on a chunk goes on to the end of the chunk. -/
theorem Keeps.runChunk (h : Keeps work s.total I F) (hdone : s.done ≤ s.total) (hx : I s.done x)
    (hrun : (s.runChunk work).run x = ((s', failure), y)) :
    Goes I F s (s.doneAfter 1) s' failure y := by
  have hcount : s.done + s.nextSize ≤ s.total := by
    unfold nextSize
    omega
  exact h.workOn hcount hx hrun

/-- Some chunks were completed, and if there was a failure, it came within the next one. -/
structure Covers (I : Nat → τ → Prop) (F : Nat → ε → τ → Prop) (s : Schedule) (chunks : Nat)
    (r : Run ε) (y : τ) : Prop where
  kept : I r.schedule.done y
  total_eq : r.schedule.total = s.total
  chunkSize_eq : r.schedule.chunkSize = s.chunkSize
  completed : r.failure = none → r.schedule.done = s.doneAfter chunks
  failed : ∀ e, r.failure = some e → s.doneAfter chunks ≤ r.schedule.done ∧
    r.schedule.done < s.doneAfter (chunks + 1) ∧ F r.schedule.done e y

/-- No more is done than there is. -/
theorem Covers.done_le {chunks : Nat} (h : Covers I F s chunks r y) (hdone : s.done ≤ s.total) :
    r.schedule.done ≤ s.total := by
  cases hfailure : r.failure with
  | none =>
    rw [h.completed hfailure]
    exact doneAfter_le s hdone chunks
  | some e =>
    have hlt := (h.failed e hfailure).2.1
    exact Nat.le_of_lt (Nat.lt_of_lt_of_le hlt (doneAfter_le s hdone _))

/-- Nothing was done. -/
theorem Covers.refl {reports : List Progress} {cancelled : Bool} (hx : I s.done x) :
    Covers I F s 0 ⟨{ s with cancelled }, reports, none⟩ x :=
  ⟨hx, rfl, rfl, fun _ => rfl, nofun⟩

/-- Chunks are counted from where the schedule stands, cancelled or not. -/
theorem Covers.of_cancelled {cancelled : Bool} {chunks : Nat}
    (h : Covers I F { s with cancelled } chunks r y) : Covers I F s chunks r y := by
  refine ⟨h.kept, h.total_eq, h.chunkSize_eq, ?_, ?_⟩
  · intro hnone
    rw [h.completed hnone, doneAfter_cancelled]
  · intro e he
    have hfailed := h.failed e he
    rwa [doneAfter_cancelled s cancelled chunks, doneAfter_cancelled s cancelled (chunks + 1)]
      at hfailed

/-- The chunks behind the first one, and the first one. -/
theorem Covers.of_next {cancelled : Bool} {chunks : Nat}
    (h : Covers I F { s with done := s.doneAfter 1, cancelled } chunks r y) :
    Covers I F s (chunks + 1) r y := by
  refine ⟨h.kept, h.total_eq, h.chunkSize_eq, ?_, ?_⟩
  · intro hnone
    rw [h.completed hnone, doneAfter_succ]
  · intro e he
    have hfailed := h.failed e he
    rwa [doneAfter_succ, doneAfter_succ] at hfailed

/-- What a chunk comes to. -/
theorem Goes.covers (h : Goes I F s (s.doneAfter 1) s' failure y) (reports : List Progress) :
    Covers I F s (if failure.isNone then 1 else 0) ⟨s', reports, failure⟩ y := by
  have hrest := h.rest
  constructor
  case kept => exact h.kept
  case total_eq => rw [hrest]
  case chunkSize_eq => rw [hrest]
  case completed =>
    intro hnone
    obtain rfl : failure = none := hnone
    exact h.reached rfl
  case failed =>
    intro e he
    obtain rfl : failure = some e := he
    exact h.failed e rfl

theorem run_pull (s : Schedule) (x : τ) : (s.pull work).run x =
    if s.isComplete || s.cancelled then ((s, .ended), x)
    else
      match (s.runChunk work).run x with
      | ((s', none), y) => ((s', .reported s'.progress), y)
      | ((s', some fault), y) => ((s', .failed fault), y) := by
  unfold Schedule.pull
  split
  · rfl
  · rw [StateT.run_bind]
    rcases (s.runChunk work).run x with ⟨⟨s', _ | fault⟩, y⟩ <;> rfl

/-- An iteration that is asked for its next chunk ends where all is done or the work was cancelled,
and otherwise works on a chunk. -/
theorem Keeps.pull {result : Pull ε} (h : Keeps work s.total I F) (hdone : s.done ≤ s.total)
    (hx : I s.done x) (hrun : (s.pull work).run x = ((s', result), y)) :
    (result = .ended ∧ s' = s ∧ y = x ∧ (s.isComplete ∨ s.cancelled)) ∨
      (s.isComplete = false ∧ s.cancelled = false ∧ ∃ failure,
        Goes I F s (s.doneAfter 1) s' failure y ∧
          result = match failure with
            | none => .reported s'.progress
            | some fault => .failed fault) := by
  rw [run_pull] at hrun
  by_cases hend : (s.isComplete || s.cancelled) = true
  · rw [if_pos hend] at hrun
    cases hrun
    exact .inl ⟨rfl, rfl, rfl, by simpa using hend⟩
  · rw [if_neg hend] at hrun
    have hboth : s.isComplete = false ∧ s.cancelled = false := by simpa using hend
    refine .inr ⟨hboth.1, hboth.2, ?_⟩
    rcases hchunk : (s.runChunk work).run x with ⟨⟨s'', _ | fault⟩, z⟩
    · rw [hchunk] at hrun
      cases hrun
      exact ⟨none, h.runChunk hdone hx hchunk, rfl⟩
    · rw [hchunk] at hrun
      cases hrun
      exact ⟨some fault, h.runChunk hdone hx hchunk, rfl⟩

theorem run_runChunks_succ (stop : Nat → Bool) (fuel : Nat) (reports : List Progress)
    (s : Schedule) (x : τ) : (runChunks work stop (fuel + 1) reports s).run x =
      match (s.pull work).run x with
      | ((s', .ended), y) => (⟨s', reports.reverse, none⟩, y)
      | ((s', .failed fault), y) => (⟨s', reports.reverse, some fault⟩, y)
      | ((s', .reported progress), y) =>
        (runChunks work stop fuel (progress :: reports)
          (if stop (reports.length + 1) then s'.cancel else s')).run y := by
  rw [Schedule.runChunks, StateT.run_bind]
  rcases (s.pull work).run x with ⟨⟨s', _ | _ | _⟩, y⟩ <;> rfl

/-- A run of chunks reports each of them, and ends where all is done, where `stop` says so or with a
failure. -/
theorem Keeps.runChunks {stop : Nat → Bool} {fuel : Nat} {reports : List Progress}
    (h : Keeps work s.total I F) (hdone : s.done ≤ s.total) (hfuel : s.total - s.done ≤ fuel)
    (hcancelled : s.cancelled = true → stop reports.length = true) (hx : I s.done x)
    (hrun : (runChunks work stop fuel reports s).run x = (r, y)) : ∃ chunks,
      Covers I F s chunks r y ∧
        r.reports = reports.reverse ++ s.progressOver chunks ∧
        (r.failure = none → r.schedule.isComplete ∨ stop (reports.length + chunks) = true) := by
  -- The induction is on the fuel, which is enough for all that is left to do.
  induction fuel generalizing reports s x with
  | zero =>
    cases hrun
    refine ⟨0, .refl hx, (List.append_nil _).symm, fun _ => .inl ?_⟩
    simp only [isComplete, decide_eq_true_eq]
    omega
  | succ fuel ih =>
    rw [run_runChunks_succ] at hrun
    rcases hpull : (s.pull work).run x with ⟨⟨s', result⟩, z⟩
    rw [hpull] at hrun
    rcases h.pull hdone hx hpull with ⟨rfl, rfl, rfl, hend⟩ | ⟨hleft, hgoing, failure, hgoes, rfl⟩
    · cases hrun
      refine ⟨0, .refl hx, (List.append_nil _).symm, fun _ => ?_⟩
      exact hend.imp_right fun hcancel => hcancelled hcancel
    · cases failure with
      | some fault =>
        cases hrun
        exact ⟨0, hgoes.covers reports.reverse, (List.append_nil _).symm, nofun⟩
      | none =>
        -- The rest of the run starts behind this chunk, perhaps with a cancellation.
        obtain rfl := hgoes.eq_of_none
        have hnext (c : Bool) :
            (if c then Schedule.cancel { s with done := s.doneAfter 1 }
              else { s with done := s.doneAfter 1 }) =
            { s with done := s.doneAfter 1, cancelled := c } := by
          cases c with
          | true => rfl
          | false => simp [hgoing]
        have hfarther := s.done_lt_doneAfter_one hleft
        dsimp only at hrun
        rw [hnext] at hrun
        obtain ⟨chunks, hcovers, hreports, hends⟩ :=
          ih (s := { s with done := s.doneAfter 1, cancelled := stop (reports.length + 1) }) h
            (doneAfter_le s hdone 1) (by dsimp only; omega) id hgoes.kept hrun
        refine ⟨chunks + 1, hcovers.of_next, ?_, fun hnone => ?_⟩
        · rw [hreports, progressOver_succ, List.reverse_cons, List.append_assoc]
          rfl
        · have hends := hends hnone
          rw [List.length_cons] at hends
          rwa [Nat.add_comm chunks 1, ← Nat.add_assoc]

/-- What a call comes to: its chunks, those that it reports, and where it ends. -/
structure Call.Settles (I : Nat → τ → Prop) (F : Nat → ε → τ → Prop) (c : Call) (s : Schedule)
    (r : Run ε) (y : τ) : Prop where
  covers : Covers I F s (c.completed r) r y
  reports_eq : r.reports = s.progressOver r.reports.length
  pulled : ∀ begins, c = .pull begins →
    (r.reports = [] ∧ r.failure = none ↔
      s.isComplete = true ∨ begins = false ∧ s.cancelled = true)
  ends : ∀ stop, c = .run stop → r.failure = none →
    r.schedule.isComplete = true ∨ stop r.reports.length = true

theorem Call.Settles.advances {c : Call} (h : c.Settles I F s r y) (hdone : s.done ≤ s.total) :
    c.Advances s r where
  total_eq := h.covers.total_eq
  chunkSize_eq := h.covers.chunkSize_eq
  done_le := h.covers.done_le hdone
  reports_eq := h.reports_eq
  completed := h.covers.completed
  failed := fun e he => ⟨(h.covers.failed e he).1, (h.covers.failed e he).2.1⟩
  pulled := h.pulled
  ends := h.ends

theorem run_perform_pull (begins : Bool) (s : Schedule) (x : τ) :
    ((Call.pull begins).perform work s).run x =
      match ((if begins then s.uncancel else s).pull work).run x with
      | ((s', .ended), y) => (⟨s', [], none⟩, y)
      | ((s', .reported progress), y) => (⟨s', [progress], none⟩, y)
      | ((s', .failed fault), y) => (⟨s', [], some fault⟩, y) := by
  rw [Call.perform, StateT.run_bind]
  rcases ((if begins then s.uncancel else s).pull work).run x with ⟨⟨s', _ | _ | _⟩, y⟩ <;> rfl

theorem Keeps.settles_chunk (h : Keeps work s.total I F) (hdone : s.done ≤ s.total)
    (hx : I s.done x) (hrun : (Call.chunk.perform work s).run x = (r, y)) :
    Call.chunk.Settles I F s r y := by
  rcases hchunk : (s.runChunk work).run x with ⟨⟨s', failure⟩, z⟩
  rw [Call.perform, StateT.run_bind, hchunk] at hrun
  cases hrun
  exact ⟨(h.runChunk hdone hx hchunk).covers [], rfl, nofun, nofun⟩

theorem Keeps.settles_pull {begins : Bool} (h : Keeps work s.total I F) (hdone : s.done ≤ s.total)
    (hx : I s.done x) (hrun : ((Call.pull begins).perform work s).run x = (r, y)) :
    (Call.pull begins).Settles I F s r y := by
  -- The iteration works on the schedule, of which a cancellation may have been taken back.
  obtain ⟨cancelled, hstart, hcancelled⟩ : ∃ cancelled,
      (if begins then s.uncancel else s) = { s with cancelled } ∧
        (cancelled = true ↔ begins = false ∧ s.cancelled = true) := by
    cases begins with
    | true => exact ⟨false, rfl, by simp⟩
    | false => exact ⟨s.cancelled, rfl, by simp⟩
  rcases hpull : (Schedule.pull work { s with cancelled }).run x with ⟨⟨s', result⟩, z⟩
  rw [run_perform_pull, hstart, hpull] at hrun
  rcases h.pull (s := { s with cancelled }) hdone hx hpull with
    ⟨rfl, rfl, rfl, hend⟩ | ⟨hleft, hgoing, failure, hgoes, rfl⟩
  · cases hrun
    have hend' : s.isComplete = true ∨ begins = false ∧ s.cancelled = true :=
      hend.imp_right hcancelled.1
    refine ⟨.refl hx, rfl, fun begins' hbegins => ?_, nofun⟩
    obtain rfl := Call.pull.inj hbegins
    exact iff_of_true ⟨rfl, rfl⟩ hend'
  · have hleft' : ¬ (s.isComplete = true ∨ begins = false ∧ s.cancelled = true) := by
      rw [← hcancelled]
      have hincomplete : s.isComplete = false := hleft
      have hcontinues : cancelled = false := hgoing
      simp [hincomplete, hcontinues]
    cases failure with
    | some fault =>
      cases hrun
      refine ⟨(hgoes.covers []).of_cancelled, rfl, fun begins' hbegins => ?_, nofun⟩
      obtain rfl := Call.pull.inj hbegins
      exact iff_of_false (fun hnone => nomatch hnone.2) hleft'
    | none =>
      cases hrun
      have hprogress : s'.progress = ⟨s.doneAfter 1, s.total⟩ := by
        rw [hgoes.eq_of_none, doneAfter_cancelled]
        rfl
      refine ⟨(hgoes.covers [s'.progress]).of_cancelled, ?_, fun begins' hbegins => ?_, nofun⟩
      · rw [hprogress]
        rfl
      · obtain rfl := Call.pull.inj hbegins
        exact iff_of_false (fun hnone => nomatch hnone.1) hleft'

theorem Keeps.settles_run {stop : Nat → Bool} (h : Keeps work s.total I F)
    (hdone : s.done ≤ s.total) (hx : I s.done x)
    (hrun : ((Call.run stop).perform work s).run x = (r, y)) :
    (Call.run stop).Settles I F s r y := by
  obtain ⟨chunks, hcovers, hreports, hends⟩ :=
    h.runChunks (s := s.uncancel) hdone (Nat.le_refl _) nofun hx hrun
  have hlength : r.reports.length = chunks := by
    rw [hreports, List.length_append, length_progressOver]
    exact Nat.zero_add chunks
  refine ⟨?_, ?_, nofun, ?_⟩
  · rw [Call.completed, hlength]
    exact hcovers.of_cancelled
  · rw [hlength, hreports]
    exact s.progressOver_cancelled false chunks
  · intro stop' hstop hnone
    obtain rfl := Call.run.inj hstop
    rw [hlength]
    simpa using hends hnone

/-- What a call keeps and reports. -/
theorem Keeps.perform (h : Keeps work s.total I F) (c : Call) (hdone : s.done ≤ s.total)
    (hx : I s.done x) (hrun : (c.perform work s).run x = (r, y)) :
    c.Advances s r ∧ I r.schedule.done y ∧ ∀ e, r.failure = some e → F r.schedule.done e y := by
  have hsettles : c.Settles I F s r y := by
    cases c with
    | chunk => exact h.settles_chunk hdone hx hrun
    | pull begins => exact h.settles_pull hdone hx hrun
    | run stop => exact h.settles_run hdone hx hrun
    | cancel =>
      cases hrun
      exact ⟨.refl hx, rfl, nofun, nofun⟩
  exact ⟨hsettles.advances hdone, hsettles.covers.kept,
    fun e he => (hsettles.covers.failed e he).2.2⟩

/-- Calls keep what one more pass keeps. -/
theorem Keeps.behind {calls : List Call} {total : Nat} (h : Keeps work total I F)
    (htotal : s.total = total) (hdone : s.done ≤ total) (hx : I s.done x)
    (hrun : (behind work calls s).run x = (s', y)) :
    s'.total = total ∧ s'.chunkSize = s.chunkSize ∧ s'.done ≤ total ∧ I s'.done y := by
  induction calls generalizing s x with
  | nil =>
    cases hrun
    exact ⟨htotal, rfl, hdone, hx⟩
  | cons c calls ih =>
    subst htotal
    rcases hcall : (c.perform work s).run x with ⟨r, z⟩
    obtain ⟨hadvances, hkept, -⟩ := h.perform c hdone hx hcall
    have hrest : (Schedule.behind work calls r.schedule).run z = (s', y) := by
      rw [← hrun, Schedule.behind, StateT.run_bind, hcall]
      rfl
    obtain ⟨htotal, hsize, hle, hI⟩ := ih hadvances.total_eq hadvances.done_le hkept hrest
    exact ⟨htotal, hsize.trans hadvances.chunkSize_eq, hle, hI⟩

end Schedule
end PassTrace

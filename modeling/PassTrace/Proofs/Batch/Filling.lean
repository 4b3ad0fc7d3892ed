import PassTrace.Job
import PassTrace.Proofs.Batch.Calls

/-!
# Filling in the passes

A batch computes a value for each pass and stores it in the pass. Computing may fail, and what it
comes to may depend on a memory. However the batch is called, the values are computed in the order
of the passes, each one until it succeeds and then no more, and the passes hold just these values.
-/

namespace PassTrace

/-- A value for each pass: how it is computed from a pipeline, with a memory, and how it is stored
in the pass. -/
structure Errand (σ ε β : Type) where
  compute : Nat → Pipeline → StateM σ (Except ε β)
  store : β → Pass → Pass

/-- A time that the value for a pass was computed. -/
structure Attempt (ε β : Type) where
  index : Nat
  /-- The pipeline that it was computed from. -/
  seen : Pipeline
  result : Except ε β

/-- What an errand works on, with the attempts so far. -/
structure Bench (σ ε β : Type) where
  pipeline : Pipeline
  memory : σ
  attempts : List (Attempt ε β) := []

namespace Attempt

variable {ε β : Type}

/-- The values that were computed, in order. -/
def values (attempts : List (Attempt ε β)) : List β :=
  attempts.filterMap fun a => a.result.toOption

theorem values_append (attempts : List (Attempt ε β)) (a : Attempt ε β) :
    values (attempts ++ [a]) = values attempts ++ a.result.toOption.toList := by
  unfold values
  rw [List.filterMap_append]
  cases h : a.result.toOption <;> simp [h]

/-- Each value is the result of an attempt, behind those that the values before it came from. -/
theorem exists_of_values {attempts : List (Attempt ε β)} {k : Nat} {v : β}
    (h : (values attempts)[k]? = some v) : ∃ (j : Nat) (a : Attempt ε β),
      attempts[j]? = some a ∧ a.result = .ok v ∧
        values (attempts.take j) = (values attempts).take k := by
  induction attempts generalizing k with
  | nil => cases h
  | cons a attempts ih =>
    obtain ⟨index, seen, result⟩ := a
    cases result with
    | error fault =>
      obtain ⟨j, a, ha, hv, htake⟩ := ih h
      exact ⟨j + 1, a, ha, hv, htake⟩
    | ok w =>
      cases k with
      | zero =>
        obtain rfl : w = v := Option.some.inj h
        exact ⟨0, _, rfl, rfl, rfl⟩
      | succ k =>
        obtain ⟨j, a, ha, hv, htake⟩ := ih h
        exact ⟨j + 1, a, ha, hv, congrArg (w :: ·) htake⟩

end Attempt

namespace Pipeline

variable {β : Type}

/-- The pipeline with values stored in its first passes. -/
def filled (p : Pipeline) (store : β → Pass → Pass) (values : List β) : Pipeline :=
  { p with passes := p.passes.mapIdx fun k pass =>
    (values[k]?.map fun v => store v pass).getD pass }

theorem filled_nil (p : Pipeline) (store : β → Pass → Pass) : p.filled store [] = p := by
  unfold filled
  congr 1
  apply List.ext_getElem?
  simp

/-- Storing a value in the first pass that has none. -/
theorem modifyPass_filled (p : Pipeline) (store : β → Pass → Pass) (values : List β) (v : β) :
    (p.filled store values).modifyPass (values.length + 1) (store v) =
      p.filled store (values ++ [v]) := by
  unfold filled modifyPass
  congr 1
  apply List.ext_getElem?
  intro k
  simp only [Nat.add_sub_cancel, List.getElem?_modify, List.getElem?_mapIdx]
  cases p.passes[k]? with
  | none => rfl
  | some pass =>
    rcases Nat.lt_trichotomy k values.length with hlt | rfl | hgt
    · simp [List.getElem?_append_left hlt, Nat.ne_of_gt hlt]
    · simp
    · simp [List.getElem?_append_right (Nat.le_of_lt hgt), Nat.ne_of_lt hgt,
        List.getElem?_eq_none (Nat.le_of_lt hgt), Nat.sub_ne_zero_of_lt hgt]

end Pipeline

namespace Errand

variable {σ ε β : Type}

/-- Computes the value for a pass, and stores it if that succeeds. -/
def work (e : Errand σ ε β) (index : Nat) : StateM (Bench σ ε β) (Except ε Unit) := fun b =>
  let (result, memory) := (e.compute index b.pipeline).run b.memory
  let attempts := b.attempts ++ [⟨index, b.pipeline, result⟩]
  match result with
  | .ok value => (.ok (), ⟨b.pipeline.modifyPass index (e.store value), memory, attempts⟩)
  | .error fault => (.error fault, ⟨b.pipeline, memory, attempts⟩)

/-- The value for a pass is the same whenever computing it succeeds. -/
def IsDetermined (e : Errand σ ε β) : Prop :=
  ∀ {index : Nat} {p : Pipeline} {memory memory' : σ} {v v' : β},
    ((e.compute index p).run memory).1 = .ok v → ((e.compute index p).run memory').1 = .ok v' →
      v = v'

/-- What computing the value for a pass comes to, also if that is a failure, is always the same. -/
def IsSteady (e : Errand σ ε β) : Prop :=
  ∀ (index : Nat) (p : Pipeline) (memory memory' : σ),
    ((e.compute index p).run memory).1 = ((e.compute index p).run memory').1

theorem IsSteady.isDetermined {e : Errand σ ε β} (h : e.IsSteady) : e.IsDetermined := by
  intro index p memory memory' v v' hv hv'
  rw [h index p memory memory', hv'] at hv
  exact (Except.ok.inj hv).symm

end Errand

namespace Bench

variable {σ ε β : Type}

/-- The values for the first passes of a pipeline were computed, one after the other, and the passes
hold them. -/
structure Follows (b : Bench σ ε β) (e : Errand σ ε β) (p : Pipeline) (done : Nat) : Prop where
  length_eq : (Attempt.values b.attempts).length = done
  /-- The passes that are done hold their values, and the others are as they were. -/
  pipeline_eq : b.pipeline = p.filled e.store (Attempt.values b.attempts)
  /-- There was one success for each of the passes, in their order. -/
  succeeded : (b.attempts.filter fun a => a.result.isOk).map (·.index) = List.range' 1 done
  /-- Each attempt was at the first pass without a value. -/
  attempted : ∀ {j : Nat} {a : Attempt ε β}, b.attempts[j]? = some a →
    a.index = (Attempt.values (b.attempts.take j)).length + 1 ∧
      a.seen = p.filled e.store (Attempt.values (b.attempts.take j)) ∧
      ∃ memory, ((e.compute a.index a.seen).run memory).1 = a.result

variable {b b' : Bench σ ε β} {e : Errand σ ε β} {p : Pipeline} {done done' : Nat}

/-- There are no values yet. -/
theorem follows_new (e : Errand σ ε β) (p : Pipeline) (memory : σ) :
    Follows ⟨p, memory, []⟩ e p 0 :=
  ⟨rfl, (p.filled_nil e.store).symm, rfl, nofun⟩

/-- What held of the attempts before holds with one more at the first pass without a value. -/
theorem Follows.attempted_append (h : b.Follows e p done) {last : Attempt ε β}
    (hindex : last.index = done + 1) (hseen : last.seen = b.pipeline) {memory : σ}
    (hresult : ((e.compute last.index last.seen).run memory).1 = last.result) {j : Nat}
    {a : Attempt ε β} (ha : (b.attempts ++ [last])[j]? = some a) :
    a.index = (Attempt.values ((b.attempts ++ [last]).take j)).length + 1 ∧
      a.seen = p.filled e.store (Attempt.values ((b.attempts ++ [last]).take j)) ∧
      ∃ memory, ((e.compute a.index a.seen).run memory).1 = a.result := by
  obtain ⟨hj, hbefore⟩ | ⟨rfl, rfl⟩ := getElem?_concat_cases ha
  · rw [List.take_append_of_le_length (Nat.le_of_lt hj)]
    exact h.attempted hbefore
  · rw [List.take_left, h.length_eq, ← h.pipeline_eq]
    exact ⟨hindex, hseen, memory, hresult⟩

/-- Another value has been computed and stored. -/
theorem Follows.ok (h : b.Follows e p done) {value : β} {memory memory' : σ}
    (hresult : ((e.compute (done + 1) b.pipeline).run memory).1 = .ok value) :
    Follows ⟨b.pipeline.modifyPass (done + 1) (e.store value), memory',
      b.attempts ++ [⟨done + 1, b.pipeline, .ok value⟩]⟩ e p (done + 1) := by
  have hvalues : Attempt.values (b.attempts ++ [⟨done + 1, b.pipeline, .ok value⟩]) =
      Attempt.values b.attempts ++ [value] := Attempt.values_append _ _
  constructor
  case length_eq => rw [hvalues, List.length_append, h.length_eq, List.length_singleton]
  case pipeline_eq =>
    have hstored := p.modifyPass_filled e.store (Attempt.values b.attempts) value
    rw [← h.pipeline_eq, h.length_eq] at hstored
    rw [hvalues]
    exact hstored
  case succeeded =>
    rw [List.filter_append, List.map_append, h.succeeded, List.range'_1_concat, Nat.add_comm 1 done]
    rfl
  case attempted => exact fun ha => h.attempted_append rfl rfl hresult ha

/-- Another attempt has failed. -/
theorem Follows.error (h : b.Follows e p done) {fault : ε} {memory memory' : σ}
    (hresult : ((e.compute (done + 1) b.pipeline).run memory).1 = .error fault) :
    Follows ⟨b.pipeline, memory', b.attempts ++ [⟨done + 1, b.pipeline, .error fault⟩]⟩
      e p done := by
  have hvalues : Attempt.values (b.attempts ++ [⟨done + 1, b.pipeline, .error fault⟩]) =
      Attempt.values b.attempts :=
    (Attempt.values_append _ _).trans (List.append_nil _)
  constructor
  case length_eq => rw [hvalues, h.length_eq]
  case pipeline_eq => rw [hvalues, h.pipeline_eq]
  case succeeded =>
    rw [List.filter_append, List.map_append, h.succeeded]
    exact List.append_nil _
  case attempted => exact fun ha => h.attempted_append rfl rfl hresult ha

/-- Each value was computed from the pipeline with the values before it. -/
theorem Follows.computed (h : b.Follows e p done) {k : Nat} {v : β}
    (hv : (Attempt.values b.attempts)[k]? = some v) :
    ∃ memory, ((e.compute (k + 1)
      (p.filled e.store ((Attempt.values b.attempts).take k))).run memory).1 = .ok v := by
  obtain ⟨j, a, ha, hresult, htake⟩ := Attempt.exists_of_values hv
  obtain ⟨hindex, hseen, memory, hrun⟩ := h.attempted ha
  have hk : k < (Attempt.values b.attempts).length := (List.getElem?_eq_some_iff.mp hv).1
  rw [htake, List.length_take_of_le (Nat.le_of_lt hk)] at hindex
  rw [htake] at hseen
  exact ⟨memory, by rw [← hindex, ← hseen, hrun, hresult]⟩

/-- Values that are determined are the same on every bench. The induction is on how many of them are
compared. -/
theorem Follows.values_eq (he : e.IsDetermined) (h : b.Follows e p done)
    (h' : b'.Follows e p done') (hle : done' ≤ done) :
    Attempt.values b'.attempts = (Attempt.values b.attempts).take done' := by
  have htakes (k : Nat) (hk : k ≤ done') :
      (Attempt.values b'.attempts).take k = (Attempt.values b.attempts).take k := by
    induction k with
    | zero => rfl
    | succ k ih =>
      have hlt' : k < (Attempt.values b'.attempts).length := by
        rw [h'.length_eq]
        omega
      have hlt : k < (Attempt.values b.attempts).length := by
        rw [h.length_eq]
        omega
      obtain ⟨memory', hrun'⟩ := h'.computed (List.getElem?_eq_getElem hlt')
      obtain ⟨memory, hrun⟩ := h.computed (List.getElem?_eq_getElem hlt)
      have hfront := ih (by omega)
      rw [hfront] at hrun'
      rw [List.take_succ_eq_append_getElem hlt', List.take_succ_eq_append_getElem hlt, hfront,
        he hrun' hrun]
  rw [← htakes done' (Nat.le_refl _), List.take_of_length_le (Nat.le_of_eq h'.length_eq)]

/-- If failures are determined too, a pass that has a value on one bench does not fail on
another. -/
theorem Follows.getLast?_ne (he : e.IsSteady) (h : b.Follows e p done) (h' : b'.Follows e p done')
    (hlt : done' < done) (fault : ε) :
    b'.attempts.getLast? ≠ some ⟨done' + 1, b'.pipeline, .error fault⟩ := by
  intro hlast
  rw [List.getLast?_eq_getElem?] at hlast
  obtain ⟨-, -, memory', hrun'⟩ := h'.attempted hlast
  have hvalue : done' < (Attempt.values b.attempts).length := by rwa [h.length_eq]
  obtain ⟨memory, hrun⟩ := h.computed (List.getElem?_eq_getElem hvalue)
  have hsame := h.values_eq he.isDetermined h' (Nat.le_of_lt hlt)
  rw [← hsame, ← h'.pipeline_eq, he _ _ memory memory'] at hrun
  exact nomatch hrun.symm.trans hrun'

end Bench

namespace Errand

variable {σ ε β : Type} {e : Errand σ ε β} {p : Pipeline}

/-- Work on one more pass, in its two cases. -/
theorem run_work (e : Errand σ ε β) (index : Nat) (b : Bench σ ε β) :
    (e.work index).run b = match (e.compute index b.pipeline).run b.memory with
      | (.ok value, memory) => (.ok (), ⟨b.pipeline.modifyPass index (e.store value), memory,
          b.attempts ++ [⟨index, b.pipeline, .ok value⟩]⟩)
      | (.error fault, memory) => (.error fault, ⟨b.pipeline, memory,
          b.attempts ++ [⟨index, b.pipeline, .error fault⟩]⟩) := by
  have hrun : (e.work index).run b = e.work index b := rfl
  rw [hrun, work]
  rcases (e.compute index b.pipeline).run b.memory with ⟨_ | _, memory⟩ <;> rfl

/-- One more pass is done with its value computed and stored. If that fails the last attempt was at
this pass. -/
theorem keeps (e : Errand σ ε β) (p : Pipeline) :
    Schedule.Keeps e.work p.size (fun done b => b.Follows e p done) (fun done fault b =>
      b.attempts.getLast? = some ⟨done + 1, b.pipeline, .error fault⟩) where
  ok := by
    intro done b b' _ hfollows hrun
    rw [run_work] at hrun
    rcases hcompute : (e.compute (done + 1) b.pipeline).run b.memory with ⟨_ | value, memory⟩
    · rw [hcompute] at hrun
      cases hrun
    · rw [hcompute] at hrun
      cases hrun
      exact hfollows.ok (congrArg Prod.fst hcompute)
  error := by
    intro done b b' fault _ hfollows hrun
    rw [run_work] at hrun
    rcases hcompute : (e.compute (done + 1) b.pipeline).run b.memory with ⟨_ | value, memory⟩
    · rw [hcompute] at hrun
      cases hrun
      exact ⟨hfollows.error (congrArg Prod.fst hcompute), List.getLast?_concat⟩
    · rw [hcompute] at hrun
      cases hrun

/-- How far a batch has come, whatever calls have brought it there, and what any further call
does. -/
structure Regular (e : Errand σ ε β) (p : Pipeline) (chunkSize : Int) (s : Schedule)
    (b : Bench σ ε β) : Prop where
  total_eq : s.total = p.size
  chunkSize_eq : s.chunkSize = max 1 chunkSize.toNat
  done_le : s.done ≤ s.total
  follows : b.Follows e p s.done
  /-- A call advances the schedule. If it fails, it does so at the pass behind those done. -/
  advances : ∀ {c : Schedule.Call} {r : Schedule.Run ε} {b' : Bench σ ε β},
    (c.perform e.work s).run b = (r, b') →
      c.Advances s r ∧ b'.Follows e p r.schedule.done ∧ ∀ fault, r.failure = some fault →
        b'.attempts.getLast? = some ⟨r.schedule.done + 1, b'.pipeline, .error fault⟩
  /-- When all is done the pipeline is the one that a single run over all passes gives. -/
  complete : s.isComplete → ∀ {size : Int} {memory : σ} {r : Schedule.Run ε} {b' : Bench σ ε β},
    (Schedule.resume e.work (fun _ => false) (.ofSize p.size (.int size))).run ⟨p, memory, []⟩ =
        (r, b') →
      (e.IsDetermined → r.failure = none → b'.pipeline = b.pipeline) ∧
        (e.IsSteady → r.failure = none)

/-- A call on a batch that follows leaves it following. -/
theorem perform_follows {s : Schedule} {b b' : Bench σ ε β} {c : Schedule.Call}
    {r : Schedule.Run ε} (htotal : s.total = p.size) (hdone : s.done ≤ s.total)
    (hfollows : b.Follows e p s.done) (hrun : (c.perform e.work s).run b = (r, b')) :
    c.Advances s r ∧ b'.Follows e p r.schedule.done ∧ ∀ fault, r.failure = some fault →
      b'.attempts.getLast? = some ⟨r.schedule.done + 1, b'.pipeline, .error fault⟩ := by
  have hkeeps := e.keeps p
  rw [← htotal] at hkeeps
  exact hkeeps.perform c hdone hfollows hrun

/-- When all is done a single run gives the same pipeline, if the values are determined, and does
not fail if failures are determined too. -/
theorem single_run {b b' : Bench σ ε β} (hfollows : b.Follows e p p.size) {size : Int} {memory : σ}
    {r : Schedule.Run ε}
    (hrun : (Schedule.resume e.work (fun _ => false) (.ofSize p.size (.int size))).run
      ⟨p, memory, []⟩ = (r, b')) :
    (e.IsDetermined → r.failure = none → b'.pipeline = b.pipeline) ∧
      (e.IsSteady → r.failure = none) := by
  obtain ⟨hadvances, hfollows', hfailed⟩ :=
    perform_follows (s := .ofSize p.size (.int size)) (c := .run fun _ => false) rfl (Nat.zero_le _)
      (Bench.follows_new e p memory) hrun
  have hdone : r.schedule.done ≤ p.size := hadvances.done_le
  constructor
  · intro he hnone
    have hcomplete : p.size ≤ r.schedule.done := by
      have hends := hadvances.ends _ rfl hnone
      have htotal : r.schedule.total = p.size := hadvances.total_eq
      simpa [Schedule.isComplete, htotal] using hends
    have hvalues := hfollows.values_eq he hfollows' hdone
    rw [hfollows'.pipeline_eq, hfollows.pipeline_eq, hvalues, List.take_of_length_le]
    rw [hfollows.length_eq]
    exact hcomplete
  · intro he
    cases hfailure : r.failure with
    | none => rfl
    | some fault =>
      have hlt : r.schedule.done < p.size :=
        Nat.lt_of_lt_of_le (hadvances.failed fault hfailure).2
          (Schedule.doneAfter_le (.ofSize p.size (.int size)) (Nat.zero_le _) _)
      exact absurd (hfailed fault hfailure) (hfollows.getLast?_ne he hfollows' hlt fault)

/-- A batch is regular behind all calls. -/
theorem regular_behind (e : Errand σ ε β) (p : Pipeline) (chunkSize : Int) (memory : σ)
    (calls : List Schedule.Call) {s : Schedule} {b : Bench σ ε β}
    (hrun : (Schedule.behind e.work calls (.ofSize p.size (.int chunkSize))).run ⟨p, memory, []⟩ =
      (s, b)) : e.Regular p chunkSize s b := by
  obtain ⟨htotal, hsize, hdone, hfollows⟩ := (e.keeps p).behind
    (s := .ofSize p.size (.int chunkSize)) rfl (Nat.zero_le _) (Bench.follows_new e p memory) hrun
  rw [← htotal] at hdone
  refine ⟨htotal, hsize, hdone, hfollows, fun h => perform_follows htotal hdone hfollows h, ?_⟩
  intro hcomplete size memory' r b' hsingle
  have hall : s.done = p.size := by
    have hle : s.total ≤ s.done := by simpa [Schedule.isComplete] using hcomplete
    omega
  rw [hall] at hfollows
  exact single_run hfollows hsingle

end Errand
end PassTrace

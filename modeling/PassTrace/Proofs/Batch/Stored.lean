import PassTrace.Job
import PassTrace.Proofs.Batch.Calls
import PassTrace.Proofs.View.Bare

/-!
# What jobs store

A job stores in each pass what a new resolver of the pipeline would give for it. As nothing that is
stored is looked at, it does not matter what other jobs have stored before, or how far they have
come.
-/

namespace PassTrace

namespace Pipeline

/-- The change that the view of a pass shows when nothing else was looked at. -/
def changeAt (p : Pipeline) (stripDebugInfo : Bool) (index : Int) : LineChange :=
  ((View.ofPass stripDebugInfo index).run ⟨.new p, []⟩).1.change

/-- The counts of the text after a pass when nothing else was looked up. -/
def countsAt (p : Pipeline) (index : Int) : Counts :=
  Ir.count ((Resolver.new p).after index).lines

/-- The pipeline with what each task stores in the passes up to its reach. -/
def worked (p : Pipeline) (stripDebugInfo : Bool) (reach : Task → Nat) : Pipeline :=
  { p with
    passes := p.passes.mapIdx fun k pass =>
      { pass with
        change := if k < reach .changes then some (p.changeAt stripDebugInfo (k + 1 : Nat))
          else pass.change
        counts := if k < reach .counts then some (p.countsAt (k + 1 : Nat)) else pass.counts } }

variable {p q : Pipeline} {stripDebugInfo : Bool} {reach : Task → Nat}

/-- The change is that of the view with the texts that it should have. -/
theorem changeAt_eq (p : Pipeline) (stripDebugInfo : Bool) (index : Int) :
    p.changeAt stripDebugInfo index = (View.shown stripDebugInfo p index).change :=
  congrArg View.change (View.run_ofPass_faithful (d := ⟨.new p, []⟩) (Resolver.new_faithful p)
    stripDebugInfo index)

/-- The counts are those of the text that the index means. -/
theorem countsAt_eq (p : Pipeline) (index : Int) :
    p.countsAt index = Ir.count (p.meaningAt index) :=
  congrArg Ir.count ((Resolver.new_faithful p).resolve index).1

/-- Changes do not depend on what was computed for passes. -/
theorem changeAt_congr (h : q.bare = p.bare) (stripDebugInfo : Bool) (index : Int) :
    q.changeAt stripDebugInfo index = p.changeAt stripDebugInfo index := by
  rw [changeAt_eq, changeAt_eq, ← View.shown_bare, h, View.shown_bare]

/-- Counts do not depend on what was computed for passes. -/
theorem countsAt_congr (h : q.bare = p.bare) (index : Int) :
    q.countsAt index = p.countsAt index := by
  rw [countsAt_eq, countsAt_eq, ← meaningAt_bare, h, meaningAt_bare]

@[simp] theorem size_worked (p : Pipeline) (stripDebugInfo : Bool) (reach : Task → Nat) :
    (p.worked stripDebugInfo reach).size = p.size :=
  List.length_mapIdx

/-- Only what is computed for passes is stored. -/
@[simp] theorem bare_worked (p : Pipeline) (stripDebugInfo : Bool) (reach : Task → Nat) :
    (p.worked stripDebugInfo reach).bare = p.bare := by
  unfold bare worked
  congr 1
  apply List.ext_getElem?
  intro k
  simp only [List.getElem?_map, List.getElem?_mapIdx, Option.map_map]
  rfl

/-- Tasks without any reach store nothing. -/
theorem worked_zero (p : Pipeline) (stripDebugInfo : Bool) :
    p.worked stripDebugInfo (fun _ => 0) = p := by
  unfold worked
  congr 1
  apply List.ext_getElem?
  simp

end Pipeline

namespace Task

/-- The pass at an index with what a task stores there. -/
def stored (task : Task) (p : Pipeline) (stripDebugInfo : Bool) (index : Nat)
    (pass : Pass) : Pass :=
  match task with
  | .changes => { pass with change := some (p.changeAt stripDebugInfo index) }
  | .counts => { pass with counts := some (p.countsAt index) }

/-- The reach of each task when one of them has been worked on up to some pass. -/
def raise (task : Task) (reach : Task → Nat) (done : Nat) : Task → Nat :=
  fun t => if t = task then max (reach t) done else reach t

theorem raise_of_le {task : Task} {reach : Task → Nat} {done : Nat} (h : done ≤ reach task) :
    task.raise reach done = reach := by
  funext t
  unfold raise
  split
  · next ht =>
    subst ht
    exact Nat.max_eq_left h
  · rfl

/-- Storing what a task gives for the pass that is next takes its reach further. -/
theorem modifyPass_worked (p : Pipeline) (stripDebugInfo : Bool) (reach : Task → Nat) (task : Task)
    (done : Nat) :
    (p.worked stripDebugInfo (task.raise reach done)).modifyPass (done + 1)
        (task.stored p stripDebugInfo (done + 1)) =
      p.worked stripDebugInfo (task.raise reach (done + 1)) := by
  have hreach (k : Nat) (hk : k ≠ done) : (k < max (reach task) (done + 1)) =
      (k < max (reach task) done) := by
    apply propext
    omega
  have hdone : done < max (reach task) (done + 1) := by omega
  unfold Pipeline.worked Pipeline.modifyPass
  congr 1
  apply List.ext_getElem?
  intro k
  simp only [Nat.add_sub_cancel, List.getElem?_modify, List.getElem?_mapIdx]
  cases p.passes[k]? with
  | none => rfl
  | some pass =>
    simp only [Option.map_some]
    by_cases hk : done = k
    · subst hk
      cases task <;> simp [stored, raise, hdone]
    · cases task <;> simp [raise, hk, hreach k (Ne.symm hk)]

theorem bare_stored (task : Task) (p : Pipeline) (stripDebugInfo : Bool) (index : Nat)
    (pass : Pass) : (task.stored p stripDebugInfo index pass).bare = pass.bare := by
  cases task <;> rfl

/-- A task gives for a pass what a new resolver would give, and stores it. -/
theorem run_faithful (task : Task) (stripDebugInfo : Bool) (index : Nat) {d : Desk} {p : Pipeline}
    (h : d.resolver.Faithful) (hbare : d.resolver.pipeline.bare = p.bare) :
    let d' := ((task.run stripDebugInfo index).run d).2
    d'.resolver.Faithful ∧
      d'.resolver.pipeline =
        d.resolver.pipeline.modifyPass index (task.stored p stripDebugInfo index) := by
  -- What was looked at first leaves the pipeline as it is, so that only what is stored changes it.
  have hstores {r : Resolver} (hfaithful : r.Faithful)
      (hpipeline : r.pipeline = d.resolver.pipeline) : Resolver.Faithful
        { r with pipeline := r.pipeline.modifyPass index (task.stored p stripDebugInfo index) } ∧
      r.pipeline.modifyPass index (task.stored p stripDebugInfo index) =
        d.resolver.pipeline.modifyPass index (task.stored p stripDebugInfo index) :=
    ⟨hfaithful.of_bare (r.pipeline.bare_modifyPass index (task.bare_stored p stripDebugInfo index)),
      by rw [hpipeline]⟩
  cases task with
  | changes =>
    obtain ⟨hfaithful, hpipeline⟩ := View.isLook_ofPass stripDebugInfo index d h
    have hchange : ((View.ofPass stripDebugInfo index).run d).1.change =
        p.changeAt stripDebugInfo index := by
      rw [View.run_ofPass_faithful h, ← Pipeline.changeAt_eq, Pipeline.changeAt_congr hbare]
    have hrun : ((Task.changes.run stripDebugInfo index).run d).2.resolver =
        { ((View.ofPass stripDebugInfo index).run d).2.resolver with
          pipeline := ((View.ofPass stripDebugInfo index).run d).2.resolver.pipeline.modifyPass
            index fun pass => { pass with
              change := some ((View.ofPass stripDebugInfo index).run d).1.change } } := rfl
    dsimp only
    rw [hrun, hchange]
    exact hstores hfaithful hpipeline
  | counts =>
    obtain ⟨hfaithful, hpipeline⟩ := Viewing.isLook_textAfter index d h
    have hcounts : Ir.count ((Viewing.textAfter index).run d).1 = p.countsAt index := by
      rw [← Pipeline.countsAt_congr hbare, Pipeline.countsAt_eq]
      exact congrArg Ir.count (Viewing.lines_textAt h index)
    have hrun : ((Task.counts.run stripDebugInfo index).run d).2.resolver =
        { ((Viewing.textAfter index).run d).2.resolver with
          pipeline := ((Viewing.textAfter index).run d).2.resolver.pipeline.modifyPass index
            fun pass => { pass with
              counts := some (Ir.count ((Viewing.textAfter index).run d).1) } } := rfl
    dsimp only
    rw [hrun, hcounts]
    exact hstores hfaithful hpipeline

end Task

/-- A resolver has a faithful memory of a pipeline in which tasks have stored what they give, each
up to its reach. -/
structure Resolver.Holds (r : Resolver) (p : Pipeline) (stripDebugInfo : Bool)
    (reach : Task → Nat) : Prop where
  faithful : r.Faithful
  pipeline_eq : r.pipeline = p.worked stripDebugInfo reach

namespace Job

/-- What a call on a job comes to at a resolver. -/
def outcome (job : Job) (stripDebugInfo : Bool) (c : Schedule.Call) (r : Resolver) :
    Schedule.Run Empty × Desk :=
  (c.perform (job.work stripDebugInfo) job.schedule).run ⟨r, []⟩

/-- A job takes the reach of its task along. -/
theorem keeps (job : Job) (p : Pipeline) (stripDebugInfo : Bool) (reach : Task → Nat) :
    Schedule.Keeps (job.work stripDebugInfo) p.size
      (fun done d => d.resolver.Holds p stripDebugInfo (job.task.raise reach done))
      (fun _ _ _ => False) where
  ok := by
    intro done d d' _ hholds hrun
    have hd' : ((job.task.run stripDebugInfo (done + 1)).run d).2 = d' := congrArg Prod.snd hrun
    have hbare : d.resolver.pipeline.bare = p.bare := by
      rw [hholds.pipeline_eq, Pipeline.bare_worked]
    obtain ⟨hfaithful, hpipeline⟩ :=
      job.task.run_faithful stripDebugInfo (done + 1) hholds.faithful hbare
    rw [hd'] at hfaithful hpipeline
    refine ⟨hfaithful, ?_⟩
    rw [hpipeline, hholds.pipeline_eq, Task.modifyPass_worked]
  error := by
    intro _ _ _ fault
    exact nomatch fault

theorem run_forM_concat (f : Nat → Viewing Unit) (indices : List Nat) (index : Nat) (d : Desk) :
    (((indices ++ [index]).forM f).run d).2 = ((f index).run ((indices.forM f).run d).2).2 := by
  induction indices generalizing d with
  | nil => rfl
  | cons head indices ih => exact ih ((f head).run d).2

/-- A job that is run to the end does what its task asks for each pass in turn. -/
theorem run_resume (job : Job) (stripDebugInfo : Bool) (total : Nat) (chunkSize : Json.Number)
    (d : Desk) :
    ((Schedule.resume (job.work stripDebugInfo) (fun _ => false)
        (.ofSize total chunkSize)).run d).2 =
      (((List.range' 1 total).forM fun index => job.task.run stripDebugInfo index).run d).2 := by
  have hkeeps : Schedule.Keeps (job.work stripDebugInfo) total
      (fun done d' =>
        d' = (((List.range' 1 done).forM fun index => job.task.run stripDebugInfo index).run d).2)
      (fun _ _ _ => True) := by
    constructor
    · intro done d₁ d₂ _ hd₁ hrun
      have hd₂ : ((job.task.run stripDebugInfo (done + 1)).run d₁).2 = d₂ := congrArg Prod.snd hrun
      rw [← hd₂, hd₁, List.range'_1_concat, Nat.add_comm 1 done, run_forM_concat]
    · intro _ _ _ fault
      exact nomatch fault
  rcases hrun : (Schedule.resume (job.work stripDebugInfo) (fun _ => false)
    (.ofSize total chunkSize)).run d with ⟨r, d'⟩
  obtain ⟨hadvances, hd', -⟩ := hkeeps.perform (s := .ofSize total chunkSize)
    (.run fun _ => false) (Nat.zero_le _) rfl hrun
  have hnone : r.failure = none := by
    cases hfailure : r.failure with
    | none => rfl
    | some fault => exact nomatch fault
  have htotal : r.schedule.total = total := hadvances.total_eq
  have hdone : r.schedule.done = total := by
    have hle : r.schedule.done ≤ total := hadvances.done_le
    have hends : r.schedule.isComplete := by simpa using hadvances.ends _ rfl hnone
    have hge : r.schedule.total ≤ r.schedule.done := by simpa [Schedule.isComplete] using hends
    omega
  rw [hdone] at hd'
  exact hd'

end Job
end PassTrace

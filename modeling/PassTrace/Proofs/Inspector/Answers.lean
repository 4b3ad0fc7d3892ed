import PassTrace.Proofs.Inspector.Jobs

/-!
# Answers that do not depend on what was done before

A host looks at a pipeline, folds groups, clears the memory, saves sessions and works on jobs,
several of them in turns. The resolver keeps a faithful memory through all of this, and nothing is
added to the passes but what can be computed from the rest of the pipeline. So an inspector answers
as one that was just made, whether the counts of a pass are at hand or have to be taken.
-/

namespace PassTrace

namespace Pipeline

variable {p q : Pipeline}

theorem findIdx?_bare (passes : List Pass) :
    (passes.map Pass.bare).findIdx? (·.changed) = passes.findIdx? (·.changed) := by
  rw [List.findIdx?_map]
  rfl

/-- Going from change to change does not look at what was computed for passes. -/
theorem nextChanged_bare (p : Pipeline) (index : Int) :
    p.bare.nextChanged index = p.nextChanged index := by
  unfold nextChanged bare
  dsimp only
  rw [← List.map_drop, findIdx?_bare]

theorem previousChanged_bare (p : Pipeline) (index : Int) :
    p.bare.previousChanged index = p.previousChanged index := by
  have hsize : p.bare.size = p.size := p.size_bare
  unfold previousChanged
  rw [hsize]
  unfold bare
  dsimp only
  rw [← List.map_take, ← List.map_reverse, findIdx?_bare]

/-- Where two pipelines differ in what was computed only, the nearest changes are the same. -/
structure SameChanges (q p : Pipeline) : Prop where
  nextChanged_eq : ∀ index, q.nextChanged index = p.nextChanged index
  previousChanged_eq : ∀ index, q.previousChanged index = p.previousChanged index
  firstChanged_eq : q.firstChanged = p.firstChanged
  lastChanged_eq : q.lastChanged = p.lastChanged
  clamp_eq : ∀ index, q.clamp index = p.clamp index

theorem sameChanges_of_bare (h : q.bare = p.bare) : q.SameChanges p := by
  have hsize : q.size = p.size := by rw [← size_bare, h, size_bare]
  have hnext (index : Int) : q.nextChanged index = p.nextChanged index := by
    rw [← nextChanged_bare, h, nextChanged_bare]
  have hprevious (index : Int) : q.previousChanged index = p.previousChanged index := by
    rw [← previousChanged_bare, h, previousChanged_bare]
  refine ⟨hnext, hprevious, hnext 0, ?_, fun index => ?_⟩
  · unfold lastChanged
    rw [hsize, hprevious]
  · unfold clamp
    rw [hsize]

/-- The pass at an index when one of the passes was changed. -/
theorem pass?_modifyPass (p : Pipeline) (k : Nat) (f : Pass → Pass) (index : Int) :
    (p.modifyPass (k + 1) f).pass? index =
      if index = (k + 1 : Nat) then (p.pass? index).map f else p.pass? index := by
  unfold pass? modifyPass
  by_cases hindex : 1 ≤ index
  · dsimp only
    rw [if_pos hindex, List.getElem?_modify, Nat.add_sub_cancel]
    by_cases hk : index = (k + 1 : Nat)
    · have hplace : k = (index - 1).toNat := by omega
      rw [if_pos hk, if_pos hindex]
      exact Option.map_congr fun pass _ => if_pos hplace
    · have hplace : k ≠ (index - 1).toNat := by omega
      rw [if_neg hk, if_pos hindex]
      simp only [if_neg hplace]
      exact id_map _
  · have hk : index ≠ (k + 1 : Nat) := by omega
    rw [if_neg hindex, if_neg hk, if_neg hindex]

end Pipeline

/-- A resolver has a faithful memory of a pipeline, to whose passes nothing was added but changes,
and counts that are those of their texts. -/
structure Resolver.Reflects (r : Resolver) (p : Pipeline) : Prop where
  faithful : r.Faithful
  bare_eq : r.pipeline.bare = p.bare
  counts_eq : ∀ {index : Int} {pass : Pass} {counts : Counts},
    r.pipeline.pass? index = some pass → pass.counts = some counts → counts = p.countsAt index

/-- The passes of a pipeline carry no counts yet. -/
def Pipeline.IsUncounted (p : Pipeline) : Prop :=
  ∀ pass ∈ p.passes, pass.counts = none

theorem Pipeline.IsUncounted.reflects {p : Pipeline} (h : p.IsUncounted) :
    (Resolver.new p).Reflects p where
  faithful := Resolver.new_faithful p
  bare_eq := rfl
  counts_eq := by
    intro index pass counts hpass hcounts
    have hmem : pass ∈ p.passes := by
      have hpass : p.pass? index = some pass := hpass
      unfold pass? at hpass
      split at hpass
      · exact List.mem_of_getElem? hpass
      · cases hpass
    rw [h pass hmem] at hcounts
    cases hcounts

namespace Viewing

variable {α : Type} {d : Desk} {p : Pipeline}

/-- A look leaves a resolver as true to the pipeline as it was. -/
theorem IsLook.reflects {x : Viewing α} (hx : x.IsLook) (h : d.resolver.Reflects p) :
    (x.run d).2.resolver.Reflects p := by
  obtain ⟨hfaithful, hpipeline⟩ := hx d h.faithful
  refine ⟨hfaithful, ?_, ?_⟩
  · rw [hpipeline]
    exact h.bare_eq
  · rw [hpipeline]
    exact h.counts_eq

end Viewing

namespace View

variable {d : Desk} {p : Pipeline}

/-- What the view of a pass shows, from a resolver that is true to its pipeline. -/
theorem run_ofPass_reflects (h : d.resolver.Reflects p) (stripDebugInfo : Bool) (index : Int) :
    ((ofPass stripDebugInfo index).run d).1 = shown stripDebugInfo p index := by
  rw [run_ofPass_faithful h.faithful, ← shown_bare, h.bare_eq, shown_bare]

/-- The counts behind a pass are those of its text, whether the pass carries them or not. -/
theorem run_countsAfter_reflects (h : d.resolver.Reflects p) (index : Int) :
    ((countsAfter index).run d).1 = p.countsAt index := by
  unfold countsAfter
  rw [Viewing.run_pipeline_bind]
  cases hcounts : (d.resolver.pipeline.pass? index).bind Pass.counts with
  | some counts =>
    obtain ⟨pass, hpass, hcounts⟩ := Option.bind_eq_some_iff.mp hcounts
    exact h.counts_eq hpass hcounts
  | none =>
    have htext := Viewing.lines_textAt h.faithful index
    rw [← Pipeline.meaningAt_bare, h.bare_eq, Pipeline.meaningAt_bare] at htext
    rw [Pipeline.countsAt_eq, ← htext]
    rfl

/-- The counts in front of a pass: those of the initial text for the first one. -/
def countsInFront (p : Pipeline) (index : Int) : Counts :=
  if index = 1 then Ir.count p.initial else p.countsAt (index - 1)

theorem run_countsBefore_reflects (h : d.resolver.Reflects p) (index : Int) :
    ((countsBefore index).run d).1 = countsInFront p index := by
  have hinitial : d.resolver.pipeline.initial = p.initial := congrArg (·.initial) h.bare_eq
  unfold countsBefore countsInFront
  split
  · rw [Viewing.run_pipeline_bind, hinitial]
    rfl
  · exact run_countsAfter_reflects h (index - 1)

/-- The line that shows the counts of a pass, whatever was looked at or computed before. -/
def shownCounts (p : Pipeline) (index : Int) : Except IntegerFault String :=
  match p.pass? index with
  | none => .ok ""
  | some pass =>
    let current := p.countsAt index
    let change := Ir.delta (countsInFront p index) current
    (Ir.deltaText Except.error (fun c => Except.ok (current.get c)) change.get).map
      fun text => s!"[Pass {index}/{p.size}] {pass.title} | {text}"

/-- The line with the counts does not tell which of them were at hand. -/
theorem run_countsLine_reflects (h : d.resolver.Reflects p) (index : Int) :
    ((countsLine index).run d).1 = shownCounts p index := by
  have hsize : d.resolver.pipeline.size = p.size := by
    rw [← Pipeline.size_bare, h.bare_eq, Pipeline.size_bare]
  have htitle : (d.resolver.pipeline.pass? index).map Pass.title =
      (p.pass? index).map Pass.title := by
    have hbare (q : Pipeline) : (q.bare.pass? index).map Pass.title =
        (q.pass? index).map Pass.title := by
      rw [Pipeline.pass?_bare, Option.map_map]
      rfl
    rw [← hbare, h.bare_eq, hbare]
  unfold countsLine shownCounts
  rw [Viewing.run_pipeline_bind]
  cases hpass : d.resolver.pipeline.pass? index with
  | none =>
    rw [hpass] at htitle
    have hnone : p.pass? index = none := by simpa using htitle.symm
    rw [hnone]
    rfl
  | some pass =>
    rw [hpass] at htitle
    obtain ⟨pass', hpass', htitle'⟩ := Option.map_eq_some_iff.mp htitle.symm
    have hcurrent := run_countsAfter_reflects h index
    have hprevious := run_countsBefore_reflects ((isLook_countsAfter index).reflects h) index
    rw [hpass']
    dsimp only
    rw [htitle', ← hcurrent, ← hprevious, ← hsize]
    rfl

end View

namespace Resolver.Reflects

variable {d : Desk} {p : Pipeline}

/-- What a task stores in a pass is what the pass should carry. -/
theorem run_task (h : d.resolver.Reflects p) (task : Task) (stripDebugInfo : Bool) (k : Nat) :
    ((task.run stripDebugInfo (k + 1)).run d).2.resolver.Reflects p := by
  obtain ⟨hfaithful, hpipeline⟩ := task.run_faithful stripDebugInfo (k + 1) h.faithful h.bare_eq
  refine ⟨hfaithful, ?_, ?_⟩
  · rw [hpipeline, Pipeline.bare_modifyPass _ _ (task.bare_stored p stripDebugInfo (k + 1)),
      h.bare_eq]
  · intro index pass counts hpass hcounts
    rw [hpipeline, Pipeline.pass?_modifyPass] at hpass
    split at hpass
    · next hindex =>
      obtain ⟨pass', hpass', rfl⟩ := Option.map_eq_some_iff.mp hpass
      cases task with
      | changes => exact h.counts_eq hpass' hcounts
      | counts =>
        rw [hindex]
        exact (Option.some.inj hcounts).symm
    · exact h.counts_eq hpass hcounts

/-- A job keeps a resolver true to its pipeline. -/
theorem keeps (job : Job) (p : Pipeline) (stripDebugInfo : Bool) (total : Nat) :
    Schedule.Keeps (job.work stripDebugInfo) total (fun _ d => d.resolver.Reflects p)
      (fun _ _ _ => False) where
  ok := by
    intro done d d' _ h hrun
    have hd' : ((job.task.run stripDebugInfo (done + 1)).run d).2 = d' := congrArg Prod.snd hrun
    rw [← hd']
    exact h.run_task job.task stripDebugInfo done
  error := by
    intro _ _ _ fault
    exact nomatch fault

/-- What a task does for all passes in turn keeps a resolver true to its pipeline. -/
theorem run_forM (h : d.resolver.Reflects p) (task : Task) (stripDebugInfo : Bool) (total : Nat) :
    (((List.range' 1 total).forM fun index => task.run stripDebugInfo index).run
      d).2.resolver.Reflects p := by
  induction total with
  | zero => exact h
  | succ total ih =>
    rw [List.range'_1_concat, Nat.add_comm 1 total, Job.run_forM_concat]
    exact ih.run_task task stripDebugInfo total

end Resolver.Reflects

/-- Whether an iteration over the chunks of a job goes on, one that begins or one that was left. -/
def Job.hasNext (job : Job) (begins : Bool) : Bool :=
  !job.schedule.isComplete && (begins || !job.schedule.cancelled)

namespace Inspection

/-- Asks an iteration over the chunks of the job for its next chunk. If the iteration begins with
that, a cancellation is taken back. -/
def pullJob (begins : Bool) : Inspection Unit := do
  let job ← currentJob
  if job.hasNext begins && !job.canRun then throw .wrongKind
  let work := job.work (← inspector).config.stripDebugInfo
  lookForJob job do
    let run ← (Schedule.Call.pull begins).perform work job.schedule
    return ((), run.schedule)

/-- What an operation on an inspector answers. -/
def answer {α : Type} (x : Inspection α) (i : Inspector) (w : World) : Except Failure α :=
  (x.run.run (i, w)).1

/-- An operation that leaves the inspector as it is. -/
def KeepsInspector {α : Type} (x : Inspection α) : Prop :=
  ∀ s, (x.run.run s).2.1 = s.1

theorem keepsInspector_ofOperation {α : Type} (operation : Operation α) :
    KeepsInspector (ofOperation operation) := fun _ => rfl

theorem KeepsInspector.bind {α β : Type} {x : Inspection α} {f : α → Inspection β}
    (hx : x.KeepsInspector) (hf : ∀ a, (f a).KeepsInspector) : (x >>= f).KeepsInspector := by
  intro s
  have hkept := hx s
  rw [run_bind]
  rcases hrun : x.run.run s with ⟨_ | a, s'⟩
  · rw [hrun] at hkept
    exact hkept
  · rw [hrun] at hkept
    exact (hf a s').trans hkept

/-- Saving changes files only. -/
theorem keepsInspector_saveSession (p : Path) (source : Option Path) (compilation : Json.Fields) :
    KeepsInspector (saveSession p source compilation) := by
  refine KeepsInspector.bind (fun _ => rfl) fun i => ?_
  exact (keepsInspector_ofOperation _).bind fun record => keepsInspector_ofOperation _

end Inspection

/-- A step that a host has an inspector take. -/
inductive Step
  | ask (request : Request)
  | diff (index context : Int)
  | look (look : Look)
  | pullJob (begins : Bool)
  | toggleFold (position : Int)
  | foldAll (folded : Bool)
  | save (p : Path) (source : Option Path) (compilation : Json.Fields)

namespace Step

/-- What a step does. -/
def perform : Step → Inspection Unit
  | .ask request => request.perform
  | .diff index context => do
    let _ ← Inspection.diff index context
  | .look l => do Inspection.look (l.perform (← Inspection.inspector).config.stripDebugInfo)
  | .pullJob begins => Inspection.pullJob begins
  | .toggleFold position => do
    match (← Inspection.inspector).toggleFold position with
    | .error failure => throw failure
    | .ok (i, _) => Inspection.modifyInspector fun _ => i
  | .foldAll folded => Inspection.modifyInspector fun i => i.foldAll folded
  | .save p source compilation => do
    let _ ← Inspection.saveSession p source compilation

/-- A step that stays with the pipeline that is loaded. -/
def Stays : Step → Prop
  | .ask request => request.loaded? = none
  | _ => True

end Step

/-- A job on the pipeline that is loaded has not done more passes than there are. -/
def Job.Fits (job : Job) : Prop :=
  job.replaced = none → job.schedule.done ≤ job.schedule.total

/-- An inspector shows a pipeline: nothing that it was asked for can be seen in its resolver. -/
structure Inspector.Shows (i : Inspector) (config : Config) (p : Pipeline) : Prop where
  config_eq : i.config = config
  reflects : i.resolver.Reflects p
  fits : ∀ {job : Job}, i.job = some job → job.Fits

namespace Inspector

variable {i : Inspector} {config : Config} {p : Pipeline}

/-- A pipeline without counts is shown from when it is loaded on. -/
theorem shows_install (i : Inspector) (hp : p.IsUncounted) (metadata : Metadata) :
    (i.install p metadata).Shows i.config p where
  config_eq := rfl
  reflects := hp.reflects
  fits := by
    intro job hjob hreplaced
    obtain ⟨job, -, rfl⟩ := Option.map_eq_some_iff.mp hjob
    cases hreplaced

/-- Folding changes groups only. -/
theorem exists_groups_of_toggleFold {i' : Inspector} {position : Int} {isFolded : Bool}
    (h : i.toggleFold position = .ok (i', isFolded)) : ∃ groups, i' = { i with groups } := by
  unfold toggleFold at h
  generalize (if position < 0 then position + i.groups.length else position) = place at h
  dsimp only at h
  split at h
  · cases h
  · split at h
    · cases h
    · obtain ⟨rfl, -⟩ := Prod.mk.inj (Except.ok.inj h)
      exact ⟨_, rfl⟩

namespace Shows

theorem setResolver (h : i.Shows config p) {r : Resolver} (hr : r.Reflects p) :
    Shows { i with resolver := r } config p :=
  ⟨h.config_eq, hr, h.fits⟩

theorem setJob (h : i.Shows config p) {job : Option Job}
    (hfits : ∀ {job' : Job}, job = some job' → job'.Fits) :
    Shows { i with job } config p :=
  ⟨h.config_eq, h.reflects, hfits⟩

theorem setGroups (h : i.Shows config p) (groups : List Group) :
    Shows { i with groups } config p :=
  ⟨h.config_eq, h.reflects, h.fits⟩

/-- A look at a pipeline cannot be seen. -/
theorem run_look (h : i.Shows config p) {α : Type} {x : Viewing α} (hx : x.IsLook) (w : World) :
    ((Inspection.look x).run.run (i, w)).2.1.Shows config p := by
  obtain ⟨w', hrun⟩ := Inspection.run_look x i w
  rw [hrun]
  exact h.setResolver (hx.reflects h.reflects)

/-- A call on a job writes what can be computed anyway. -/
theorem afterCall (h : i.Shows config p) {job : Job} (hjob : i.job = some job)
    (stripDebugInfo : Bool) (c : Schedule.Call) :
    (i.afterCall job stripDebugInfo c).Shows config p := by
  have hfits := h.fits hjob
  unfold Inspector.afterCall withJob
  cases hreplaced : job.replaced with
  | some r =>
    refine h.setJob fun hjob' => ?_
    obtain rfl := Option.some.inj hjob'
    exact nofun
  | none =>
    rcases hrun : job.outcome stripDebugInfo c i.resolver with ⟨run, d⟩
    have hreflects : (⟨i.resolver, []⟩ : Desk).resolver.Reflects p := h.reflects
    obtain ⟨hadvances, hreflects, -⟩ :=
      (Resolver.Reflects.keeps job p stripDebugInfo job.schedule.total).perform c
        (hfits hreplaced) hreflects hrun
    simp only [Option.getD_none, hrun]
    refine (h.setResolver hreflects).setJob fun hjob' _ => ?_
    obtain rfl := Option.some.inj hjob'
    have hdone : run.schedule.done ≤ job.schedule.total := hadvances.done_le
    rw [← hadvances.total_eq] at hdone
    exact hdone

/-- No request but one for another pipeline can be seen. -/
theorem perform_request (h : i.Shows config p) {request : Request}
    (hstays : request.loaded? = none) (w : World) :
    (request.perform.run.run (i, w)).2.1.Shows config p := by
  have hacts := request.acts i w
  generalize (request.perform.run.run (i, w)).2.1 = i' at hacts
  cases hacts with
  | nothing => exact h
  | look look =>
    exact h.setResolver ((look.isLook_perform i.config.stripDebugInfo).reflects
      (d := ⟨i.resolver, []⟩) h.reflects)
  | load => cases hstays
  | start =>
    refine h.setJob fun hjob _ => ?_
    obtain rfl := Option.some.inj hjob
    exact Nat.zero_le _
  | call c _ hjob => exact h.afterCall hjob i.config.stripDebugInfo c
  | complete task =>
    exact h.setResolver (Resolver.Reflects.run_forM (d := ⟨i.resolver, []⟩) h.reflects task
      i.config.stripDebugInfo i.pipeline.size)

theorem run_pullJob (h : i.Shows config p) (begins : Bool) (w : World) :
    ((Inspection.pullJob begins).run.run (i, w)).2.1.Shows config p := by
  rw [Inspection.pullJob, Inspection.run_bind, Inspection.currentJob, Inspection.run_inspector_bind]
  cases hjob : i.job with
  | none => exact h
  | some job =>
    have hcall := h.afterCall hjob i.config.stripDebugInfo (.pull begins)
    refine Eq.mpr (congrArg (fun s : Except Failure Unit × Inspector × World =>
      s.2.1.Shows config p) (Inspection.run_if_throw _ _ _ _)) ?_
    split
    · exact h
    · obtain ⟨w', hrun⟩ := Inspection.run_lookForJob job (do
        let run ← (Schedule.Call.pull begins).perform
          (job.work i.config.stripDebugInfo) job.schedule
        return ((), run.schedule)) i w
      rw [Inspection.run_inspector_bind, hrun]
      exact hcall

/-- No step can be seen but one to another pipeline. -/
theorem perform (h : i.Shows config p) {step : Step} (hstays : step.Stays) (w : World) :
    (step.perform.run.run (i, w)).2.1.Shows config p := by
  cases step with
  | ask request => exact h.perform_request hstays w
  | diff index context =>
    rw [Step.perform, Inspection.run_bind_snd _ fun _ _ => rfl, Inspection.diff,
      Inspection.run_bind_snd _ fun _ _ => rfl]
    exact h.run_look (View.isLook_ofPass i.config.stripDebugInfo index) w
  | look look =>
    rw [Step.perform, Inspection.run_inspector_bind]
    exact h.run_look (look.isLook_perform i.config.stripDebugInfo) w
  | pullJob begins => exact h.run_pullJob begins w
  | toggleFold position =>
    rw [Step.perform, Inspection.run_inspector_bind]
    split
    · exact h
    · next hfold =>
      obtain ⟨groups, rfl⟩ := exists_groups_of_toggleFold hfold
      exact h.setGroups groups
  | foldAll folded => exact h.setGroups _
  | save path source compilation =>
    rw [Step.perform, Inspection.run_bind_snd _ fun _ _ => rfl,
      Inspection.keepsInspector_saveSession]
    exact h

/-- The view of a pass is that of the pipeline that is shown. -/
theorem answer_view (h : i.Shows config p) (index : Int) (w : World) :
    (Inspection.view index).answer i w = .ok (View.shown config.stripDebugInfo p index) := by
  obtain ⟨w', hrun⟩ := Inspection.run_look (View.ofPass i.config.stripDebugInfo index) i w
  have hanswer : (Inspection.view index).answer i w =
      ((Inspection.look (View.ofPass i.config.stripDebugInfo index)).run.run (i, w)).1 := rfl
  rw [hanswer, hrun, ← h.config_eq]
  exact congrArg Except.ok (View.run_ofPass_reflects h.reflects i.config.stripDebugInfo index)

theorem answer_diff (h : i.Shows config p) (index context : Int) (w : World) :
    (Inspection.diff index context).answer i w =
      .ok ((View.shown config.stripDebugInfo p index).diff context) := by
  have hview := h.answer_view index w
  unfold Inspection.answer at hview ⊢
  unfold Inspection.diff
  rw [Inspection.run_bind]
  rcases hrun : (Inspection.view index).run.run (i, w) with ⟨result, s⟩
  rw [hrun] at hview
  obtain rfl : result = _ := hview
  rfl

theorem answer_countsLine (h : i.Shows config p) (index : Int) (w : World) :
    (Inspection.countsLine index).answer i w =
      (View.shownCounts p index).mapError Failure.integer := by
  obtain ⟨w', hrun⟩ := Inspection.run_look (View.countsLine index) i w
  unfold Inspection.answer Inspection.countsLine
  rw [Inspection.run_bind, hrun]
  dsimp only
  rw [View.run_countsLine_reflects (d := ⟨i.resolver, []⟩) h.reflects index]
  cases View.shownCounts p index <;> rfl

end Shows

/-- Two inspectors cannot be told apart by what they show of passes, nor by where changes are. -/
structure AnswersLike (i i' : Inspector) : Prop where
  view : ∀ (index : Int) (w w' : World),
    (Inspection.view index).answer i w = (Inspection.view index).answer i' w'
  diff : ∀ (index context : Int) (w w' : World),
    (Inspection.diff index context).answer i w = (Inspection.diff index context).answer i' w'
  countsLine : ∀ (index : Int) (w w' : World),
    (Inspection.countsLine index).answer i w = (Inspection.countsLine index).answer i' w'
  changes : i.pipeline.SameChanges i'.pipeline

theorem Shows.answersLike {i' : Inspector} (h : i.Shows config p) (h' : i'.Shows config p) :
    i.AnswersLike i' where
  view index w w' := by rw [h.answer_view, h'.answer_view]
  diff index context w w' := by rw [h.answer_diff, h'.answer_diff]
  countsLine index w w' := by rw [h.answer_countsLine, h'.answer_countsLine]
  changes := Pipeline.sameChanges_of_bare (h.reflects.bare_eq.trans h'.reflects.bare_eq.symm)

end Inspector

/-- A host has an inspector in a world. An inspector works on one job at a time. The other jobs that
the host has started wait for their turn. -/
structure Host where
  inspector : Inspector
  waiting : List Job := []
  world : World

/-- What a host does: it has its inspector take a step, or turn to a job that waits. If there is
none at the place the inspector is left without a job. -/
inductive Move
  | take (step : Step)
  | turnTo (place : Nat)

/-- A move that stays with the pipeline that is loaded. -/
def Move.Stays : Move → Prop
  | .take step => step.Stays
  | .turnTo _ => True

namespace Host

/-- The host behind a move. A step may fail: what it did until then stays. -/
def move (h : Host) : Move → Host
  | .take step =>
    let s := (step.perform.run.run (h.inspector, h.world)).2
    { h with inspector := s.1, world := s.2 }
  | .turnTo place =>
    { h with
      inspector := { h.inspector with job := h.waiting[place]? }
      waiting := h.waiting.eraseIdx place ++ h.inspector.job.toList }

/-- The host behind moves. -/
def behind (moves : List Move) (h : Host) : Host :=
  moves.foldl move h

/-- A host shows a pipeline when its inspector does, also when it turns to another job. -/
structure Shows (h : Host) (config : Config) (p : Pipeline) : Prop where
  inspector : h.inspector.Shows config p
  waiting : ∀ job ∈ h.waiting, job.Fits

variable {h : Host} {config : Config} {p : Pipeline}

theorem Shows.move (hshows : h.Shows config p) {m : Move} (hstays : m.Stays) :
    (h.move m).Shows config p := by
  cases m with
  | take step => exact ⟨hshows.inspector.perform hstays h.world, hshows.waiting⟩
  | turnTo place =>
    constructor
    case inspector =>
      exact hshows.inspector.setJob fun hjob => hshows.waiting _ (List.mem_of_getElem? hjob)
    case waiting =>
      intro job hjob
      rcases List.mem_append.mp hjob with hwaits | hleft
      · exact hshows.waiting job (List.mem_of_mem_eraseIdx hwaits)
      · exact hshows.inspector.fits (Option.mem_toList.mp hleft)

theorem Shows.behind (hshows : h.Shows config p) {moves : List Move}
    (hstays : ∀ m ∈ moves, m.Stays) : (h.behind moves).Shows config p := by
  induction moves generalizing h with
  | nil => exact hshows
  | cons m moves ih =>
    exact ih (hshows.move (hstays m List.mem_cons_self))
      fun later hlater => hstays later (List.mem_cons_of_mem m hlater)

/-- Whatever was looked at, folded, saved or worked on, and whatever was done before the pipeline
was loaded: the inspector answers as one that was just made for the pipeline. -/
theorem answersLike_behind (i : Inspector) (hp : p.IsUncounted) (metadata : Metadata) (w : World)
    {moves : List Move} (hstays : ∀ m ∈ moves, m.Stays) :
    (behind moves ⟨i.install p metadata, [], w⟩).inspector.AnswersLike
      (.ofPipeline i.config p metadata) := by
  have hshows : Host.Shows ⟨i.install p metadata, [], w⟩ i.config p :=
    ⟨i.shows_install hp metadata, nofun⟩
  have hfresh : (Inspector.ofPipeline i.config p metadata).Shows i.config p :=
    ⟨rfl, hp.reflects, nofun⟩
  exact (hshows.behind hstays).inspector.answersLike hfresh

/-- A pipeline of a pass that removes a load, and a pass that changes nothing. -/
def loadRemoved : Pipeline where
  initial := ["define void @f(ptr %p) \x7b", "  %v = load i32, ptr %p", "  ret void", "\x7d"]
  passes :=
    [⟨"dce", ⟨.function, some "f"⟩, true, .inline ["define void @f(ptr %p) \x7b",
        "  ret void", "\x7d"], none, none, none⟩,
      ⟨"verify", ⟨.module, none⟩, false, .sameAs 1, none, none, none⟩]

/-- The counts of the first pass are at hand and those of the second are not: its job was
cancelled, and waits while changes are computed. The inspector answers as one for which nothing
was computed. -/
theorem answersLike_behind_waiting :
    let h := behind
      [.take (.ask (.startJob .counts (some (.int 1)))), .take (.pullJob true),
        .take (.ask .cancelJob), .take (.pullJob false), .turnTo 0,
        .take (.ask (.startJob .changes none)), .take (.ask .runChunk),
        .take (.ask (.countsLine 2)), .take (.toggleFold 0), .take (.ask .clear)]
      ⟨(Inspector.new {}).install loadRemoved, [], ⟨default, default, [], []⟩⟩
    h.inspector.pipeline.passes.map (fun pass => (pass.change.isSome, pass.counts.isSome)) =
        [(true, true), (true, false)] ∧
      h.waiting.length = 1 ∧ h.inspector.AnswersLike (.ofPipeline {} loadRemoved) := by
  refine ⟨by decide +kernel, by decide +kernel, ?_⟩
  refine answersLike_behind (Inspector.new {}) ?_ {} _ ?_
  · simp [Pipeline.IsUncounted, loadRemoved]
  · simp [Move.Stays, Step.Stays, Request.loaded?]

end Host
end PassTrace

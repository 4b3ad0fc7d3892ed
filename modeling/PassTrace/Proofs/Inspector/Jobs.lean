import PassTrace.Proofs.Batch.Office
import PassTrace.Proofs.World

/-!
# An inspector in an office

An inspector has the last desk of an office and one of its posts: its resolver is the one at that
desk, and its job the one at that post, which may be at an earlier desk. Each request to the
inspector is an action in the office. So a job of an inspector does for its pipeline what jobs do in
an office, and nothing for a pipeline that is loaded later.
-/

namespace PassTrace

namespace Operation

/-- Giving notices does not fail. -/
theorem run_notifyAll (notices : List Notice) (w : World) :
    ∃ w', (notifyAll notices).run.run w = (.ok (), w') := by
  induction notices generalizing w with
  | nil => exact ⟨w, rfl⟩
  | cons notice notices ih =>
    have hsplit : notifyAll (notice :: notices) =
        notify notice >>= fun _ => notifyAll notices := rfl
    rw [hsplit, run_bind]
    exact ih _

end Operation

/-- The inspector with a job further on in its schedule, and with what a look for the job left of
the resolver that the job looks through. -/
def Inspector.withJob (i : Inspector) (job : Job) (s : Schedule) (r : Resolver) : Inspector :=
  match job.replaced with
  | some _ => { i with job := some { job with schedule := s, replaced := some r } }
  | none => { i with resolver := r, job := some { job with schedule := s } }

theorem Inspector.config_withJob (i : Inspector) (job : Job) (s : Schedule) (r : Resolver) :
    (i.withJob job s r).config = i.config := by
  unfold withJob
  split <;> rfl

/-- The inspector behind a call on a job of it. -/
def Inspector.afterCall (i : Inspector) (job : Job) (stripDebugInfo : Bool) (c : Schedule.Call) :
    Inspector :=
  let result := job.outcome stripDebugInfo c (job.replaced.getD i.resolver)
  i.withJob job result.1.schedule result.2.resolver

namespace Inspection

variable {α β : Type}

theorem run_bind (x : Inspection α) (f : α → Inspection β) (s : Inspector × World) :
    (x >>= f).run.run s = match x.run.run s with
      | (.ok a, s') => (f a).run.run s'
      | (.error failure, s') => (.error failure, s') := by
  have hbind : (x >>= f).run.run s =
      (ExceptT.bindCont f (x.run.run s).1).run (x.run.run s).2 := rfl
  rw [hbind]
  rcases x.run.run s with ⟨_ | _, s'⟩ <;> rfl

/-- What is only made of a result changes nothing. -/
theorem run_bind_snd (x : Inspection α) {f : α → Inspection β}
    (hf : ∀ a s, ((f a).run.run s).2 = s) (s : Inspector × World) :
    ((x >>= f).run.run s).2 = (x.run.run s).2 := by
  rw [run_bind]
  rcases x.run.run s with ⟨_ | a, s'⟩
  · rfl
  · exact hf a s'

theorem run_inspector_bind (f : Inspector → Inspection α) (i : Inspector) (w : World) :
    (inspector >>= f).run.run (i, w) = (f i).run.run (i, w) := rfl

/-- What is refused does nothing. -/
theorem run_if_throw (c : Bool) (failure : Failure) (x : Inspection α) (s : Inspector × World) :
    (do
      if c then throw failure
      x : Inspection α).run.run s = if c then (.error failure, s) else x.run.run s := by
  cases c <;> rfl

/-- A look through a resolver leaves the inspector alone. -/
theorem run_lookThrough (r : Resolver) (look : Viewing α) (i : Inspector) (w : World) :
    ∃ w', (lookThrough r look).run.run (i, w) =
      (.ok ((look.run ⟨r, []⟩).1, (look.run ⟨r, []⟩).2.resolver), (i, w')) := by
  obtain ⟨w', hnotices⟩ :=
    Operation.run_notifyAll (look.run ⟨r, []⟩).2.notices.reverse w
  have hrun : (lookThrough r look).run.run (i, w) =
      (ofOperation (Operation.notifyAll (look.run ⟨r, []⟩).2.notices.reverse) >>= fun _ =>
        pure ((look.run ⟨r, []⟩).1, (look.run ⟨r, []⟩).2.resolver)).run.run (i, w) := rfl
  have hoperation : (ofOperation
      (Operation.notifyAll (look.run ⟨r, []⟩).2.notices.reverse)).run.run (i, w) =
      (((Operation.notifyAll (look.run ⟨r, []⟩).2.notices.reverse).run.run w).1,
        (i, ((Operation.notifyAll (look.run ⟨r, []⟩).2.notices.reverse).run.run w).2)) := rfl
  exact ⟨w', by rw [hrun, run_bind, hoperation, hnotices]; rfl⟩

/-- A look at the inspector's pipeline changes nothing but the resolver. -/
theorem run_look (look : Viewing α) (i : Inspector) (w : World) :
    ∃ w', (Inspection.look look).run.run (i, w) =
      (.ok (look.run ⟨i.resolver, []⟩).1,
        ({ i with resolver := (look.run ⟨i.resolver, []⟩).2.resolver }, w')) := by
  obtain ⟨w', hlook⟩ := run_lookThrough i.resolver look i w
  have hrun : (Inspection.look look).run.run (i, w) =
      (lookThrough i.resolver look >>= fun result => do
        modifyInspector fun i => { i with resolver := result.2 }
        return result.1).run.run (i, w) := rfl
  exact ⟨w', by rw [hrun, run_bind, hlook]; rfl⟩

/-- A look for a job is through the resolver of the job's pipeline, and changes that and the
schedule of the job. -/
theorem run_lookForJob (job : Job) (look : Viewing (α × Schedule)) (i : Inspector) (w : World) :
    ∃ w', (lookForJob job look).run.run (i, w) =
      (.ok (look.run ⟨job.replaced.getD i.resolver, []⟩).1.1,
        (i.withJob job (look.run ⟨job.replaced.getD i.resolver, []⟩).1.2
          (look.run ⟨job.replaced.getD i.resolver, []⟩).2.resolver, w')) := by
  obtain ⟨w', hlook⟩ := run_lookThrough (job.replaced.getD i.resolver) look i w
  have hrun : (lookForJob job look).run.run (i, w) =
      (lookThrough (job.replaced.getD i.resolver) look >>= fun result => do
        match job.replaced with
        | some _ =>
          modifyInspector fun i =>
            { i with job := some { job with schedule := result.1.2, replaced := some result.2 } }
        | none =>
          modifyInspector fun i =>
            { i with resolver := result.2, job := some { job with schedule := result.1.2 } }
        return result.1.1).run.run (i, w) := rfl
  refine ⟨w', ?_⟩
  rw [hrun, run_bind, hlook]
  unfold Inspector.withJob
  cases job.replaced <;> rfl

end Inspection

/-- The inspector has the last desk of an office, and its job is at one of the posts: at the last
desk too, or at an earlier one if another pipeline was loaded since. -/
structure Office.Houses (o : Office) (i : Inspector) : Prop where
  current : o.desks.getLast? = some i.resolver
  job : ∀ {job : Job}, i.job = some job → ∃ j k : Nat,
    o.posts[j]? = some ⟨k, { job with replaced := none }⟩ ∧
      o.desks[k]? = some (job.replaced.getD i.resolver) ∧
      (k + 1 = o.desks.length ∧ job.replaced = none ∨
        k + 1 < o.desks.length ∧ job.replaced.isSome)

/-- A request to an inspector. -/
inductive Request
  | view (index : Int)
  | countsLine (index : Int)
  | clear
  | load (p : Pipeline) (metadata : Metadata)
  | startJob (task : Task) (chunkSize : Option Json)
  | runChunk
  | runJob (stop : Nat → Bool)
  | cancelJob
  | complete (task : Task)

namespace Request

/-- What a request does. -/
def perform : Request → Inspection Unit
  | .view index => do
    let _ ← Inspection.view index
  | .countsLine index => do
    let _ ← Inspection.countsLine index
  | .clear => Inspection.modifyInspector Inspector.clear
  | .load p metadata => Inspection.install p metadata
  | .startJob task chunkSize => Inspection.startJob task chunkSize
  | .runChunk => Inspection.runChunk
  | .runJob stop => do
    let _ ← Inspection.runJob stop
  | .cancelJob => Inspection.cancelJob
  | .complete task => Inspection.complete task

/-- The pipeline that is loaded, if one is. -/
def loaded? : Request → Option Pipeline
  | .load p _ => some p
  | _ => none

/-- A job that is started gets chunks with a whole number of passes, if it is not refused. -/
def HasWholeChunks (config : Config) : Request → Prop
  | .startJob task chunkSize => ∀ {size : Json.Number},
    Inspection.chunkSizeFor config task chunkSize = .ok size → ∃ n : Int, size = .int n
  | _ => True

/-- What a request makes of an inspector. -/
inductive Acts (i : Inspector) : Request → Inspector → Prop
  /-- It is refused, or fails at once. -/
  | nothing {request : Request} : request.loaded? = none → Acts i request i
  | look {request : Request} (look : Look) : request.loaded? = none →
    Acts i request { i with
      resolver :=
        ((look.perform i.config.stripDebugInfo).run ⟨i.resolver, []⟩).2.resolver }
  | load (p : Pipeline) (metadata : Metadata) : Acts i (.load p metadata) (i.install p metadata)
  | start {task : Task} {chunkSize : Option Json} {size : Json.Number} :
    Inspection.chunkSizeFor i.config task chunkSize = .ok size →
      Acts i (.startJob task chunkSize) { i with job := some (.new task size i.pipeline.size) }
  | call {request : Request} {job : Job} (c : Schedule.Call) : request.loaded? = none →
    i.job = some job → Acts i request (i.afterCall job i.config.stripDebugInfo c)
  | complete (task : Task) : Acts i (.complete task) { i with
      resolver := (((List.range' 1 i.pipeline.size).forM fun index =>
        task.run i.config.stripDebugInfo index).run ⟨i.resolver, []⟩).2.resolver }

variable {i : Inspector} (request : Request)

/-- A look at the inspector's pipeline. -/
theorem acts_look {α : Type} {x : Viewing α} (look : Look) (hnone : request.loaded? = none)
    (hlook : ∀ d, ((look.perform i.config.stripDebugInfo).run d).2 = (x.run d).2) (w : World) :
    request.Acts i ((Inspection.look x).run.run (i, w)).2.1 := by
  obtain ⟨w', hrun⟩ := Inspection.run_look x i w
  rw [hrun]
  dsimp only
  rw [← hlook]
  exact .look look hnone

/-- A look for the job. -/
theorem acts_call {α : Type} {x : Viewing (α × Schedule)} {job : Job} (c : Schedule.Call)
    (hnone : request.loaded? = none) (hjob : i.job = some job)
    (hcall : ∀ r, ((x.run ⟨r, []⟩).1.2, (x.run ⟨r, []⟩).2) =
      ((job.outcome i.config.stripDebugInfo c r).1.schedule,
        (job.outcome i.config.stripDebugInfo c r).2)) (w : World) :
    request.Acts i ((Inspection.lookForJob job x).run.run (i, w)).2.1 := by
  obtain ⟨w', hrun⟩ := Inspection.run_lookForJob job x i w
  have hresult := Prod.mk.inj (hcall (job.replaced.getD i.resolver))
  rw [hrun]
  dsimp only
  rw [hresult.1, hresult.2]
  exact .call c hnone hjob

/-- What is done with the job needs one. -/
theorem acts_currentJob {α : Type} {f : Job → Inspection α} (w : World)
    (hnone : request.loaded? = none)
    (hf : ∀ job, i.job = some job → request.Acts i ((f job).run.run (i, w)).2.1) :
    request.Acts i ((Inspection.currentJob >>= f).run.run (i, w)).2.1 := by
  rw [Inspection.run_bind, Inspection.currentJob, Inspection.run_inspector_bind]
  cases hjob : i.job with
  | none => exact .nothing hnone
  | some job => exact hf job hjob

/-- What each request does. -/
theorem acts (request : Request) (i : Inspector) (w : World) :
    request.Acts i (request.perform.run.run (i, w)).2.1 := by
  cases request with
  | view index =>
    have hview := acts_look (.view index)
      (x := View.ofPass i.config.stripDebugInfo index) (.view index) rfl (fun _ => rfl) w
    rwa [perform, Inspection.run_bind_snd _ fun _ _ => rfl]
  | countsLine index =>
    rw [perform, Inspection.run_bind_snd _ fun _ _ => rfl, Inspection.countsLine,
      Inspection.run_bind_snd]
    · exact acts_look (.countsLine index) (x := View.countsLine index) (.countsLine index) rfl
        (fun _ => rfl) w
    · intro result _
      cases result <;> rfl
  | clear => exact .look .clear rfl
  | load p metadata => exact .load p metadata
  | startJob task chunkSize =>
    rw [perform, Inspection.startJob, Inspection.run_inspector_bind]
    cases hsize : Inspection.chunkSizeFor i.config task chunkSize with
    | error fault => exact .nothing rfl
    | ok size => exact .start hsize
  | runChunk =>
    refine acts_currentJob _ w rfl fun job hjob => ?_
    rw [Inspection.run_if_throw]
    split
    · exact .nothing rfl
    · rw [Inspection.run_inspector_bind]
      refine acts_call .runChunk .chunk rfl hjob (fun r => ?_) w
      rfl
  | runJob stop =>
    rw [perform, Inspection.run_bind_snd _ fun _ _ => rfl]
    refine acts_currentJob _ w rfl fun job hjob => ?_
    rw [Inspection.run_if_throw]
    split
    · exact .nothing rfl
    · rw [Inspection.run_inspector_bind]
      refine acts_call (.runJob stop) (.run stop) rfl hjob (fun r => ?_) w
      rfl
  | cancelJob =>
    refine acts_currentJob _ w rfl fun job hjob => ?_
    have hcall := acts_call .cancelJob (x := do
      return ((), job.schedule.cancel)) .cancel rfl hjob (fun _ => rfl) w
    have hrun : ((Inspection.lookForJob job (do
        return ((), job.schedule.cancel))).run.run (i, w)).2 =
        ({ i with job := some { job with schedule := job.schedule.cancel } }, w) := by
      obtain ⟨task, chunkSize, schedule, replaced⟩ := job
      cases replaced <;> rfl
    rw [hrun] at hcall
    exact hcall
  | complete task =>
    rw [perform, Inspection.complete, Inspection.run_inspector_bind]
    dsimp only
    rw [Inspection.run_if_throw]
    split
    · exact .nothing rfl
    · obtain ⟨w', hlook⟩ := Inspection.run_look ((List.range' 1 i.pipeline.size).forM fun index =>
        task.run i.config.stripDebugInfo index) i w
      rw [hlook]
      exact .complete task

end Request

namespace Office

variable {o : Office} {i : Inspector} {job : Job}

/-- Another resolver at the last desk. -/
theorem Houses.setResolver (h : o.Houses i) (r : Resolver) :
    Houses { o with desks := o.desks.set (o.desks.length - 1) r } { i with resolver := r } := by
  have hlast : o.desks.length - 1 < o.desks.length := by
    have hcurrent := List.getLast?_isSome.mp (Option.isSome_of_eq_some h.current)
    have hpos := List.length_pos_iff.mpr hcurrent
    omega
  constructor
  case current =>
    rw [List.getLast?_eq_getElem?, List.length_set, List.getElem?_set_self hlast]
  case job =>
    intro job hjob
    obtain ⟨j, k, hpost, hdesk, hplace⟩ := h.job hjob
    refine ⟨j, k, hpost, ?_, by simpa using hplace⟩
    rcases hplace with ⟨hk, hnone⟩ | ⟨hk, hsome⟩
    · obtain rfl : k = o.desks.length - 1 := by omega
      rw [hnone, List.getElem?_set_self hlast]
      rfl
    · obtain ⟨r', hreplaced⟩ := Option.isSome_iff_exists.mp hsome
      rw [List.getElem?_set_ne (by omega), hdesk, hreplaced]
      rfl

/-- Other posts may change. -/
theorem Houses.of_posts (h : o.Houses i) {posts : List Post}
    (hposts : ∀ {j : Nat} {post : Post}, o.posts[j]? = some post → posts[j]? = some post) :
    Houses { o with posts } i where
  current := h.current
  job := by
    intro job hjob
    obtain ⟨j, k, hpost, hrest⟩ := h.job hjob
    exact ⟨j, k, hposts hpost, hrest⟩

/-- A look of the inspector is one at the last desk. -/
theorem Houses.act_look (h : o.Houses i) (stripDebugInfo : Bool) (look : Look) :
    (o.act stripDebugInfo (.look (o.desks.length - 1) look)).Houses
      { i with resolver := ((look.perform stripDebugInfo).run ⟨i.resolver, []⟩).2.resolver } := by
  have hdesk := h.current
  rw [List.getLast?_eq_getElem?] at hdesk
  unfold Office.act
  simp only [hdesk]
  exact h.setResolver _

/-- A pipeline that the inspector loads has a desk of its own. The job stays at the desk where it
was. -/
theorem Houses.act_load (h : o.Houses i) (stripDebugInfo : Bool) (p : Pipeline)
    (metadata : Metadata) :
    (o.act stripDebugInfo (.load p)).Houses (i.install p metadata) where
  current := List.getLast?_concat
  job := by
    intro job' hjob'
    obtain ⟨job, hjob, rfl⟩ := Option.map_eq_some_iff.mp hjob'
    obtain ⟨j, k, hpost, hdesk, hplace⟩ := h.job hjob
    refine ⟨j, k, hpost, ?_, .inr ⟨?_, rfl⟩⟩
    · exact (List.getElem?_append_left (List.getElem?_eq_some_iff.mp hdesk).1).trans hdesk
    · have hk := (List.getElem?_eq_some_iff.mp hdesk).1
      simp only [Office.act, List.length_append, List.length_singleton]
      omega

/-- A job that the inspector starts is a post at the last desk. -/
theorem Houses.act_start (h : o.Houses i) (stripDebugInfo : Bool) (task : Task) (size : Int) :
    (o.act stripDebugInfo (.start (o.desks.length - 1) task size)).Houses
      { i with job := some (.new task (.int size) i.pipeline.size) } := by
  have hdesk := h.current
  rw [List.getLast?_eq_getElem?] at hdesk
  have hlast := (List.getElem?_eq_some_iff.mp hdesk).1
  unfold Office.act
  simp only [hdesk]
  refine ⟨h.current, fun hjob => ?_⟩
  obtain rfl := Option.some.inj hjob
  exact ⟨o.posts.length, o.desks.length - 1, List.getElem?_concat_length, hdesk,
    .inl ⟨by dsimp only; omega, rfl⟩⟩

/-- A call on the job of the inspector is one on its post. -/
theorem Houses.act_call (h : o.Houses i) (hjob : i.job = some job) (stripDebugInfo : Bool)
    (c : Schedule.Call) : ∃ j,
      (o.act stripDebugInfo (.call j c)).Houses (i.afterCall job stripDebugInfo c) := by
  obtain ⟨j, k, hpost, hdesk, hplace⟩ := h.job hjob
  refine ⟨j, ?_⟩
  have hj := (List.getElem?_eq_some_iff.mp hpost).1
  have hk := (List.getElem?_eq_some_iff.mp hdesk).1
  -- The work of a job does not depend on whether its pipeline was replaced.
  have hsame : Job.outcome { job with replaced := none } stripDebugInfo c
      (job.replaced.getD i.resolver) =
        job.outcome stripDebugInfo c (job.replaced.getD i.resolver) := rfl
  unfold Office.act Inspector.afterCall
  simp only [hpost, hdesk, hsame]
  generalize job.outcome stripDebugInfo c (job.replaced.getD i.resolver) = result
  rcases hplace with ⟨hlast, hnone⟩ | ⟨hearlier, hsome⟩
  · obtain rfl : k = o.desks.length - 1 := by omega
    have hset := h.setResolver result.2.resolver
    unfold Inspector.withJob
    simp only [hnone]
    refine ⟨hset.current, fun hjob' => ?_⟩
    obtain rfl := Option.some.inj hjob'
    refine ⟨j, o.desks.length - 1, List.getElem?_set_self hj,
      List.getElem?_set_self hk, .inl ⟨?_, rfl⟩⟩
    simp only [List.length_set]
    exact hlast
  · obtain ⟨r, hreplaced⟩ := Option.isSome_iff_exists.mp hsome
    unfold Inspector.withJob
    simp only [hreplaced]
    constructor
    case current =>
      have hcurrent := h.current
      rw [List.getLast?_eq_getElem?] at hcurrent ⊢
      rw [List.length_set, List.getElem?_set_ne (by omega)]
      exact hcurrent
    case job =>
      intro job' hjob'
      obtain rfl := Option.some.inj hjob'
      refine ⟨j, k, List.getElem?_set_self hj, List.getElem?_set_self hk, .inr ⟨?_, rfl⟩⟩
      simp only [List.length_set]
      exact hearlier

/-- What the inspector computes for all passes is a job of its own at the last desk, run to the
end. -/
theorem Houses.act_complete (h : o.Houses i) (stripDebugInfo : Bool) (task : Task) :
    (o.run stripDebugInfo [.start (o.desks.length - 1) task 1,
      .call o.posts.length (.run fun _ => false)]).Houses
        { i with
          resolver := (((List.range' 1 i.pipeline.size).forM fun index =>
            task.run stripDebugInfo index).run ⟨i.resolver, []⟩).2.resolver } := by
  have hdesk := h.current
  rw [List.getLast?_eq_getElem?] at hdesk
  let job : Job := .new task (.int 1) i.pipeline.size
  have hstart : o.act stripDebugInfo (.start (o.desks.length - 1) task 1) =
      { o with posts := o.posts ++ [⟨o.desks.length - 1, job⟩] } := by
    unfold Office.act
    simp only [hdesk]
    rfl
  have hpost : (o.posts ++ [⟨o.desks.length - 1, job⟩])[o.posts.length]? =
      some ⟨o.desks.length - 1, job⟩ := List.getElem?_concat_length
  have hresolver : (job.outcome stripDebugInfo (.run fun _ => false) i.resolver).2 =
      (((List.range' 1 i.pipeline.size).forM fun index =>
        task.run stripDebugInfo index).run ⟨i.resolver, []⟩).2 :=
    job.run_resume stripDebugInfo i.pipeline.size (.int 1) ⟨i.resolver, []⟩
  unfold Office.run
  rw [List.foldl_cons, hstart, List.foldl_cons, List.foldl_nil]
  unfold Office.act
  simp only [hpost, hdesk, hresolver]
  refine (h.setResolver _).of_posts ?_
  intro j post hj
  have hlt : j < o.posts.length := (List.getElem?_eq_some_iff.mp hj).1
  rw [List.getElem?_set_ne (by omega), List.getElem?_append_left hlt]
  exact hj

/-- Actions in an office lead from what one inspector has there to what another has. -/
structure Leads (o : Office) (i : Inspector) (loaded : List Pipeline) (i' : Inspector) : Prop where
  config_eq : i'.config = i.config
  houses : ∃ actions, loads actions = loaded ∧ (o.run i.config.stripDebugInfo actions).Houses i'

theorem Houses.leads_self (h : o.Houses i) : o.Leads i [] i :=
  ⟨rfl, [], rfl, h⟩

/-- A single action leads to what is housed behind it. -/
theorem Houses.leads {i' : Inspector} {a : Action}
    (h : (o.act i.config.stripDebugInfo a).Houses i') (hconfig : i'.config = i.config) :
    o.Leads i a.loaded?.toList i' where
  config_eq := hconfig
  houses := by
    refine ⟨[a], ?_, h⟩
    unfold loads
    cases hloaded : a.loaded? <;> simp [hloaded]

/-- Whatever an inspector is asked for, actions in the office lead there. -/
theorem Houses.perform (h : o.Houses i) {request : Request}
    (hwhole : request.HasWholeChunks i.config) (w : World) :
    o.Leads i request.loaded?.toList (request.perform.run.run (i, w)).2.1 := by
  have hacts := request.acts i w
  generalize (request.perform.run.run (i, w)).2.1 = i' at hacts
  cases hacts with
  | nothing hnone =>
    rw [hnone]
    exact h.leads_self
  | look look hnone =>
    rw [hnone]
    exact (h.act_look i.config.stripDebugInfo look).leads rfl
  | load p metadata => exact (h.act_load i.config.stripDebugInfo p metadata).leads rfl
  | start hsize =>
    obtain ⟨n, rfl⟩ := hwhole hsize
    exact (h.act_start i.config.stripDebugInfo _ n).leads rfl
  | call c hnone hjob =>
    obtain ⟨j, hact⟩ := h.act_call hjob i.config.stripDebugInfo c
    rw [hnone]
    exact hact.leads (i.config_withJob _ _ _)
  | complete task => exact ⟨rfl, _, rfl, h.act_complete i.config.stripDebugInfo task⟩

theorem Leads.trans {loaded loaded' : List Pipeline} {i' i'' : Inspector}
    (h : o.Leads i loaded i')
    (h' : ∀ {o' : Office}, o'.Houses i' → o'.Leads i' loaded' i'') :
    o.Leads i (loaded ++ loaded') i'' := by
  obtain ⟨hconfig, actions, hloads, hhouses⟩ := h
  obtain ⟨hconfig', actions', hloads', hhouses'⟩ := h' hhouses
  refine ⟨hconfig'.trans hconfig, actions ++ actions', ?_, ?_⟩
  · rw [← hloads, ← hloads']
    exact List.filterMap_append
  · rw [hconfig] at hhouses'
    rw [Office.run, List.foldl_append]
    exact hhouses'

end Office

/-- The inspector and the world behind requests, whether they fail or not. -/
def Inspector.behind (requests : List Request) (s : Inspector × World) : Inspector × World :=
  requests.foldl (fun s request => (request.perform.run.run s).2) s

/-- The pipelines that requests load, in order. -/
def Request.loads (requests : List Request) : List Pipeline :=
  requests.filterMap Request.loaded?

namespace Office

variable {o : Office} {i : Inspector}

/-- Actions in the office lead to where any requests take the inspector. -/
theorem Houses.leads_behind (h : o.Houses i) {requests : List Request}
    (hwhole : ∀ request ∈ requests, request.HasWholeChunks i.config) (w : World) :
    o.Leads i (Request.loads requests) (Inspector.behind requests (i, w)).1 := by
  induction requests generalizing o i w with
  | nil => exact h.leads_self
  | cons request requests ih =>
    have hstep := h.perform (hwhole request List.mem_cons_self) w
    have hloads : Request.loads (request :: requests) =
        request.loaded?.toList ++ Request.loads requests := by
      unfold Request.loads
      rw [List.filterMap_cons]
      cases request.loaded? <;> rfl
    rw [hloads]
    refine hstep.trans fun hhouses => ?_
    refine ih hhouses (fun later hlater => ?_) (request.perform.run.run (i, w)).2.2
    rw [hstep.config_eq]
    exact hwhole later (List.mem_cons_of_mem request hlater)

/-- The office of an inspector that was just made. -/
theorem houses_ofPipeline (config : Config) (p : Pipeline) (metadata : Metadata) :
    (Office.run config.stripDebugInfo {} [.load p]).Houses (.ofPipeline config p metadata) where
  current := rfl
  job := nofun

/-- All that is asked of an inspector is done in an office where the same pipelines were loaded. -/
theorem exists_houses_behind (config : Config) (p : Pipeline) (metadata : Metadata)
    {requests : List Request} (hwhole : ∀ request ∈ requests, request.HasWholeChunks config)
    (w : World) : ∃ actions, loads actions = p :: Request.loads requests ∧
      (Office.run config.stripDebugInfo {} actions).Houses
        (Inspector.behind requests (.ofPipeline config p metadata, w)).1 := by
  obtain ⟨-, actions, hloads, hhouses⟩ :=
    (houses_ofPipeline config p metadata).leads_behind hwhole w
  refine ⟨.load p :: actions, ?_, hhouses⟩
  rw [← hloads]
  rfl

end Office

/-- A request that neither loads a pipeline nor computes anything for the one that is inspected,
unless a job does it that is under way. -/
def Request.IsPassive : Request → Prop
  | .load _ _ | .startJob _ _ | .complete _ => False
  | _ => True

namespace Inspector

/-- The job of an inspector, if there is one, has another pipeline than the inspected one. -/
structure Apart (i : Inspector) (p : Pipeline) : Prop where
  faithful : i.resolver.Faithful
  pipeline_eq : i.pipeline = p
  replaced : ∀ {job : Job}, i.job = some job → job.replaced.isSome

variable {i : Inspector} {p : Pipeline}

/-- Every job is apart from a pipeline that is loaded after it was started. -/
theorem apart_install (i : Inspector) (p : Pipeline) (metadata : Metadata) :
    (i.install p metadata).Apart p where
  faithful := Resolver.new_faithful p
  pipeline_eq := rfl
  replaced := by
    intro job hjob
    obtain ⟨job, -, rfl⟩ := Option.map_eq_some_iff.mp hjob
    rfl

/-- A passive request leaves the pipeline that is inspected as it is. -/
theorem Apart.perform (h : i.Apart p) {request : Request} (hpassive : request.IsPassive)
    (w : World) : (request.perform.run.run (i, w)).2.1.Apart p := by
  have hacts := request.acts i w
  generalize (request.perform.run.run (i, w)).2.1 = i' at hacts
  cases hacts with
  | nothing => exact h
  | look look =>
    obtain ⟨hfaithful, hpipeline⟩ :=
      look.isLook_perform i.config.stripDebugInfo ⟨i.resolver, []⟩ h.faithful
    exact ⟨hfaithful, hpipeline.trans h.pipeline_eq, h.replaced⟩
  | load => exact hpassive.elim
  | start => exact hpassive.elim
  | call c _ hjob =>
    obtain ⟨r, hreplaced⟩ := Option.isSome_iff_exists.mp (h.replaced hjob)
    unfold afterCall withJob
    simp only [hreplaced]
    refine ⟨h.faithful, h.pipeline_eq, fun hjob' => ?_⟩
    obtain rfl := Option.some.inj hjob'
    rfl
  | complete => exact hpassive.elim

/-- A pipeline that is loaded is left as it is by all passive requests, also those to a job that was
started before. -/
theorem pipeline_behind_install (i : Inspector) (p : Pipeline) (metadata : Metadata)
    {requests : List Request} (hpassive : ∀ request ∈ requests, request.IsPassive) (w : World) :
    (behind requests (i.install p metadata, w)).1.pipeline = p := by
  suffices hapart : ∀ {i : Inspector} {w : World}, i.Apart p →
      (behind requests (i, w)).1.Apart p from (hapart (i.apart_install p metadata)).pipeline_eq
  induction requests with
  | nil => exact fun h => h
  | cons request requests ih =>
    intro i w h
    have hstep := h.perform (hpassive request List.mem_cons_self) w
    exact ih (fun later hlater => hpassive later (List.mem_cons_of_mem request hlater)) hstep

end Inspector
end PassTrace

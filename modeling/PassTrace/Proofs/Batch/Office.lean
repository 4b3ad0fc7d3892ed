import PassTrace.Proofs.Batch.Stored

/-!
# Jobs side by side

Several jobs may be started on one pipeline, and calls on them may take turns with looks at the
pipeline. When another pipeline has been loaded, those before can still be looked at and worked on.
However all of this is mixed, each pipeline comes to hold what its own jobs give for the passes that
they have done, and no job reaches a pipeline other than the one it was started on.
-/

namespace PassTrace

/-- A look at a pipeline, or the clearing of what was remembered of it. -/
inductive Look
  | view (index : Int)
  | countsLine (index : Int)
  | textAt (index : Int)
  | textBefore (index : Int)
  | clear

namespace Look

/-- What a look does. -/
def perform (stripDebugInfo : Bool) : Look → Viewing Unit
  | .view index => do
    let _ ← View.ofPass stripDebugInfo index
  | .countsLine index => do
    let _ ← View.countsLine index
  | .textAt index => do
    let _ ← Viewing.textAt index
  | .textBefore index => do
    let _ ← Viewing.textBefore index
  | .clear => modify fun d => { d with resolver := d.resolver.clear }

theorem isLook_perform (stripDebugInfo : Bool) (look : Look) :
    (look.perform stripDebugInfo).IsLook := by
  cases look with
  | view index =>
    exact (View.isLook_ofPass stripDebugInfo index).bind fun _ => Viewing.isLook_pure _
  | countsLine index => exact (View.isLook_countsLine index).bind fun _ => Viewing.isLook_pure _
  | textAt index => exact (Viewing.isLook_textAt index).bind fun _ => Viewing.isLook_pure _
  | textBefore index => exact (Viewing.isLook_textBefore index).bind fun _ => Viewing.isLook_pure _
  | clear => exact fun _ _ => ⟨Resolver.new_faithful _, rfl⟩

end Look

/-- A job that was started at one of the desks. -/
structure Post where
  desk : Nat
  job : Job

namespace Post

/-- The post with its job at another place of its schedule. -/
def setSchedule (post : Post) (s : Schedule) : Post :=
  { post with job := { post.job with schedule := s } }

/-- How far the post has come with a task at a desk. -/
def reach (desk : Nat) (task : Task) (post : Post) : Nat :=
  if post.desk = desk ∧ post.job.task = task then post.job.schedule.done else 0

/-- How far the post that has come furthest with a task at a desk has come. -/
def furthest (posts : List Post) (desk : Nat) (task : Task) : Nat :=
  (posts.map (reach desk task)).foldr max 0

variable {posts : List Post} {desk j : Nat} {task : Task} {post : Post}

theorem done_le_furthest (h : posts[j]? = some post) :
    post.job.schedule.done ≤ furthest posts post.desk post.job.task := by
  induction posts generalizing j with
  | nil => cases h
  | cons head posts ih =>
    cases j with
    | zero =>
      obtain rfl : head = post := Option.some.inj h
      have hhead : reach head.desk head.job.task head = head.job.schedule.done :=
        if_pos ⟨rfl, rfl⟩
      rw [← hhead]
      exact Nat.le_max_left _ _
    | succ j => exact Nat.le_trans (ih h) (Nat.le_max_right _ _)

/-- A post that was just started has not come anywhere. -/
theorem furthest_append (posts : List Post) (h : post.job.schedule.done = 0) :
    furthest (posts ++ [post]) = furthest posts := by
  funext desk task
  have hzero : reach desk task post = 0 := by
    unfold reach
    split
    · exact h
    · rfl
  simp [furthest, hzero]

/-- Nothing has been done at a desk without posts. -/
theorem furthest_eq_zero (h : ∀ post ∈ posts, post.desk ≠ desk) :
    furthest posts desk = fun _ => 0 := by
  funext task
  induction posts with
  | nil => rfl
  | cons head posts ih =>
    have hhead : reach desk task head = 0 :=
      if_neg fun hboth => h head List.mem_cons_self hboth.1
    have hrest := ih fun post hpost => h post (List.mem_cons_of_mem head hpost)
    simp only [furthest, List.map_cons, List.foldr_cons] at hrest ⊢
    rw [hhead, hrest]
    rfl

/-- Where a post has come at least as far as the one that it takes the place of. -/
theorem furthest_set_eq_max {post' : Post} (h : posts[j]? = some post)
    (hle : reach desk task post ≤ reach desk task post') :
    furthest (posts.set j post') desk task =
      max (furthest posts desk task) (reach desk task post') := by
  induction posts generalizing j with
  | nil => cases h
  | cons head posts ih =>
    cases j with
    | zero =>
      obtain rfl : head = post := Option.some.inj h
      simp only [furthest, List.set_cons_zero, List.map_cons, List.foldr_cons]
      omega
    | succ j =>
      have htail := ih h
      simp only [furthest, List.set_cons_succ, List.map_cons, List.foldr_cons] at htail ⊢
      omega

/-- A post that goes on raises the reach of its task at its desk. -/
theorem furthest_set (h : posts[j]? = some post) {s : Schedule}
    (hle : post.job.schedule.done ≤ s.done) :
    furthest (posts.set j (post.setSchedule s)) post.desk =
      post.job.task.raise (furthest posts post.desk) s.done := by
  funext task
  rw [furthest_set_eq_max h]
  · by_cases htask : post.job.task = task
    · simp [Task.raise, reach, setSchedule, htask]
    · simp [Task.raise, reach, setSchedule, htask, Ne.symm htask]
  · unfold reach setSchedule
    split
    · exact hle
    · exact Nat.le_refl _

/-- At the other desks nothing has been done by it. -/
theorem furthest_set_of_ne (h : posts[j]? = some post) (s : Schedule) (hdesk : post.desk ≠ desk) :
    furthest (posts.set j (post.setSchedule s)) desk = furthest posts desk := by
  funext task
  have hnone (post' : Post) (h' : post'.desk = post.desk) : reach desk task post' = 0 :=
    if_neg fun hboth => hdesk (h'.symm.trans hboth.1)
  have hnew := hnone (post.setSchedule s) rfl
  rw [furthest_set_eq_max h (Nat.le_of_eq ((hnone post rfl).trans hnew.symm)), hnew, Nat.max_zero]

end Post

/-- A desk for each pipeline that was loaded, and the jobs that were started. -/
structure Office where
  desks : List Resolver := []
  posts : List Post := []

namespace Office

/-- What can be done in an office. Desks and posts are numbered as they came. -/
inductive Action
  | load (p : Pipeline)
  | look (desk : Nat) (look : Look)
  | start (desk : Nat) (task : Task) (chunkSize : Int)
  | call (post : Nat) (c : Schedule.Call)

/-- The pipeline that is loaded, if one is. -/
def Action.loaded? : Action → Option Pipeline
  | .load p => some p
  | _ => none

/-- The office behind an action. -/
def act (stripDebugInfo : Bool) (o : Office) : Action → Office
  | .load p => { o with desks := o.desks ++ [.new p] }
  | .look k look =>
    match o.desks[k]? with
    | none => o
    | some r =>
      { o with desks := o.desks.set k ((look.perform stripDebugInfo).run ⟨r, []⟩).2.resolver }
  | .start k task chunkSize =>
    match o.desks[k]? with
    | none => o
    | some r => { o with posts := o.posts ++ [⟨k, .new task (.int chunkSize) r.pipeline.size⟩] }
  | .call j c =>
    match o.posts[j]? with
    | none => o
    | some post =>
      match o.desks[post.desk]? with
      | none => o
      | some r =>
        let (run, d) := post.job.outcome stripDebugInfo c r
        { desks := o.desks.set post.desk d.resolver
          posts := o.posts.set j (post.setSchedule run.schedule) }

/-- The office behind actions. -/
def run (stripDebugInfo : Bool) (o : Office) (actions : List Action) : Office :=
  actions.foldl (act stripDebugInfo) o

/-- Each desk has the pipeline that was loaded there, with what its posts have stored so far, and
the schedule of each post is one for the pipeline at its desk. -/
structure Conforms (o : Office) (stripDebugInfo : Bool) (loaded : List Pipeline) : Prop where
  length_eq : o.desks.length = loaded.length
  holds : ∀ {k : Nat} {r : Resolver} {p : Pipeline}, o.desks[k]? = some r → loaded[k]? = some p →
    r.Holds p stripDebugInfo (Post.furthest o.posts k)
  scheduled : ∀ {j : Nat} {post : Post}, o.posts[j]? = some post →
    ∃ p, loaded[post.desk]? = some p ∧ post.job.schedule.total = p.size ∧
      post.job.schedule.done ≤ p.size

variable {o : Office} {stripDebugInfo : Bool} {loaded : List Pipeline}

/-- A desk has a pipeline. -/
theorem Conforms.exists_loaded (h : o.Conforms stripDebugInfo loaded) {k : Nat} {r : Resolver}
    (hr : o.desks[k]? = some r) : ∃ p, loaded[k]? = some p := by
  have hk := (List.getElem?_eq_some_iff.mp hr).1
  rw [h.length_eq] at hk
  exact ⟨_, List.getElem?_eq_getElem hk⟩

/-- A post has a desk with the pipeline that it was started on. -/
theorem Conforms.exists_desk (h : o.Conforms stripDebugInfo loaded) {j : Nat} {post : Post}
    (hpost : o.posts[j]? = some post) : ∃ r p, o.desks[post.desk]? = some r ∧
      loaded[post.desk]? = some p ∧ post.job.schedule.total = p.size ∧
      post.job.schedule.done ≤ p.size := by
  obtain ⟨p, hp, hrest⟩ := h.scheduled hpost
  have hk := (List.getElem?_eq_some_iff.mp hp).1
  rw [← h.length_eq] at hk
  exact ⟨_, p, List.getElem?_eq_getElem hk, hp, hrest⟩

/-- A call on a job at its desk advances the job and takes the reach of its task along. -/
theorem Conforms.outcome (h : o.Conforms stripDebugInfo loaded) {j : Nat} {post : Post}
    (hpost : o.posts[j]? = some post) {r : Resolver} (hr : o.desks[post.desk]? = some r)
    {p : Pipeline} (hp : loaded[post.desk]? = some p) (c : Schedule.Call) :
    c.Advances post.job.schedule (post.job.outcome stripDebugInfo c r).1 ∧
      (post.job.outcome stripDebugInfo c r).2.resolver.Holds p stripDebugInfo
        (post.job.task.raise (Post.furthest o.posts post.desk)
          (post.job.outcome stripDebugInfo c r).1.schedule.done) := by
  obtain ⟨p', hp', htotal, hdone⟩ := h.scheduled hpost
  obtain rfl : p = p' := Option.some.inj (hp.symm.trans hp')
  have hkeeps := post.job.keeps p stripDebugInfo (Post.furthest o.posts post.desk)
  rw [← htotal] at hkeeps hdone
  have hstart : r.Holds p stripDebugInfo
      (post.job.task.raise (Post.furthest o.posts post.desk) post.job.schedule.done) := by
    rw [Task.raise_of_le (Post.done_le_furthest hpost)]
    exact h.holds hr hp
  obtain ⟨hadvances, hholds, -⟩ := hkeeps.perform c hdone (x := ⟨r, []⟩) hstart rfl
  exact ⟨hadvances, hholds⟩

/-- A pipeline that is loaded has a desk of its own. No post is there yet. -/
theorem Conforms.load (h : o.Conforms stripDebugInfo loaded) (p : Pipeline) :
    Conforms { o with desks := o.desks ++ [.new p] } stripDebugInfo (loaded ++ [p]) where
  length_eq := by rw [List.length_append, List.length_append, h.length_eq]; rfl
  holds := by
    intro k r q hr hq
    obtain ⟨hk, hbefore⟩ | ⟨rfl, rfl⟩ := getElem?_concat_cases hr
    · rw [h.length_eq] at hk
      rw [List.getElem?_append_left hk] at hq
      exact h.holds hbefore hq
    · rw [h.length_eq, List.getElem?_concat_length] at hq
      obtain rfl := Option.some.inj hq
      have hnobody : Post.furthest o.posts o.desks.length = fun _ => 0 := by
        refine Post.furthest_eq_zero fun post hpost => ?_
        obtain ⟨j, hj⟩ := List.getElem?_of_mem hpost
        obtain ⟨q, hq, -⟩ := h.scheduled hj
        have hdesk := (List.getElem?_eq_some_iff.mp hq).1
        rw [← h.length_eq] at hdesk
        exact Nat.ne_of_lt hdesk
      rw [hnobody]
      exact ⟨Resolver.new_faithful p, (p.worked_zero stripDebugInfo).symm⟩
  scheduled := by
    intro j post hpost
    obtain ⟨q, hq, hrest⟩ := h.scheduled hpost
    exact ⟨q, by rw [List.getElem?_append_left (List.getElem?_eq_some_iff.mp hq).1, hq], hrest⟩

/-- A look leaves all as it is. -/
theorem Conforms.look (h : o.Conforms stripDebugInfo loaded) {k : Nat} {r : Resolver}
    (hr : o.desks[k]? = some r) (look : Look) :
    Conforms
      { o with desks := o.desks.set k ((look.perform stripDebugInfo).run ⟨r, []⟩).2.resolver }
      stripDebugInfo loaded where
  length_eq := by rw [List.length_set, h.length_eq]
  holds := by
    intro k' r' p hr' hp
    dsimp only at hr'
    by_cases hk : k = k'
    · subst hk
      rw [List.getElem?_set_self (List.getElem?_eq_some_iff.mp hr).1] at hr'
      obtain rfl := Option.some.inj hr'
      have hholds := h.holds hr hp
      obtain ⟨hfaithful, hpipeline⟩ := look.isLook_perform stripDebugInfo ⟨r, []⟩ hholds.faithful
      exact ⟨hfaithful, hpipeline.trans hholds.pipeline_eq⟩
    · rw [List.getElem?_set_ne hk] at hr'
      exact h.holds hr' hp
  scheduled := h.scheduled

/-- A job that is started has nothing done yet. -/
theorem Conforms.start (h : o.Conforms stripDebugInfo loaded) {k : Nat} {r : Resolver}
    (hr : o.desks[k]? = some r) (task : Task) (chunkSize : Int) :
    Conforms { o with posts := o.posts ++ [⟨k, .new task (.int chunkSize) r.pipeline.size⟩] }
      stripDebugInfo loaded where
  length_eq := h.length_eq
  holds := by
    intro k' r' p hr' hp
    rw [Post.furthest_append o.posts rfl]
    exact h.holds hr' hp
  scheduled := by
    intro j post hpost
    obtain ⟨-, hbefore⟩ | ⟨-, rfl⟩ := getElem?_concat_cases hpost
    · exact h.scheduled hbefore
    · obtain ⟨p, hp⟩ := h.exists_loaded hr
      have hsize : r.pipeline.size = p.size := by
        rw [(h.holds hr hp).pipeline_eq, Pipeline.size_worked]
      exact ⟨p, hp, hsize, Nat.zero_le _⟩

/-- A call on a job takes it further at its desk, and does not touch the others. -/
theorem Conforms.call (h : o.Conforms stripDebugInfo loaded) {j : Nat} {post : Post}
    (hpost : o.posts[j]? = some post) {r : Resolver} (hr : o.desks[post.desk]? = some r)
    {p : Pipeline} (hp : loaded[post.desk]? = some p) (c : Schedule.Call) :
    Conforms
      { desks := o.desks.set post.desk (post.job.outcome stripDebugInfo c r).2.resolver
        posts := o.posts.set j
          (post.setSchedule (post.job.outcome stripDebugInfo c r).1.schedule) }
      stripDebugInfo loaded := by
  obtain ⟨hadvances, hholds⟩ := h.outcome hpost hr hp c
  constructor
  case length_eq => rw [List.length_set, h.length_eq]
  case holds =>
    intro k r' q hr' hq
    dsimp only at hr' ⊢
    by_cases hk : post.desk = k
    · subst hk
      rw [List.getElem?_set_self (List.getElem?_eq_some_iff.mp hr).1] at hr'
      obtain rfl := Option.some.inj hr'
      obtain rfl := Option.some.inj (hp.symm.trans hq)
      rw [Post.furthest_set hpost hadvances.le_done]
      exact hholds
    · rw [List.getElem?_set_ne hk] at hr'
      rw [Post.furthest_set_of_ne hpost _ hk]
      exact h.holds hr' hq
  case scheduled =>
    intro j' post' hpost'
    dsimp only at hpost'
    by_cases hj : j = j'
    · subst hj
      rw [List.getElem?_set_self (List.getElem?_eq_some_iff.mp hpost).1] at hpost'
      obtain rfl := Option.some.inj hpost'
      obtain ⟨q, hq, htotal, -⟩ := h.scheduled hpost
      refine ⟨q, hq, hadvances.total_eq.trans htotal, ?_⟩
      rw [← htotal]
      exact hadvances.done_le
    · rw [List.getElem?_set_ne hj] at hpost'
      exact h.scheduled hpost'

/-- Whatever is done in an office, its desks and posts conform to what was loaded. -/
theorem Conforms.act (h : o.Conforms stripDebugInfo loaded) (a : Action) :
    (o.act stripDebugInfo a).Conforms stripDebugInfo (loaded ++ a.loaded?.toList) := by
  cases a with
  | load p => exact h.load p
  | look k look =>
    have hnone : loaded ++ (Action.look k look).loaded?.toList = loaded := List.append_nil loaded
    rw [hnone, Office.act]
    cases hr : o.desks[k]? with
    | none => exact h
    | some r => exact h.look hr look
  | start k task chunkSize =>
    have hnone : loaded ++ (Action.start k task chunkSize).loaded?.toList = loaded :=
      List.append_nil loaded
    rw [hnone, Office.act]
    cases hr : o.desks[k]? with
    | none => exact h
    | some r => exact h.start hr task chunkSize
  | call j c =>
    have hnone : loaded ++ (Action.call j c).loaded?.toList = loaded := List.append_nil loaded
    rw [hnone, Office.act]
    cases hpost : o.posts[j]? with
    | none => exact h
    | some post =>
      obtain ⟨r, p, hr, hp, -⟩ := h.exists_desk hpost
      simp only [hr]
      exact h.call hpost hr hp c

/-- The pipelines that actions load, in order. -/
def loads (actions : List Action) : List Pipeline :=
  actions.filterMap Action.loaded?

theorem Conforms.run (h : o.Conforms stripDebugInfo loaded) (actions : List Action) :
    (o.run stripDebugInfo actions).Conforms stripDebugInfo (loaded ++ loads actions) := by
  induction actions generalizing o loaded with
  | nil =>
    rw [loads, List.filterMap_nil, List.append_nil]
    exact h
  | cons a actions ih =>
    have hsplit : loads (a :: actions) = a.loaded?.toList ++ loads actions := by
      unfold loads
      rw [List.filterMap_cons]
      cases a.loaded? <;> rfl
    rw [hsplit, ← List.append_assoc]
    exact ih (h.act a)

/-- An office where nothing was loaded. -/
theorem empty_conforms (stripDebugInfo : Bool) : Conforms {} stripDebugInfo [] where
  length_eq := rfl
  holds := nofun
  scheduled := nofun

/-- A call on a job leaves the other desks as they are. -/
theorem desks_act_call (o : Office) (stripDebugInfo : Bool) {j k : Nat} {post : Post}
    (c : Schedule.Call) (hpost : o.posts[j]? = some post) (hk : post.desk ≠ k) :
    (o.act stripDebugInfo (.call j c)).desks[k]? = o.desks[k]? := by
  unfold Office.act
  simp only [hpost]
  cases o.desks[post.desk]? with
  | none => rfl
  | some r => exact List.getElem?_set_ne hk

/-- A post keeps its desk. -/
theorem desk_act (stripDebugInfo : Bool) {j : Nat} {post : Post} (hpost : o.posts[j]? = some post)
    (a : Action) : ∃ post', (o.act stripDebugInfo a).posts[j]? = some post' ∧
      post'.desk = post.desk := by
  unfold Office.act
  cases a with
  | load p => exact ⟨post, hpost, rfl⟩
  | look k look =>
    dsimp only
    split <;> exact ⟨post, hpost, rfl⟩
  | start k task chunkSize =>
    dsimp only
    split
    · exact ⟨post, hpost, rfl⟩
    · exact ⟨post, by
        rw [List.getElem?_append_left (List.getElem?_eq_some_iff.mp hpost).1, hpost], rfl⟩
  | call i c =>
    dsimp only
    split
    · exact ⟨post, hpost, rfl⟩
    · next caller hcaller =>
      split
      · exact ⟨post, hpost, rfl⟩
      · by_cases hj : i = j
        · subst hj
          obtain rfl := Option.some.inj (hpost.symm.trans hcaller)
          exact ⟨_, List.getElem?_set_self (List.getElem?_eq_some_iff.mp hpost).1, rfl⟩
        · exact ⟨post, by rw [List.getElem?_set_ne hj, hpost], rfl⟩

theorem desk_run (stripDebugInfo : Bool) {j : Nat} {post : Post} (hpost : o.posts[j]? = some post)
    (actions : List Action) :
    ∃ post', (o.run stripDebugInfo actions).posts[j]? = some post' ∧ post'.desk = post.desk := by
  induction actions generalizing o post with
  | nil => exact ⟨post, hpost, rfl⟩
  | cons a actions ih =>
    obtain ⟨post', hpost', hdesk⟩ := desk_act stripDebugInfo hpost a
    obtain ⟨post'', hpost'', hdesk'⟩ := ih hpost'
    exact ⟨post'', hpost'', hdesk'.trans hdesk⟩

/-- What is at the desks and posts of an office, and what a call on a job does there. -/
structure Regular (o : Office) (stripDebugInfo : Bool) (loaded : List Pipeline) : Prop where
  desks_eq : o.desks.map Resolver.pipeline =
    loaded.mapIdx fun k p => p.worked stripDebugInfo (Post.furthest o.posts k)
  /-- What was stored is what is shown now. -/
  shown : ∀ {k : Nat} {r : Resolver} {p : Pipeline}, o.desks[k]? = some r → loaded[k]? = some p →
    ∀ (index : Int) (notices : List Notice),
      ((View.ofPass stripDebugInfo index).run ⟨r, notices⟩).1.change =
          p.changeAt stripDebugInfo index ∧
        Ir.count (r.after index).lines = p.countsAt index
  posts : ∀ {j : Nat} {post : Post}, o.posts[j]? = some post → ∃ r p,
    o.desks[post.desk]? = some r ∧ loaded[post.desk]? = some p ∧
      post.job.schedule.total = p.size ∧ post.job.schedule.done ≤ p.size ∧
      ∀ c : Schedule.Call, c.Advances post.job.schedule (post.job.outcome stripDebugInfo c r).1 ∧
        (o.act stripDebugInfo (.call j c)).posts =
          o.posts.set j (post.setSchedule (post.job.outcome stripDebugInfo c r).1.schedule) ∧
        ∀ k, k ≠ post.desk → (o.act stripDebugInfo (.call j c)).desks[k]? = o.desks[k]?

theorem Conforms.regular (h : o.Conforms stripDebugInfo loaded) :
    o.Regular stripDebugInfo loaded where
  desks_eq := by
    apply List.ext_getElem?
    intro k
    rw [List.getElem?_map, List.getElem?_mapIdx]
    cases hr : o.desks[k]? with
    | none =>
      have hk : loaded[k]? = none := by
        rw [List.getElem?_eq_none_iff, ← h.length_eq, ← List.getElem?_eq_none_iff]
        exact hr
      rw [hk]
      rfl
    | some r =>
      obtain ⟨p, hp⟩ := h.exists_loaded hr
      rw [hp]
      exact congrArg some (h.holds hr hp).pipeline_eq
  shown := by
    intro k r p hr hp index notices
    have hholds := h.holds hr hp
    have hbare : r.pipeline.bare = p.bare := by rw [hholds.pipeline_eq, Pipeline.bare_worked]
    constructor
    · rw [View.run_ofPass_faithful (d := ⟨r, notices⟩) hholds.faithful, ← Pipeline.changeAt_eq,
        Pipeline.changeAt_congr hbare]
    · rw [← Pipeline.countsAt_congr hbare, Pipeline.countsAt_eq]
      exact congrArg Ir.count (hholds.faithful.resolve index).1
  posts := by
    intro j post hpost
    obtain ⟨r, p, hr, hp, htotal, hdone⟩ := h.exists_desk hpost
    refine ⟨r, p, hr, hp, htotal, hdone, fun c => ⟨(h.outcome hpost hr hp c).1, ?_, ?_⟩⟩
    · simp only [Office.act, hpost, hr]
    · exact fun k hk => o.desks_act_call stripDebugInfo c hpost (Ne.symm hk)

/-- A job that was started before a pipeline was loaded does not touch the desk of that pipeline,
nor any that came later. -/
theorem Conforms.apart (h : o.Conforms stripDebugInfo loaded) (later : List Action) {j k : Nat}
    (c : Schedule.Call) (hj : j < o.posts.length) (hk : o.desks.length ≤ k) :
    ((o.run stripDebugInfo later).act stripDebugInfo (.call j c)).desks[k]? =
      (o.run stripDebugInfo later).desks[k]? := by
  obtain ⟨r, p, hr, -⟩ := h.exists_desk (List.getElem?_eq_getElem hj)
  obtain ⟨post, hpost, hdesk⟩ :=
    desk_run stripDebugInfo (List.getElem?_eq_getElem hj) later
  refine desks_act_call _ stripDebugInfo c hpost ?_
  have hlt := (List.getElem?_eq_some_iff.mp hr).1
  omega

end Office
end PassTrace

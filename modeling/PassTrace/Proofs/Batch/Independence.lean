import PassTrace.Proofs.Batch.Filling
import PassTrace.Proofs.Inspector.Jobs

/-!
# Results that do not depend on the schedule

However the calls on a batch come, it fills in the same values, in the same order, as a single run
over all passes would. The changes and the counts that jobs of an inspector fill in are those that a
new resolver gives, whatever else is done with the pipeline in between; and a pipeline that is
loaded later is out of their reach.
-/

namespace PassTrace.Schedule

/-- What a batch comes to does not depend on how it is called, nor on what else is done. -/
theorem independent_of_calls :
    -- A batch of any values, behind any calls.
    (∀ {σ ε β : Type} (e : Errand σ ε β) (p : Pipeline) (chunkSize : Int) (memory : σ)
      (calls : List Call),
        let start := Schedule.ofSize p.size (.int chunkSize)
        let result := (behind e.work calls start).run ⟨p, memory, []⟩
        e.Regular p chunkSize result.1 result.2) ∧
    -- Jobs on pipelines, with calls, looks and loads in any order.
    (∀ (stripDebugInfo : Bool) (actions : List Office.Action),
      (Office.run stripDebugInfo {} actions).Regular stripDebugInfo (Office.loads actions)) ∧
    -- Jobs from before a pipeline is loaded do not touch it.
    (∀ (stripDebugInfo : Bool) (before later : List Office.Action) {j k : Nat} (c : Call),
      let office := Office.run stripDebugInfo {} before
      let office' := office.run stripDebugInfo later
      j < office.posts.length → office.desks.length ≤ k →
        (office'.act stripDebugInfo (.call j c)).desks[k]? = office'.desks[k]?) ∧
    -- The jobs of an inspector are such jobs.
    (∀ (config : Config) (p : Pipeline) (metadata : Metadata) (requests : List Request) (w : World),
      (∀ request ∈ requests, request.HasWholeChunks config) →
        ∃ actions, Office.loads actions = p :: Request.loads requests ∧
          (Office.run config.stripDebugInfo {} actions).Houses
            (Inspector.behind requests (.ofPipeline config p metadata, w)).1) ∧
    ∀ (i : Inspector) (p : Pipeline) (metadata : Metadata) (requests : List Request) (w : World),
      (∀ request ∈ requests, request.IsPassive) →
        (Inspector.behind requests (i.install p metadata, w)).1.pipeline = p := by
  have hconforms (stripDebugInfo : Bool) (actions : List Office.Action) :
      (Office.run stripDebugInfo {} actions).Conforms stripDebugInfo (Office.loads actions) :=
    (Office.empty_conforms stripDebugInfo).run actions
  refine ⟨?_, ?_, ?_, ?_, ?_⟩
  · intro σ ε β e p chunkSize memory calls
    exact e.regular_behind p chunkSize memory calls rfl
  · exact fun stripDebugInfo actions => (hconforms stripDebugInfo actions).regular
  · exact fun stripDebugInfo before later _ _ c hj hk =>
      (hconforms stripDebugInfo before).apart later c hj hk
  · exact fun config p metadata _ w hwhole => Office.exists_houses_behind config p metadata hwhole w
  · exact fun i p metadata _ w hpassive => i.pipeline_behind_install p metadata hpassive w

/-- Numbers the passes, but fails at the second one until that was tried. -/
def numbering : Errand Bool String Nat where
  compute index _ := fun tried =>
    if index = 2 && !tried then (.error "not yet", true) else (.ok index, tried)
  store n pass := { pass with remarks := some [.int n] }

theorem numbering_isDetermined : numbering.IsDetermined := by
  have hvalue {index : Nat} {p : Pipeline} {tried : Bool} {v : Nat}
      (h : ((numbering.compute index p).run tried).1 = .ok v) : index = v := by
    have hrun : (numbering.compute index p).run tried =
        if index = 2 && !tried then (.error "not yet", true) else (.ok index, tried) := rfl
    rw [hrun] at h
    split at h
    · cases h
    · exact Except.ok.inj h
  intro index p memory memory' v v' hv hv'
  rw [← hvalue hv, hvalue hv']

/-- A pipeline of three passes that leave the text as it is. -/
def threePasses : Pipeline :=
  ⟨[], List.replicate 3 ⟨"dce", ⟨.module, none⟩, false, .sameAs 0, none, none, none⟩⟩

/-- The first chunk fails at the second pass, the work is cancelled and taken up again, and in the
end the passes are numbered as they are without a failure. -/
theorem independent_of_calls_numbering :
    let result := (behind numbering.work [.chunk, .cancel, .run fun _ => false]
      (.ofSize threePasses.size (.int 2))).run ⟨threePasses, false, []⟩
    result.1.done = 3 ∧ result.2.attempts.map (·.index) = [1, 2, 2, 3] ∧
      (((.ofSize threePasses.size (.int 5) : Schedule).resume numbering.work fun _ => false).run
        ⟨threePasses, true, []⟩).2.pipeline = result.2.pipeline := by
  refine ⟨rfl, rfl, ?_⟩
  have hregular := independent_of_calls.1 numbering threePasses 2 false
    [.chunk, .cancel, .run fun _ => false]
  have hsingle : (((.ofSize threePasses.size (.int 5) : Schedule).resume numbering.work
      fun _ => false).run ⟨threePasses, true, []⟩) = (_, _) := rfl
  exact (hregular.complete rfl hsingle).1 numbering_isDetermined rfl

end PassTrace.Schedule

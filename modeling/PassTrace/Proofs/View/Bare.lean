import PassTrace.Proofs.View

/-!
# What views do not look at

The change and the counts that a pass carries are computed from the rest of the pipeline, and
nothing of the rest is computed from them. So a view shows the same whether they are there or not.
Looks at a pipeline leave it as it is, and a faithful memory of it.
-/

namespace PassTrace

/-- The pass without what is computed for it. -/
def Pass.bare (pass : Pass) : Pass :=
  { pass with change := none, counts := none }

/-- The pipeline without what is computed for its passes. -/
def Pipeline.bare (p : Pipeline) : Pipeline :=
  { p with passes := p.passes.map Pass.bare }

namespace Pipeline

@[simp] theorem size_bare (p : Pipeline) : p.bare.size = p.size :=
  List.length_map Pass.bare

@[simp] theorem pass?_bare (p : Pipeline) (index : Int) :
    p.bare.pass? index = (p.pass? index).map Pass.bare := by
  unfold pass?
  split
  · exact List.getElem?_map
  · rfl

@[simp] theorem meaning_bare (p : Pipeline) (index : Nat) :
    p.bare.meaning index = p.meaning index := by
  induction index using Nat.strongRecOn with
  | ind index ih =>
    cases index with
    | zero => rw [meaning_zero, meaning_zero, bare]
    | succ k =>
      have hreference : p.bare.passes[k]?.map Pass.reference = p.passes[k]?.map Pass.reference := by
        unfold bare
        rw [List.getElem?_map, Option.map_map]
        rfl
      rw [meaning_succ, meaning_succ, hreference]
      cases p.passes[k]?.map Pass.reference with
      | none => rfl
      | some reference =>
        cases reference with
        | inline lines => rfl
        | sameAs target =>
          dsimp only
          split
          · exact ih target.toNat (by omega)
          · rfl

@[simp] theorem meaningAt_bare (p : Pipeline) (index : Int) :
    p.bare.meaningAt index = p.meaningAt index := by
  simp only [meaningAt, size_bare, meaning_bare]

@[simp] theorem meaningBefore_bare (p : Pipeline) (index : Int) :
    p.bare.meaningBefore index = p.meaningBefore index := by
  unfold meaningBefore
  rw [pass?_bare]
  cases p.pass? index with
  | none => rfl
  | some pass =>
    simp only [Option.map_some, meaningAt_bare]
    rfl

/-- Storing something that is computed for passes. -/
theorem bare_modifyPass (p : Pipeline) (index : Nat) {f : Pass → Pass}
    (hf : ∀ pass, (f pass).bare = pass.bare) : (p.modifyPass index f).bare = p.bare := by
  unfold bare modifyPass
  congr 1
  apply List.ext_getElem?
  intro k
  rw [List.getElem?_map, List.getElem?_map, List.getElem?_modify]
  cases p.passes[k]? with
  | none => rfl
  | some pass =>
    by_cases hk : index - 1 = k
    · simp [hk, hf]
    · simp [hk]

end Pipeline

namespace Resolver

/-- A memory is faithful to every pipeline that differs in what was computed only. -/
theorem Faithful.of_bare {r : Resolver} (h : r.Faithful) {p : Pipeline}
    (hbare : p.bare = r.pipeline.bare) : Faithful { r with pipeline := p } where
  length_eq := by
    rw [← Pipeline.size_bare p, hbare, Pipeline.size_bare]
    exact h.length_eq
  known_zero := by
    have hinitial : p.initial = r.pipeline.initial := congrArg (·.initial) hbare
    rw [hinitial]
    exact h.known_zero
  meaning_of_known := by
    intro k lines hknown
    rw [← Pipeline.meaning_bare p, hbare, Pipeline.meaning_bare]
    exact h.meaning_of_known hknown

end Resolver

namespace Viewing

/-- What is done while a pipeline is looked at leaves the pipeline as it is, and a faithful
memory. -/
def IsLook {α : Type} (x : Viewing α) : Prop :=
  ∀ d : Desk, d.resolver.Faithful →
    (x.run d).2.resolver.Faithful ∧ (x.run d).2.resolver.pipeline = d.resolver.pipeline

variable {α β : Type}

theorem isLook_pure (a : α) : IsLook (pure a) :=
  fun _ h => ⟨h, rfl⟩

theorem isLook_pipeline : IsLook pipeline :=
  fun _ h => ⟨h, rfl⟩

theorem isLook_notify (notice : Notice) : IsLook (notify notice) :=
  fun _ h => ⟨h, rfl⟩

theorem IsLook.bind {x : Viewing α} {f : α → Viewing β} (hx : x.IsLook) (hf : ∀ a, (f a).IsLook) :
    (x >>= f).IsLook := by
  intro d h
  obtain ⟨hfaithful, hpipeline⟩ := hx d h
  obtain ⟨hfaithful', hpipeline'⟩ := hf (x.run d).1 (x.run d).2 hfaithful
  exact ⟨hfaithful', hpipeline'.trans hpipeline⟩

theorem isLook_textAt (index : Int) : IsLook (textAt index) := by
  intro d h
  have hrun : (textAt index).run d = (settle (d.resolver.resolve index)).run d := rfl
  rw [hrun, run_settle]
  exact (h.resolve index).2

/-- With a faithful memory a text is what its index means. -/
theorem lines_textAt {d : Desk} (h : d.resolver.Faithful) (index : Int) :
    ((textAt index).run d).1 = d.resolver.pipeline.meaningAt index := by
  have hrun : (textAt index).run d = (settle (d.resolver.resolve index)).run d := rfl
  rw [hrun, run_settle]
  exact (h.resolve index).1

theorem isLook_textAfter (index : Int) : IsLook (textAfter index) :=
  isLook_textAt index

theorem isLook_textBefore (index : Int) : IsLook (textBefore index) := by
  intro d h
  have hrun : (textBefore index).run d = (settle (d.resolver.before index)).run d := rfl
  rw [hrun, run_settle]
  exact (h.before index).2

end Viewing

namespace View

open Viewing

/-- What the view of a pass shows, whatever was looked at before. -/
def shown (stripDebugInfo : Bool) (p : Pipeline) (index : Int) : View :=
  match p.pass? index with
  | none => absent
  | some pass => ofTexts stripDebugInfo p index pass (p.meaningBefore index) (p.meaningAt index)

/-- A view does not show what was computed for passes. -/
@[simp] theorem shown_bare (stripDebugInfo : Bool) (p : Pipeline) (index : Int) :
    shown stripDebugInfo p.bare index = shown stripDebugInfo p index := by
  have htitle (index : Int) : (p.bare.pass? index).map Pass.title =
      (p.pass? index).map Pass.title := by
    rw [Pipeline.pass?_bare, Option.map_map]
    rfl
  have hname (scope : Scope) : nameBefore p.bare index scope = nameBefore p index scope := by
    unfold nameBefore
    rw [htitle]
  unfold shown
  rw [Pipeline.pass?_bare]
  cases p.pass? index with
  | none => rfl
  | some pass =>
    simp only [Option.map_some, ofTexts, Pipeline.meaningBefore_bare,
      Pipeline.meaningAt_bare, hname]
    rfl

theorem isLook_ofPass (stripDebugInfo : Bool) (index : Int) :
    IsLook (ofPass stripDebugInfo index) := by
  unfold ofPass
  refine isLook_pipeline.bind fun p => ?_
  split
  · exact (isLook_notify _).bind fun _ => isLook_pure _
  · exact (isLook_textBefore index).bind fun _ => (isLook_textAfter index).bind
      fun _ => isLook_pure _

theorem isLook_countsAfter (index : Int) : IsLook (countsAfter index) := by
  unfold countsAfter
  refine isLook_pipeline.bind fun p => ?_
  split
  · exact isLook_pure _
  · exact (isLook_textAfter index).bind fun _ => isLook_pure _

theorem isLook_countsBefore (index : Int) : IsLook (countsBefore index) := by
  unfold countsBefore
  split
  · exact isLook_pipeline.bind fun _ => isLook_pure _
  · exact isLook_countsAfter (index - 1)

theorem isLook_countsLine (index : Int) : IsLook (countsLine index) := by
  unfold countsLine
  refine isLook_pipeline.bind fun p => ?_
  split
  · exact isLook_pure _
  · exact (isLook_countsAfter index).bind fun _ =>
      (isLook_countsBefore index).bind fun _ => isLook_pure _

/-- With a faithful memory a view is what it should be. -/
theorem run_ofPass_faithful {d : Desk} (h : d.resolver.Faithful) (stripDebugInfo : Bool)
    (index : Int) :
    ((ofPass stripDebugInfo index).run d).1 = shown stripDebugInfo d.resolver.pipeline index := by
  unfold shown
  cases hpass : d.resolver.pipeline.pass? index with
  | none =>
    rw [ofPass, run_pipeline_bind, hpass]
    rfl
  | some pass =>
    have hbefore := h.before index
    have hafter := (hbefore.2.1.resolve index).1
    rw [hbefore.2.2] at hafter
    have hafter' : ((d.resolver.before index).resolver.after index).lines =
        d.resolver.pipeline.meaningAt index := hafter
    rw [run_ofPass stripDebugInfo hpass]
    dsimp only
    rw [hbefore.1, hafter']

end View
end PassTrace

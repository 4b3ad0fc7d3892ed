import PassTrace.Proofs.Snapshot.Memory

/-!
# References that lead backwards

A look-up meets a gap only where a reference does not lead to an earlier index, or outside the
pipeline. Where every reference leads backwards there are no gaps, whatever the resolver remembers
of the calls before.
-/

namespace PassTrace

/-- Every reference of a pipeline leads to an earlier index. -/
def Pipeline.IsBackward (p : Pipeline) : Prop :=
  ∀ {k : Nat} {pass : Pass} {target : Int}, p.passes[k]? = some pass →
    pass.reference = .sameAs target → 0 ≤ target ∧ target ≤ k

/-- The meaning of an index that is not beyond the end. -/
theorem Pipeline.meaningAt_natCast {p : Pipeline} {k : Nat} (hk : k ≤ p.size) :
    p.meaningAt k = p.meaning k := by
  unfold meaningAt
  rw [if_pos ⟨by omega, by omega⟩, Int.toNat_natCast]

namespace Resolver

/-- The resolver behind a run of calls. -/
def behind (r : Resolver) (calls : List Call) : Resolver :=
  calls.foldl (fun r c => (r.call c).2) r

/-- A resolver is one that looks at a pipeline behind any calls. -/
def Serves (r : Resolver) (p : Pipeline) : Prop :=
  r.pipeline = p ∧ ∃ q calls, r = (new q).behind calls

/-- A new resolver looks at its pipeline. -/
theorem new_serves (p : Pipeline) : (new p).Serves p :=
  ⟨rfl, p, [], rfl⟩

/-- A memory stays faithful behind any calls. -/
theorem Faithful.behind {r : Resolver} (h : r.Faithful) (calls : List Call) :
    (r.behind calls).Faithful := by
  induction calls generalizing r with
  | nil => exact h
  | cons c calls ih => exact ih (h.call c).2.1

/-- A resolver that looks at a pipeline has a faithful memory. -/
theorem Serves.faithful {r : Resolver} {p : Pipeline} (h : r.Serves p) : r.Faithful := by
  obtain ⟨-, q, calls, rfl⟩ := h
  exact (new_faithful q).behind calls

/-- A resolver behind another call looks at the pipeline that the call leaves. -/
theorem Serves.call {r : Resolver} {p : Pipeline} (h : r.Serves p) (c : Call) :
    (r.call c).2.Serves (p.afterCall c) := by
  have hpipeline := (h.faithful.call c).2.2
  obtain ⟨rfl, q, calls, rfl⟩ := h
  refine ⟨hpipeline, q, calls ++ [c], ?_⟩
  unfold behind
  rw [List.foldl_append, List.foldl_cons, List.foldl_nil]

/-- A resolver that looks at a pipeline yields what an index means. -/
theorem Serves.lines_resolve {r : Resolver} {p : Pipeline} (h : r.Serves p) {k : Nat}
    (hk : k ≤ p.size) : (r.resolve k).lines = p.meaning k := by
  have hresolve := (h.faithful.resolve k).1
  obtain ⟨rfl, -⟩ := h
  rw [hresolve, Pipeline.meaningAt_natCast hk]

variable {r : Resolver}

/-- Where references lead backwards a walk meets no gap. The induction follows the references. -/
theorem Faithful.gap_walk (h : r.Faithful) (hback : r.pipeline.IsBackward) {index : Nat}
    (hindex : index ≤ r.pipeline.size) : (r.walk index).gap = none := by
  induction index using Nat.strongRecOn with
  | ind index ih =>
    rw [Resolver.walk]
    cases hknown : r.known? index with
    | some lines => rfl
    | none =>
      obtain ⟨k, rfl⟩ : ∃ k, index = k + 1 := by
        cases index with
        | zero => rw [h.known_zero] at hknown; cases hknown
        | succ k => exact ⟨k, rfl⟩
      have hpass : r.pipeline.passes[k]? = some r.pipeline.passes[k] :=
        List.getElem?_eq_getElem hindex
      rw [Pipeline.pass?_natCast_succ, hpass]
      simp only [Option.map_some]
      cases hreference : r.pipeline.passes[k].reference with
      | inline lines => rfl
      | sameAs target =>
        have htarget := hback hpass hreference
        have hbefore : 0 ≤ target ∧ target < ((k + 1 : Nat) : Int) := by omega
        simp only [dif_pos hbefore]
        exact ih target.toNat (by omega) (by omega)

/-- Where references lead backwards no look-up of an index meets a gap. -/
theorem Faithful.gap_resolve (h : r.Faithful) (hback : r.pipeline.IsBackward) {index : Nat}
    (hindex : index ≤ r.pipeline.size) : (r.resolve index).gap = none := by
  have hinside : 0 ≤ (index : Int) ∧ (index : Int) < r.cache.length := by
    rw [h.length_eq]
    omega
  unfold Resolver.resolve
  rw [if_pos hinside, Int.toNat_natCast]
  exact h.gap_walk hback hindex

end Resolver
end PassTrace

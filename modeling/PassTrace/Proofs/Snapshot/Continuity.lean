import PassTrace.Proofs.Snapshot.References
import PassTrace.Proofs.View

/-!
# Texts that follow on from each other

The text before a pass should be the text after the pass before it. A resolver takes a shorter way
to it where a pass changed nothing, and a view then counts no changes without comparing. Both are
right if unchanged passes leave the text as it was.
-/

namespace PassTrace

/-- A pass that changed nothing left the text as it was. -/
def Pipeline.IsContinuous (p : Pipeline) : Prop :=
  ∀ {k : Nat} {pass : Pass}, p.passes[k]? = some pass → pass.changed = false →
    p.meaning (k + 1) = p.meaning k

/-- The texts that a resolver yields follow on from each other, without gaps, and the changes that
views show are those of the texts shown. -/
structure Resolver.Continuous (r : Resolver) : Prop where
  before_eq : ∀ {i : Nat}, 1 ≤ i → i ≤ r.pipeline.size →
    (r.before i).lines = (r.resolve ((i : Int) - 1)).lines
  unchanged : ∀ {i : Nat} {pass : Pass}, r.pipeline.pass? i = some pass → pass.changed = false →
    (r.before i).lines = (r.after i).lines
  gap : ∀ {i : Nat}, i ≤ r.pipeline.size → (r.resolve i).gap = none
  change_eq : ∀ {i : Nat} (stripDebugInfo : Bool) (notices : List Notice), 1 ≤ i →
    i ≤ r.pipeline.size →
      let view := ((View.ofPass stripDebugInfo i).run ⟨r, notices⟩).1
      view.change = Ir.lineChange view.before view.after

namespace Pipeline

variable {p : Pipeline} {k : Nat}

/-- An index with a pass counts from one. -/
theorem exists_of_pass? {i : Nat} {pass : Pass} (h : p.pass? i = some pass) :
    ∃ k, i = k + 1 ∧ p.passes[k]? = some pass := by
  cases i with
  | zero => cases h
  | succ k =>
    rw [pass?_natCast_succ] at h
    exact ⟨k, rfl, h⟩

/-- The text before a pass is the meaning of the index before it. -/
theorem IsContinuous.meaningBefore_eq (h : p.IsContinuous) (hk : k < p.size) :
    p.meaningBefore ((k + 1 : Nat) : Int) = p.meaning k := by
  have hpass : p.passes[k]? = some p.passes[k] := List.getElem?_eq_getElem hk
  unfold meaningBefore
  split
  · next hfirst =>
    obtain rfl : k = 0 := by omega
    exact (meaning_zero p).symm
  · rw [pass?_natCast_succ, hpass]
    dsimp only
    cases hchanged : p.passes[k].changed with
    | true =>
      have hindex : ((k + 1 : Nat) : Int) - 1 = (k : Nat) := by omega
      rw [if_pos rfl, hindex, meaningAt_natCast (by omega)]
    | false =>
      rw [if_neg (by simp), meaningAt_natCast hk]
      exact h hpass hchanged

end Pipeline

/-- A text has no changed lines against itself. -/
theorem Ir.changedLines_self (lines : Lines) : changedLines lines lines = 0 := by
  induction lines with
  | nil => rfl
  | cons line lines ih => simp [changedLines, ih]

/-- The change that a view shows is that of its texts, if they agree where nothing changed. -/
theorem View.changeOf_eq {changed : Bool} {before after : Lines}
    (h : changed = false → before = after) :
    changeOf changed before after = Ir.lineChange before after := by
  cases changed with
  | true => rfl
  | false =>
    obtain rfl := h rfl
    unfold changeOf Ir.lineChange
    rw [Ir.changedLines_self]
    rfl

/-- Over a pipeline whose references lead backwards, and whose unchanged passes leave the text as it
was, a faithful memory yields texts that follow on from each other. -/
theorem Resolver.Faithful.continuous {r : Resolver} (h : r.Faithful)
    (hback : r.pipeline.IsBackward) (hcontinuous : r.pipeline.IsContinuous) : r.Continuous := by
  have hbefore {k : Nat} (hk : k < r.pipeline.size) :
      (r.before ((k + 1 : Nat) : Int)).lines = r.pipeline.meaning k := by
    rw [(h.before _).1, hcontinuous.meaningBefore_eq hk]
  have hresolve {k : Nat} (hk : k ≤ r.pipeline.size) :
      (r.resolve k).lines = r.pipeline.meaning k := by
    rw [(h.resolve _).1, Pipeline.meaningAt_natCast hk]
  constructor
  · intro i hi hsize
    obtain ⟨k, rfl⟩ : ∃ k, i = k + 1 := ⟨i - 1, by omega⟩
    have hindex : ((k + 1 : Nat) : Int) - 1 = (k : Nat) := by omega
    rw [hbefore hsize, hindex, hresolve (by omega)]
  · intro i pass hpass hchanged
    obtain ⟨k, rfl, hget⟩ := Pipeline.exists_of_pass? hpass
    obtain ⟨hk, -⟩ := List.getElem?_eq_some_iff.1 hget
    unfold Resolver.after
    rw [hbefore hk, hresolve hk]
    exact (hcontinuous hget hchanged).symm
  · intro i hi
    exact h.gap_resolve hback hi
  · intro i stripDebugInfo notices hi hsize
    obtain ⟨k, rfl⟩ : ∃ k, i = k + 1 := ⟨i - 1, by omega⟩
    have hpass : r.pipeline.passes[k]? = some r.pipeline.passes[k] :=
      List.getElem?_eq_getElem hsize
    obtain ⟨-, hfaithful, hpipeline⟩ := h.before ((k + 1 : Nat) : Int)
    have hafter : ((r.before ((k + 1 : Nat) : Int)).resolver.after ((k + 1 : Nat) : Int)).lines =
        r.pipeline.meaning (k + 1) := by
      unfold Resolver.after
      rw [(hfaithful.resolve _).1, hpipeline, Pipeline.meaningAt_natCast hsize]
    have hpass' : r.pipeline.pass? ((k + 1 : Nat) : Int) = some r.pipeline.passes[k] := by
      rw [Pipeline.pass?_natCast_succ, hpass]
    rw [View.run_ofPass stripDebugInfo (d := ⟨r, notices⟩) hpass', hbefore hsize, hafter]
    refine View.changeOf_eq fun hchanged => ?_
    rw [hcontinuous hpass hchanged]

end PassTrace

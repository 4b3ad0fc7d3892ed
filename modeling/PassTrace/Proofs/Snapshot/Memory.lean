import PassTrace.Snapshot.Resolver

/-!
# What a resolver remembers

A resolver answers from its memory where it can. Every text that it remembers is
the meaning of its index, and this survives the many places that one look-up
fills, so that no answer depends on what was asked before.
-/

namespace PassTrace

namespace Pipeline

/-- The meaning of any integer: an index outside the pipeline has the empty text. -/
def meaningAt (p : Pipeline) (index : Int) : Lines :=
  if 0 ≤ index ∧ index ≤ p.size then p.meaning index.toNat else []

/-- The meaning of the text before a pass. -/
def meaningBefore (p : Pipeline) (index : Int) : Lines :=
  if index ≤ 1 then p.initial
  else
    match p.pass? index with
    | none => []
    | some pass => p.meaningAt (if pass.changed then index - 1 else index)

/-- Index zero has the initial text. -/
@[simp] theorem meaning_zero (p : Pipeline) : p.meaning 0 = p.initial := by
  unfold meaning
  rfl

/-- The meaning of the index behind `k` passes, by the reference found there. -/
theorem meaning_succ (p : Pipeline) (k : Nat) :
    p.meaning (k + 1) = match p.passes[k]?.map Pass.reference with
      | none => []
      | some (.inline lines) => lines
      | some (.sameAs target) =>
        if 0 ≤ target ∧ target < k + 1 then p.meaning target.toNat else [] :=
  meaning.eq_2 p k

/-- The pass at a positive index. -/
theorem pass?_natCast_succ (p : Pipeline) (k : Nat) :
    p.pass? ((k + 1 : Nat) : Int) = p.passes[k]? := by
  have hone : (1 : Int) ≤ ((k + 1 : Nat) : Int) := by omega
  have hindex : (((k + 1 : Nat) : Int) - 1).toNat = k := by omega
  unfold pass?
  rw [if_pos hone, hindex]

end Pipeline

namespace Resolver

/-- A memory with a place for each index, which holds the initial text and no text
but the meaning of its index. -/
structure Faithful (r : Resolver) : Prop where
  length_eq : r.cache.length = r.pipeline.size + 1
  known_zero : r.known? 0 = some r.pipeline.initial
  meaning_of_known : ∀ {k lines}, r.known? k = some lines → lines = r.pipeline.meaning k

/-- A new resolver knows the initial text only. -/
theorem new_faithful (p : Pipeline) : (new p).Faithful where
  length_eq := by simp [new]
  known_zero := by simp [new, known?]
  meaning_of_known := by
    intro k lines h
    cases k with
    | zero => simpa [new, known?, eq_comm] using h
    | succ k =>
      simp only [new, known?, List.getElem?_cons_succ, List.getElem?_replicate] at h
      split at h <;> simp at h

/-- Remembering a text at some indices changes no other place. -/
theorem known?_remember (r : Resolver) (indices : List Nat) (lines : Lines) (k : Nat) :
    (r.remember indices lines).known? k =
      if k ∈ indices ∧ k < r.cache.length then some lines else r.known? k := by
  induction indices generalizing r with
  | nil => simp [remember]
  | cons index indices ih =>
    have hrest := ih { r with cache := r.cache.set index (some lines) }
    have hstep : (r.remember (index :: indices) lines).known? k =
        (Resolver.remember { r with cache := r.cache.set index (some lines) }
          indices lines).known? k := rfl
    rw [hstep, hrest, List.length_set]
    by_cases hmem : k ∈ indices ∧ k < r.cache.length
    · rw [if_pos hmem, if_pos ⟨List.mem_cons_of_mem _ hmem.1, hmem.2⟩]
    · rw [if_neg hmem]
      by_cases hk : k = index
      · subst hk
        by_cases hlt : k < r.cache.length
        · simp [known?, hlt]
        · simp [known?, hlt]
      · simp [known?, List.getElem?_set_ne (Ne.symm hk), hk, hmem]

/-- Remembering keeps the number of places. -/
@[simp] theorem length_remember (r : Resolver) (indices : List Nat) (lines : Lines) :
    (r.remember indices lines).cache.length = r.cache.length := by
  induction indices generalizing r with
  | nil => rfl
  | cons index indices ih =>
    have h := ih { r with cache := r.cache.set index (some lines) }
    simpa [remember] using h

/-- Remembering does not touch the pipeline. -/
@[simp] theorem pipeline_remember (r : Resolver) (indices : List Nat) (lines : Lines) :
    (r.remember indices lines).pipeline = r.pipeline := rfl

/-- A walk finds the meaning of its start, which is that of every index on its way. The
induction follows the references, each of which leads to an earlier index. -/
theorem Faithful.walk {r : Resolver} (h : r.Faithful) (index : Nat) :
    (r.walk index).lines = r.pipeline.meaning index ∧
      ∀ k ∈ (r.walk index).visited, 0 < k ∧ r.pipeline.meaning k = r.pipeline.meaning index := by
  induction index using Nat.strongRecOn with
  | ind index ih =>
    rw [Resolver.walk]
    cases hknown : r.known? index with
    | some lines => exact ⟨h.meaning_of_known hknown, by simp⟩
    | none =>
      -- The initial text is known, so that there is a pass to look at.
      obtain ⟨j, rfl⟩ : ∃ j, index = j + 1 := by
        cases index with
        | zero => rw [h.known_zero] at hknown; cases hknown
        | succ j => exact ⟨j, rfl⟩
      have hmeaning := r.pipeline.meaning_succ j
      rw [Pipeline.pass?_natCast_succ]
      cases hreference : r.pipeline.passes[j]?.map Pass.reference with
      | none =>
        rw [hreference] at hmeaning
        exact ⟨hmeaning.symm, by simp⟩
      | some reference =>
        rw [hreference] at hmeaning
        cases reference with
        | inline lines => exact ⟨hmeaning.symm, by simp⟩
        | sameAs target =>
          by_cases hback : 0 ≤ target ∧ target < ((j + 1 : Nat) : Int)
          · have hback' : 0 ≤ target ∧ target < (j : Int) + 1 := by omega
            obtain ⟨hlines, hvisited⟩ := ih target.toNat (by omega)
            simp only [dif_pos hback, if_pos hback'] at hmeaning ⊢
            refine ⟨hlines.trans hmeaning.symm, ?_⟩
            intro k hk
            rcases List.mem_cons.mp hk with rfl | hk
            · exact ⟨by omega, rfl⟩
            · exact ⟨(hvisited k hk).1, (hvisited k hk).2.trans hmeaning.symm⟩
          · have hback' : ¬(0 ≤ target ∧ target < (j : Int) + 1) := by omega
            simp only [dif_neg hback, if_neg hback'] at hmeaning ⊢
            exact ⟨hmeaning.symm, by simp⟩

/-- A walk only goes down: it visits each index at most once, and none above its start. -/
theorem visited_pairwise (r : Resolver) (index : Nat) :
    (r.walk index).visited.Pairwise (· > ·) ∧ ∀ k ∈ (r.walk index).visited, k ≤ index := by
  fun_induction Resolver.walk r index with
  | case1 => simp
  | case2 => simp
  | case3 => simp
  | case4 index _ target _ hback w ih =>
    refine ⟨List.pairwise_cons.mpr ⟨?_, ih.1⟩, ?_⟩
    · intro k hk
      have hle := ih.2 k hk
      omega
    · intro k hk
      rcases List.mem_cons.mp hk with rfl | hk
      · exact Nat.le_refl _
      · have hle := ih.2 k hk
        omega
  | case5 => simp

/-- Remembering what a walk found keeps a memory faithful. -/
theorem Faithful.remember {r : Resolver} (h : r.Faithful) (index : Nat) :
    (r.remember (r.walk index).visited (r.walk index).lines).Faithful := by
  obtain ⟨hlines, hvisited⟩ := h.walk index
  constructor
  · simpa using h.length_eq
  · rw [known?_remember, if_neg]
    · exact h.known_zero
    · intro hzero
      exact absurd (hvisited 0 hzero.1).1 (by omega)
  · intro k text hknown
    rw [known?_remember] at hknown
    split at hknown
    · next hmem =>
      obtain rfl := Option.some.inj hknown
      exact hlines.trans (hvisited k hmem.1).2.symm
    · exact h.meaning_of_known hknown

/-- A look-up yields the meaning of its index, and leaves a faithful memory of the same
pipeline. -/
theorem Faithful.resolve {r : Resolver} (h : r.Faithful) (index : Int) :
    (r.resolve index).lines = r.pipeline.meaningAt index ∧
      (r.resolve index).resolver.Faithful ∧
      (r.resolve index).resolver.pipeline = r.pipeline := by
  have hinside : (0 ≤ index ∧ index < r.cache.length) ↔ (0 ≤ index ∧ index ≤ r.pipeline.size) := by
    rw [h.length_eq]
    omega
  unfold Resolver.resolve Pipeline.meaningAt
  by_cases hindex : 0 ≤ index ∧ index < r.cache.length
  · rw [if_pos hindex, if_pos (hinside.mp hindex)]
    exact ⟨(h.walk index.toNat).1, h.remember index.toNat, rfl⟩
  · rw [if_neg hindex, if_neg (mt hinside.mpr hindex)]
    exact ⟨rfl, h, rfl⟩

/-- The text before a pass is the meaning that it should have, and the memory stays
faithful. -/
theorem Faithful.before {r : Resolver} (h : r.Faithful) (index : Int) :
    (r.before index).lines = r.pipeline.meaningBefore index ∧
      (r.before index).resolver.Faithful ∧
      (r.before index).resolver.pipeline = r.pipeline := by
  unfold Resolver.before Pipeline.meaningBefore
  split
  · exact ⟨rfl, h, rfl⟩
  · cases r.pipeline.pass? index with
    | none => exact ⟨rfl, h, rfl⟩
    | some pass =>
      dsimp only
      split
      · exact h.resolve (index - 1)
      · exact h.resolve index

/-- A call on a resolver. -/
inductive Call
  | resolve (index : Int)
  | after (index : Int)
  | before (index : Int)
  | clear
  | reset (p : Pipeline)

/-- The text that a call returns, if it returns one, and the resolver behind it. -/
def call (r : Resolver) : Call → Option Lines × Resolver
  | .resolve index => (some (r.resolve index).lines, (r.resolve index).resolver)
  | .after index => (some (r.after index).lines, (r.after index).resolver)
  | .before index => (some (r.before index).lines, (r.before index).resolver)
  | .clear => (none, r.clear)
  | .reset p => (none, r.reset p)

/-- What the calls of a run return, in order. -/
def returned (r : Resolver) : List Call → List (Option Lines)
  | [] => []
  | c :: calls => (r.call c).1 :: (r.call c).2.returned calls

end Resolver

namespace Pipeline

/-- The pipeline that is looked at behind a call. -/
def afterCall (p : Pipeline) : Resolver.Call → Pipeline
  | .reset q => q
  | _ => p

/-- What a call should return while a pipeline is looked at. -/
def answer (p : Pipeline) : Resolver.Call → Option Lines
  | .resolve index | .after index => some (p.meaningAt index)
  | .before index => some (p.meaningBefore index)
  | .clear | .reset _ => none

/-- What the calls of a run should return: each text is a meaning in the pipeline looked at
last, whatever was asked before. -/
def answers (p : Pipeline) : List Resolver.Call → List (Option Lines)
  | [] => []
  | c :: calls => p.answer c :: (p.afterCall c).answers calls

end Pipeline

namespace Resolver

/-- One call returns what it should, and leaves a faithful memory of the right
pipeline. -/
theorem Faithful.call {r : Resolver} (h : r.Faithful) (c : Call) :
    (r.call c).1 = r.pipeline.answer c ∧ (r.call c).2.Faithful ∧
      (r.call c).2.pipeline = r.pipeline.afterCall c := by
  cases c with
  | resolve index =>
    obtain ⟨hlines, hrest⟩ := h.resolve index
    exact ⟨congrArg some hlines, hrest⟩
  | after index =>
    obtain ⟨hlines, hrest⟩ := h.resolve index
    exact ⟨congrArg some hlines, hrest⟩
  | before index =>
    obtain ⟨hlines, hrest⟩ := h.before index
    exact ⟨congrArg some hlines, hrest⟩
  | clear => exact ⟨rfl, new_faithful _, rfl⟩
  | reset p => exact ⟨rfl, new_faithful _, rfl⟩

/-- From a faithful memory on, every call of a run returns what it should. -/
theorem Faithful.returned {r : Resolver} (h : r.Faithful) (calls : List Call) :
    r.returned calls = r.pipeline.answers calls := by
  induction calls generalizing r with
  | nil => rfl
  | cons c calls ih =>
    obtain ⟨hanswer, hfaithful, hpipeline⟩ := h.call c
    rw [Resolver.returned, Pipeline.answers, hanswer, ih hfaithful, hpipeline]

/-- The answers of a resolver do not depend on what it remembers: over any pipeline and any
run of calls they are the meanings in the pipeline that is looked at. -/
theorem returned_eq_answers (p : Pipeline) (calls : List Call) :
    (new p).returned calls = p.answers calls :=
  (new_faithful p).returned calls

end Resolver
end PassTrace

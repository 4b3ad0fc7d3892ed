import Mathlib.Data.Nat.Nth
import PassTrace.Group
import PassTrace.Proofs.Snapshot.Memory

/-!
# Segments and ranks

Passes over the whole module cut a pipeline into segments. Within its segment a pass has a rank:
the number of earlier runs of the same pass over the same target. Passes of one segment belong
together if they have one name, one kind of scope and one rank.
-/

namespace PassTrace.Pipeline

variable {p : Pipeline} {i j k : Nat}

/-- Whether the pass at an index runs on the whole module. -/
def isModuleAt (p : Pipeline) (index : Nat) : Bool :=
  (p.pass? index).any fun pass => pass.scope.kind = .module

/-- Two indices are in one segment: no pass at them or between them runs on the whole module. -/
def AreMates (p : Pipeline) (i j : Nat) : Prop :=
  ∀ k ≤ max i j, min i j ≤ k → p.isModuleAt k = false

instance : Decidable (p.AreMates i j) :=
  inferInstanceAs (Decidable (∀ k ≤ max i j, min i j ≤ k → p.isModuleAt k = false))

/-- The name of the pass at an index and what it ran on. -/
def runAt? (p : Pipeline) (index : Nat) : Option (String × Scope) :=
  (p.pass? index).map fun pass => (pass.name, pass.scope)

/-- The name of the pass at an index and the kind of what it ran on. -/
def kindAt? (p : Pipeline) (index : Nat) : Option (String × ScopeKind) :=
  (p.pass? index).map fun pass => (pass.name, pass.scope.kind)

/-- The pass at `j` is a run of the one at `i` over the same target, in the same segment. -/
def Repeats (p : Pipeline) (i j : Nat) : Prop :=
  p.AreMates i j ∧ p.runAt? i = p.runAt? j

instance : DecidablePred (p.Repeats i) :=
  fun j => inferInstanceAs (Decidable (p.AreMates i j ∧ p.runAt? i = p.runAt? j))

/-- The number of earlier runs of a pass over the same target in its segment. -/
def rank (p : Pipeline) (index : Nat) : Nat :=
  Nat.count (p.Repeats index) index

/-- Two passes are of one segment, one name, one kind of scope and one rank. -/
def Together (p : Pipeline) (i j : Nat) : Prop :=
  p.AreMates i j ∧ p.kindAt? i = p.kindAt? j ∧ p.rank i = p.rank j

instance : DecidablePred (p.Together i) :=
  fun j =>
    inferInstanceAs (Decidable (p.AreMates i j ∧ p.kindAt? i = p.kindAt? j ∧ p.rank i = p.rank j))

/-- No earlier pass belongs together with the one at an index. -/
def Leads (p : Pipeline) (index : Nat) : Prop :=
  ∀ j < index, ¬ p.Together j index

instance : DecidablePred p.Leads :=
  fun index => inferInstanceAs (Decidable (∀ j < index, ¬ p.Together j index))

/-! ### Segments -/

/-- A pass that does not run on the whole module is in a segment. -/
theorem areMates_self (h : p.isModuleAt i = false) : p.AreMates i i := by
  intro k hmax hmin
  obtain rfl : k = i := by omega
  exact h

theorem AreMates.symm (h : p.AreMates i j) : p.AreMates j i := by
  intro k hmax hmin
  exact h k (by omega) (by omega)

theorem AreMates.trans (hij : p.AreMates i j) (hjk : p.AreMates j k) : p.AreMates i k := by
  intro x hmax hmin
  by_cases hx : x ≤ max i j ∧ min i j ≤ x
  · exact hij x hx.1 hx.2
  · exact hjk x (by omega) (by omega)

/-- Every index between two of a segment is in it. -/
theorem AreMates.of_between (h : p.AreMates i j) (hik : i ≤ k) (hkj : k ≤ j) : p.AreMates i k := by
  intro x hmax hmin
  exact h x (by omega) (by omega)

/-- A segment has no pass over the whole module. -/
theorem AreMates.isModuleAt_right (h : p.AreMates i j) : p.isModuleAt j = false :=
  h j (by omega) (by omega)

/-- A segment goes on up to a pass over the whole module. -/
theorem areMates_succ_iff (hik : i ≤ k) :
    p.AreMates i (k + 1) ↔ p.AreMates i k ∧ p.isModuleAt (k + 1) = false := by
  constructor
  · intro h
    exact ⟨h.of_between hik (by omega), h.isModuleAt_right⟩
  · rintro ⟨h, hlast⟩ x hmax hmin
    by_cases hx : x = k + 1
    · rw [hx]
      exact hlast
    · exact h x (by omega) (by omega)

/-! ### Ranks -/

theorem Repeats.symm (h : p.Repeats i j) : p.Repeats j i :=
  ⟨h.1.symm, h.2.symm⟩

theorem Repeats.trans (hij : p.Repeats i j) (hjk : p.Repeats j k) : p.Repeats i k :=
  ⟨hij.1.trans hjk.1, hij.2.trans hjk.2⟩

/-- A repeated pass has the same name and kind of scope. -/
theorem Repeats.kindAt?_eq (h : p.Repeats i j) : p.kindAt? i = p.kindAt? j := by
  have hkind (index : Nat) :
      p.kindAt? index = (p.runAt? index).map fun run => (run.1, run.2.kind) := by
    simp [kindAt?, runAt?, Function.comp_def]
  rw [hkind, hkind, h.2]

/-- The rank of a repeated pass counts the same runs. -/
theorem Repeats.rank_eq (h : p.Repeats i j) : p.rank j = Nat.count (p.Repeats i) j := by
  have hsame : p.Repeats j = p.Repeats i := by
    funext k
    exact propext ⟨h.trans, h.symm.trans⟩
  unfold rank
  congr 1

/-- Each further run has a greater rank. -/
theorem Repeats.rank_lt (h : p.Repeats i j) (hji : j < i) : p.rank j < p.rank i := by
  rw [h.rank_eq]
  exact Nat.count_strict_mono h hji

/-- All ranks up to that of a pass are those of its runs. -/
theorem exists_rank_eq {r : Nat} (hi : p.isModuleAt i = false) (hr : r ≤ p.rank i) :
    ∃ j ≤ i, p.Repeats i j ∧ p.rank j = r := by
  rcases Nat.eq_or_lt_of_le hr with rfl | hlt
  · exact ⟨i, Nat.le_refl i, ⟨areMates_self hi, rfl⟩, rfl⟩
  · have hcard := fun hf => Nat.lt_of_lt_of_le hlt (Nat.count_le_card hf i)
    have hmem : p.Repeats i (Nat.nth (p.Repeats i) r) := Nat.nth_mem r hcard
    refine ⟨_, Nat.le_of_lt (Nat.nth_lt_of_lt_count hlt), hmem, ?_⟩
    rw [hmem.rank_eq, Nat.count_nth hcard]

/-! ### Passes that belong together -/

theorem Together.symm (h : p.Together i j) : p.Together j i :=
  ⟨h.1.symm, h.2.1.symm, h.2.2.symm⟩

theorem Together.trans (hij : p.Together i j) (hjk : p.Together j k) : p.Together i k :=
  ⟨hij.1.trans hjk.1, hij.2.1.trans hjk.2.1, hij.2.2.trans hjk.2.2⟩

/-- A pass that does not run on the whole module belongs together with itself. -/
theorem together_self (h : p.isModuleAt i = false) : p.Together i i :=
  ⟨areMates_self h, rfl, rfl⟩

/-- Passes that belong together have a first one. -/
theorem exists_leads (hi : p.isModuleAt i = false) :
    ∃ j ≤ i, p.Leads j ∧ p.Together j i := by
  have hself : ∃ j, p.Together j i := ⟨i, together_self hi⟩
  refine ⟨Nat.find hself, Nat.find_min' hself (together_self hi), ?_, Nat.find_spec hself⟩
  intro j hj htogether
  exact Nat.find_min hself hj (htogether.trans (Nat.find_spec hself))

/-- A leader comes before those it leads. -/
theorem Leads.le (hi : p.Leads i) (h : p.Together i j) : i ≤ j := by
  by_contra hlt
  exact hi j (by omega) h.symm

/-- Passes that belong together have one leader. -/
theorem Leads.eq (hi : p.Leads i) (hj : p.Leads j) (h : p.Together i j) : i = j :=
  Nat.le_antisymm (hi.le h) (hj.le h.symm)

/-- A pass over the whole module belongs to no other. -/
theorem leads_of_isModuleAt (h : p.isModuleAt i = true) : p.Leads i := by
  intro j _ htogether
  rw [htogether.1.isModuleAt_right] at h
  cases h

/-- A leader of a lower rank comes earlier: where a target is met once more, it was met before. -/
theorem Leads.lt_of_rank_lt (hi : p.Leads i) (hmates : p.AreMates i j)
    (hkind : p.kindAt? i = p.kindAt? j) (hrank : p.rank i < p.rank j) : i < j := by
  obtain ⟨k, hkj, hrepeats, hk⟩ := exists_rank_eq hmates.isModuleAt_right (Nat.le_of_lt hrank)
  have htogether : p.Together i k :=
    ⟨hmates.trans hrepeats.1, hkind.trans hrepeats.kindAt?_eq, hk.symm⟩
  have hik := hi.le htogether
  have hne : k ≠ j := by
    rintro rfl
    omega
  omega

end PassTrace.Pipeline

import PassTrace.Proofs.Session.Table

/-!
# Payloads do not tell references apart

What is written of a pipeline depends on its passes and on the texts at its indices, but not on
where its references lead. So a session that was read is written again as it was, whatever
references the pipeline had that was saved first.
-/

namespace PassTrace

/-- Two passes agree but for where the text after them is found. -/
structure Pass.Agrees (a b : Pass) : Prop where
  name : a.name = b.name
  scope : a.scope = b.scope
  changed : a.changed = b.changed
  change : a.change = b.change
  counts : a.counts = b.counts
  remarks : a.remarks = b.remarks

namespace Pass

variable {passes passes' : List Pass}

/-- The entries of passes that agree are the same under the same numbers. -/
theorem zipWith_entry_eq (h : List.Forall₂ Agrees passes passes') (numbers : List Nat) :
    List.zipWith entry passes numbers = List.zipWith entry passes' numbers := by
  have hentry {a b : Pass} (hpass : a.Agrees b) (number : Nat) :
      a.entry number = b.entry number := by
    unfold entry
    rw [hpass.name, hpass.scope, hpass.changed, hpass.change, hpass.counts, hpass.remarks]
  induction h generalizing numbers with
  | nil => rfl
  | cons hpass _ ih =>
    cases numbers with
    | nil => rfl
    | cons number numbers => rw [List.zipWith_cons_cons, List.zipWith_cons_cons, hentry hpass, ih]

/-- Of passes that agree as many changed the module. -/
theorem countP_changed_eq (h : List.Forall₂ Agrees passes passes') :
    passes.countP (·.changed) = passes'.countP (·.changed) := by
  induction h with
  | nil => rfl
  | cons hpass _ ih => rw [List.countP_cons, List.countP_cons, ih, hpass.changed]

end Pass

/-- Two pipelines have the same passes and resolve to the same texts, however their references are
laid out. -/
structure Pipeline.Matches (p q : Pipeline) : Prop where
  passes : List.Forall₂ Pass.Agrees p.passes q.passes
  text : ∀ i : Nat, i ≤ p.size →
    ((Resolver.new p).resolve i).lines = ((Resolver.new q).resolve i).lines

namespace Pipeline.Matches

variable {p q : Pipeline}

theorem size_eq (h : p.Matches q) : p.size = q.size :=
  h.passes.length_eq

/-- Pipelines that match mean the same at each index. -/
theorem meaning_eq (h : p.Matches q) {i : Nat} (hi : i ≤ p.size) : p.meaning i = q.meaning i := by
  have htext := h.text i hi
  rwa [(Resolver.new_serves p).lines_resolve hi,
    (Resolver.new_serves q).lines_resolve (h.size_eq ▸ hi)] at htext

/-- Pipelines that match have one table. -/
theorem interning_eq (h : p.Matches q) : ∃ (t : Interning) (notices notices' : List Notice),
    Interning.ofPipeline p = { t with notices } ∧
      Interning.ofPipeline q = { t with notices := notices' } := by
  have hinitial : p.initial = q.initial := by
    have hzero := h.meaning_eq (Nat.zero_le _)
    rwa [meaning_zero, meaning_zero] at hzero
  have htexts : Interning.textsAfter p p.size = Interning.textsAfter q q.size := by
    unfold Interning.textsAfter
    rw [← h.size_eq]
    exact List.map_congr_left fun i hi => h.meaning_eq (List.mem_range.1 hi)
  obtain ⟨notices, hp⟩ := Interning.ofPipeline_eq p
  obtain ⟨notices', hq⟩ := Interning.ofPipeline_eq q
  rw [← hinitial, ← htexts] at hq
  exact ⟨_, notices, notices', hp, hq⟩

end Pipeline.Matches

namespace Session

variable {p q : Pipeline} {source compilation : Json.Fields}

/-- Pipelines that match have one payload. -/
theorem payload_eq (h : p.Matches q) (now : Binary64) (source compilation : Json.Fields) :
    payload now p source compilation = payload now q source compilation := by
  obtain ⟨t, notices, notices', hp, hq⟩ := h.interning_eq
  have hchanged : p.changedCount = q.changedCount := Pass.countP_changed_eq h.passes
  unfold payload passEntries
  rw [hp, hq]
  dsimp only
  rw [Pass.zipWith_entry_eq h.passes, h.size_eq, hchanged]

/-- A pipeline that was restored matches the one that was saved, if no pass over the whole module
had a target to be dropped. -/
theorem Restores.matches (h : Restores p q)
    (hmodule : ∀ pass ∈ p.passes, pass.scope.kind = .module → pass.scope.target = none) :
    p.Matches q where
  passes := by
    rw [List.forall₂_iff_get]
    refine ⟨h.size_eq.symm, fun i hp hq => ?_⟩
    obtain ⟨pass', hpass', hname, hchanged, hkind, htarget, hchange, hcounts, hremarks⟩ :=
      h.pass_eq (List.getElem?_eq_getElem hp)
    obtain rfl : pass' = q.passes[i] := by
      rw [List.getElem?_eq_getElem hq] at hpass'
      exact (Option.some.inj hpass').symm
    have hkept : p.passes[i].scope.target = q.passes[i].scope.target := by
      rw [htarget]
      split
      · next hwhole => exact hmodule _ (List.getElem_mem hp) hwhole
      · rfl
    have hscope : p.passes[i].scope = q.passes[i].scope := by
      rw [Scope.mk.injEq]
      exact ⟨hkind.symm, hkept⟩
    exact ⟨hname.symm, hscope, hchanged.symm, hchange.symm, hcounts.symm, hremarks.symm⟩
  text := fun i _ => (h.resolve_eq i).symm

/-- The same texts as with scattered references, most of them spelled out. -/
def spelledReferences : List Reference :=
  [.inline ["b"], .inline ["b"], .sameAs 0, .inline [], .sameAs 1]

theorem matches_spelled :
    (wholePipeline scatteredReferences).Matches (wholePipeline spelledReferences) where
  passes := by
    simp only [wholePipeline, scatteredReferences, spelledReferences, List.map_cons, List.map_nil]
    repeat' constructor
  text := by decide +kernel

end Session
end PassTrace

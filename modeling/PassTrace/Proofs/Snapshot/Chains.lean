import Mathlib.Data.List.DropRight
import Mathlib.Data.Set.Card
import Mathlib.Logic.Relation
import PassTrace.Proofs.Snapshot.References

/-!
# Which texts a resolver remembers

From an index references lead back along a chain. A look-up fills the places of the whole chain: it
may stop early where a place is filled, but with every filled place those behind it are filled, too.
So what is filled are the chains of the indices that were looked up since the memory was emptied
last.
-/

namespace PassTrace

namespace Pipeline

variable (p : Pipeline)

/-- The pass at an index has a reference that leads back to another index. -/
def Refers (index index' : Nat) : Prop :=
  ∃ target, (p.pass? index).map Pass.reference = some (.sameAs target) ∧
    0 ≤ target ∧ target < index ∧ target.toNat = index'

/-- References lead back from an index to another one, in any number of steps. -/
def LeadsBack (index index' : Nat) : Prop :=
  Relation.ReflTransGen p.Refers index index'

/-- An integer as an index, if it is one of the pipeline. -/
def index? (n : Int) : Option Nat :=
  if 0 ≤ n ∧ n ≤ p.size then some n.toNat else none

/-- An index is on the chain of an integer that is looked up. -/
def IsOnChain (n : Int) (k : Nat) : Prop :=
  ∃ index ∈ p.index? n, p.LeadsBack index k

/-- The index whose text a call looks up, if there is such an index. The text before a pass that
changed nothing is that after it, and the text before the first pass needs no looking up. -/
def lookedUp? : Resolver.Call → Option Nat
  | .resolve n | .after n => p.index? n
  | .before n =>
    if n ≤ 1 then none
    else (p.pass? n).bind fun pass => p.index? (if pass.changed then n - 1 else n)
  | .clear | .reset _ => none

end Pipeline

/-- Whether a call empties the memory. -/
def Resolver.Call.forgets : Resolver.Call → Bool
  | .clear | .reset _ => true
  | .resolve _ | .after _ | .before _ => false

/-- The calls since the memory was emptied last. -/
def Resolver.sinceEmptied (calls : List Resolver.Call) : List Resolver.Call :=
  calls.rtakeWhile fun c => !c.forgets

/-- The indices that are to be remembered behind calls: zero, and those on the chain of an index
that was looked up since the memory was emptied last. -/
def Pipeline.toRemember (p : Pipeline) (calls : List Resolver.Call) : Set Nat :=
  {k | k = 0 ∨ ∃ c ∈ Resolver.sinceEmptied calls, ∃ index ∈ p.lookedUp? c, p.LeadsBack index k}

namespace Pipeline

variable {p : Pipeline} {index k : Nat}

theorem Refers.lt {index' : Nat} (h : p.Refers index index') : index' < index := by
  obtain ⟨target, -, hnonneg, hlt, rfl⟩ := h
  omega

/-- A reference leads to one index only. -/
theorem Refers.unique {target : Int}
    (hreference : (p.pass? index).map Pass.reference = some (.sameAs target))
    (h : p.Refers index k) : 0 ≤ target ∧ target < index ∧ target.toNat = k := by
  obtain ⟨target', hreference', hback⟩ := h
  rw [hreference] at hreference'
  obtain rfl := Reference.sameAs.inj (Option.some.inj hreference')
  exact hback

theorem LeadsBack.le (h : p.LeadsBack index k) : k ≤ index := by
  induction h with
  | refl => exact Nat.le_refl _
  | tail _ hstep ih => exact Nat.le_trans (Nat.le_of_lt hstep.lt) ih

/-- A chain ends, or it goes on with the index that is referred to. -/
theorem leadsBack_iff : p.LeadsBack index k ↔
    k = index ∨ ∃ index', p.Refers index index' ∧ p.LeadsBack index' k :=
  Relation.ReflTransGen.cases_head_iff.trans (or_congr_left eq_comm)

end Pipeline

namespace Resolver

variable {r : Resolver} {index k : Nat}

/-- With every index whose text is known, that of the index referred to is known. -/
def IsClosed (r : Resolver) : Prop :=
  ∀ {k k' : Nat}, (r.known? k).isSome → r.pipeline.Refers k k' → (r.known? k').isSome

theorem IsClosed.isSome_of_leadsBack (h : r.IsClosed) (hknown : (r.known? index).isSome)
    (hchain : r.pipeline.LeadsBack index k) : (r.known? k).isSome := by
  induction hchain with
  | refl => exact hknown
  | tail _ hstep ih => exact h ih hstep

/-- A walk visits indices on the chain of its start, the texts of which are not known. -/
theorem leadsBack_of_mem_visited (h : k ∈ (r.walk index).visited) :
    r.pipeline.LeadsBack index k ∧ r.known? k = none := by
  fun_induction Resolver.walk r index with
  | case1 => cases h
  | case2 _ hknown | case3 _ hknown | case5 _ hknown =>
    obtain rfl := List.mem_singleton.mp h
    exact ⟨.refl, hknown⟩
  | case4 index hknown target hreference hback w ih =>
    rcases List.mem_cons.mp h with rfl | hmem
    · exact ⟨.refl, hknown⟩
    · obtain ⟨hchain, hunknown⟩ := ih hmem
      exact ⟨hchain.head ⟨target, hreference, hback.1, hback.2, rfl⟩, hunknown⟩

/-- If the known texts are closed, a walk visits all of a chain that is not known. -/
theorem IsClosed.mem_visited (h : r.IsClosed) (hchain : r.pipeline.LeadsBack index k)
    (hunknown : r.known? k = none) : k ∈ (r.walk index).visited := by
  fun_induction Resolver.walk r index with
  | case1 index lines hknown =>
    -- The walk stops at once, but then the rest of the chain is known.
    have hsome := h.isSome_of_leadsBack (by rw [hknown]; rfl) hchain
    rw [hunknown] at hsome
    cases hsome
  | case2 index _ hreference =>
    rcases Pipeline.leadsBack_iff.mp hchain with rfl | ⟨index', ⟨target, hother, -⟩, -⟩
    · exact List.mem_singleton_self _
    · rw [hreference] at hother
      cases hother
  | case3 index _ lines hreference =>
    rcases Pipeline.leadsBack_iff.mp hchain with rfl | ⟨index', ⟨target, hother, -⟩, -⟩
    · exact List.mem_singleton_self _
    · rw [hreference] at hother
      cases hother
  | case4 index _ target hreference hback w ih =>
    rcases Pipeline.leadsBack_iff.mp hchain with rfl | ⟨index', hrefers, hrest⟩
    · exact List.mem_cons_self
    · obtain ⟨-, -, rfl⟩ := Pipeline.Refers.unique hreference hrefers
      exact List.mem_cons_of_mem _ (ih hrest)
  | case5 index _ target hreference hback =>
    rcases Pipeline.leadsBack_iff.mp hchain with rfl | ⟨index', hrefers, -⟩
    · exact List.mem_singleton_self _
    · obtain ⟨hnonneg, hlt, -⟩ := Pipeline.Refers.unique hreference hrefers
      exact absurd ⟨hnonneg, hlt⟩ hback

/-- A walk from an index visits exactly what is on its chain and not known. -/
theorem IsClosed.mem_visited_iff (h : r.IsClosed) :
    k ∈ (r.walk index).visited ↔ r.pipeline.LeadsBack index k ∧ r.known? k = none :=
  ⟨leadsBack_of_mem_visited, fun ⟨hchain, hunknown⟩ => h.mem_visited hchain hunknown⟩

section LookUps

/-- A look-up of an index fills the places of its chain that are not filled, each with the text that
it means, and leaves all others as they are. -/
theorem known?_resolve (hfaithful : r.Faithful) (hclosed : r.IsClosed) (n : Int) (k : Nat) :
    (r.pipeline.IsOnChain n k ∧ r.known? k = none →
      (r.resolve n).resolver.known? k = some (r.pipeline.meaning k)) ∧
    (¬(r.pipeline.IsOnChain n k ∧ r.known? k = none) →
      (r.resolve n).resolver.known? k = r.known? k) := by
  have hinside : (0 ≤ n ∧ n < r.cache.length) ↔ (0 ≤ n ∧ n ≤ r.pipeline.size) := by
    rw [hfaithful.length_eq]
    omega
  unfold Resolver.resolve Pipeline.IsOnChain Pipeline.index?
  by_cases hn : 0 ≤ n ∧ n ≤ r.pipeline.size
  · rw [if_pos (hinside.mpr hn), if_pos hn]
    have hmem : k ∈ (r.walk n.toNat).visited ↔ _ := hclosed.mem_visited_iff
    dsimp only
    rw [known?_remember]
    simp only [Option.mem_some_iff, exists_eq_left']
    refine ⟨fun hfilled => ?_, fun hkept => if_neg fun h => hkept (hmem.mp h.1)⟩
    have hplace : k < r.cache.length := by
      have hle := hfilled.1.le
      rw [hfaithful.length_eq]
      omega
    obtain ⟨hlines, hvisited⟩ := hfaithful.walk n.toNat
    rw [if_pos ⟨hmem.mpr hfilled, hplace⟩, hlines, (hvisited k (hmem.mpr hfilled)).2]
  · rw [if_neg (mt hinside.mp hn), if_neg hn]
    simp

/-- What is known after a look-up was known before it or is on the chain looked up. -/
theorem isSome_known?_resolve (hfaithful : r.Faithful) (hclosed : r.IsClosed) (n : Int) (k : Nat) :
    ((r.resolve n).resolver.known? k).isSome ↔
      (r.known? k).isSome ∨ r.pipeline.IsOnChain n k := by
  obtain ⟨hfills, hkeeps⟩ := known?_resolve hfaithful hclosed n k
  by_cases hfilled : r.pipeline.IsOnChain n k ∧ r.known? k = none
  · rw [hfills hfilled]
    exact iff_of_true rfl (.inr hfilled.1)
  · rw [hkeeps hfilled]
    cases hknown : r.known? k with
    | some lines => exact iff_of_true rfl (.inl rfl)
    | none => exact iff_of_false (by simp) (by simpa [hknown] using hfilled)

/-- What is known after a call that does not empty the memory. -/
theorem isSome_known?_call (hfaithful : r.Faithful) (hclosed : r.IsClosed) {c : Call}
    (hc : c.forgets = false) (k : Nat) :
    ((r.call c).2.known? k).isSome ↔
      (r.known? k).isSome ∨ ∃ index ∈ r.pipeline.lookedUp? c, r.pipeline.LeadsBack index k := by
  cases c with
  | clear | reset => cases hc
  | resolve n | after n => exact isSome_known?_resolve hfaithful hclosed n k
  | before n =>
    have hnothing : (r.known? k).isSome ↔ (r.known? k).isSome ∨
        ∃ index ∈ (none : Option Nat), r.pipeline.LeadsBack index k := by simp
    unfold Resolver.call Resolver.before Pipeline.lookedUp?
    dsimp only
    split
    · exact hnothing
    · cases r.pipeline.pass? n with
      | none => exact hnothing
      | some pass =>
        rw [Option.bind_some]
        dsimp only
        split
        · exact isSome_known?_resolve hfaithful hclosed (n - 1) k
        · exact isSome_known?_resolve hfaithful hclosed n k

theorem isSome_known?_new (p : Pipeline) (k : Nat) : ((new p).known? k).isSome ↔ k = 0 := by
  cases k with
  | zero => exact iff_of_true rfl rfl
  | succ k =>
    refine iff_of_false ?_ (by simp)
    simp only [new, known?, List.getElem?_cons_succ, List.getElem?_replicate]
    split <;> simp

end LookUps

section Runs

theorem sinceEmptied_concat (calls : List Call) (c : Call) :
    sinceEmptied (calls ++ [c]) = if c.forgets then [] else sinceEmptied calls ++ [c] := by
  unfold sinceEmptied
  rw [List.rtakeWhile_concat]
  cases c.forgets <;> rfl

/-- After a call that empties the memory only the initial text is to be remembered. -/
theorem mem_toRemember_of_forgets (p : Pipeline) (calls : List Call) {c : Call}
    (hc : c.forgets = true) : k ∈ p.toRemember (calls ++ [c]) ↔ k = 0 := by
  unfold Pipeline.toRemember
  rw [sinceEmptied_concat, if_pos hc]
  simp

/-- After any other call the chain that it looks up is to be remembered, too. -/
theorem mem_toRemember_concat (p : Pipeline) (calls : List Call) {c : Call}
    (hc : c.forgets = false) : k ∈ p.toRemember (calls ++ [c]) ↔
      k ∈ p.toRemember calls ∨ ∃ index ∈ p.lookedUp? c, p.LeadsBack index k := by
  unfold Pipeline.toRemember
  rw [sinceEmptied_concat, if_neg (by simp [hc])]
  simp only [Set.mem_ofPred_eq, List.mem_append, List.mem_singleton, or_and_right, exists_or,
    exists_eq_left, or_assoc]

/-- A resolver knows exactly the texts that are to be remembered. -/
structure Remembers (r : Resolver) (calls : List Call) : Prop extends Faithful r where
  isSome_iff : ∀ k, (r.known? k).isSome ↔ k ∈ r.pipeline.toRemember calls

/-- What is to be remembered is closed: a chain that goes through an index has all that is behind
it. -/
theorem Remembers.isClosed {calls : List Call} (h : r.Remembers calls) : r.IsClosed := by
  intro k k' hknown hrefers
  rw [h.isSome_iff] at hknown ⊢
  rcases hknown with rfl | ⟨c, hc, index, hindex, hchain⟩
  · exact absurd hrefers.lt (Nat.not_lt_zero _)
  · exact .inr ⟨c, hc, index, hindex, hchain.tail hrefers⟩

/-- One more call. -/
theorem Remembers.call {calls : List Call} (h : r.Remembers calls) (c : Call) :
    (r.call c).2.Remembers (calls ++ [c]) := by
  obtain ⟨-, hfaithful, hpipeline⟩ := h.toFaithful.call c
  refine ⟨hfaithful, fun k => ?_⟩
  rw [hpipeline]
  cases hc : c.forgets with
  | true =>
    rw [mem_toRemember_of_forgets _ _ hc]
    cases c with
    | clear => exact isSome_known?_new _ k
    | reset => exact isSome_known?_new _ k
    | resolve | after | before => cases hc
  | false =>
    have hsame : r.pipeline.afterCall c = r.pipeline := by
      cases c with
      | reset => cases hc
      | _ => rfl
    rw [hsame, mem_toRemember_concat _ _ hc, isSome_known?_call h.toFaithful h.isClosed hc,
      h.isSome_iff]

/-- A run of calls on a new resolver. The induction is on the calls, the last one first. -/
theorem remembers_behind (p : Pipeline) (calls : List Call) :
    ((new p).behind calls).Remembers calls := by
  induction calls using List.reverseRecOn with
  | nil => exact ⟨new_faithful p, fun k => by simp [behind, isSome_known?_new, Pipeline.toRemember,
      sinceEmptied]⟩
  | append_singleton calls c ih =>
    have hlast := ih.call c
    unfold behind at hlast ⊢
    rw [List.foldl_append, List.foldl_cons, List.foldl_nil]
    exact hlast

end Runs

section Counting

/-- The number of known texts is that of the indices whose text is known. -/
theorem cachedCount_eq (r : Resolver) : r.cachedCount = {k | (r.known? k).isSome}.ncard := by
  have hcache : r.cache = (List.range r.cache.length).map r.known? := by
    refine List.ext_getElem (by simp) fun k hk _ => ?_
    simp [known?, hk]
  have hplaces : {k | (r.known? k).isSome} =
      ((List.range r.cache.length).filter fun k => (r.known? k).isSome).toFinset := by
    ext k
    have hplace (hknown : (r.known? k).isSome) : k < r.cache.length := by
      by_contra hout
      simp [known?, List.getElem?_eq_none (Nat.le_of_not_lt hout)] at hknown
    simpa using hplace
  rw [hplaces, Set.ncard_coe_finset, List.toFinset_card_of_nodup (List.nodup_range.filter _),
    ← List.countP_eq_length_filter]
  unfold cachedCount
  conv_lhs => rw [hcache]
  exact List.countP_map ..

end Counting

/-- The memory of a resolver behind calls. -/
structure Memorizes (r : Resolver) (calls : List Call) : Prop where
  /-- The filled places are those of the chains that were looked up. -/
  isSome_iff : ∀ k, (r.known? k).isSome ↔ k ∈ r.pipeline.toRemember calls
  cachedCount_eq : r.cachedCount = (r.pipeline.toRemember calls).ncard
  /-- A look-up fills the places of its own chain. -/
  known?_of_isOnChain : ∀ {n : Int} {k : Nat}, r.pipeline.IsOnChain n k →
    (r.resolve n).resolver.known? k = some (r.pipeline.meaning k)
  /-- It leaves all other places as they are. -/
  known?_of_not_isOnChain : ∀ {n : Int} {k : Nat}, ¬r.pipeline.IsOnChain n k →
    (r.resolve n).resolver.known? k = r.known? k
  /-- It keeps every text that is known. -/
  known?_of_known? : ∀ {n : Int} {k : Nat} {lines : Lines}, r.known? k = some lines →
    (r.resolve n).resolver.known? k = some lines

/-- Over any pipeline and behind any calls a resolver remembers exactly the chains of the indices
that were looked up since its memory was emptied last. -/
theorem memorizes_behind (p : Pipeline) (calls : List Call) :
    ((new p).behind calls).Memorizes calls := by
  have h := remembers_behind p calls
  generalize (new p).behind calls = r at h ⊢
  have hresolve := known?_resolve h.toFaithful h.isClosed
  have hkept {n : Int} {k : Nat} {lines : Lines} (hknown : r.known? k = some lines) :
      (r.resolve n).resolver.known? k = some lines := by
    rw [← hknown]
    exact (hresolve n k).2 (by simp [hknown])
  refine ⟨h.isSome_iff, ?_, ?_, ?_, hkept⟩
  · rw [r.cachedCount_eq, Set.ext h.isSome_iff]
    rfl
  · intro n k hchain
    cases hknown : r.known? k with
    | none => exact (hresolve n k).1 ⟨hchain, hknown⟩
    | some lines => rw [hkept hknown, h.meaning_of_known hknown]
  · intro n k hchain
    exact (hresolve n k).2 (mt And.left hchain)

end Resolver
end PassTrace

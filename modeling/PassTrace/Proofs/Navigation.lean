import Mathlib.Order.Bounds.Basic
import PassTrace.Group
import PassTrace.Navigation
import PassTrace.Proofs.Snapshot.Memory

/-!
# Walking over the changes

A step goes to the nearest pass on one side that changed the module, from any index, inside the
pipeline or not. So steps from the front to the back meet every change once, in order, and steps
back meet the same ones the other way round.
-/

namespace PassTrace.Pipeline

open PassTrace.Group (changedAt)

/-- Steps from an index lead through a list of indices, and from its last one nowhere. -/
inductive Walks (step : Int → Option Nat) : Int → List Nat → Prop
  | stop {i : Int} (h : step i = none) : Walks step i []
  | go {i : Int} {k : Nat} {rest : List Nat} (h : step i = some k) (hrest : Walks step k rest) :
    Walks step i (k :: rest)

/-- A step from an index finds the first that it comes to of those that lie ahead, or that there is
none. -/
structure Finds (Changed : Nat → Prop) (ahead : Int → Int → Prop) (i : Int) (found : Option Nat) :
    Prop where
  of_some : ∀ {k : Nat}, found = some k →
    Changed k ∧ ahead i k ∧ ∀ j : Nat, Changed j → ahead i j → j = k ∨ ahead k j
  of_none : found = none → ∀ j : Nat, Changed j → ¬ ahead i j

/-- The steps from change to change are exact, and lead over all changes in either direction. -/
structure Navigates (p : Pipeline) : Prop where
  next_iff : ∀ (i : Int) (k : Nat),
    p.nextChanged i = some k ↔ IsLeast {j : Nat | changedAt p j ∧ i < j} k
  next_none_iff : ∀ i : Int, p.nextChanged i = none ↔ ∀ j : Nat, changedAt p j → ¬ i < j
  previous_iff : ∀ (i : Int) (k : Nat),
    p.previousChanged i = some k ↔ IsGreatest {j : Nat | changedAt p j ∧ j < i} k
  previous_none_iff : ∀ i : Int, p.previousChanged i = none ↔ ∀ j : Nat, changedAt p j → ¬ j < i
  enumerates : ∃ changes : List Nat, changes.Pairwise (· < ·) ∧
    (∀ j, j ∈ changes ↔ changedAt p j) ∧ changes.length = p.changedCount ∧
    Walks p.nextChanged 0 changes ∧ Walks p.previousChanged (p.size + 1) changes.reverse
  inverse : ∀ a b : Nat, changedAt p a → changedAt p b →
    (p.nextChanged a = some b ↔ p.previousChanged b = some a)

variable {p : Pipeline} {i : Int} {k : Nat}

section Finding

variable {Changed : Nat → Prop} {ahead : Int → Int → Prop} {found : Option Nat}

theorem Finds.some_iff [Std.Asymm ahead] (h : Finds Changed ahead i found) : found = some k ↔
    Changed k ∧ ahead i k ∧ ∀ j : Nat, Changed j → ahead i j → j = k ∨ ahead k j := by
  refine ⟨h.of_some, fun ⟨hchanged, hahead, hnearest⟩ => ?_⟩
  cases hfound : found with
  | none => exact absurd hahead (h.of_none hfound k hchanged)
  | some k' =>
    obtain ⟨hchanged', hahead', hnearest'⟩ := h.of_some hfound
    rcases hnearest k' hchanged' hahead' with rfl | hbehind
    · rfl
    · rcases hnearest' k hchanged hahead with rfl | hbehind'
      · rfl
      · exact absurd hbehind (asymm_of ahead hbehind')

theorem Finds.none_iff (h : Finds Changed ahead i found) :
    found = none ↔ ∀ j : Nat, Changed j → ¬ ahead i j := by
  refine ⟨h.of_none, fun hnone => Option.eq_none_iff_forall_ne_some.mpr fun k hk => ?_⟩
  obtain ⟨hchanged, hahead, -⟩ := h.of_some hk
  exact hnone k hchanged hahead

end Finding

section Changes

/-- Only a pass can have changed the module. -/
theorem changedAt_iff : changedAt p k = true ↔
    ∃ m, k = m + 1 ∧ ∃ hm : m < p.passes.length, p.passes[m].changed = true := by
  cases k with
  | zero =>
    have hnone : changedAt p 0 = false := rfl
    simp [hnone]
  | succ m =>
    rw [changedAt, pass?_natCast_succ]
    by_cases hm : m < p.passes.length
    · simp [hm]
    · simp [hm]

theorem map_changedAt (p : Pipeline) :
    (List.range' 1 p.size).map (changedAt p) = p.passes.map (·.changed) := by
  refine List.ext_getElem (by simp [size]) fun m hm hm' => ?_
  have hlt : m < p.passes.length := by simpa using hm'
  have hplace : 1 + m = m + 1 := Nat.add_comm 1 m
  simp only [List.getElem_map, List.getElem_range', Nat.one_mul, hplace]
  rw [changedAt, pass?_natCast_succ, List.getElem?_eq_getElem hlt]
  rfl

/-- The indices of the passes that changed the module, in order. -/
def changes (p : Pipeline) : List Nat :=
  (List.range' 1 p.size).filter (changedAt p)

theorem mem_changes : k ∈ p.changes ↔ changedAt p k = true := by
  unfold changes
  rw [List.mem_filter, List.mem_range'_1, and_iff_right_iff_imp]
  intro h
  obtain ⟨m, rfl, hm, -⟩ := changedAt_iff.mp h
  exact ⟨by omega, by unfold size; omega⟩

theorem pairwise_changes (p : Pipeline) : p.changes.Pairwise (· < ·) :=
  List.Pairwise.filter _ List.pairwise_lt_range'

theorem length_changes (p : Pipeline) : p.changes.length = p.changedCount := by
  have hcount : (List.range' 1 p.size).countP (changedAt p) =
      ((List.range' 1 p.size).map (changedAt p)).countP id := by
    rw [List.countP_map]
    rfl
  rw [changes, ← List.countP_eq_length_filter, hcount, map_changedAt, List.countP_map]
  rfl

end Changes

section Steps

theorem nextChanged_finds (p : Pipeline) (i : Int) :
    Finds (fun j => changedAt p j) (· < ·) i (p.nextChanged i) := by
  obtain ⟨s, hstart, hahead⟩ : ∃ s, (max (i + 1) 1).toNat = s + 1 ∧
      ∀ m : Nat, i < ((m + 1 : Nat) : Int) ↔ s ≤ m :=
    ⟨(max i 0).toNat, by omega, fun m => by omega⟩
  unfold nextChanged
  dsimp only
  rw [hstart, Nat.add_sub_cancel]
  constructor
  · intro k hk
    obtain ⟨d, hd, rfl⟩ := Option.map_eq_some_iff.mp hk
    obtain ⟨hlt, hchanged, hbefore⟩ := List.findIdx?_eq_some_iff_getElem.mp hd
    rw [List.length_drop] at hlt
    rw [List.getElem_drop] at hchanged
    have hplace : s + 1 + d = s + d + 1 := by omega
    refine ⟨changedAt_iff.mpr ⟨s + d, hplace, by omega, hchanged⟩, ?_, fun j hj hij => ?_⟩
    · rw [hplace, hahead]
      omega
    · obtain ⟨m, rfl, hm, hchanged'⟩ := changedAt_iff.mp hj
      rw [hahead] at hij
      -- A change before this place would have been met first.
      have hnot : ¬ m < s + d := by
        intro hmd
        refine hbefore (m - s) (by omega) ?_
        simpa [List.getElem_drop, Nat.add_sub_cancel' hij] using hchanged'
      omega
  · intro hnone j hj hij
    obtain ⟨m, rfl, hm, hchanged⟩ := changedAt_iff.mp hj
    rw [hahead] at hij
    have hall := List.findIdx?_eq_none_iff.mp (Option.map_eq_none_iff.mp hnone)
    have hmem : p.passes[m] ∈ p.passes.drop s := by
      rw [List.mem_drop_iff_getElem]
      exact ⟨m - s, by omega, by simp [Nat.add_sub_cancel' hij]⟩
    have := hall _ hmem
    simp [hchanged] at this

theorem previousChanged_finds (p : Pipeline) (i : Int) :
    Finds (fun j => changedAt p j) (· > ·) i (p.previousChanged i) := by
  obtain ⟨t, hstop, hsize, hahead⟩ : ∃ t, (min (i - 1) p.size).toNat = t ∧ t ≤ p.passes.length ∧
      ∀ m : Nat, m < p.passes.length → (i > ((m + 1 : Nat) : Int) ↔ m < t) := by
    unfold size
    exact ⟨_, rfl, by omega, fun m hm => by omega⟩
  unfold previousChanged
  dsimp only
  rw [hstop]
  constructor
  · intro k hk
    obtain ⟨d, hd, rfl⟩ := Option.map_eq_some_iff.mp hk
    obtain ⟨hlt, hchanged, hbehind⟩ := List.findIdx?_eq_some_iff_getElem.mp hd
    simp only [List.length_reverse, List.length_take, Nat.min_eq_left hsize] at hlt
    simp only [List.getElem_reverse, List.getElem_take, List.length_take,
      Nat.min_eq_left hsize] at hchanged hbehind
    have hplace : t - d = t - 1 - d + 1 := by omega
    refine ⟨changedAt_iff.mpr ⟨t - 1 - d, hplace, by omega, hchanged⟩, ?_, fun j hj hij => ?_⟩
    · rw [hplace, hahead _ (by omega)]
      omega
    · obtain ⟨m, rfl, hm, hchanged'⟩ := changedAt_iff.mp hj
      rw [hahead m hm] at hij
      -- A change behind this place would have been met first.
      have hnot : ¬ t - 1 - d < m := by
        intro hdm
        refine hbehind (t - 1 - m) (by omega) ?_
        have hback : t - 1 - (t - 1 - m) = m := by omega
        simpa only [hback] using hchanged'
      omega
  · intro hnone j hj hij
    obtain ⟨m, rfl, hm, hchanged⟩ := changedAt_iff.mp hj
    rw [hahead m hm] at hij
    have hall := List.findIdx?_eq_none_iff.mp (Option.map_eq_none_iff.mp hnone)
    have hmem : p.passes[m] ∈ (p.passes.take t).reverse := by
      rw [List.mem_reverse, List.mem_take_iff_getElem]
      exact ⟨m, by omega, rfl⟩
    have hunchanged := hall _ hmem
    simp [hchanged] at hunchanged

end Steps

section Walking

variable {Changed : Nat → Prop} {ahead : Int → Int → Prop} [IsTrans Int ahead] [Std.Asymm ahead]
  {step : Int → Option Nat}

variable (ahead) in
/-- Steps that find what comes next lead over all that lies ahead, in order. -/
theorem walks_of_finds (hstep : ∀ i, Finds Changed ahead i (step i)) {way : List Nat}
    (hmem : ∀ j, j ∈ way ↔ Changed j ∧ ahead i j)
    (hordered : way.Pairwise fun j k : Nat => ahead j k) : Walks step i way := by
  induction way generalizing i with
  | nil =>
    refine .stop (Option.eq_none_iff_forall_ne_some.mpr fun k hk => ?_)
    obtain ⟨hchanged, hahead, -⟩ := (hstep i).of_some hk
    cases (hmem k).mpr ⟨hchanged, hahead⟩
  | cons k rest ih =>
    obtain ⟨hfirst, hrest⟩ := List.pairwise_cons.mp hordered
    obtain ⟨hchanged, hahead⟩ := (hmem k).mp List.mem_cons_self
    cases hk : step i with
    | none => exact absurd hahead ((hstep i).of_none hk k hchanged)
    | some found =>
      obtain ⟨hchanged', hahead', hnearest⟩ := (hstep i).of_some hk
      have hsame : found = k := by
        rcases List.mem_cons.mp ((hmem found).mpr ⟨hchanged', hahead'⟩) with hsame | hlater
        · exact hsame
        · rcases hnearest k hchanged hahead with hsame | hbefore
          · exact hsame.symm
          · exact absurd hbefore (asymm_of ahead (hfirst found hlater))
      subst hsame
      refine .go hk (ih (fun j => ⟨fun hj => ?_, fun ⟨hj, hkj⟩ => ?_⟩) hrest)
      · exact ⟨((hmem j).mp (List.mem_cons_of_mem _ hj)).1, hfirst j hj⟩
      · refine (List.mem_cons.mp ((hmem j).mpr ⟨hj, trans_of ahead hahead hkj⟩)).resolve_left ?_
        rintro rfl
        exact irrefl_of ahead _ hkj

theorem walks_nextChanged (p : Pipeline) : Walks p.nextChanged 0 p.changes := by
  refine walks_of_finds (· < ·) p.nextChanged_finds (fun j => ?_) ?_
  · rw [mem_changes, iff_self_and]
    intro h
    obtain ⟨m, rfl, -⟩ := changedAt_iff.mp h
    omega
  · exact p.pairwise_changes.imp Int.ofNat_lt.mpr

theorem walks_previousChanged (p : Pipeline) :
    Walks p.previousChanged (p.size + 1) p.changes.reverse := by
  refine walks_of_finds (· > ·) p.previousChanged_finds (fun j => ?_) ?_
  · rw [List.mem_reverse, mem_changes, iff_self_and]
    intro h
    obtain ⟨m, rfl, hm, -⟩ := changedAt_iff.mp h
    unfold size
    omega
  · exact List.pairwise_reverse.mpr (p.pairwise_changes.imp Int.ofNat_lt.mpr)

end Walking

/-- Going from change to change is exact from every index, and meets every change. -/
theorem navigates (p : Pipeline) : Navigates p where
  next_iff := by
    intro i k
    rw [(p.nextChanged_finds i).some_iff, IsLeast, mem_lowerBounds, Set.mem_ofPred_eq, and_assoc]
    refine and_congr_right fun _ => and_congr_right fun _ => forall_congr' fun j => ?_
    rw [Set.mem_ofPred_eq, and_imp]
    exact forall₂_congr fun _ _ => by omega
  next_none_iff := fun i => (p.nextChanged_finds i).none_iff
  previous_iff := by
    intro i k
    rw [(p.previousChanged_finds i).some_iff, IsGreatest, mem_upperBounds, Set.mem_ofPred_eq,
      and_assoc]
    refine and_congr_right fun _ => and_congr_right fun _ => forall_congr' fun j => ?_
    rw [Set.mem_ofPred_eq, and_imp]
    exact forall₂_congr fun _ _ => by omega
  previous_none_iff := fun i => (p.previousChanged_finds i).none_iff
  enumerates := ⟨p.changes, p.pairwise_changes, fun _ => mem_changes, p.length_changes,
    p.walks_nextChanged, p.walks_previousChanged⟩
  inverse := by
    intro a b ha hb
    rw [(p.nextChanged_finds a).some_iff, (p.previousChanged_finds b).some_iff,
      and_iff_right hb, and_iff_right ha]
    -- Both sides say that no change lies between the two.
    refine and_congr_right fun _ => forall_congr' fun j => forall_congr' fun _ => ?_
    omega

end PassTrace.Pipeline

import PassTrace.Proofs.Group.Segments

/-!
# Groups by first fit

Each pass joins the first open group that admits it, or opens one. The groups that come of this are
told without the search: every leader has one, with all that belong together with it, in the order
of the leaders.
-/

namespace PassTrace

/-- A group admits the runs of its pass and kind over a target that is new. -/
theorem Collapsed.admits_iff (g : Collapsed) (pass : Pass) :
    g.admits pass = true ↔ (g.pass = pass.name ∧ g.kind = pass.scope.kind) ∧
      pass.scope.target ∉ g.members.map (·.target) := by
  simp [Collapsed.admits]

namespace Pipeline

variable {p : Pipeline} {i j k : Nat}

/-- The pass at an index that there is. -/
def passAt (p : Pipeline) (index : Nat) : Pass :=
  (p.pass? index).getD default

/-- The pass at an index as a member of a group. -/
def memberAt (p : Pipeline) (index : Nat) : Member :=
  ⟨(p.passAt index).scope.target, index⟩

/-- The group of a leader, with those of the first `k` passes that belong together with it. -/
def groupUpTo (p : Pipeline) (k leader : Nat) : Collapsed where
  pass := (p.passAt leader).name
  kind := (p.passAt leader).scope.kind
  members := ((List.range' 1 k).filter (p.Together leader)).map p.memberAt

/-- The leaders among the first `k` passes whose groups are open behind them. -/
def openLeaders (p : Pipeline) (k : Nat) : List Nat :=
  (List.range' 1 k).filter fun i => p.Leads i ∧ p.AreMates i k

/-- What the group of a leader holds. -/
def contentAt (p : Pipeline) (leader : Nat) : GroupContent :=
  if p.isModuleAt leader then .standalone leader else .collapsed (p.groupUpTo p.size leader)

/-- The pass at an index that is not beyond the end. -/
theorem pass?_eq (hi : 1 ≤ i) (hsize : i ≤ p.size) : p.pass? i = some (p.passAt i) := by
  obtain ⟨k, rfl⟩ : ∃ k, i = k + 1 := ⟨i - 1, by omega⟩
  have hk : k < p.passes.length := hsize
  unfold passAt
  rw [pass?_natCast_succ, List.getElem?_eq_getElem hk]
  rfl

/-- Whether a pass runs on the whole module. -/
theorem isModuleAt_eq_true_iff (hi : 1 ≤ i) (hsize : i ≤ p.size) :
    p.isModuleAt i = true ↔ (p.passAt i).scope.kind = .module := by
  unfold isModuleAt
  rw [pass?_eq hi hsize]
  simp

/-- Names and kinds of passes agree. -/
theorem kindAt?_eq_iff (hi : 1 ≤ i) (hi' : i ≤ p.size) (hj : 1 ≤ j) (hj' : j ≤ p.size) :
    p.kindAt? i = p.kindAt? j ↔
      (p.passAt i).name = (p.passAt j).name ∧
        (p.passAt i).scope.kind = (p.passAt j).scope.kind := by
  unfold kindAt?
  rw [pass?_eq hi hi', pass?_eq hj hj']
  simp

/-- Passes are runs over one target. -/
theorem runAt?_eq_iff (hi : 1 ≤ i) (hi' : i ≤ p.size) (hj : 1 ≤ j) (hj' : j ≤ p.size) :
    p.runAt? i = p.runAt? j ↔
      p.kindAt? i = p.kindAt? j ∧ (p.passAt i).scope.target = (p.passAt j).scope.target := by
  rw [kindAt?_eq_iff hi hi' hj hj']
  unfold runAt?
  rw [pass?_eq hi hi', pass?_eq hj hj']
  simp only [Option.map_some, Option.some.injEq, Prod.mk.injEq]
  have hscope (s s' : Scope) : s = s' ↔ s.kind = s'.kind ∧ s.target = s'.target := by
    cases s
    cases s'
    simp
  rw [hscope, and_assoc]

/-- Only an index with a pass agrees with one in name and kind. -/
theorem one_le_of_kindAt?_eq (h : p.kindAt? i = p.kindAt? j) (hi : 1 ≤ i) (hsize : i ≤ p.size) :
    1 ≤ j := by
  by_contra hzero
  obtain rfl : j = 0 := by omega
  unfold kindAt? at h
  rw [pass?_eq hi hsize] at h
  cases h

theorem mem_openLeaders : i ∈ p.openLeaders k ↔ 1 ≤ i ∧ i ≤ k ∧ p.Leads i ∧ p.AreMates i k := by
  unfold openLeaders
  rw [List.mem_filter, List.mem_range'_1]
  simp only [decide_eq_true_eq]
  constructor
  · rintro ⟨⟨hi, hlt⟩, hleads, hmates⟩
    exact ⟨hi, by omega, hleads, hmates⟩
  · rintro ⟨hi, hlt, hleads, hmates⟩
    exact ⟨⟨hi, by omega⟩, hleads, hmates⟩

/-- The open leaders stand in order. -/
theorem pairwise_openLeaders (p : Pipeline) (k : Nat) : (p.openLeaders k).Pairwise (· < ·) :=
  (List.pairwise_lt_range').filter _

/-- Behind one more pass a group may have it as its last member. -/
theorem groupUpTo_succ (p : Pipeline) (k leader : Nat) :
    p.groupUpTo (k + 1) leader =
      if p.Together leader (k + 1) then
        { p.groupUpTo k leader with
          members := (p.groupUpTo k leader).members ++ [p.memberAt (k + 1)] }
      else p.groupUpTo k leader := by
  unfold groupUpTo
  rw [List.range'_1_concat, List.filter_append, Nat.add_comm 1 k]
  by_cases h : p.Together leader (k + 1)
  · simp [h]
  · simp [h]

/-- A group stays as it is behind the end of its segment. -/
theorem groupUpTo_eq {n : Nat} (hkn : k ≤ n) (hend : ∀ j, k < j → j ≤ n → ¬ p.Together i j) :
    p.groupUpTo n i = p.groupUpTo k i := by
  induction n, hkn using Nat.le_induction with
  | base => rfl
  | succ n hkn ih =>
    rw [groupUpTo_succ, if_neg (hend (n + 1) (by omega) (Nat.le_refl _))]
    exact ih fun j hkj hjn => hend j hkj (by omega)

/-- A group admits a pass of its name and kind over a target that none of its members has. -/
theorem admits_groupUpTo_iff (hi : 1 ≤ i) (hik : i ≤ k) (hk : k + 1 ≤ p.size) :
    (p.groupUpTo k i).admits (p.passAt (k + 1)) = true ↔
      p.kindAt? i = p.kindAt? (k + 1) ∧
        ∀ j, 1 ≤ j → j ≤ k → p.Together i j →
          (p.passAt j).scope.target ≠ (p.passAt (k + 1)).scope.target := by
  rw [kindAt?_eq_iff hi (by omega) (by omega) hk, Collapsed.admits_iff]
  simp only [groupUpTo, memberAt, List.map_map, List.mem_map, List.mem_filter, decide_eq_true_eq,
    List.mem_range'_1, Function.comp_apply, not_exists, not_and]
  constructor
  · rintro ⟨hsame, hnew⟩
    exact ⟨hsame, fun j hj hjk htogether => hnew j ⟨⟨hj, by omega⟩, htogether⟩⟩
  · rintro ⟨hsame, hnew⟩
    exact ⟨hsame, fun j hj => hnew j hj.1.1 (by omega) hj.2⟩

/-- An open group admits the next pass if it is of the same kind, and of no lower rank: the targets
of a group are those met more often than its rank says. -/
theorem admits_groupUpTo (hlead : i ∈ p.openLeaders k) (hk : k + 1 ≤ p.size)
    (hmodule : p.isModuleAt (k + 1) = false) :
    (p.groupUpTo k i).admits (p.passAt (k + 1)) = true ↔
      p.kindAt? i = p.kindAt? (k + 1) ∧ p.rank (k + 1) ≤ p.rank i := by
  obtain ⟨hi, hik, -, hmates⟩ := mem_openLeaders.1 hlead
  have hmates' : p.AreMates i (k + 1) := (areMates_succ_iff hik).2 ⟨hmates, hmodule⟩
  rw [admits_groupUpTo_iff hi hik hk]
  refine and_congr_right fun hsame => ⟨fun hnew => ?_, fun hrank j hj hjk htogether htarget => ?_⟩
  · -- A run of the rank of the group would be a member of it with this target.
    by_contra hlt
    obtain ⟨j, hjk, hrepeats, hrank⟩ := exists_rank_eq hmodule
      (by omega : p.rank i ≤ p.rank (k + 1))
    have hne : j ≠ k + 1 := by
      rintro rfl
      omega
    have hj : 1 ≤ j := one_le_of_kindAt?_eq hrepeats.kindAt?_eq (by omega) hk
    have htogether : p.Together i j :=
      ⟨hmates'.trans hrepeats.1, hsame.trans hrepeats.kindAt?_eq, hrank.symm⟩
    have hruns := (runAt?_eq_iff (by omega) hk hj (by omega)).1 hrepeats.2
    exact hnew j hj (by omega) htogether hruns.2.symm
  · -- A member with this target would be an earlier run, of a lower rank than this one.
    have hrun : p.runAt? (k + 1) = p.runAt? j :=
      (runAt?_eq_iff (by omega) hk hj (by omega)).2 ⟨hsame.symm.trans htogether.2.1, htarget.symm⟩
    have hrepeats : p.Repeats (k + 1) j := ⟨hmates'.symm.trans htogether.1, hrun⟩
    have hlt := hrepeats.rank_lt (by omega)
    have hsame' := htogether.2.2
    omega

end Pipeline

namespace Collapsed

/-- A run joins the first group that admits it. -/
theorem insert_append {pass : Pass} {index : Nat} {front back : List Collapsed} {g : Collapsed}
    (hfront : ∀ other ∈ front, other.admits pass = false) (hg : g.admits pass = true) :
    insert pass index (front ++ g :: back) =
      front ++ { g with members := g.members ++ [⟨pass.scope.target, index⟩] } :: back := by
  induction front with
  | nil => simp [insert, hg]
  | cons other front ih =>
    have hother := hfront other List.mem_cons_self
    rw [List.cons_append, insert, if_neg (by simp [hother]),
      ih fun g hg => hfront g (List.mem_cons_of_mem _ hg)]
    rfl

/-- A run that no group admits opens one. -/
theorem insert_of_not_admits {pass : Pass} {index : Nat} {groups : List Collapsed}
    (h : ∀ g ∈ groups, g.admits pass = false) :
    insert pass index groups = groups ++
      [{ pass := pass.name
         kind := pass.scope.kind
         members := [⟨pass.scope.target, index⟩] }] := by
  induction groups with
  | nil => rfl
  | cons g groups ih =>
    rw [insert, if_neg (by simp [h g List.mem_cons_self]),
      ih fun other hother => h other (List.mem_cons_of_mem _ hother)]
    rfl

end Collapsed

namespace Pipeline

variable {p : Pipeline} {i k : Nat}

/-- Behind a pass over the whole module no group is open. -/
theorem openLeaders_of_isModuleAt (h : p.isModuleAt (k + 1) = true) :
    p.openLeaders (k + 1) = [] := by
  apply List.eq_nil_iff_forall_not_mem.2
  intro i hi
  have hmates := (mem_openLeaders.1 hi).2.2.2
  rw [hmates.isModuleAt_right] at h
  cases h

/-- Behind any other pass the groups stay open, and it has its own if it leads. -/
theorem openLeaders_succ (h : p.isModuleAt (k + 1) = false) :
    p.openLeaders (k + 1) = p.openLeaders k ++ [k + 1].filter fun i => p.Leads i := by
  unfold openLeaders
  rw [List.range'_1_concat, List.filter_append, Nat.add_comm 1 k]
  congr 1
  · apply List.filter_congr
    intro i hi
    have hik : i ≤ k := by
      have := List.mem_range'_1.1 hi
      omega
    simp [areMates_succ_iff hik, h]
  · apply List.filter_congr
    intro i hi
    obtain rfl := List.mem_singleton.1 hi
    simp [areMates_self h]

/-- A pass that leads has a group of its own at first. -/
theorem groupUpTo_self (hmodule : p.isModuleAt (k + 1) = false) (hleads : p.Leads (k + 1)) :
    p.groupUpTo (k + 1) (k + 1) =
      { pass := (p.passAt (k + 1)).name, kind := (p.passAt (k + 1)).scope.kind,
        members := [p.memberAt (k + 1)] } := by
  have hnone : (List.range' 1 k).filter (p.Together (k + 1)) = [] := by
    apply List.filter_eq_nil_iff.2
    intro i hi htogether
    have := List.mem_range'_1.1 hi
    exact hleads i (by omega) (of_decide_eq_true htogether).symm
  unfold groupUpTo
  rw [List.range'_1_concat, List.filter_append, hnone, Nat.add_comm 1 k]
  simp [together_self hmodule]

section Next

variable {leader : Nat} (hk : k + 1 ≤ p.size) (hmodule : p.isModuleAt (k + 1) = false)
  (hleads : p.Leads leader) (htogether : p.Together leader (k + 1))
include hleads htogether

/-- Of the open groups only that of its leader takes up the next pass. -/
theorem map_groupUpTo_succ {leaders : List Nat}
    (h : ∀ i ∈ leaders, i ∈ p.openLeaders k ∧ i ≠ leader) :
    leaders.map (p.groupUpTo (k + 1)) = leaders.map (p.groupUpTo k) := by
  apply List.map_congr_left
  intro i hi
  obtain ⟨hopen, hne⟩ := h i hi
  rw [groupUpTo_succ, if_neg]
  intro hnext
  exact hne ((mem_openLeaders.1 hopen).2.2.1.eq hleads (hnext.trans htogether.symm))

include hk hmodule

/-- No open group in front of that of its leader admits the next pass: those of its kind have lower
ranks. -/
theorem not_admits_of_lt_leader (hi : i ∈ p.openLeaders k) (hlt : i < leader) :
    (p.groupUpTo k i).admits (p.passAt (k + 1)) = false := by
  obtain ⟨-, hik, hlead, hmates⟩ := mem_openLeaders.1 hi
  have hmates' : p.AreMates i (k + 1) := (areMates_succ_iff hik).2 ⟨hmates, hmodule⟩
  by_contra hadmits
  obtain ⟨hkind, hrank⟩ := (admits_groupUpTo hi hk hmodule).1 (by simpa using hadmits)
  rcases Nat.eq_or_lt_of_le hrank with heq | hgreater
  · have hsame : p.Together i (k + 1) := ⟨hmates', hkind, heq.symm⟩
    have := hlead.eq hleads (hsame.trans htogether.symm)
    omega
  · rw [← htogether.2.2] at hgreater
    have := hleads.lt_of_rank_lt (htogether.1.trans hmates'.symm) (htogether.2.1.trans hkind.symm)
      hgreater
    omega

end Next

/-- A pass that leads opens a group. -/
theorem insert_of_leads (hk : k + 1 ≤ p.size) (hmodule : p.isModuleAt (k + 1) = false)
    (hleads : p.Leads (k + 1)) :
    Collapsed.insert (p.passAt (k + 1)) (k + 1) ((p.openLeaders k).map (p.groupUpTo k)) =
      (p.openLeaders (k + 1)).map (p.groupUpTo (k + 1)) := by
  have hself := together_self hmodule
  have hbefore {i : Nat} (hi : i ∈ p.openLeaders k) : i < k + 1 :=
    Nat.lt_succ_of_le (mem_openLeaders.1 hi).2.1
  have hnot : ∀ g ∈ (p.openLeaders k).map (p.groupUpTo k),
      g.admits (p.passAt (k + 1)) = false := by
    intro g hg
    obtain ⟨i, hi, rfl⟩ := List.mem_map.1 hg
    exact not_admits_of_lt_leader hk hmodule hleads hself hi (hbefore hi)
  have hkept : (p.openLeaders k).map (p.groupUpTo (k + 1)) =
      (p.openLeaders k).map (p.groupUpTo k) :=
    map_groupUpTo_succ hleads hself fun i hi => ⟨hi, Nat.ne_of_lt (hbefore hi)⟩
  rw [Collapsed.insert_of_not_admits hnot, openLeaders_succ hmodule, List.map_append, hkept]
  simp [hleads, groupUpTo_self hmodule hleads, memberAt]

/-- Any other pass joins the group of its leader. -/
theorem insert_of_not_leads (hk : k + 1 ≤ p.size) (hmodule : p.isModuleAt (k + 1) = false)
    (hfollows : ¬ p.Leads (k + 1)) :
    Collapsed.insert (p.passAt (k + 1)) (k + 1) ((p.openLeaders k).map (p.groupUpTo k)) =
      (p.openLeaders (k + 1)).map (p.groupUpTo (k + 1)) := by
  obtain ⟨leader, hle, hleads, htogether⟩ := exists_leads hmodule
  have hne : leader ≠ k + 1 := by
    rintro rfl
    exact hfollows hleads
  have hopen : leader ∈ p.openLeaders k :=
    mem_openLeaders.2 ⟨one_le_of_kindAt?_eq htogether.2.1.symm (by omega) hk, by omega, hleads,
      htogether.1.of_between (by omega) (by omega)⟩
  -- The open groups stand in the order of their leaders.
  obtain ⟨front, back, hsplit⟩ := List.append_of_mem hopen
  have hsorted := p.pairwise_openLeaders k
  rw [hsplit] at hsorted
  obtain ⟨-, hback, hcross⟩ := List.pairwise_append.1 hsorted
  have hfront : ∀ i ∈ front, i ∈ p.openLeaders k ∧ i < leader := by
    intro i hi
    rw [hsplit]
    exact ⟨List.mem_append_left _ hi, hcross i hi leader List.mem_cons_self⟩
  have hbehind : ∀ i ∈ back, i ∈ p.openLeaders k ∧ leader < i := by
    intro i hi
    rw [hsplit]
    exact ⟨List.mem_append_right _ (List.mem_cons_of_mem _ hi), (List.pairwise_cons.1 hback).1 i hi⟩
  -- The groups in front have met the target already. The first that has not is the leader's.
  have hnot : ∀ g ∈ front.map (p.groupUpTo k), g.admits (p.passAt (k + 1)) = false := by
    intro g hg
    obtain ⟨i, hi, rfl⟩ := List.mem_map.1 hg
    exact not_admits_of_lt_leader hk hmodule hleads htogether (hfront i hi).1 (hfront i hi).2
  have hadmits : (p.groupUpTo k leader).admits (p.passAt (k + 1)) = true :=
    (admits_groupUpTo hopen hk hmodule).2 ⟨htogether.2.1, Nat.le_of_eq htogether.2.2.symm⟩
  have hkeptFront := map_groupUpTo_succ hleads htogether
    fun i hi => ⟨(hfront i hi).1, Nat.ne_of_lt (hfront i hi).2⟩
  have hkeptBack := map_groupUpTo_succ hleads htogether
    fun i hi => ⟨(hbehind i hi).1, Nat.ne_of_gt (hbehind i hi).2⟩
  have hnone : [k + 1].filter (fun i => decide (p.Leads i)) = [] := by simp [hfollows]
  rw [openLeaders_succ hmodule, hnone, List.append_nil, hsplit, List.map_append, List.map_append,
    List.map_cons, List.map_cons, Collapsed.insert_append hnot hadmits, hkeptFront, hkeptBack,
    groupUpTo_succ, if_pos htogether]
  rfl

/-- The next pass joins the group of its leader, or opens its own. -/
theorem insert_next (hk : k + 1 ≤ p.size) (hmodule : p.isModuleAt (k + 1) = false) :
    Collapsed.insert (p.passAt (k + 1)) (k + 1) ((p.openLeaders k).map (p.groupUpTo k)) =
      (p.openLeaders (k + 1)).map (p.groupUpTo (k + 1)) := by
  by_cases hleads : p.Leads (k + 1)
  · exact insert_of_leads hk hmodule hleads
  · exact insert_of_not_leads hk hmodule hleads

/-- A group that is closed by a pass over the whole module is complete. -/
theorem groupUpTo_size (hk : k ≤ p.size) (hmodule : p.isModuleAt (k + 1) = true)
    (hi : i ∈ p.openLeaders k) : p.groupUpTo p.size i = p.groupUpTo k i := by
  obtain ⟨-, hik, -, -⟩ := mem_openLeaders.1 hi
  refine groupUpTo_eq hk fun j hkj hjn htogether => ?_
  have hclosed := htogether.1.of_between (by omega : i ≤ k + 1) (by omega)
  rw [hclosed.isModuleAt_right] at hmodule
  cases hmodule

/-- The content of an open leader is its group. -/
theorem contentAt_of_mem_openLeaders (hi : i ∈ p.openLeaders k) :
    p.contentAt i = .collapsed (p.groupUpTo p.size i) := by
  have hmodule := (mem_openLeaders.1 hi).2.2.2.symm.isModuleAt_right
  unfold contentAt
  rw [if_neg (by simp [hmodule])]

/-- The groups that are open in front of a pass over the whole module, or at the end, are shown as
they are. -/
theorem map_collapsed_openLeaders (hcomplete : ∀ i ∈ p.openLeaders k,
    p.groupUpTo p.size i = p.groupUpTo k i) :
    ((p.openLeaders k).map (p.groupUpTo k)).map GroupContent.collapsed =
      (p.openLeaders k).map p.contentAt := by
  rw [List.map_map]
  apply List.map_congr_left
  intro i hi
  rw [contentAt_of_mem_openLeaders hi, hcomplete i hi]
  rfl

/-- The leaders behind `k` passes. -/
def leadersFrom (p : Pipeline) (k : Nat) : List Nat :=
  (List.range' (k + 1) (p.size - k)).filter fun i => p.Leads i

/-- The next pass is the first of the leaders behind, if it leads. -/
theorem leadersFrom_eq (hk : k < p.size) :
    p.leadersFrom k = ([k + 1].filter fun i => p.Leads i) ++ p.leadersFrom (k + 1) := by
  obtain ⟨rest, hrest⟩ : ∃ rest, p.size - k = rest + 1 := ⟨p.size - k - 1, by omega⟩
  have hrest' : p.size - (k + 1) = rest := by omega
  unfold leadersFrom
  rw [hrest, hrest', List.range'_succ, ← List.filter_append, List.singleton_append]

/-- From the first `k` passes on, the groups that come are those of the open leaders and of the
leaders behind them. -/
theorem collect_drop (hk : k ≤ p.size) :
    Group.collect ((p.openLeaders k).map (p.groupUpTo k)) (k + 1) (p.passes.drop k) =
      (p.openLeaders k ++ p.leadersFrom k).map p.contentAt := by
  obtain ⟨left, hleft⟩ : ∃ left, p.size = k + left := ⟨p.size - k, by omega⟩
  induction left generalizing k with
  | zero =>
    obtain rfl : p.size = k := hleft
    have hdrop : p.passes.drop p.size = [] := List.drop_of_length_le (Nat.le_refl _)
    have hnone : p.leadersFrom p.size = [] := by simp [leadersFrom]
    rw [hdrop, hnone, List.append_nil, Group.collect]
    exact map_collapsed_openLeaders fun i _ => rfl
  | succ left ih =>
    have hlt : k < p.passes.length := by
      change k < p.size
      omega
    have hpass : p.passAt (k + 1) = p.passes[k] := by
      unfold passAt
      rw [pass?_natCast_succ, List.getElem?_eq_getElem hlt]
      rfl
    have hkind := isModuleAt_eq_true_iff (p := p) (by omega : 1 ≤ k + 1) (by omega)
    have hnext := ih (by omega : k + 1 ≤ p.size) (by omega)
    rw [List.drop_eq_getElem_cons hlt, Group.collect, ← hpass, leadersFrom_eq hlt]
    cases hmodule : p.isModuleAt (k + 1) with
    | true =>
      have hleads : p.Leads (k + 1) := leads_of_isModuleAt hmodule
      have hopen := map_collapsed_openLeaders fun i hi => groupUpTo_size hk hmodule hi
      rw [openLeaders_of_isModuleAt hmodule, List.map_nil, List.nil_append] at hnext
      rw [if_pos (hkind.1 hmodule), hnext, hopen]
      simp [contentAt, hmodule, hleads]
    | false =>
      rw [if_neg (mt hkind.2 (by simp [hmodule])), insert_next (by omega) hmodule, hnext,
        openLeaders_succ hmodule, List.append_assoc]

/-- The groups of a pipeline are those of its leaders, in order. -/
theorem collect_passes (p : Pipeline) :
    Group.collect [] 1 p.passes = ((List.range' 1 p.size).filter fun i => p.Leads i).map
      p.contentAt :=
  collect_drop (Nat.zero_le p.size)

end Pipeline

end PassTrace

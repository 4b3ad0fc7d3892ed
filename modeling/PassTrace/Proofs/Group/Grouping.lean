import PassTrace.Proofs.Group.FirstFit

/-!
# What the groups of a pipeline are

The groups part the passes. A pass over the whole module stands alone; two others share a group
exactly if they are of one segment, one name, one kind of scope and one rank. Groups stand in the
order of their first passes, and within a group the passes that changed something come first.
-/

namespace PassTrace

/-- The runs of a collapsed group are those of its pass and kind, the ones that changed the module
in front, and each half in the order of the pipeline. -/
structure Collapsed.Arranged (p : Pipeline) (c : Collapsed) : Prop where
  members : ∀ m ∈ c.members, ∃ pass, p.pass? m.index = some pass ∧ pass.name = c.pass ∧
    pass.scope.kind = c.kind ∧ pass.scope.target = m.target
  halves : ∃ front back, c.members = front ++ back ∧
    (∀ m ∈ front, Group.changedAt p m.index = true) ∧
    (∀ m ∈ back, Group.changedAt p m.index = false) ∧
    front.Pairwise (·.index < ·.index) ∧ back.Pairwise (·.index < ·.index)
  hasChanges_iff : c.hasChanges = true ↔ ∃ m ∈ c.members, Group.changedAt p m.index = true
  folded : c.folded = true

/-- A list of groups is the grouping of a pipeline. -/
structure Grouping (p : Pipeline) (groups : List Group) : Prop where
  places : groups.map (·.place) = List.range' 1 groups.length
  firsts : ∃ firsts : List Nat, groups.map (·.indices.min?) = firsts.map some ∧
    firsts.Pairwise (· < ·)
  indices : (groups.flatMap Group.indices).Perm (List.range' 1 p.size)
  standalone : ∀ {i : Nat}, (∃ g ∈ groups, g.content = .standalone i) ↔
    ∃ pass, p.pass? i = some pass ∧ pass.scope.kind = .module
  shared : ∀ {i j : Nat} {a b : Pass}, p.pass? i = some a → p.pass? j = some b →
    a.scope.kind ≠ .module → b.scope.kind ≠ .module →
    ((∃ g ∈ groups, ∃ c, g.content = .collapsed c ∧ i ∈ g.indices ∧ j ∈ g.indices) ↔
      p.AreMates i j ∧ a.name = b.name ∧ a.scope.kind = b.scope.kind ∧ p.rank i = p.rank j)
  arranged : ∀ {g c}, g ∈ groups → g.content = .collapsed c → c.Arranged p

namespace Collapsed

/-- Arranging a group permutes its runs. -/
theorem members_arrange_perm (changed : Nat → Bool) (g : Collapsed) :
    (g.arrange changed).members.Perm g.members := by
  unfold arrange
  rw [List.partition_eq_filter_filter]
  exact List.filter_append_perm _ _

end Collapsed

namespace Pipeline

variable {p : Pipeline} {i j k : Nat}

/-- The passes that lead groups, in order. -/
def leaders (p : Pipeline) : List Nat :=
  (List.range' 1 p.size).filter fun i => p.Leads i

/-- The passes in the group of a leader, in order. -/
def followers (p : Pipeline) (leader : Nat) : List Nat :=
  if p.isModuleAt leader then [leader] else (List.range' 1 p.size).filter (p.Together leader)

theorem mem_leaders : i ∈ p.leaders ↔ (1 ≤ i ∧ i ≤ p.size) ∧ p.Leads i := by
  unfold leaders
  rw [List.mem_filter, List.mem_range'_1, decide_eq_true_eq, Nat.lt_one_add_iff]

/-- The leaders stand in order. -/
theorem pairwise_leaders (p : Pipeline) : p.leaders.Pairwise (· < ·) :=
  List.Pairwise.filter _ List.pairwise_lt_range'

/-- A pass is in the group of a leader if it is the leader or belongs together with it. -/
theorem mem_followers {leader : Nat} (hleader : leader ∈ p.leaders) :
    i ∈ p.followers leader ↔ (1 ≤ i ∧ i ≤ p.size) ∧ (i = leader ∨ p.Together leader i) := by
  obtain ⟨hbounds, -⟩ := mem_leaders.1 hleader
  unfold followers
  cases hmodule : p.isModuleAt leader with
  | true =>
    simp only [if_true, List.mem_singleton]
    constructor
    · rintro rfl
      exact ⟨hbounds, .inl rfl⟩
    · rintro ⟨-, rfl | htogether⟩
      · rfl
      · rw [htogether.1.symm.isModuleAt_right] at hmodule
        cases hmodule
  | false =>
    simp only [Bool.false_eq_true, if_false, List.mem_filter, List.mem_range'_1, decide_eq_true_eq,
      Nat.lt_one_add_iff]
    refine and_congr_right fun _ => ⟨.inr, ?_⟩
    rintro (rfl | htogether)
    · exact together_self hmodule
    · exact htogether

/-- No pass is in the groups of two leaders. -/
theorem nodup_flatMap_followers (p : Pipeline) : (p.leaders.flatMap p.followers).Nodup := by
  rw [List.nodup_flatMap]
  constructor
  · intro leader _
    unfold followers
    split
    · exact List.nodup_singleton _
    · exact (List.nodup_range' 1).filter _
  · have hsorted : p.leaders.Pairwise (· ≠ ·) :=
      (pairwise_leaders p).imp Nat.ne_of_lt
    refine hsorted.imp_of_mem fun hi hj hne => ?_
    intro k hki hkj
    obtain ⟨-, hki⟩ := (mem_followers hi).1 hki
    obtain ⟨-, hkj⟩ := (mem_followers hj).1 hkj
    have hleadsi := (mem_leaders.1 hi).2
    have hleadsj := (mem_leaders.1 hj).2
    rcases hki with rfl | hki <;> rcases hkj with rfl | hkj
    · exact hne rfl
    · exact hne (hleadsi.eq hleadsj hkj.symm)
    · exact hne (hleadsi.eq hleadsj hki)
    · exact hne (hleadsi.eq hleadsj (hki.trans hkj.symm))

/-- Every pass is in the group of one leader. -/
theorem flatMap_followers_perm (p : Pipeline) :
    (p.leaders.flatMap p.followers).Perm (List.range' 1 p.size) := by
  refine (List.perm_ext_iff_of_nodup p.nodup_flatMap_followers (List.nodup_range' 1)).2 fun i => ?_
  rw [List.mem_flatMap, List.mem_range'_1, Nat.lt_one_add_iff]
  constructor
  · rintro ⟨leader, hleader, hi⟩
    exact ((mem_followers hleader).1 hi).1
  · intro hi
    cases hmodule : p.isModuleAt i with
    | true =>
      have hleader : i ∈ p.leaders := mem_leaders.2 ⟨hi, leads_of_isModuleAt hmodule⟩
      exact ⟨i, hleader, (mem_followers hleader).2 ⟨hi, .inl rfl⟩⟩
    | false =>
      obtain ⟨leader, hle, hleads, htogether⟩ := exists_leads hmodule
      have hone := one_le_of_kindAt?_eq htogether.2.1.symm hi.1 hi.2
      have hleader : leader ∈ p.leaders := mem_leaders.2 ⟨⟨hone, by omega⟩, hleads⟩
      exact ⟨leader, hleader, (mem_followers hleader).2 ⟨hi, .inr htogether⟩⟩

/-- The group of a leader at a place, as it is shown. -/
def shownGroup (p : Pipeline) (leader place : Nat) : Group :=
  ⟨place, Group.present p (p.contentAt leader)⟩

/-- A leader over the whole module is shown alone. -/
theorem content_shownGroup_of_isModuleAt {leader : Nat} (h : p.isModuleAt leader = true)
    (place : Nat) : (p.shownGroup leader place).content = .standalone leader := by
  simp [shownGroup, contentAt, h, Group.present]

/-- Any other leader is shown with those it leads. -/
theorem content_shownGroup {leader : Nat} (h : p.isModuleAt leader = false) (place : Nat) :
    (p.shownGroup leader place).content =
      .collapsed ((p.groupUpTo p.size leader).arrange (Group.changedAt p)) := by
  simp [shownGroup, contentAt, h, Group.present]

/-- The indices in the group of a leader. -/
theorem indices_shownGroup (p : Pipeline) (leader place : Nat) :
    (p.shownGroup leader place).indices.Perm (p.followers leader) := by
  unfold shownGroup contentAt followers
  cases p.isModuleAt leader with
  | true => exact List.Perm.refl _
  | false =>
    have hindices : (p.groupUpTo p.size leader).members.map (·.index) =
        (List.range' 1 p.size).filter (p.Together leader) := by
      simp [groupUpTo, memberAt, Function.comp_def]
    refine (List.mergeSort_perm _ _).trans ?_
    rw [if_neg (by simp), ← hindices]
    exact (Collapsed.members_arrange_perm _ _).map _

/-- The groups of a pipeline are those of its leaders, numbered from one. -/
theorem ofPipeline_eq (p : Pipeline) :
    Group.ofPipeline p = (p.leaders.zipIdx 1).map fun (leader, place) =>
      p.shownGroup leader place := by
  unfold Group.ofPipeline
  rw [collect_passes, List.zipIdx_map, List.map_map]
  rfl

/-- A group of a pipeline is that of a leader. -/
theorem exists_of_mem_ofPipeline {g : Group} (hg : g ∈ Group.ofPipeline p) :
    ∃ leader ∈ p.leaders, ∃ place, g = p.shownGroup leader place := by
  rw [ofPipeline_eq] at hg
  obtain ⟨⟨leader, place⟩, hmem, rfl⟩ := List.mem_map.1 hg
  refine ⟨leader, ?_, place, rfl⟩
  rw [← List.zipIdx_map_fst 1 p.leaders]
  exact List.mem_map_of_mem hmem

/-- Every leader has a group. -/
theorem exists_shownGroup_mem {leader : Nat} (hleader : leader ∈ p.leaders) :
    ∃ place, p.shownGroup leader place ∈ Group.ofPipeline p := by
  rw [← List.zipIdx_map_fst 1 p.leaders] at hleader
  obtain ⟨⟨leader, place⟩, hmem, rfl⟩ := List.mem_map.1 hleader
  refine ⟨place, ?_⟩
  rw [ofPipeline_eq]
  exact List.mem_map_of_mem hmem

/-- The pass at an index is there. -/
theorem passAt_eq {pass : Pass} (h : p.pass? i = some pass) :
    (1 ≤ i ∧ i ≤ p.size) ∧ p.passAt i = pass := by
  refine ⟨?_, by unfold passAt; rw [h]; rfl⟩
  unfold pass? at h
  split at h
  · obtain ⟨hlt, -⟩ := List.getElem?_eq_some_iff.1 h
    change _ < p.size at hlt
    omega
  · cases h

/-- The runs in the group of a leader stand in the order of the pipeline. -/
theorem pairwise_members_groupUpTo (p : Pipeline) (k leader : Nat) :
    (p.groupUpTo k leader).members.Pairwise (·.index < ·.index) := by
  unfold groupUpTo
  rw [List.pairwise_map]
  exact List.Pairwise.filter _ List.pairwise_lt_range'

/-- A run in the group of a leader is that of a pass with the leader's name and kind. -/
theorem pass?_of_mem_groupUpTo {leader : Nat} (hleader : leader ∈ p.leaders) {m : Member}
    (hm : m ∈ (p.groupUpTo p.size leader).members) :
    ∃ pass, p.pass? m.index = some pass ∧ pass.name = (p.passAt leader).name ∧
      pass.scope.kind = (p.passAt leader).scope.kind ∧ pass.scope.target = m.target := by
  obtain ⟨⟨hone, hsize⟩, -⟩ := mem_leaders.1 hleader
  obtain ⟨i, hi, rfl⟩ := List.mem_map.1 hm
  obtain ⟨hrange, htogether⟩ := List.mem_filter.1 hi
  rw [List.mem_range'_1, Nat.lt_one_add_iff] at hrange
  have hkind := (of_decide_eq_true htogether).2.1
  obtain ⟨hname, hkind⟩ := (kindAt?_eq_iff hone hsize hrange.1 hrange.2).1 hkind
  exact ⟨p.passAt i, pass?_eq hrange.1 hrange.2, hname.symm, hkind.symm, rfl⟩

/-- The group of a leader is shown arranged. -/
theorem arranged_groupUpTo {leader : Nat} (hleader : leader ∈ p.leaders) :
    ((p.groupUpTo p.size leader).arrange (Group.changedAt p)).Arranged p where
  members := by
    intro m hm
    exact pass?_of_mem_groupUpTo hleader ((Collapsed.members_arrange_perm _ _).mem_iff.1 hm)
  halves := by
    have hsorted := p.pairwise_members_groupUpTo p.size leader
    unfold Collapsed.arrange
    rw [List.partition_eq_filter_filter]
    refine ⟨_, _, rfl, ?_, ?_, hsorted.filter _, hsorted.filter _⟩
    · intro m hm
      exact (List.mem_filter.1 hm).2
    · intro m hm
      simpa using (List.mem_filter.1 hm).2
  hasChanges_iff := by
    unfold Collapsed.arrange
    rw [List.partition_eq_filter_filter]
    simp only [Bool.not_eq_true', List.isEmpty_eq_false_iff_exists_mem, List.mem_append,
      List.mem_filter, Function.comp_apply]
    constructor
    · rintro ⟨m, hm, hchanged⟩
      exact ⟨m, .inl ⟨hm, hchanged⟩, hchanged⟩
    · rintro ⟨m, ⟨hm, -⟩ | ⟨hm, -⟩, hchanged⟩
      · exact ⟨m, hm, hchanged⟩
      · exact ⟨m, hm, hchanged⟩
  folded := rfl

/-- The first pass in the group of a leader is the leader. -/
theorem min?_indices_shownGroup {leader : Nat} (hleader : leader ∈ p.leaders) (place : Nat) :
    (p.shownGroup leader place).indices.min? = some leader := by
  have hperm := p.indices_shownGroup leader place
  obtain ⟨hbounds, hleads⟩ := mem_leaders.1 hleader
  rw [List.min?_eq_some_iff]
  constructor
  · exact hperm.mem_iff.2 ((mem_followers hleader).2 ⟨hbounds, .inl rfl⟩)
  · intro i hi
    obtain ⟨-, rfl | htogether⟩ := (mem_followers hleader).1 (hperm.mem_iff.1 hi)
    · exact Nat.le_refl _
    · exact hleads.le htogether

/-- A pass stands alone exactly if it runs on the whole module. -/
theorem exists_standalone_iff :
    (∃ g ∈ Group.ofPipeline p, g.content = .standalone i) ↔
      ∃ pass, p.pass? i = some pass ∧ pass.scope.kind = .module := by
  constructor
  · rintro ⟨g, hg, hcontent⟩
    obtain ⟨leader, hleader, place, rfl⟩ := exists_of_mem_ofPipeline hg
    obtain ⟨hbounds, -⟩ := mem_leaders.1 hleader
    cases hmodule : p.isModuleAt leader with
    | true =>
      rw [content_shownGroup_of_isModuleAt hmodule] at hcontent
      obtain rfl := GroupContent.standalone.inj hcontent
      exact ⟨_, pass?_eq hbounds.1 hbounds.2,
        (isModuleAt_eq_true_iff hbounds.1 hbounds.2).1 hmodule⟩
    | false =>
      rw [content_shownGroup hmodule] at hcontent
      cases hcontent
  · rintro ⟨pass, hpass, hkind⟩
    obtain ⟨hbounds, rfl⟩ := passAt_eq hpass
    have hmodule := (isModuleAt_eq_true_iff hbounds.1 hbounds.2).2 hkind
    obtain ⟨place, hg⟩ := exists_shownGroup_mem
      (mem_leaders.2 ⟨hbounds, leads_of_isModuleAt hmodule⟩)
    exact ⟨_, hg, content_shownGroup_of_isModuleAt hmodule place⟩

/-- Two passes share a collapsed group exactly if they belong together. -/
theorem exists_collapsed_iff (hi : 1 ≤ i ∧ i ≤ p.size) (hj : 1 ≤ j ∧ j ≤ p.size)
    (hmodule : p.isModuleAt i = false) :
    (∃ g ∈ Group.ofPipeline p, ∃ c, g.content = .collapsed c ∧ i ∈ g.indices ∧ j ∈ g.indices) ↔
      p.Together i j := by
  constructor
  · rintro ⟨g, hg, c, hcontent, hig, hjg⟩
    obtain ⟨leader, hleader, place, rfl⟩ := exists_of_mem_ofPipeline hg
    have hperm := p.indices_shownGroup leader place
    rw [hperm.mem_iff] at hig hjg
    have hleader' : p.isModuleAt leader = false := by
      by_contra hstandalone
      rw [content_shownGroup_of_isModuleAt (by simpa using hstandalone)] at hcontent
      cases hcontent
    have hall {k : Nat} (hk : k ∈ p.followers leader) : p.Together leader k := by
      obtain ⟨-, rfl | htogether⟩ := (mem_followers hleader).1 hk
      · exact together_self hleader'
      · exact htogether
    exact (hall hig).symm.trans (hall hjg)
  · intro htogether
    obtain ⟨leader, hle, hleads, hi'⟩ := exists_leads hmodule
    have hone := one_le_of_kindAt?_eq hi'.2.1.symm hi.1 hi.2
    have hleader : leader ∈ p.leaders := mem_leaders.2 ⟨⟨hone, by omega⟩, hleads⟩
    have hleader' := hi'.1.symm.isModuleAt_right
    obtain ⟨place, hg⟩ := exists_shownGroup_mem hleader
    have hperm := p.indices_shownGroup leader place
    refine ⟨_, hg, _, content_shownGroup hleader' place, ?_, ?_⟩
    · exact hperm.mem_iff.2 ((mem_followers hleader).2 ⟨hi, .inr hi'⟩)
    · exact hperm.mem_iff.2 ((mem_followers hleader).2 ⟨hj, .inr (hi'.trans htogether)⟩)

/-- The groups of a pipeline list every pass once. -/
theorem flatMap_indices_ofPipeline (p : Pipeline) :
    ((Group.ofPipeline p).flatMap Group.indices).Perm (List.range' 1 p.size) := by
  have hgroups : ((p.leaders.zipIdx 1).flatMap fun entry =>
      (p.shownGroup entry.1 entry.2).indices).Perm
        ((p.leaders.zipIdx 1).flatMap fun entry => p.followers entry.1) :=
    List.Perm.flatMap (List.Perm.refl _) fun entry _ => p.indices_shownGroup entry.1 entry.2
  have hfirst : (p.leaders.zipIdx 1).flatMap (fun entry => p.followers entry.1) =
      p.leaders.flatMap p.followers := by
    rw [← List.flatMap_map, List.zipIdx_map_fst]
  rw [ofPipeline_eq, List.flatMap_map]
  rw [hfirst] at hgroups
  exact hgroups.trans p.flatMap_followers_perm

end Pipeline

open Pipeline in
/-- The groups of a pipeline are its grouping: each pass is in one group, and two share a group
exactly if they belong together. -/
theorem Group.ofPipeline_grouping (p : Pipeline) : Grouping p (Group.ofPipeline p) where
  places := by
    rw [ofPipeline_eq, List.map_map, List.length_map, List.length_zipIdx,
      ← List.zipIdx_map_snd 1 p.leaders]
    rfl
  firsts := by
    refine ⟨p.leaders, ?_, p.pairwise_leaders⟩
    have hmin : (Group.ofPipeline p).map (·.indices.min?) =
        (p.leaders.zipIdx 1).map fun entry => some entry.1 := by
      rw [ofPipeline_eq, List.map_map]
      apply List.map_congr_left
      intro entry hentry
      have hleader : entry.1 ∈ p.leaders := by
        rw [← List.zipIdx_map_fst 1 p.leaders]
        exact List.mem_map_of_mem hentry
      exact min?_indices_shownGroup hleader entry.2
    have hfirst : (p.leaders.zipIdx 1).map (fun entry => some entry.1) =
        ((p.leaders.zipIdx 1).map Prod.fst).map some := by
      rw [List.map_map]
      rfl
    rw [hmin, hfirst, List.zipIdx_map_fst]
  indices := p.flatMap_indices_ofPipeline
  standalone := exists_standalone_iff
  shared := by
    intro i j a b hpass hpass' ha _
    obtain ⟨hi, rfl⟩ := passAt_eq hpass
    obtain ⟨hj, rfl⟩ := passAt_eq hpass'
    have hmodule : p.isModuleAt i = false := by
      have hiff := isModuleAt_eq_true_iff (p := p) hi.1 hi.2
      simpa using mt hiff.1 ha
    rw [exists_collapsed_iff hi hj hmodule]
    unfold Together
    rw [kindAt?_eq_iff hi.1 hi.2 hj.1 hj.2, and_assoc]
  arranged := by
    intro g c hg hcontent
    obtain ⟨leader, hleader, place, rfl⟩ := exists_of_mem_ofPipeline hg
    cases hmodule : p.isModuleAt leader with
    | true =>
      rw [content_shownGroup_of_isModuleAt hmodule] at hcontent
      cases hcontent
    | false =>
      rw [content_shownGroup hmodule] at hcontent
      obtain rfl := GroupContent.collapsed.inj hcontent
      exact arranged_groupUpTo hleader

end PassTrace

import PassTrace.Inspector
import PassTrace.Proofs.Group.Grouping

/-!
# Folding groups

Groups are folded and unfolded by calls, one after the other. A call changes folds and nothing else,
so that the groups after any calls are those of the pipeline, each with the fold that its calls have
left. Their rows have one head for each group, and every pass is below exactly one of them.
-/

namespace PassTrace

/-- A call on the folds of an inspector's groups. -/
inductive FoldCall
  | toggle (position : Int)
  | setAll (folded : Bool)

namespace FoldCall

/-- The inspector after a call. Where there is no group a call fails and changes nothing. -/
def perform (i : Inspector) : FoldCall → Inspector
  | toggle position =>
    match i.toggleFold position with
    | .ok (i, _) => i
    | .error _ => i
  | setAll folded => i.foldAll folded

/-- The fold that a call leaves on the group at a place, of so many groups. Negative positions count
from the end. -/
def foldAt (count place : Nat) (folded : Bool) : FoldCall → Bool
  | toggle position =>
    if (place : Int) = (if position < 0 then position + count else position) then !folded
    else folded
  | setAll folded => folded

end FoldCall

namespace Group

/-- Whether a group is one of several runs that are shown. -/
def isOpen (g : Group) : Bool :=
  match g.content with
  | .standalone _ => false
  | .collapsed c => !c.folded

/-- The runs of a group; a pass that stands alone is none. -/
def members (g : Group) : List Member :=
  match g.content with
  | .standalone _ => []
  | .collapsed c => c.members

/-- Rows show groups: for each one a row in front, and directly behind it the rows of its runs
exactly if it is open. -/
inductive Shown : List Group → List (Group × Option Member) → Prop
  | nil : Shown [] []
  | shut {g : Group} {groups : List Group} {rows : List (Group × Option Member)}
    (hg : g.isOpen = false) (h : Shown groups rows) : Shown (g :: groups) ((g, none) :: rows)
  | opened {g : Group} {groups : List Group} {rows : List (Group × Option Member)}
    (hg : g.isOpen = true) (h : Shown groups rows) :
    Shown (g :: groups) ((g, none) :: (g.members.map fun m => (g, some m)) ++ rows)

/-- Groups are those of a pipeline but for their folds, and show each of its passes once. -/
structure Refolds (p : Pipeline) (groups : List Group) : Prop where
  unfolded_eq : groups.map (setFolded true) = ofPipeline p
  places : groups.map (·.place) = List.range' 1 groups.length
  shown : Shown groups (rows groups)
  ascending : ∀ g ∈ groups, g.indices.Pairwise (· < ·)
  find?_iff : ∀ (i : Int) (g : Group),
    find? groups i = some g ↔ g ∈ groups ∧ ∃ k ∈ g.indices, (k : Int) = i
  find?_none_iff : ∀ i : Int, find? groups i = none ↔ ¬ (1 ≤ i ∧ i ≤ p.size)
  heads : ∀ k : Nat, 1 ≤ k → k ≤ p.size → ∃ g, find? groups k = some g ∧
    (rows groups).filter (fun row => row.2.isNone && k ∈ row.1.indices) = [(g, none)]
  runs : ∀ (k : Nat) (g : Group), find? groups k = some g → (if g.isOpen then
    ∃ m ∈ g.members, (rows groups).filter (fun row => row.2.any (·.index = k)) = [(g, some m)]
    else (rows groups).filter (fun row => row.2.any (·.index = k)) = [])

variable {g : Group} {groups : List Group} {p : Pipeline}

section Folds

@[simp] theorem place_setFolded (folded : Bool) (g : Group) :
    (g.setFolded folded).place = g.place := by
  unfold setFolded
  split <;> rfl

@[simp] theorem indices_setFolded (folded : Bool) (g : Group) :
    (g.setFolded folded).indices = g.indices := by
  unfold setFolded
  split
  · rfl
  · next c hcontent => simp [indices, hcontent]

@[simp] theorem setFolded_setFolded (folded folded' : Bool) (g : Group) :
    (g.setFolded folded').setFolded folded = g.setFolded folded := by
  obtain ⟨place, content⟩ := g
  cases content <;> rfl

@[simp] theorem setFolded_isFolded (g : Group) : g.setFolded g.isFolded = g := by
  obtain ⟨place, content⟩ := g
  cases content <;> rfl

/-- Turning over a fold that was set: what the fold was set to counts, if the group has a fold. -/
theorem setFolded_of_isFolded (change : Bool → Bool) (folded : Bool) (g : Group) :
    (g.setFolded folded).setFolded (change (g.setFolded folded).isFolded) =
      g.setFolded (change folded) := by
  obtain ⟨place, content⟩ := g
  cases content <;> rfl

end Folds

section Lookup

/-- A group holds the passes at its indices. -/
theorem hasPass_iff {i : Int} : g.hasPass i = true ↔ ∃ k ∈ g.indices, (k : Int) = i := by
  unfold hasPass indices
  split <;> simp

/-- Where no index is in two groups, it tells its group. -/
theorem eq_of_mem_indices (hnodup : (groups.flatMap indices).Nodup) {g' : Group} (hg : g ∈ groups)
    (hg' : g' ∈ groups) {k : Nat} (hk : k ∈ g.indices) (hk' : k ∈ g'.indices) : g = g' := by
  by_contra hne
  have : Std.Symm (Function.onFun List.Disjoint indices) := ⟨fun _ _ h => h.symm⟩
  exact (List.nodup_flatMap.1 hnodup).2.forall hg hg' hne hk hk'

/-- The indices of a group ascend where none is in it twice. -/
theorem pairwise_indices (hnodup : g.indices.Nodup) : g.indices.Pairwise (· < ·) := by
  have hsorted : g.indices.Pairwise (· ≤ ·) := by
    unfold indices
    split
    · exact List.pairwise_singleton _ _
    · simpa using List.pairwise_mergeSort' (· ≤ ·) _
  exact (hsorted.and hnodup).imp fun ⟨hle, hne⟩ => Nat.lt_of_le_of_ne hle hne

/-- The indices of an open group are those of its runs. -/
theorem indices_perm_members (hg : g.isOpen = true) :
    g.indices.Perm (g.members.map (·.index)) := by
  obtain ⟨place, content⟩ := g
  cases content with
  | standalone index => cases hg
  | collapsed c => exact List.mergeSort_perm _ _

/-- Among runs with an index each, one has a given one. -/
theorem exists_filter_index_eq {members : List Member} (hnodup : (members.map (·.index)).Nodup)
    {k : Nat} (hk : k ∈ members.map (·.index)) :
    ∃ m ∈ members, members.filter (·.index = k) = [m] := by
  obtain ⟨m, hm, rfl⟩ := List.mem_map.1 hk
  refine ⟨m, hm, List.perm_singleton.1 ?_⟩
  have hfilter : (members.filter (·.index = m.index)).Nodup := hnodup.of_map.filter _
  refine (List.perm_ext_iff_of_nodup hfilter (List.nodup_singleton m)).2 fun m' => ?_
  rw [List.mem_filter, decide_eq_true_eq, List.mem_singleton]
  constructor
  · rintro ⟨hm', heq⟩
    exact List.inj_on_of_nodup_map hnodup hm' hm heq
  · rintro rfl
    exact ⟨hm, rfl⟩

/-- Where no index is in two groups, a lookup finds the group of an index. -/
theorem find?_eq_some_iff (hnodup : (groups.flatMap indices).Nodup) {i : Int} :
    find? groups i = some g ↔ g ∈ groups ∧ ∃ k ∈ g.indices, (k : Int) = i := by
  have hfound {g' : Group} (h : find? groups i = some g') : ∃ k ∈ g'.indices, (k : Int) = i := by
    obtain ⟨hpass, -⟩ := List.find?_eq_some_iff_append.1 h
    exact hasPass_iff.1 hpass
  constructor
  · intro h
    exact ⟨List.mem_of_find?_eq_some h, hfound h⟩
  · rintro ⟨hg, k, hk, rfl⟩
    have hpass : ∃ g ∈ groups, g.hasPass k = true := ⟨g, hg, hasPass_iff.2 ⟨k, hk, rfl⟩⟩
    obtain ⟨g', h⟩ := Option.isSome_iff_exists.1 (List.find?_isSome.2 hpass)
    obtain ⟨k', hk', heq⟩ := hfound h
    obtain rfl := Int.natCast_inj.1 heq
    obtain rfl := eq_of_mem_indices hnodup hg (List.mem_of_find?_eq_some h) hk hk'
    exact h

/-- A lookup finds nothing at an index that is in no group. -/
theorem find?_eq_none_iff {i : Int} :
    find? groups i = none ↔ ∀ k ∈ groups.flatMap indices, (k : Int) ≠ i := by
  unfold find?
  simp only [List.find?_eq_none, hasPass_iff, List.mem_flatMap]
  grind

end Lookup

section Rows

theorem rows_eq (groups : List Group) : rows groups = groups.flatMap fun g =>
    (g, none) :: if g.isOpen then g.members.map fun m => (g, some m) else [] := by
  unfold rows
  congr 1
  funext g
  obtain ⟨place, content⟩ := g
  cases content with
  | standalone index => rfl
  | collapsed c =>
    cases hfolded : c.folded <;> simp [isOpen, members, hfolded]

theorem shown_rows (groups : List Group) : Shown groups (rows groups) := by
  rw [rows_eq]
  induction groups with
  | nil => exact .nil
  | cons g groups ih =>
    rw [List.flatMap_cons]
    cases hg : g.isOpen with
    | false => exact .shut hg ih
    | true => exact .opened hg ih

/-- What only the group of an index adds to, that group adds alone. -/
theorem flatMap_eq_of_mem_indices {α : Type} {f : Group → List α} {k : Nat}
    (hf : ∀ g, k ∉ g.indices → f g = []) (hnodup : (groups.flatMap indices).Nodup)
    (hg : g ∈ groups) (hk : k ∈ g.indices) : groups.flatMap f = f g := by
  induction groups with
  | nil => cases hg
  | cons a rest ih =>
    rw [List.flatMap_cons] at hnodup ⊢
    obtain ⟨-, hrest, hdisjoint⟩ := List.nodup_append'.1 hnodup
    rcases List.mem_cons.1 hg with rfl | hg
    · have hnone : rest.flatMap f = [] := List.flatMap_eq_nil_iff.2 fun g' hg' =>
        hf g' fun hk' => hdisjoint hk (List.mem_flatMap.2 ⟨g', hg', hk'⟩)
      rw [hnone, List.append_nil]
    · rw [hf a fun hk' => hdisjoint hk' (List.mem_flatMap.2 ⟨g, hg, hk⟩), List.nil_append,
        ih hrest hg]

/-- Each pass has one row in front of the runs of its group. -/
theorem filter_heads (hnodup : (groups.flatMap indices).Nodup) {k : Nat} (hg : g ∈ groups)
    (hk : k ∈ g.indices) :
    (rows groups).filter (fun row => row.2.isNone && k ∈ row.1.indices) = [(g, none)] := by
  have hnone (g : Group) : (if g.isOpen then g.members.map fun m => (g, some m) else []).filter
      (fun row => row.2.isNone && k ∈ row.1.indices) = [] := by
    cases g.isOpen <;> simp [List.filter_map, Function.comp_def]
  rw [rows_eq, List.filter_flatMap, flatMap_eq_of_mem_indices ?_ hnodup hg hk]
  · simp [hnone, hk]
  · intro g' hk'
    simp [hnone, hk']

/-- Each pass in an open group has one row among the runs, and each pass in another has none. -/
theorem filter_runs (hnodup : (groups.flatMap indices).Nodup) {k : Nat} (hg : g ∈ groups)
    (hk : k ∈ g.indices) : if g.isOpen then
      ∃ m ∈ g.members, (rows groups).filter (fun row => row.2.any (·.index = k)) = [(g, some m)]
    else (rows groups).filter (fun row => row.2.any (·.index = k)) = [] := by
  have hruns (g : Group) : ((g, none) :: if g.isOpen then g.members.map fun m => (g, some m) else
      []).filter (fun row => row.2.any (·.index = k)) =
        if g.isOpen then (g.members.filter (·.index = k)).map fun m => (g, some m) else [] := by
    cases g.isOpen <;> simp [List.filter_map, Function.comp_def]
  rw [rows_eq, List.filter_flatMap, flatMap_eq_of_mem_indices ?_ hnodup hg hk, hruns]
  · cases hopen : g.isOpen with
    | false => rfl
    | true =>
      have hperm := indices_perm_members hopen
      have hindices := (List.nodup_flatMap.1 hnodup).1 g hg
      obtain ⟨m, hm, hfilter⟩ :=
        exists_filter_index_eq (hperm.nodup_iff.1 hindices) (hperm.mem_iff.1 hk)
      exact ⟨m, hm, by rw [if_pos rfl, hfilter, List.map_singleton]⟩
  · intro g' hk'
    rw [hruns]
    cases hopen : g'.isOpen with
    | false => rfl
    | true =>
      rw [(indices_perm_members hopen).mem_iff] at hk'
      have hfilter : g'.members.filter (·.index = k) = [] := by
        rw [List.filter_eq_nil_iff]
        intro m hm heq
        exact hk' (List.mem_map.2 ⟨m, hm, of_decide_eq_true heq⟩)
      rw [if_pos rfl, hfilter, List.map_nil]

end Rows

section Refolding

/-- The groups of a pipeline are numbered from one. -/
theorem places_ofPipeline (p : Pipeline) :
    (ofPipeline p).map (·.place) = List.range' 1 (ofPipeline p).length := by
  rw [Pipeline.ofPipeline_eq, List.map_map, List.length_map, List.length_zipIdx,
    ← List.zipIdx_map_snd 1 p.leaders]
  rfl

/-- The groups of a pipeline are folded. -/
theorem setFolded_of_mem_ofPipeline (hg : g ∈ ofPipeline p) : g.setFolded true = g := by
  obtain ⟨leader, -, place, rfl⟩ := Pipeline.exists_of_mem_ofPipeline hg
  unfold Pipeline.shownGroup Pipeline.contentAt
  cases p.isModuleAt leader <;> rfl

/-- Groups that are those of a pipeline but for their folds show each of its passes once. -/
theorem refolds (h : groups.map (setFolded true) = ofPipeline p) : Refolds p groups := by
  have hindices : (groups.flatMap indices).Perm (List.range' 1 p.size) := by
    have hperm := p.flatMap_indices_ofPipeline
    rw [← h, List.flatMap_map] at hperm
    simpa only [indices_setFolded] using hperm
  have hnodup : (groups.flatMap indices).Nodup := hindices.nodup_iff.2 (List.nodup_range' 1)
  have hfind (i : Int) (g : Group) := find?_eq_some_iff (i := i) (g := g) hnodup
  exact {
    unfolded_eq := h
    places := by
      have hplaces := places_ofPipeline p
      rw [← h, List.map_map, List.length_map] at hplaces
      simpa only [Function.comp_def, place_setFolded] using hplaces
    shown := shown_rows groups
    ascending := fun g hg => pairwise_indices ((List.nodup_flatMap.1 hnodup).1 g hg)
    find?_iff := hfind
    find?_none_iff := by
      intro i
      rw [find?_eq_none_iff]
      simp only [hindices.mem_iff, List.mem_range'_1]
      constructor
      · intro hnone hi
        exact hnone i.toNat (by omega) (by omega)
      · intro hi k hk heq
        exact hi (by omega)
    heads := by
      intro k hone hsize
      have hk : k ∈ groups.flatMap indices :=
        hindices.mem_iff.2 (List.mem_range'_1.2 ⟨hone, by omega⟩)
      obtain ⟨g, hg, hk⟩ := List.mem_flatMap.1 hk
      exact ⟨g, (hfind k g).2 ⟨hg, k, hk, rfl⟩, filter_heads hnodup hg hk⟩
    runs := by
      intro k g hfound
      obtain ⟨hg, k', hk, heq⟩ := (hfind _ g).1 hfound
      obtain rfl := Int.natCast_inj.1 heq
      exact filter_runs hnodup hg hk }

end Refolding

section Calls

open FoldCall

/-- Turning over the fold of the group at a place leaves the others as they are. -/
theorem set_toggle_eq {place : Nat} (hg : groups[place]? = some g) : groups.set place g.toggle =
    groups.mapIdx fun k g => g.setFolded (if k = place then !g.isFolded else g.isFolded) := by
  refine List.ext_getElem? fun k => ?_
  rw [List.getElem?_mapIdx, List.getElem?_set]
  by_cases hk : place = k
  · subst hk
    have hlt := (List.getElem?_eq_some_iff.1 hg).1
    rw [if_pos rfl, if_pos hlt, hg, Option.map_some, if_pos rfl]
    rfl
  · rw [if_neg hk]
    cases groups[k]? with
    | none => rfl
    | some g' => rw [Option.map_some, if_neg (Ne.symm hk), setFolded_isFolded]

/-- Setting the folds as they are changes nothing. -/
theorem mapIdx_setFolded_eq {fold : Nat → Bool → Bool}
    (h : ∀ k < groups.length, ∀ folded, fold k folded = folded) :
    groups.mapIdx (fun k g => g.setFolded (fold k g.isFolded)) = groups := by
  refine List.ext_getElem (by simp) fun k hk _ => ?_
  rw [List.getElem_mapIdx, h k (by simpa using hk), setFolded_isFolded]

/-- A call leaves on each group the fold that it is to leave, and all else as it was. -/
theorem perform_eq (i : Inspector) (call : FoldCall) : perform i call = { i with
    groups := i.groups.mapIdx fun place g =>
      g.setFolded (call.foldAt i.groups.length place g.isFolded) } := by
  cases call with
  | setAll folded =>
    have hgroups : i.groups.map (setFolded folded) =
        i.groups.mapIdx fun _ g => g.setFolded folded :=
      List.ext_getElem (by simp) fun k _ _ => by simp
    exact congrArg (fun groups => { i with groups }) hgroups
  | toggle position =>
    simp only [perform, Inspector.toggleFold, foldAt]
    generalize (if position < 0 then position + (i.groups.length : Int) else position) = place
    by_cases hneg : place < 0
    · rw [if_pos hneg, mapIdx_setFolded_eq fun k _ folded => if_neg (by omega)]
    · rw [if_neg hneg]
      cases hg : i.groups[place.toNat]? with
      | none =>
        have hlength := List.getElem?_eq_none_iff.1 hg
        rw [mapIdx_setFolded_eq fun k hk folded => if_neg (by omega)]
      | some g =>
        have hplace (k : Nat) : ((k : Int) = place) = (k = place.toNat) := propext (by omega)
        simp only [hplace, set_toggle_eq hg]

/-- After calls each group has the fold that they have left, and all else is as it was. -/
theorem foldl_perform_eq (calls : List FoldCall) (i : Inspector) (groups : List Group)
    (fold : Nat → Bool) : calls.foldl perform { i with
      groups := groups.mapIdx fun place g => g.setFolded (fold place) } = { i with
    groups := groups.mapIdx fun place g => g.setFolded
      (calls.foldl (fun folded call => call.foldAt groups.length place folded) (fold place)) } := by
  induction calls generalizing fold with
  | nil => rfl
  | cons call calls ih =>
    rw [List.foldl_cons, perform_eq]
    simp only [List.mapIdx_mapIdx, List.length_mapIdx, Function.comp_def]
    have hstep (place : Nat) (g : Group) := setFolded_of_isFolded (call.foldAt groups.length place)
      (fold place) g
    simp only [hstep]
    exact ih fun place => call.foldAt groups.length place (fold place)

end Calls

/-- Calls on the folds of a pipeline's groups leave each with the fold that the calls on it come to,
and nothing else changed: the rows show every pass once. -/
theorem refolds_of_calls (config : Config) (p : Pipeline) (metadata : Metadata)
    (calls : List FoldCall) :
    let i := calls.foldl FoldCall.perform (.ofPipeline config p metadata)
    Refolds p i.groups ∧
    i = { Inspector.ofPipeline config p metadata with
      groups := (ofPipeline p).mapIdx fun place g => g.setFolded (calls.foldl
        (fun folded call => call.foldAt (ofPipeline p).length place folded) true) } := by
  have hstart : (ofPipeline p).mapIdx (fun _ g => g.setFolded true) = ofPipeline p :=
    List.ext_getElem (by simp) fun k _ hk => by
      rw [List.getElem_mapIdx, setFolded_of_mem_ofPipeline (List.getElem_mem hk)]
  have hrun := foldl_perform_eq calls (.ofPipeline config p metadata) (ofPipeline p) fun _ => true
  rw [hstart] at hrun
  intro i
  have hi : i = _ := hrun
  refine ⟨refolds ?_, hi⟩
  rw [hi]
  refine List.ext_getElem (by simp) fun k _ hk => ?_
  simp only [List.getElem_map, List.getElem_mapIdx, setFolded_setFolded]
  exact setFolded_of_mem_ofPipeline (List.getElem_mem hk)

end Group
end PassTrace

import Mathlib.Data.List.Pairwise
import Mathlib.Data.List.Perm.Basic
import PassTrace.Store.Merging

/-!
# What a sort finds out

A sort compares some of its values with each other. If all these comparisons succeed, it yields the
values in another order, and its comparisons connect each value with each other one. If one of them
fails, so does the sort.
-/

namespace PassTrace.Sorting

variable {α β ε : Type}

/-- A computation yields a result with a property or a failure with a property. -/
def Yields (result : α → Prop) (failure : ε → Prop) : Except ε α → Prop
  | .ok a => result a
  | .error e => failure e

namespace Yields

variable {result result' : α → Prop} {failure : ε → Prop} {further : β → Prop} {x : Except ε α}

theorem imp (hx : Yields result failure x) (h : ∀ a, result a → result' a) :
    Yields result' failure x := by
  cases x with
  | ok a => exact h a hx
  | error e => exact hx

theorem bind {f : α → Except ε β} (hx : Yields result failure x)
    (hf : ∀ a, result a → Yields further failure (f a)) : Yields further failure (x >>= f) := by
  cases x with
  | ok a => exact hf a hx
  | error e => exact hx

end Yields

/-- A comparison of members links the two if it succeeds. Links go both ways and can be put
together. -/
structure Links (less : α → α → Except ε Bool) (member : α → Prop) (linked : α → α → Prop)
    (failure : ε → Prop) : Prop where
  symm : ∀ {x y}, linked x y → linked y x
  trans : ∀ {x y z}, linked x y → linked y z → linked x z
  compare : ∀ {x y}, member x → member y → Yields (fun _ => linked x y) failure (less x y)

namespace Links

variable {less : α → α → Except ε Bool} {member : α → Prop} {linked : α → α → Prop}
  {failure : ε → Prop} {x y : α} {xs ys : List α}

/-- The comparison the other way round. -/
theorem turned (h : Links less member linked failure) :
    Links (fun x y => less y x) member linked failure where
  symm := h.symm
  trans := h.trans
  compare hx hy := (h.compare hy hx).imp fun _ => h.symm

theorem notBefore (h : Links less member linked failure) (hx : member x) (hy : member y) :
    Yields (fun _ => linked x y) failure (notBefore less x y) :=
  (h.compare hx hy).bind fun _ hxy => hxy

/-- One link between two linked lists connects all their values. -/
theorem append (h : Links less member linked failure) (hxs : xs.Pairwise linked)
    (hys : ys.Pairwise linked) (hx : x ∈ xs) (hy : y ∈ ys) (hxy : linked x y) :
    (xs ++ ys).Pairwise linked := by
  have : Std.Symm linked := ⟨fun _ _ => h.symm⟩
  -- A list may hold a value twice, so two of its values are linked or the same.
  have reach {x z : α} {zs : List α} (hzs : zs.Pairwise linked) (hx : x ∈ zs) (hz : z ∈ zs) :
      x = z ∨ linked x z := by
    by_cases heq : x = z
    · exact .inl heq
    · exact .inr (hzs.forall hx hz heq)
  refine List.pairwise_append.mpr ⟨hxs, hys, fun a ha b hb => ?_⟩
  have hay : linked a y := by
    rcases reach hxs hx ha with rfl | hxa
    · exact hxy
    · exact h.trans (h.symm hxa) hxy
  rcases reach hys hy hb with rfl | hyb
  · exact hay
  · exact h.trans hay hyb

end Links

/-- Members that are linked with each other. -/
structure IsBundle (member : α → Prop) (linked : α → α → Prop) (xs : List α) : Prop where
  member : ∀ x ∈ xs, member x
  linked : xs.Pairwise linked

section Searches

variable {failure : ε → Prop}

/-- A search by halving looks at a place if there is one. -/
theorem yields_boundary {looked : Nat → Prop} {holds : Nat → Except ε Bool} {low high : Nat}
    (fromBack : Bool) (h : ∀ k, Yields (fun _ => looked k) failure (holds k)) :
    Yields (fun _ => low < high → ∃ k < high, looked k) failure
      (boundary fromBack holds low high) := by
  fun_induction boundary fromBack holds low high with
  | case1 low high hlt half middle fault hfault =>
    have hmiddle := h middle
    rwa [hfault] at hmiddle
  | case2 low high hlt half middle htrue ih =>
    have hmiddle := h middle
    rw [htrue] at hmiddle
    exact ih.imp fun _ _ _ => ⟨middle, by grind, hmiddle⟩
  | case3 low high hlt half middle hfalse ih =>
    have hmiddle := h middle
    rw [hfalse] at hmiddle
    exact ih.imp fun _ _ _ => ⟨middle, by grind, hmiddle⟩
  | case4 low high hge => exact fun hlt => absurd hlt hge

variable {looked : α → Prop} {holds : α → Except ε Bool} {xs : List α}

theorem yields_holdsAt (h : ∀ x ∈ xs, Yields (fun _ => looked x) failure (holds x)) (k : Nat) :
    Yields (fun _ => ∀ x, xs[k]? = some x → looked x) failure (holdsAt holds xs k) := by
  unfold holdsAt
  cases hk : xs[k]? with
  | none => exact nofun
  | some x =>
    refine (h x (List.mem_of_getElem? hk)).imp fun _ hx x' hx' => ?_
    rwa [← Option.some.inj hx']

theorem yields_leap {holds : Nat → Except ε Bool} {limit last place : Nat}
    (h : ∀ k, Yields (fun _ => True) failure (holds k)) :
    Yields (fun _ => True) failure (leap holds limit last place) := by
  fun_induction leap holds limit last place with
  | case1 last place hlt fault hfault =>
    have hplace := h place
    rwa [hfault] at hplace
  | case2 last place hlt htrue ih => exact ih
  | case3 | case4 => trivial

/-- What comes first is found by a look at one of the values, if there is one. -/
theorem yields_lead (fromBack : Bool)
    (h : ∀ x ∈ xs, Yields (fun _ => looked x) failure (holds x)) :
    Yields (fun _ => xs ≠ [] → ∃ x ∈ xs, looked x) failure (lead fromBack holds xs) := by
  have hplaces (k : Nat) : Yields (fun _ => True) failure (holdsAt holds xs k) :=
    (yields_holdsAt h k).imp fun _ _ => trivial
  unfold lead
  refine (yields_holdsAt h 0).bind fun goesOn hzero => ?_
  have hfirst : xs ≠ [] → ∃ x ∈ xs, looked x := by
    intro hne
    cases xs with
    | nil => exact absurd rfl hne
    | cons x xs => exact ⟨x, List.mem_cons_self, hzero x rfl⟩
  cases goesOn with
  | false => exact hfirst
  | true =>
    refine (yields_leap hplaces).bind fun _ _ => ?_
    exact (yields_boundary fromBack hplaces).imp fun _ _ => hfirst

end Searches

section Runs

variable {less : α → α → Except ε Bool} {member : α → Prop} {linked : α → α → Prop}
  {failure : ε → Prop} {x last : α} {xs run read : List α}

namespace IsBundle

theorem nil : IsBundle member linked [] := ⟨nofun, .nil⟩

theorem singleton (hx : member x) : IsBundle member linked [x] :=
  ⟨fun _ hy => List.mem_singleton.mp hy ▸ hx, List.pairwise_singleton _ _⟩

theorem perm {ys : List α} (hxs : IsBundle member linked xs)
    (h : Links less member linked failure) (hperm : ys.Perm xs) : IsBundle member linked ys where
  member y hy := hxs.member y (hperm.mem_iff.mp hy)
  linked := hperm.symm.pairwise hxs.linked h.symm

theorem append {y : α} {ys : List α} (hxs : IsBundle member linked xs)
    (hys : IsBundle member linked ys) (h : Links less member linked failure) (hx : x ∈ xs)
    (hy : y ∈ ys) (hxy : linked x y) : IsBundle member linked (xs ++ ys) where
  member z hz := (List.mem_append.mp hz).elim (hxs.member z) (hys.member z)
  linked := h.append hxs.linked hys.linked hx hy hxy

/-- A member that is linked with the value in front comes in front of it. -/
theorem cons (hread : IsBundle member linked (last :: read))
    (h : Links less member linked failure) (hx : member x) (hlinked : linked last x) :
    IsBundle member linked (x :: last :: read) :=
  (singleton hx).append hread h List.mem_cons_self List.mem_cons_self (h.symm hlinked)

end IsBundle

variable (h : Links less member linked failure)
include h

theorem Links.insert (hrun : IsBundle member linked run) (hx : member x) :
    Yields (fun run' => run'.Perm (x :: run) ∧ IsBundle member linked run') failure
      (insert less run x) := by
  have hplaces := yields_holdsAt fun y hy => h.notBefore hx (hrun.member y hy)
  refine (yields_boundary false hplaces).bind fun k hk => ?_
  have hperm : (run.take k ++ x :: run.drop k).Perm (x :: run) := by
    conv_rhs => rw [← List.take_append_drop k run]
    exact List.perm_middle
  refine ⟨hperm, ?_⟩
  cases run with
  | nil =>
    rw [List.take_nil, List.drop_nil]
    exact .singleton hx
  | cons y run =>
    obtain ⟨j, hj, hlooked⟩ := hk (Nat.succ_pos _)
    have hlinked := hlooked _ (List.getElem?_eq_getElem hj)
    have hcons := (IsBundle.singleton hx).append hrun h List.mem_cons_self
      (List.getElem_mem hj) hlinked
    exact hcons.perm h hperm

theorem Links.runFrom {goesOn : α → α → Except ε Bool}
    (hread : IsBundle member linked (last :: read)) (hxs : ∀ x ∈ xs, member x)
    (hgoesOn : ∀ x y, member x → member y →
      Yields (fun _ => linked x y) failure (goesOn x y)) :
    Yields (fun runs => (runs.1 ++ runs.2).Perm (last :: read ++ xs) ∧ runs.1 ≠ [] ∧
      IsBundle member linked runs.1) failure (runFrom goesOn read last xs) := by
  induction xs generalizing read last with
  | nil => exact ⟨.refl _, List.cons_ne_nil _ _, hread⟩
  | cons x xs ih =>
    have hx := hxs x List.mem_cons_self
    refine (hgoesOn last x (hread.member _ List.mem_cons_self) hx).bind fun goes hlinked => ?_
    cases goes with
    | false => exact ⟨.refl _, List.cons_ne_nil _ _, hread⟩
    | true =>
      have hrest := ih (hread.cons h hx hlinked) fun y hy => hxs y (List.mem_cons_of_mem _ hy)
      exact hrest.imp fun _ ⟨hperm, hne, hbundle⟩ =>
        ⟨hperm.trans List.perm_middle.symm, hne, hbundle⟩

theorem Links.firstRun (hxs : ∀ x ∈ xs, member x) :
    Yields (fun runs => (runs.1 ++ runs.2).Perm xs ∧ (xs ≠ [] → runs.1 ≠ []) ∧
      IsBundle member linked runs.1) failure (firstRun less xs) := by
  match xs, hxs with
  | [], _ => exact ⟨.refl _, id, .nil⟩
  | [x], hxs => exact ⟨.refl _, id, .singleton (hxs x List.mem_cons_self)⟩
  | x :: y :: rest, hxs =>
    have hx := hxs x List.mem_cons_self
    have hy := hxs y (by simp)
    have hrest : ∀ z ∈ rest, member z := fun z hz => hxs z (by simp [hz])
    have hturn : ([y, x] ++ rest).Perm (x :: y :: rest) := .swap x y rest
    refine (h.compare hy hx).bind fun falls hlinked => ?_
    have hstart := (IsBundle.singleton hx).cons h hy (h.symm hlinked)
    -- What is read stands last first: so a falling run is in order, and any other is turned round.
    cases falls with
    | true =>
      have hrun := h.runFrom hstart hrest fun _ _ hlast hnext => h.turned.compare hlast hnext
      exact hrun.imp fun _ ⟨hperm, hne, hbundle⟩ => ⟨hperm.trans hturn, fun _ => hne, hbundle⟩
    | false =>
      have hrun := h.runFrom hstart hrest fun _ _ hlast hnext =>
        (h.notBefore hnext hlast).imp fun _ => h.symm
      refine hrun.bind fun runs ⟨hperm, hne, hbundle⟩ => ⟨?_, fun _ => ?_, ?_⟩
      · exact ((List.reverse_perm _).append_right _).trans (hperm.trans hturn)
      · exact List.reverse_eq_nil_iff.not.mpr hne
      · exact hbundle.perm h (List.reverse_perm _)

theorem Links.foldlM_insert (hrun : IsBundle member linked run) (hxs : ∀ x ∈ xs, member x) :
    Yields (fun run' => run'.Perm (run ++ xs) ∧ IsBundle member linked run') failure
      (xs.foldlM (Sorting.insert less) run) := by
  induction xs generalizing run with
  | nil => exact ⟨by rw [List.append_nil], hrun⟩
  | cons x xs ih =>
    rw [List.foldlM_cons]
    refine (h.insert hrun (hxs x List.mem_cons_self)).bind fun run' ⟨hperm, hbundle⟩ => ?_
    have hrest := ih hbundle fun y hy => hxs y (List.mem_cons_of_mem _ hy)
    refine hrest.imp fun run'' ⟨hperm', hbundle'⟩ => ⟨?_, hbundle'⟩
    exact hperm'.trans ((hperm.append_right xs).trans List.perm_middle.symm)

/-- The next run is linked, and it is not empty as long as there are values. -/
theorem Links.nextRun (least : Nat) (hxs : ∀ x ∈ xs, member x) :
    Yields (fun runs => (runs.1 ++ runs.2).Perm xs ∧ (xs ≠ [] → runs.1 ≠ []) ∧
      IsBundle member linked runs.1) failure (nextRun less least xs) := by
  refine (h.firstRun hxs).bind fun (run, rest) ⟨hperm, hne, hbundle⟩ => ?_
  have hrest : ∀ x ∈ rest.take (least - run.length), member x := fun x hx =>
    hxs x (hperm.mem_iff.mp (List.mem_append_right _ (List.mem_of_mem_take hx)))
  refine (h.foldlM_insert hbundle hrest).bind fun run' ⟨hperm', hbundle'⟩ => ⟨?_, ?_, hbundle'⟩
  · refine (hperm'.append_right _).trans ?_
    rw [List.append_assoc, List.take_append_drop]
    exact hperm
  · intro hxs hnil
    rw [show run' = [] from hnil] at hperm'
    exact hne hxs (List.append_eq_nil_iff.mp hperm'.symm.eq_nil).1

end Runs

section Merges

variable {less : α → α → Except ε Bool} {member : α → Prop} {linked : α → α → Prop}
  {failure : ε → Prop}

namespace Merge

variable {m : Merge α}

theorem result_takeFirst_perm (m : Merge α) (count : Nat) :
    (m.takeFirst count).result.Perm m.result := by
  have hfirst : (m.first.take count ++ m.second ++ m.first.drop count).Perm
      (m.second ++ m.first) := by
    conv_rhs => rw [← List.take_append_drop count m.first, ← List.append_assoc]
    exact List.perm_append_comm.append_right _
  simpa [result, takeFirst] using hfirst.append_left m.merged.reverse

theorem result_takeSecond (m : Merge α) (count : Nat) : (m.takeSecond count).result = m.result := by
  unfold result takeSecond
  dsimp only
  rw [List.reverse_append, List.reverse_reverse, List.append_assoc m.merged.reverse,
    List.take_append_drop]

/-- All values of a merge are members. -/
def IsOver (member : α → Prop) (m : Merge α) : Prop :=
  ∀ x ∈ m.result, member x

namespace IsOver

theorem first (hm : m.IsOver member) : ∀ x ∈ m.first, member x := fun x hx =>
  hm x (List.mem_append_right _ hx)

theorem second (hm : m.IsOver member) : ∀ x ∈ m.second, member x := fun x hx =>
  hm x (List.mem_append_left _ (List.mem_append_right _ hx))

theorem perm {m' : Merge α} (hm : m.IsOver member) (hperm : m'.result.Perm m.result) :
    m'.IsOver member := fun x hx => hm x (hperm.mem_iff.mp hx)

end IsOver

/-- A step of a merge, with some count, that drops and adds no values. -/
def Continues (failure : ε → Prop) (m : Merge α) : Except ε (Merge α × Nat) → Prop :=
  Yields (fun step => step.1.result.Perm m.result) failure

namespace Continues

theorem pure {m' : Merge α} (hperm : m'.result.Perm m.result) (count : Nat) :
    Continues failure m (.ok (m', count)) := hperm

theorem trans {m' : Merge α} {step : Except ε (Merge α × Nat)} (hstep : Continues failure m' step)
    (hperm : m'.result.Perm m.result) : Continues failure m step :=
  hstep.imp fun _ hperm' => hperm'.trans hperm

theorem bind {step : Except ε (Merge α × Nat)} {next : Merge α × Nat → Except ε (Merge α × Nat)}
    (hstep : Continues failure m step) (hm : m.IsOver member)
    (hnext : ∀ m' count, m'.IsOver member → Continues failure m' (next (m', count))) :
    Continues failure m (step >>= next) :=
  Yields.bind hstep fun (m', count) hperm => (hnext m' count (hm.perm hperm)).trans hperm

end Continues

variable (h : Links less member linked failure) (fromBack : Bool)
include h

theorem continues_passFirst (hm : m.IsOver member) :
    Continues failure m (m.passFirst fromBack less) := by
  unfold passFirst
  cases hsecond : m.second with
  | nil => exact .pure (.refl _) 0
  | cons y second =>
    have hy := hm.second y (hsecond ▸ List.mem_cons_self)
    refine (yields_lead fromBack fun x hx => h.notBefore hy (hm.first x hx)).bind fun count _ => ?_
    refine Continues.pure ?_ count
    split
    · exact m.result_takeFirst_perm count
    · rw [result_takeSecond]
      exact m.result_takeFirst_perm count

theorem continues_passSecond (hm : m.IsOver member) :
    Continues failure m (m.passSecond fromBack less) := by
  unfold passSecond
  cases hfirst : m.first with
  | nil => exact .pure (.refl _) 0
  | cons x first =>
    have hx := hm.first x (hfirst ▸ List.mem_cons_self)
    have hlead := yields_lead fromBack fun y hy =>
      (h.compare (hm.second y hy) hx).imp fun _ => h.symm
    refine hlead.bind fun count _ => ?_
    refine Continues.pure ?_ count
    rw [← m.result_takeSecond count]
    split
    · exact .refl _
    · exact result_takeFirst_perm _ 1

theorem continues_passBoth (hm : m.IsOver member) :
    Continues failure m (m.passBoth fromBack less) := by
  have hfirst {m' : Merge α} (hm' : m'.IsOver member) := continues_passFirst h fromBack hm'
  have hsecond {m' : Merge α} (hm' : m'.IsOver member) := continues_passSecond h fromBack hm'
  unfold passBoth
  cases fromBack with
  | true =>
    refine (hsecond hm).bind hm fun m' count hm' => ?_
    dsimp only
    split
    · exact .pure (.refl _) count
    · exact (hfirst hm').bind hm' fun m'' count' _ => .pure (.refl _) (max count count')
  | false =>
    refine (hfirst hm).bind hm fun m' count hm' => ?_
    dsimp only
    split
    · exact .pure (.refl _) count
    · exact (hsecond hm').bind hm' fun m'' count' _ => .pure (.refl _) (max count count')

/-- A merge keeps its values, whether it goes by steps or by leaps. -/
theorem continues_run (hm : m.IsOver member) (fuel patience : Nat) (pace : Pace) :
    Continues failure m (m.run fromBack less fuel patience pace) := by
  induction fuel generalizing m patience pace with
  | zero => exact .pure (.refl _) patience
  | succ fuel ih =>
    cases pace with
    | leaps =>
      rw [run]
      refine (continues_passBoth h fromBack hm).bind hm fun m' count hm' => ?_
      dsimp only
      split
      · exact .pure (.refl _) _
      · split
        · exact ih hm' _ _
        · exact ih hm' _ _
    | steps wins wins' =>
      rw [run]
      split
      · next x xs y ys hfirst hsecond =>
        have hx := hm.first x (hfirst ▸ List.mem_cons_self)
        have hy := hm.second y (hsecond ▸ List.mem_cons_self)
        have hstep : Yields (fun next => next.1.result.Perm m.result) failure (do
            if ← less y x then return (m.takeSecond 1, 0, wins' + 1)
            else return (m.takeFirst 1, wins + 1, 0) : Except ε (Merge α × Nat × Nat)) := by
          refine (h.compare hy hx).bind fun comesFirst _ => ?_
          cases comesFirst with
          | true => exact .of_eq (m.result_takeSecond 1)
          | false => exact m.result_takeFirst_perm 1
        refine hstep.bind fun (m', wins, wins') hperm => ?_
        have hm' := hm.perm hperm
        dsimp only
        split
        · exact Continues.pure hperm patience
        · split
          · exact (ih hm' _ _).trans hperm
          · exact (ih hm' _ _).trans hperm
      · exact .pure (.refl _) patience

/-- A merge yields the values of both runs. -/
theorem yields_ofRuns {first second : List α} (hfirst : ∀ x ∈ first, member x)
    (hsecond : ∀ y ∈ second, member y) (patience : Nat) :
    Yields (fun out => out.1.Perm (first ++ second)) failure
      (ofRuns fromBack less patience first second) := by
  have hresult : (takeSecond ⟨[], first, second⟩ 1).result.Perm (first ++ second) := by
    rw [result_takeSecond]
    exact List.perm_append_comm
  have hm : (takeSecond ⟨[], first, second⟩ 1).IsOver member := fun x hx =>
    (List.mem_append.mp (hresult.mem_iff.mp hx)).elim (hfirst x) (hsecond x)
  unfold ofRuns
  dsimp only
  split
  · exact hresult
  · exact Yields.bind (continues_run h fromBack hm _ patience _) fun _ hperm => hperm.trans hresult

end Merge

theorem take_append_append_drop_perm {first second middle : List α} {k n : Nat}
    (hmiddle : middle.Perm (first.drop k ++ second.take n)) :
    (first.take k ++ middle ++ second.drop n).Perm (first ++ second) := by
  calc (first.take k ++ middle ++ second.drop n).Perm
        (first.take k ++ (first.drop k ++ second.take n) ++ second.drop n) :=
        (hmiddle.append_left _).append_right _
    _ = first ++ second := by
        rw [← List.append_assoc, List.take_append_drop, List.append_assoc, List.take_append_drop]

/-- Two runs are put together by a comparison of two of their values. -/
theorem Links.mergeRuns {first second : List α} (h : Links less member linked failure)
    (hfirst : IsBundle member linked first) (hsecond : IsBundle member linked second)
    (patience : Nat) :
    Yields (fun out => out.1.Perm (first ++ second) ∧ IsBundle member linked out.1) failure
      (mergeRuns less patience first second) := by
  unfold Sorting.mergeRuns
  split
  · exact ⟨by rw [List.append_nil], hfirst⟩
  · next y ys =>
    have hy := hsecond.member y List.mem_cons_self
    have hlead := yields_lead false fun x hx => h.notBefore hy (hfirst.member x hx)
    refine hlead.bind fun inFront hlooked => ?_
    -- The search for what stays in front compares the two runs; all that follows only rearranges.
    have hbundle : IsBundle member linked (first ++ y :: ys) := by
      cases first with
      | nil => exact hsecond
      | cons x xs =>
        obtain ⟨z, hz, hlinked⟩ := hlooked (List.cons_ne_nil _ _)
        exact hfirst.append hsecond h hz List.mem_cons_self (h.symm hlinked)
    have hdone {middle : List α} {k n : Nat}
        (hmiddle : middle.Perm (first.drop k ++ (y :: ys).take n)) :
        (first.take k ++ middle ++ (y :: ys).drop n).Perm (first ++ y :: ys) ∧
          IsBundle member linked (first.take k ++ middle ++ (y :: ys).drop n) :=
      have hperm := take_append_append_drop_perm hmiddle
      ⟨hperm, hbundle.perm h hperm⟩
    simp only [List.splitAt_eq]
    split
    · next hnone =>
      have hall : first.take inFront = first := List.take_of_length_le
        (List.drop_eq_nil_iff.mp (List.getLast?_eq_none_iff.mp hnone))
      rw [hall]
      exact ⟨.refl _, hbundle⟩
    · next x hlast =>
      have hrest : ∀ z ∈ first.drop inFront, member z := fun z hz =>
        hfirst.member z (List.mem_of_mem_drop hz)
      have hx := hrest x (List.mem_of_getLast? hlast)
      have hback := yields_lead true fun z hz =>
        h.notBefore (hsecond.member z (List.mem_reverse.mp hz)) hx
      refine hback.bind fun atBack _ => ?_
      have hothers : ∀ z ∈ (y :: ys).take ((y :: ys).length - atBack), member z := fun z hz =>
        hsecond.member z (List.mem_of_mem_take hz)
      split
      · next hempty =>
        refine hdone ?_
        rw [List.isEmpty_iff.mp hempty, List.append_nil]
      · split
        · refine (Merge.yields_ofRuns h false hrest hothers patience).bind fun out hperm => ?_
          exact hdone hperm
        · refine (Merge.yields_ofRuns h.turned true ?_ ?_ patience).bind fun out hperm => ?_
          · exact fun z hz => hothers z (List.mem_reverse.mp hz)
          · exact fun z hz => hrest z (List.mem_reverse.mp hz)
          · rw [← List.reverse_append] at hperm
            exact hdone ((List.reverse_perm _).trans (hperm.trans (List.reverse_perm _)))

end Merges

section Piles

variable {less : α → α → Except ε Bool} {member : α → Prop} {linked : α → α → Prop}
  {failure : ε → Prop} {runs : List (Waiting α)} {last before : Waiting α} {xs ys run : List α}

/-- Runs, last first, that are linked each in itself and hold some values. -/
structure IsPile (member : α → Prop) (linked : α → α → Prop) (xs : List α)
    (runs : List (Waiting α)) : Prop where
  bundle : ∀ w ∈ runs, IsBundle member linked w.run
  perm : (runs.flatMap Waiting.run).Perm xs

namespace IsPile

theorem nil : IsPile member linked [] [] :=
  ⟨nofun, .refl _⟩

theorem trans (hruns : IsPile member linked xs runs) (hperm : xs.Perm ys) :
    IsPile member linked ys runs :=
  ⟨hruns.bundle, hruns.perm.trans hperm⟩

/-- A run put on top. -/
theorem cons (hruns : IsPile member linked xs runs) (hrun : IsBundle member linked run)
    (depth : Nat) : IsPile member linked (run ++ xs) (⟨run, depth⟩ :: runs) where
  bundle := List.forall_mem_cons.mpr ⟨hrun, hruns.bundle⟩
  perm := hruns.perm.append_left run

theorem head {w : Waiting α} (hruns : IsPile member linked xs (w :: runs)) :
    IsBundle member linked w.run :=
  hruns.bundle w List.mem_cons_self

/-- What lies below the run on top. -/
theorem tail {w : Waiting α} (hruns : IsPile member linked xs (w :: runs)) :
    IsPile member linked (runs.flatMap Waiting.run) runs where
  bundle v hv := hruns.bundle v (List.mem_cons_of_mem _ hv)
  perm := .refl _

/-- Other runs below the run on top. -/
theorem withTail {w : Waiting α} {runs' : List (Waiting α)}
    (hruns : IsPile member linked xs (w :: runs))
    (htail : IsPile member linked (runs.flatMap Waiting.run) runs') :
    IsPile member linked xs (w :: runs') :=
  (htail.cons hruns.head w.depth).trans hruns.perm

/-- The depth of a run does not matter. -/
theorem withDepth {w : Waiting α} (hruns : IsPile member linked xs (w :: runs)) (depth : Nat) :
    IsPile member linked xs ({ w with depth } :: runs) :=
  (hruns.tail.cons hruns.head depth).trans hruns.perm

/-- The two runs on top are merged. -/
theorem mergeTop (hruns : IsPile member linked xs (last :: before :: runs))
    (h : Links less member linked failure) (patience depth : Nat) :
    Yields (fun out => IsPile member linked xs (⟨out.1, depth⟩ :: runs)) failure
      (mergeRuns less patience before.run last.run) := by
  refine (h.mergeRuns hruns.tail.head hruns.head patience).imp fun out ⟨hperm, hbundle⟩ => ?_
  have hmerged : (out.1 ++ runs.flatMap Waiting.run).Perm xs := by
    calc (out.1 ++ runs.flatMap Waiting.run).Perm
          (last.run ++ before.run ++ runs.flatMap Waiting.run) :=
          (hperm.trans List.perm_append_comm).append_right _
      _ = (last :: before :: runs).flatMap Waiting.run := by simp
      List.Perm _ xs := hruns.perm
  exact (hruns.tail.tail.cons hbundle depth).trans hmerged

end IsPile

namespace Pile

variable (h : Links less member linked failure)
include h

/-- Merging what lies deep leaves a pile of the same values. -/
theorem yields_mergeBelow (hruns : IsPile member linked xs runs) (depth patience : Nat) :
    Yields (fun p => IsPile member linked xs p.runs) failure
      (mergeBelow less depth runs patience) := by
  fun_induction mergeBelow less depth runs patience with
  | case1 | case2 | case4 => exact hruns
  | case3 last before rest patience hlt ih =>
    exact (hruns.mergeTop h patience before.depth).bind fun out hout => ih _ _ hout

/-- A run is put on top of the pile. -/
theorem yields_push {p : Pile α} (hp : IsPile member linked xs p.runs) (total : Nat)
    (hrun : IsBundle member linked run) :
    Yields (fun p' => IsPile member linked (run ++ xs) p'.runs) failure
      (p.push less total run) := by
  unfold push
  split
  · next hnil =>
    rw [hnil] at hp
    exact hp.cons hrun 0
  · next last rest hruns =>
    refine (yields_mergeBelow h hp _ p.patience).bind fun p' hp' => ?_
    split
    · next hnil =>
      rw [hnil] at hp'
      exact hp'.cons hrun 0
    · next last' rest' hruns' =>
      rw [hruns'] at hp'
      exact (hp'.withDepth _).cons hrun 0

/-- All runs become one. -/
theorem yields_collapse (hruns : IsPile member linked xs runs) (patience : Nat) :
    Yields (fun ys => ys.Perm xs ∧ IsBundle member linked ys) failure
      (collapse less runs patience) := by
  fun_induction collapse less runs patience with
  | case1 => exact ⟨hruns.perm, .nil⟩
  | case2 last =>
    have hperm := hruns.perm
    rw [List.flatMap_singleton] at hperm
    exact ⟨hperm, hruns.head⟩
  | case3 last before patience ih =>
    exact (hruns.mergeTop h patience before.depth).bind fun out hout => ih _ _ hout
  | case4 last before third rest patience hlt ih =>
    refine (hruns.tail.mergeTop h patience third.depth).bind fun out hout => ?_
    exact ih _ _ (hruns.withTail hout)
  | case5 last before third rest patience hge ih =>
    exact (hruns.mergeTop h patience before.depth).bind fun out hout => ih _ _ hout

/-- All values are put on the pile: each run takes some of them. -/
theorem yields_pushAll {p : Pile α} (hp : IsPile member linked xs p.runs) (total : Nat)
    {fuel : Nat} (hys : ∀ y ∈ ys, member y) (hfuel : ys.length ≤ fuel) :
    Yields (fun p' => IsPile member linked (ys ++ xs) p'.runs) failure
      (pushAll less total fuel p ys) := by
  induction fuel generalizing p xs ys with
  | zero =>
    obtain rfl := List.length_eq_zero_iff.mp (Nat.le_zero.mp hfuel)
    exact hp
  | succ fuel ih =>
    cases ys with
    | nil => exact hp
    | cons y ys =>
      rw [pushAll]
      refine (h.nextRun _ hys).bind fun (run, rest) ⟨hperm, hne, hbundle⟩ => ?_
      refine (yields_push h hp total hbundle).bind fun p' hp' => ?_
      have hrest : ∀ z ∈ rest, member z := fun z hz =>
        hys z (hperm.mem_iff.mp (List.mem_append_right _ hz))
      have hlength : rest.length ≤ fuel := by
        have hrun := List.length_pos_iff.mpr (hne (List.cons_ne_nil _ _))
        have hall := hperm.length_eq
        rw [List.length_append] at hall
        dsimp only at hrun hall
        omega
      refine (ih hp' hrest hlength).imp fun p'' hp'' => hp''.trans ?_
      calc (rest ++ (run ++ xs)).Perm (run ++ (rest ++ xs)) := List.perm_append_comm_assoc _ _ _
        _ = run ++ rest ++ xs := (List.append_assoc _ _ _).symm
        List.Perm _ (y :: ys ++ xs) := hperm.append_right xs

end Pile
end Piles

section Sorts

variable {less : α → α → Except ε Bool} {member : α → Prop} {linked : α → α → Prop}
  {failure : ε → Prop} {xs ys : List α}

/-- A sort that succeeds rearranges the values and links them all. -/
theorem Links.sort (h : Links less member linked failure) (hxs : ∀ x ∈ xs, member x) :
    Yields (fun ys => ys.Perm xs ∧ ys.Pairwise linked) failure (sort less xs) := by
  have hpush := Pile.yields_pushAll h (p := ⟨[], Merge.worthwhile⟩) .nil xs.length hxs
    (Nat.le_refl _)
  refine hpush.bind fun p hp => ?_
  rw [List.append_nil] at hp
  exact (Pile.yields_collapse h hp p.patience).imp fun ys ⟨hperm, hbundle⟩ =>
    ⟨hperm, hbundle.linked⟩

theorem Links.sortFalling (h : Links less member linked failure) (hxs : ∀ x ∈ xs, member x) :
    Yields (fun ys => ys.Perm xs ∧ ys.Pairwise linked) failure (sortFalling less xs) := by
  have hsort := h.sort fun x hx => hxs x (List.mem_reverse.mp hx)
  refine hsort.bind fun ys ⟨hperm, hlinked⟩ => ⟨?_, ?_⟩
  · exact (List.reverse_perm _).trans (hperm.trans (List.reverse_perm _))
  · exact (List.reverse_perm ys).symm.pairwise hlinked h.symm

/-- Nothing is compared where there are no two values. -/
theorem sortFalling_of_length (less : α → α → Except ε Bool) (hlength : xs.length ≤ 1) :
    sortFalling less xs = .ok xs := by
  unfold Sorting.sortFalling Sorting.sort
  match xs, hlength with
  | [], _ => simp [Pile.pushAll, Pile.collapse, bind, Except.bind, pure, Except.pure]
  | [x], _ =>
    have hrun : nextRun less (leastRun 0 1) [x] = .ok ([x], []) := by
      unfold nextRun
      simp [firstRun, bind, Except.bind, pure, Except.pure]
    simp [hrun, Pile.pushAll, Pile.push, Pile.collapse, bind, Except.bind, pure, Except.pure]

/-- A sort that fails comes upon two of the values whose comparison fails. -/
theorem exists_of_sortFalling {e : ε} (hsort : sortFalling less xs = .error e) :
    ∃ x ∈ xs, ∃ y ∈ xs, less x y = .error e := by
  have h : Links less (· ∈ xs) (fun _ _ => True)
      (fun e => ∃ x ∈ xs, ∃ y ∈ xs, less x y = .error e) := {
    symm := id
    trans := fun _ _ => trivial
    compare := by
      intro x y hx hy
      cases hxy : less x y with
      | ok less => trivial
      | error e => exact ⟨x, hx, y, hy, hxy⟩ }
  have hall := h.sortFalling fun x hx => hx
  rwa [hsort] at hall

/-- The values of a sort that succeeds are all linked, if a comparison that succeeds links two. -/
theorem pairwise_of_sortFalling (symm : ∀ {x y}, linked x y → linked y x)
    (trans : ∀ {x y z}, linked x y → linked y z → linked x z)
    (hless : ∀ x y b, less x y = .ok b → linked x y) (hsort : sortFalling less xs = .ok ys) :
    xs.Pairwise linked := by
  have h : Links less (fun _ => True) linked (fun _ : ε => True) := {
    symm, trans
    compare := by
      intro x y _ _
      cases hxy : less x y with
      | ok b => exact hless x y b hxy
      | error e => trivial }
  have hmember : ∀ x ∈ xs, True := fun _ _ => trivial
  have hall := h.sortFalling hmember
  rw [hsort] at hall
  exact hall.1.pairwise hall.2 symm

end Sorts

end PassTrace.Sorting

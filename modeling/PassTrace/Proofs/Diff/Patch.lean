import PassTrace.Proofs.Diff.Agreement
import PassTrace.Proofs.Diff.Alignment
import PassTrace.View

/-!
# A unified diff is a patch

The hunks of a diff show all steps that change something, and what stands between two hunks is the
same in both texts. So the new text is made from the old one and the diff: the lines outside the
hunks are copied, and of the lines of a hunk those that it keeps or adds are written. The diff is
empty only if the texts agree.
-/

namespace PassTrace
namespace Diff

/-- What a hunk does with a line. -/
inductive Mark
  | kept
  | removed
  | added
  deriving DecidableEq

/-- The sign in front of a line. -/
def Mark.sign : Mark → String
  | kept => " "
  | removed => "-"
  | added => "+"

/-- The line in the old text, if it stands there. -/
def Mark.old? : Mark × String → Option String
  | (added, _) => none
  | (_, line) => some line

/-- The line in the new text, if it stands there. -/
def Mark.new? : Mark × String → Option String
  | (removed, _) => none
  | (_, line) => some line

/-- A hunk: the numbers of lines above it in both texts, and its lines. -/
structure Hunk where
  oldStart : Nat
  newStart : Nat
  lines : List (Mark × String)

namespace Hunk

/-- The lines that a hunk keeps or removes. -/
def old (h : Hunk) : Lines :=
  h.lines.filterMap Mark.old?

/-- The lines that a hunk keeps or adds. -/
def new (h : Hunk) : Lines :=
  h.lines.filterMap Mark.new?

/-- The number of lines of the old text that are above the hunk or in it. -/
def oldStop (h : Hunk) : Nat :=
  h.oldStart + h.old.length

/-- The number of lines of the new text that are above the hunk or in it. -/
def newStop (h : Hunk) : Nat :=
  h.newStart + h.new.length

/-- A range of so many lines below others: its first line, counted from one, and its length unless
that is one. An empty range shows the line before it. -/
def range (above length : Nat) : String :=
  if length = 1 then s!"{above + 1}"
  else if length = 0 then s!"{above},{length}"
  else s!"{above + 1},{length}"

/-- A hunk as a diff shows it: its ranges in both texts, and its lines with their signs. -/
def text (h : Hunk) : Lines :=
  s!"@@ -{range h.oldStart h.old.length} +{range h.newStart h.new.length} @@" ::
    h.lines.map fun (mark, line) => mark.sign ++ line

/-- In both texts a hunk ends before another one starts. -/
def Above (h h' : Hunk) : Prop :=
  h.oldStop < h'.oldStart ∧ h.newStop < h'.newStart

end Hunk

/-- The text that hunks make of a text, of which so many lines were read and so many were written:
the lines above a hunk are copied, the lines that it keeps or removes have to follow in the text,
and those that it keeps or adds are written instead. -/
def applyHunks (read written : Nat) (text : Lines) : List Hunk → Option Lines
  | [] => some text
  | h :: hs =>
    let copied := text.take (h.oldStart - read)
    let below := text.drop (h.oldStart - read)
    if h.oldStart = read + copied.length ∧ h.newStart = written + copied.length ∧
        h.old.isPrefixOf below then
      (applyHunks h.oldStop h.newStop (below.drop h.old.length) hs).map fun rest =>
        copied ++ h.new ++ rest
    else none

/-- Groups of steps show all that differs between what is left of two texts: in front of the next
group at least `gap` lines are the same, and below each group at least one line. -/
inductive Shows (old new : Lines) : Nat → Nat → Nat → List (List Step) → Prop
  | nil {gap i j : Nat} (h : old.drop i = new.drop j) : Shows old new gap i j []
  | cons {gap n i j k l : Nat} {group : List Step} {groups : List (List Step)} (hgap : gap ≤ n)
    (hcopied : Block.Matches ⟨i, j, n⟩ old new) (hne : group ≠ [])
    (hgroup : Leads old new (i + n) (j + n) group k l) (h : Shows old new 1 k l groups) :
    Shows old new gap i j (group :: groups)

variable {old new : Lines} {i j k l m n : Nat} {group rest : List Step} {groups : List (List Step)}

section Blocks

/-- A part of a block is a block. -/
theorem Block.Matches.part (h : Block.Matches ⟨i, j, n⟩ old new) (hpart : k + m ≤ n) :
    Block.Matches ⟨i + k, j + k, m⟩ old new := by
  obtain ⟨hold, hnew, hagree⟩ := h
  dsimp only at hold hnew hagree
  refine ⟨by dsimp only; omega, by dsimp only; omega, fun place hplace => ?_⟩
  have hsame := hagree (k + place) (by dsimp only at hplace; omega)
  rwa [← Nat.add_assoc, ← Nat.add_assoc] at hsame

/-- The lines of a block are the same in both texts. -/
theorem Block.Matches.take_drop_eq (h : Block.Matches ⟨i, j, n⟩ old new) :
    (old.drop i).take n = (new.drop j).take n := by
  refine List.ext_getElem? fun place => ?_
  by_cases hplace : place < n
  · rw [List.getElem?_take_of_lt hplace, List.getElem?_take_of_lt hplace, List.getElem?_drop,
      List.getElem?_drop]
    exact h.agree place hplace
  · rw [List.getElem?_take_eq_none (by omega), List.getElem?_take_eq_none (by omega)]

/-- Texts that agree below a block agree from its start on. -/
theorem Block.Matches.drop_eq (h : Block.Matches ⟨i, j, n⟩ old new)
    (hbelow : old.drop (i + n) = new.drop (j + n)) : old.drop i = new.drop j := by
  rw [← List.take_append_drop n (old.drop i), ← List.take_append_drop n (new.drop j),
    h.take_drop_eq, List.drop_drop, List.drop_drop, hbelow]

end Blocks

section Steps

theorem Leads.append {steps : List Step} {i' j' : Nat} (h : Leads old new i j steps k l)
    (hrest : Leads old new k l rest i' j') : Leads old new i j (steps ++ rest) i' j' := by
  induction h with
  | nil => exact hrest
  | keep hblock _ ih => exact .keep hblock (ih hrest)
  | change hold hnew _ ih => exact .change hold hnew (ih hrest)

theorem Leads.le (h : Leads old new i j group k l) : i ≤ k ∧ j ≤ l := by
  induction h with
  | nil => omega
  | keep => omega
  | change => omega

/-- A step that keeps lines, cut to the last `n` of them. -/
theorem trimStart_keep (i j m n : Nat) :
    Step.trimStart n ⟨true, i, i + m, j, j + m⟩ =
      ⟨true, (i + (m - n) : Nat), (i + (m - n) : Nat) + (min m n : Nat),
        (j + (m - n) : Nat), (j + (m - n) : Nat) + (min m n : Nat)⟩ := by
  simp only [Step.trimStart, Step.mk.injEq, true_and]
  omega

/-- A step that keeps lines, cut to the first `n` of them. -/
theorem trimStop_keep (i j m n : Nat) :
    Step.trimStop n ⟨true, i, i + m, j, j + m⟩ =
      ⟨true, i, i + (min m n : Nat), j, j + (min m n : Nat)⟩ := by
  simp only [Step.trimStop, Step.mk.injEq, true_and]
  omega

theorem Block.Matches.leads_trimStart (h : Block.Matches ⟨i, j, m⟩ old new)
    (hrest : Leads old new (i + m) (j + m) rest k l) :
    Leads old new (i + (m - n)) (j + (m - n)) (Step.trimStart n ⟨true, i, i + m, j, j + m⟩ :: rest)
      k l := by
  rw [trimStart_keep]
  refine .keep (h.part (by omega)) ?_
  rwa [show i + (m - n) + min m n = i + m by omega, show j + (m - n) + min m n = j + m by omega]

theorem Block.Matches.leads_trimStop (h : Block.Matches ⟨i, j, m⟩ old new) :
    Leads old new i j [Step.trimStop n ⟨true, i, i + m, j, j + m⟩] (i + min m n) (j + min m n) := by
  rw [trimStop_keep]
  exact .keep (h.part (k := 0) (by omega)) .nil

/-- Steps whose first one is cut lead on from below lines that are the same. -/
theorem Leads.trimFirst (h : Leads old new 0 0 group k l) :
    ∃ m, Block.Matches ⟨0, 0, m⟩ old new ∧ Leads old new (0 + m) (0 + m)
      (trimFirst n group) k l := by
  cases h with
  | nil => exact ⟨0, matches_zero, .nil⟩
  | @keep _ _ m _ _ _ hblock hrest =>
    exact ⟨m - n, hblock.part (k := 0) (by omega), hblock.leads_trimStart hrest⟩
  | change hold hnew hrest => exact ⟨0, matches_zero, .change hold hnew hrest⟩

/-- Steps whose last one is cut lead to lines that are the same to the end. -/
theorem Leads.trimLast (h : Leads old new i j group k l) (hend : old.drop k = new.drop l) :
    ∃ k' l', Leads old new i j (trimLast n group) k' l' ∧ old.drop k' = new.drop l' := by
  induction h with
  | nil => exact ⟨_, _, .nil, hend⟩
  | @keep i j m k l rest hblock hrest ih =>
    cases rest with
    | nil =>
      obtain ⟨rfl, rfl⟩ : k = i + m ∧ l = j + m := by cases hrest; exact ⟨rfl, rfl⟩
      refine ⟨_, _, hblock.leads_trimStop, ?_⟩
      refine (hblock.part (k := min m n) (m := m - min m n) (by omega)).drop_eq ?_
      rwa [show i + min m n + (m - min m n) = i + m by omega,
        show j + min m n + (m - min m n) = j + m by omega]
    | cons s rest =>
      obtain ⟨k', l', hleads, hsame⟩ := ih hend
      exact ⟨k', l', .keep hblock hleads, hsame⟩
  | @change i j i' j' k l rest hold hnew hrest ih =>
    cases rest with
    | nil => exact ⟨k, l, .change hold hnew hrest, hend⟩
    | cons s rest =>
      obtain ⟨k', l', hleads, hsame⟩ := ih hend
      exact ⟨k', l', .change hold hnew hleads, hsame⟩

/-- Steps that keep lines change nothing. -/
theorem Leads.drop_eq (h : Leads old new i j group k l) (hkeeps : ∀ s ∈ group, s.keeps = true)
    (hend : old.drop k = new.drop l) : old.drop i = new.drop j := by
  induction h with
  | nil => exact hend
  | keep hblock _ ih =>
    exact hblock.drop_eq (ih (fun s hs => hkeeps s (List.mem_cons_of_mem _ hs)) hend)
  | change => cases hkeeps _ List.mem_cons_self

/-- A group of steps is a hunk, or it keeps all its lines. -/
theorem hunkOf_cases (group : List Step) :
    hunkOf group = [group] ∧ group ≠ [] ∨ hunkOf group = [] ∧ ∀ s ∈ group, s.keeps = true := by
  unfold hunkOf
  split
  · exact .inr ⟨rfl, nofun⟩
  · next s =>
    split
    · next hkeeps => exact .inr ⟨rfl, by simpa using hkeeps⟩
    · exact .inl ⟨rfl, List.cons_ne_nil _ _⟩
  · next hne _ => exact .inl ⟨rfl, hne⟩

/-- The hunks that are made of steps show all that differs. -/
theorem shows_hunksFrom {gap i' j' : Nat} (hgap : gap ≤ m)
    (hcopied : Block.Matches ⟨i, j, m⟩ old new)
    (hgroup : Leads old new (i + m) (j + m) group.reverse i' j')
    (hrest : Leads old new i' j' rest k l) (hend : old.drop k = new.drop l) :
    Shows old new gap i j (hunksFrom n group rest) := by
  -- The induction is on the steps that are left.
  induction hrest generalizing gap i j m group with
  | nil =>
    rw [hunksFrom]
    rcases hunkOf_cases group.reverse with ⟨hhunk, hne⟩ | ⟨hhunk, hkeeps⟩
    · rw [hhunk]
      exact .cons hgap hcopied hne hgroup (.nil hend)
    · rw [hhunk]
      exact .nil (hcopied.drop_eq (hgroup.drop_eq hkeeps hend))
  | @keep i' j' size k l rest hblock hrest ih =>
    rw [hunksFrom]
    split
    · next hlong =>
      -- The context below this hunk and that above the next one are apart.
      obtain ⟨apart, rfl⟩ : ∃ apart, size = n + (1 + apart) + n := ⟨size - n - 1 - n, by
        simp at hlong
        omega⟩
      refine .cons (k := i' + n) (l := j' + n) hgap hcopied (by simp) ?_ ?_
      · have hstop := hblock.leads_trimStop (n := n)
        rw [show min (n + (1 + apart) + n) n = n by omega] at hstop
        rw [List.reverse_cons]
        exact hgroup.append hstop
      · refine ih (m := 1 + apart) (by omega) (hblock.part (by omega)) ?_ hend
        have hstart := hblock.leads_trimStart (n := n) .nil
        rw [Nat.add_sub_cancel, ← Nat.add_assoc i', ← Nat.add_assoc j'] at hstart
        exact hstart
    · refine ih hgap hcopied ?_ hend
      rw [List.reverse_cons]
      exact hgroup.append (.keep hblock .nil)
  | change hold hnew hrest ih =>
    rw [hunksFrom, if_neg (by simp)]
    refine ih hgap hcopied ?_ hend
    rw [List.reverse_cons]
    exact hgroup.append (.change hold hnew .nil)

/-- The hunks of a diff show all that differs. -/
theorem shows_hunks (n : Nat) (hne : old ≠ new) : Shows old new 0 0 0 (hunks n old new) := by
  have hleads := leads_steps old new
  have hsteps : (steps old new).isEmpty = false := by
    rw [← Bool.not_eq_true, List.isEmpty_iff]
    intro hnone
    rw [hnone] at hleads
    -- Without steps both texts have no lines.
    generalize hold : old.length = size at hleads
    generalize hnew : new.length = size' at hleads
    cases hleads
    exact hne ((List.length_eq_zero_iff.mp hold).trans (List.length_eq_zero_iff.mp hnew).symm)
  obtain ⟨m, hcopied, hfirst⟩ := hleads.trimFirst (n := n)
  obtain ⟨k, l, hlast, hend⟩ := hfirst.trimLast (n := n)
    (by rw [List.drop_length, List.drop_length])
  unfold hunks
  simp only [hsteps, Bool.false_eq_true, if_false]
  exact shows_hunksFrom (Nat.zero_le m) hcopied .nil hlast hend

end Steps

section Hunks

/-- The lines of a step with their marks. -/
def Step.marked (old new : Lines) (s : Step) : List (Mark × String) :=
  if s.keeps then (slice old s.oldStart s.oldStop).map (Mark.kept, ·)
  else
    (slice old s.oldStart s.oldStop).map (Mark.removed, ·) ++
      (slice new s.newStart s.newStop).map (Mark.added, ·)

theorem stepLines_eq (old new : Lines) (s : Step) :
    stepLines old new s = (s.marked old new).map fun (mark, line) => mark.sign ++ line := by
  unfold stepLines Step.marked
  split <;> simp [Mark.sign, Function.comp_def]

/-- The lines between two places. -/
theorem slice_natCast (lines : Lines) (i k : Nat) :
    slice lines i k = (lines.drop i).take (k - i) := by
  unfold slice
  dsimp only
  rw [if_neg (by omega), if_neg (by omega), Int.toNat_natCast, Int.toNat_natCast, List.drop_take]

theorem slice_natCast_add (lines : Lines) (i n : Nat) :
    slice lines i (i + n) = (lines.drop i).take n := by
  rw [← Int.natCast_add, slice_natCast, Nat.add_sub_cancel_left]

theorem take_append_take_drop (lines : Lines) (hik : i ≤ k) (hkl : k ≤ l) :
    (lines.drop i).take (k - i) ++ (lines.drop k).take (l - k) = (lines.drop i).take (l - i) := by
  rw [show l - i = (k - i) + (l - k) by omega, List.take_add, List.drop_drop,
    show i + (k - i) = k by omega]

/-- The lines of steps that stand in the old text are those that the steps lead through. -/
theorem Leads.filterMap_old? (h : Leads old new i j group k l) :
    (group.flatMap (Step.marked old new)).filterMap Mark.old? = (old.drop i).take (k - i) := by
  induction h with
  | nil => simp
  | @keep i j n k l rest hblock hrest ih =>
    have hmarked : ((slice old i (i + n)).map (Mark.kept, ·)).filterMap Mark.old? =
        (old.drop i).take (i + n - i) := by
      rw [List.filterMap_map, slice_natCast_add, Nat.add_sub_cancel_left]
      exact List.filterMap_some
    rw [List.flatMap_cons, List.filterMap_append, ih, Step.marked, if_pos rfl, hmarked,
      take_append_take_drop old (by omega) hrest.le.1]
  | @change i j i' j' k l rest hold hnew hrest ih =>
    have hremoved : ((slice old i i').map (Mark.removed, ·)).filterMap Mark.old? =
        (old.drop i).take (i' - i) := by
      rw [List.filterMap_map, slice_natCast]
      exact List.filterMap_some
    have hadded (lines : Lines) : (lines.map (Mark.added, ·)).filterMap Mark.old? = [] := by
      simp [Mark.old?]
    rw [List.flatMap_cons, List.filterMap_append, ih, Step.marked, if_neg (by simp),
      List.filterMap_append, hremoved, hadded, List.append_nil,
      take_append_take_drop old hold.1 hrest.le.1]

/-- The lines of steps that stand in the new text are those that the steps lead through. -/
theorem Leads.filterMap_new? (h : Leads old new i j group k l) :
    (group.flatMap (Step.marked old new)).filterMap Mark.new? = (new.drop j).take (l - j) := by
  induction h with
  | nil => simp
  | @keep i j n k l rest hblock hrest ih =>
    have hmarked : ((slice old i (i + n)).map (Mark.kept, ·)).filterMap Mark.new? =
        (new.drop j).take (j + n - j) := by
      rw [List.filterMap_map, slice_natCast_add, Nat.add_sub_cancel_left, hblock.take_drop_eq]
      exact List.filterMap_some
    rw [List.flatMap_cons, List.filterMap_append, ih, Step.marked, if_pos rfl, hmarked,
      take_append_take_drop new (by omega) hrest.le.2]
  | @change i j i' j' k l rest hold hnew hrest ih =>
    have hadded : ((slice new j j').map (Mark.added, ·)).filterMap Mark.new? =
        (new.drop j).take (j' - j) := by
      rw [List.filterMap_map, slice_natCast]
      exact List.filterMap_some
    have hremoved (lines : Lines) : (lines.map (Mark.removed, ·)).filterMap Mark.new? = [] := by
      simp [Mark.new?]
    rw [List.flatMap_cons, List.filterMap_append, ih, Step.marked, if_neg (by simp),
      List.filterMap_append, hremoved, hadded, List.nil_append,
      take_append_take_drop new hnew.1 hrest.le.2]

theorem rangeText_natCast (above length : Nat) :
    rangeText above (above + length) = Hunk.range above length := by
  have hlength : (above : Int) + length - above = length := by omega
  have hone : ((length : Nat) : Int) = 1 ↔ length = 1 := by omega
  have hzero : ((length : Nat) : Int) = 0 ↔ length = 0 := by omega
  unfold rangeText Hunk.range
  dsimp only
  simp only [hlength, hone, hzero]
  rfl

/-- The last of steps ends where they lead. -/
theorem Leads.getLast?_eq (h : Leads old new i j group k l) (hne : group ≠ []) :
    ∃ last, group.getLast? = some last ∧ last.oldStop = k ∧ last.newStop = l := by
  induction h with
  | nil => exact absurd rfl hne
  | keep hblock hrest ih =>
    cases hrest with
    | nil => exact ⟨_, rfl, rfl, rfl⟩
    | _ => exact ih (List.cons_ne_nil _ _)
  | change hold hnew hrest ih =>
    cases hrest with
    | nil => exact ⟨_, rfl, rfl, rfl⟩
    | _ => exact ih (List.cons_ne_nil _ _)

/-- A group of steps is headed by the ranges that it leads through. -/
theorem Leads.hunkHead_eq (h : Leads old new i j group k l) (hne : group ≠ []) :
    hunkHead group = s!"@@ -{Hunk.range i (k - i)} +{Hunk.range j (l - j)} @@" := by
  have hfirst : ∃ first, group.head? = some first ∧ first.oldStart = i ∧ first.newStart = j := by
    cases h with
    | nil => exact absurd rfl hne
    | keep => exact ⟨_, rfl, rfl, rfl⟩
    | change => exact ⟨_, rfl, rfl, rfl⟩
  obtain ⟨first, hfirst, hold, hnew⟩ := hfirst
  obtain ⟨last, hlast, hold', hnew'⟩ := h.getLast?_eq hne
  have hk : ((i : Nat) : Int) + (k - i : Nat) = k := by have := h.le; omega
  have hl : ((j : Nat) : Int) + (l - j : Nat) = l := by have := h.le; omega
  unfold hunkHead
  rw [hfirst, hlast]
  dsimp only
  rw [hold, hnew, hold', hnew', ← rangeText_natCast, ← rangeText_natCast, hk, hl]

/-- Steps lead to places within the texts. -/
theorem Leads.le_length (h : Leads old new i j group k l) (hi : i ≤ old.length)
    (hj : j ≤ new.length) :
    k ≤ old.length ∧ l ≤ new.length := by
  induction h with
  | nil => exact ⟨hi, hj⟩
  | keep hblock _ ih => exact ih hblock.old_le hblock.new_le
  | change hold hnew _ ih => exact ih hold.2 hnew.2

/-- The hunk that shows steps. -/
def Hunk.ofSteps (old new : Lines) (i j : Nat) (group : List Step) : Hunk :=
  ⟨i, j, group.flatMap (Step.marked old new)⟩

theorem Hunk.old_ofSteps (h : Leads old new i j group k l) :
    (Hunk.ofSteps old new i j group).old = (old.drop i).take (k - i) :=
  h.filterMap_old?

theorem Hunk.new_ofSteps (h : Leads old new i j group k l) :
    (Hunk.ofSteps old new i j group).new = (new.drop j).take (l - j) :=
  h.filterMap_new?

theorem length_take_drop {lines : Lines} (hk : k ≤ lines.length) :
    ((lines.drop i).take (k - i)).length = k - i := by
  rw [List.length_take, List.length_drop]
  omega

theorem Hunk.oldStop_ofSteps (h : Leads old new i j group k l) (hk : k ≤ old.length) :
    (Hunk.ofSteps old new i j group).oldStop = k := by
  rw [oldStop, old_ofSteps h, length_take_drop hk]
  exact Nat.add_sub_of_le h.le.1

theorem Hunk.newStop_ofSteps (h : Leads old new i j group k l) (hl : l ≤ new.length) :
    (Hunk.ofSteps old new i j group).newStop = l := by
  rw [newStop, new_ofSteps h, length_take_drop hl]
  exact Nat.add_sub_of_le h.le.2

/-- The hunk of a group of steps is what the diff shows. -/
theorem Hunk.text_ofSteps (h : Leads old new i j group k l) (hk : k ≤ old.length)
    (hl : l ≤ new.length) (hne : group ≠ []) :
    (Hunk.ofSteps old new i j group).text = hunkHead group :: group.flatMap
    (stepLines old new) := by
  rw [h.hunkHead_eq hne, text, old_ofSteps h, new_ofSteps h, length_take_drop hk,
    length_take_drop hl, funext (stepLines_eq old new), ← List.map_flatMap]
  rfl

/-- Groups that show all that differs are shown as hunks one below the other, from which the new
text is made. -/
theorem Shows.exists_hunks {gap : Nat} (h : Shows old new gap i j groups) (hi : i ≤ old.length)
    (hj : j ≤ new.length) :
    ∃ hs : List Hunk, (groups ≠ [] → hs ≠ []) ∧
      (groups.flatMap fun group => hunkHead group :: group.flatMap (stepLines old new)) =
        hs.flatMap Hunk.text ∧
      (∀ h ∈ hs, i + gap ≤ h.oldStart ∧ j + gap ≤ h.newStart) ∧ hs.Pairwise Hunk.Above ∧
      applyHunks i j (old.drop i) hs = some (new.drop j) := by
  induction h with
  | nil hsame => exact ⟨[], absurd rfl, rfl, nofun, .nil, congrArg some hsame⟩
  | @cons gap n i j k l group groups hgap hcopied hne hgroup hshows ih =>
    obtain ⟨hk, hl⟩ := hgroup.le_length hcopied.old_le hcopied.new_le
    obtain ⟨hs, -, htext, hbelow, habove, happly⟩ := ih hk hl
    have hle := hgroup.le
    refine ⟨Hunk.ofSteps old new (i + n) (j + n) group :: hs, fun _ => List.cons_ne_nil _ _,
      ?_, ?_, ?_, ?_⟩
    · rw [List.flatMap_cons, List.flatMap_cons, htext, Hunk.text_ofSteps hgroup hk hl hne]
    · rintro h (_ | ⟨_, hmem⟩)
      · exact ⟨Nat.add_le_add_left hgap i, Nat.add_le_add_left hgap j⟩
      · have := hbelow h hmem
        omega
    · refine List.pairwise_cons.mpr ⟨fun h hmem => ?_, habove⟩
      rw [Hunk.Above, Hunk.oldStop_ofSteps hgroup hk, Hunk.newStop_ofSteps hgroup hl]
      exact hbelow h hmem
    -- Applying copies the lines above the hunk, writes those of the hunk and goes on below it.
    · have hcopy := hcopied.old_le
      have hlength : ((old.drop i).take n).length = n := by
        rw [List.length_take, List.length_drop]
        dsimp only at hcopy
        omega
      have hbelow : ((old.drop (i + n)).drop (k - (i + n))) = old.drop k := by
        rw [List.drop_drop, Nat.add_sub_of_le hle.1]
      have hnew : (new.drop j).take n ++ (new.drop (j + n)).take (l - (j + n)) ++ new.drop l =
          new.drop j := by
        rw [List.append_assoc, show new.drop l = (new.drop (j + n)).drop (l - (j + n)) by
          rw [List.drop_drop, Nat.add_sub_of_le hle.2], List.take_append_drop, ← List.drop_drop,
          List.take_append_drop]
      have hplace : (Hunk.ofSteps old new (i + n) (j + n) group).oldStart = i + n := rfl
      have hplace' : (Hunk.ofSteps old new (i + n) (j + n) group).newStart = j + n := rfl
      rw [applyHunks, hplace, hplace', Nat.add_sub_cancel_left]
      rw [hlength, List.drop_drop, Hunk.old_ofSteps hgroup, Hunk.new_ofSteps hgroup,
        Hunk.oldStop_ofSteps hgroup hk, Hunk.newStop_ofSteps hgroup hl, length_take_drop hk, hbelow,
        happly, if_pos ⟨rfl, rfl, by simp [List.take_prefix]⟩, hcopied.take_drop_eq,
        Option.map_some, hnew]

end Hunks

/-- The unified diff of texts that differ is a patch that makes the new one from the old one. -/
theorem exists_hunks_unified (oldName newName : String) (n : Nat) (hne : old ≠ new) :
    ∃ hs : List Hunk, hs ≠ [] ∧
      unified oldName newName n old new =
        s!"--- {oldName}" :: s!"+++ {newName}" :: hs.flatMap Hunk.text ∧
      hs.Pairwise Hunk.Above ∧ applyHunks 0 0 old hs = some new := by
  have hshows := shows_hunks n hne
  obtain ⟨hs, hsome, htext, -, habove, happly⟩ :=
    hshows.exists_hunks (Nat.zero_le _) (Nat.zero_le _)
  have hgroups : hunks n old new ≠ [] := by
    intro hnone
    rw [hnone] at hshows
    cases hshows with
    | nil hsame => exact hne hsame
  refine ⟨hs, hsome hgroups, ?_, habove, happly⟩
  unfold unified
  split
  · next hnone => exact absurd hnone hgroups
  · rw [htext]

end Diff

namespace View

open Diff

/-- The unified diff of a view is empty exactly if it shows the same text before and after the pass.
Otherwise it names the two texts and then shows hunks one below the other, each with the ranges of
its lines in both texts, which make the text after the pass from the one before it. -/
theorem diff_isPatch (d : Desk) (stripDebugInfo : Bool) (index : Int) {context : Int}
    (hcontext : 0 ≤ context) :
    let view := ((ofPass stripDebugInfo index).run d).1
    (view.diff context = [] ↔ view.before = view.after) ∧
    (view.before ≠ view.after → ∃ hs : List Hunk, hs ≠ [] ∧
      view.diff context = s!"--- before/{view.beforeName}" :: s!"+++ after/{view.afterName}" ::
        hs.flatMap Hunk.text ∧
      hs.Pairwise Hunk.Above ∧ applyHunks 0 0 view.before hs = some view.after) := by
  intro view
  obtain ⟨n, rfl⟩ := Int.eq_ofNat_of_zero_le hcontext
  have hself (h : view.before = view.after) : view.diff n = [] := by
    rw [diff, h]
    exact unified_self _ _ hcontext _
  have hpatch (hne : view.before ≠ view.after) : ∃ hs : List Hunk, hs ≠ [] ∧
      view.diff n = s!"--- before/{view.beforeName}" :: s!"+++ after/{view.afterName}" ::
        hs.flatMap Hunk.text ∧
      hs.Pairwise Hunk.Above ∧ applyHunks 0 0 view.before hs = some view.after := by
    obtain ⟨hs, hsome, htext, hrest⟩ := exists_hunks_unified s!"before/{view.beforeName}"
      s!"after/{view.afterName}" n hne
    refine ⟨hs, hsome, htext.trans ?_, hrest⟩
    simp only [toString, ← String.append_assoc]
    rfl
  refine ⟨⟨fun hempty => ?_, hself⟩, hpatch⟩
  by_cases hsame : view.before = view.after
  · exact hsame
  · obtain ⟨hs, -, htext, -⟩ := hpatch hsame
    rw [hempty] at htext
    cases htext

/-- A desk with a pass that replaces the second of two lines. -/
def replacing : Desk :=
  ⟨.new ⟨["a", "b"], [⟨"GVN", ⟨.module, none⟩, true, .inline ["a", "c"], none, none, none⟩]⟩, []⟩

/-- Without context lines the diff of a pass that replaces a line is a patch. -/
theorem diff_isPatch_replacing :
    ((ofPass false 1).run replacing).1.before = ["a", "b"] ∧
    ∃ hs : List Hunk, hs ≠ [] ∧ ((ofPass false 1).run replacing).1.diff 0 =
      "--- before/Initial" :: "+++ after/GVN on [module]" :: hs.flatMap Hunk.text ∧
      applyHunks 0 0 ["a", "b"] hs = some ["a", "c"] := by
  have hbefore : ((ofPass false 1).run replacing).1.before = ["a", "b"] := by decide +kernel
  have hafter : ((ofPass false 1).run replacing).1.after = ["a", "c"] := by decide +kernel
  have hne : ((ofPass false 1).run replacing).1.before ≠
      ((ofPass false 1).run replacing).1.after := by
    rw [hbefore, hafter]
    decide
  obtain ⟨hs, hsome, htext, -, happly⟩ := (diff_isPatch replacing false 1 (Int.le_refl 0)).2 hne
  rw [hbefore, hafter] at happly
  exact ⟨hbefore, hs, hsome, htext, happly⟩

end View
end PassTrace

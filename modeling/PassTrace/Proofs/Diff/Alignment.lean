import PassTrace.Diff.Matching

/-!
# The alignment of two texts

A block that is found holds lines that are the same in both texts, whichever lines were not sought.
The blocks stand one behind the other in both texts, so the steps made from them lead through both
texts from start to end, and those that keep lines keep what is the same.
-/

namespace PassTrace.Diff

/-- The lines of a block stand in both texts and are the same there. -/
structure Block.Matches (b : Block) (old new : Lines) : Prop where
  old_le : b.old + b.size ≤ old.length
  new_le : b.new + b.size ≤ new.length
  agree : ∀ k < b.size, old[b.old + k]? = new[b.new + k]?

/-- A block further back in both texts. -/
def Block.shift (i j : Nat) (b : Block) : Block :=
  ⟨i + b.old, j + b.new, b.size⟩

/-- Blocks that stand one behind the other in both texts, from given places on. -/
def Aligned (old new : Lines) (i j : Nat) : List Block → Prop
  | [] => i ≤ old.length ∧ j ≤ new.length
  | b :: bs =>
    (i ≤ b.old ∧ j ≤ b.new) ∧ b.Matches old new ∧ Aligned old new (b.old + b.size)
      (b.new + b.size) bs

/-- Steps lead from places in two texts to other ones. Those that keep lines keep a block. -/
inductive Leads (old new : Lines) : Nat → Nat → List Step → Nat → Nat → Prop
  | nil {i j : Nat} : Leads old new i j [] i j
  | keep {i j n k l : Nat} {rest : List Step} (hblock : Block.Matches ⟨i, j, n⟩ old new)
    (h : Leads old new (i + n) (j + n) rest k l) :
    Leads old new i j (⟨true, i, i + n, j, j + n⟩ :: rest) k l
  | change {i j i' j' k l : Nat} {rest : List Step} (hold : i ≤ i' ∧ i' ≤ old.length)
    (hnew : j ≤ j' ∧ j' ≤ new.length) (h : Leads old new i' j' rest k l) :
    Leads old new i j (⟨false, i, i', j, j'⟩ :: rest) k l

variable {keep : String → Bool} {old new : Lines} {b best : Block} {bs left right : List Block}
  {i j n : Nat}

section Blocks

theorem matches_zero : Block.Matches ⟨0, 0, 0⟩ old new :=
  ⟨Nat.zero_le _, Nat.zero_le _, fun _ hk => absurd hk (Nat.not_lt_zero _)⟩

/-- A block of what is left of two texts is one of the texts. -/
theorem Block.Matches.shift {a c : Nat} (h : b.Matches (old.drop a) (new.drop c))
    (ha : a ≤ old.length) (hc : c ≤ new.length) : (b.shift a c).Matches old new := by
  obtain ⟨hold, hnew, hagree⟩ := h
  rw [List.length_drop] at hold hnew
  refine ⟨?_, ?_, fun k hk => ?_⟩
  · dsimp only [Block.shift]
    omega
  · dsimp only [Block.shift]
    omega
  · have hsame := hagree k hk
    rw [List.getElem?_drop, List.getElem?_drop] at hsame
    simpa only [Block.shift, Nat.add_assoc] using hsame

/-- What two texts have in common in front is a block. -/
theorem matches_commonRun (keep : String → Bool) (old new : Lines) :
    Block.Matches ⟨0, 0, commonRun keep old new⟩ old new := by
  induction old generalizing new with
  | nil => exact matches_zero
  | cons a as ih =>
    cases new with
    | nil => exact matches_zero
    | cons c cs =>
      unfold commonRun
      split
      · next hsame =>
        obtain ⟨hold, hnew, hagree⟩ := ih cs
        obtain rfl : a = c := by simpa using (Bool.and_eq_true_iff.mp hsame).1
        refine ⟨by simpa using hold, by simpa using hnew, fun k hk => ?_⟩
        cases k with
        | zero => rfl
        | succ k => simpa using hagree k (by simpa using hk)
      · exact matches_zero

/-- What two texts have in common from given places on is a block. -/
theorem matches_commonRun_drop (keep : String → Bool) (hi : i ≤ old.length) (hj : j ≤ new.length) :
    Block.Matches ⟨i, j, commonRun keep (old.drop i) (new.drop j)⟩ old new :=
  (matches_commonRun keep (old.drop i) (new.drop j)).shift hi hj

/-- The longest block that starts in one place of the old text is one, if the best so far is. -/
theorem matches_longestAt (hi : i ≤ old.length) (hbest : best.Matches old new) :
    (longestAt keep i (old.drop i) j (new.drop j) best).Matches old new := by
  -- The induction is on the places of the new text that are left.
  generalize hrest : new.drop j = rest
  induction rest generalizing j best with
  | nil => exact hbest
  | cons c cs ih =>
    have hj : j < new.length := by
      rw [← Nat.not_le, ← List.drop_eq_nil_iff, hrest]
      exact List.cons_ne_nil _ _
    have hnext : new.drop (j + 1) = cs := by rw [← List.tail_drop, hrest, List.tail_cons]
    rw [longestAt]
    refine ih ?_ hnext
    split
    · rw [← hrest]
      exact matches_commonRun_drop keep hi (Nat.le_of_lt hj)
    · exact hbest

/-- The longest block is one, if the best so far is. -/
theorem matches_longestFrom (hbest : best.Matches old new) :
    (longestFrom keep new i (old.drop i) best).Matches old new := by
  -- The induction is on the places of the old text that are left.
  generalize hrest : old.drop i = rest
  induction rest generalizing i best with
  | nil => exact hbest
  | cons a as ih =>
    have hi : i < old.length := by
      rw [← Nat.not_le, ← List.drop_eq_nil_iff, hrest]
      exact List.cons_ne_nil _ _
    have hnext : old.drop (i + 1) = as := by rw [← List.tail_drop, hrest, List.tail_cons]
    rw [longestFrom]
    refine ih ?_ hnext
    rw [← hrest]
    exact matches_longestAt (j := 0) (Nat.le_of_lt hi) hbest

/-- A block that is made longer at both ends is one. -/
theorem Block.Matches.extend (h : b.Matches old new) : (b.extend old new).Matches old new := by
  obtain ⟨hold, hnew, hagree⟩ := h
  have hbefore := matches_commonRun (fun _ => true) (old.take b.old).reverse
    (new.take b.new).reverse
  have hbehind := matches_commonRun_drop (fun _ => true) hold hnew
  unfold Block.extend
  dsimp only
  generalize commonRun _ (old.take b.old).reverse (new.take b.new).reverse = before at hbefore ⊢
  generalize commonRun _ (old.drop _) (new.drop _) = behind at hbehind ⊢
  obtain ⟨hbefore, hbefore', hback⟩ := hbefore
  obtain ⟨hbehind, hbehind', hfront⟩ := hbehind
  dsimp only at hbefore hbefore' hback hbehind hbehind' hfront
  have holdLength : (old.take b.old).length = b.old := List.length_take_of_le (by omega)
  have hnewLength : (new.take b.new).length = b.new := List.length_take_of_le (by omega)
  rw [List.length_reverse, holdLength] at hbefore
  rw [List.length_reverse, hnewLength] at hbefore'
  refine ⟨by dsimp only; omega, by dsimp only; omega, fun k hk => ?_⟩
  dsimp only at hk ⊢
  rcases Nat.lt_or_ge k before with hlt | hge
  · -- The lines in front of the block were compared from its start backwards.
    have hsame := hback (before - 1 - k) (by omega)
    rw [List.getElem?_reverse (by omega), List.getElem?_reverse (by omega), holdLength, hnewLength,
      List.getElem?_take_of_lt (by omega), List.getElem?_take_of_lt (by omega)] at hsame
    rw [show b.old - before + k = b.old - 1 - (0 + (before - 1 - k)) by omega,
      show b.new - before + k = b.new - 1 - (0 + (before - 1 - k)) by omega]
    exact hsame
  · rw [show b.old - before + k = b.old + (k - before) by omega,
      show b.new - before + k = b.new + (k - before) by omega]
    rcases Nat.lt_or_ge k (before + b.size) with hlt | hge
    · exact hagree (k - before) (by omega)
    · have hsame := hfront (k - before - b.size) (by omega)
      rwa [show b.old + b.size + (k - before - b.size) = b.old + (k - before) by omega,
        show b.new + b.size + (k - before - b.size) = b.new + (k - before) by omega] at hsame

theorem matches_longest (keep : String → Bool) (old new : Lines) :
    (longest keep old new).Matches old new :=
  (matches_longestFrom (i := 0) matches_zero).extend

end Blocks

section Alignments

/-- Blocks that are aligned from some places on are so from places before. -/
theorem Aligned.mono {i' j' : Nat} (h : Aligned old new i' j' bs) (hi : i ≤ i') (hj : j ≤ j') :
    Aligned old new i j bs := by
  cases bs with
  | nil => exact ⟨Nat.le_trans hi h.1, Nat.le_trans hj h.2⟩
  | cons b bs => exact ⟨⟨Nat.le_trans hi h.1.1, Nat.le_trans hj h.1.2⟩, h.2⟩

/-- Blocks that are aligned in what is left of two texts are aligned in the texts. -/
theorem Aligned.shift {a c : Nat} (h : Aligned (old.drop a) (new.drop c) i j bs)
    (ha : a ≤ old.length) (hc : c ≤ new.length) :
    Aligned old new (a + i) (c + j) (bs.map (Block.shift a c)) := by
  induction bs generalizing i j with
  | nil =>
    obtain ⟨hi, hj⟩ := h
    rw [List.length_drop] at hi hj
    exact ⟨by omega, by omega⟩
  | cons b bs ih =>
    obtain ⟨⟨hi, hj⟩, hblock, hrest⟩ := h
    refine ⟨⟨Nat.add_le_add_left hi a, Nat.add_le_add_left hj c⟩, hblock.shift ha hc, ?_⟩
    simpa only [Block.shift, Nat.add_assoc] using ih hrest

/-- Blocks that are aligned in the front parts of two texts are aligned with those behind. -/
theorem Aligned.append {k l : Nat} (hleft : Aligned (old.take k) (new.take l) i j left)
    (hright : Aligned old new k l right) : Aligned old new i j (left ++ right) := by
  induction left generalizing i j with
  | nil =>
    obtain ⟨hi, hj⟩ := hleft
    rw [List.length_take] at hi hj
    exact hright.mono (by omega) (by omega)
  | cons b bs ih =>
    obtain ⟨hplace, ⟨hold, hnew, hagree⟩, hrest⟩ := hleft
    rw [List.length_take] at hold hnew
    refine ⟨hplace, ⟨by omega, by omega, fun m hm => ?_⟩, ih hrest⟩
    have hsame := hagree m hm
    rwa [List.getElem?_take_of_lt (by omega), List.getElem?_take_of_lt (by omega)] at hsame

/-- The common blocks of parts of two texts are aligned there. -/
theorem exists_blocks (keep : String → Bool) (i j : Nat) (old new : Lines) :
    ∃ bs, blocks keep i j old new = bs.map (Block.shift i j) ∧ Aligned old new 0 0 bs := by
  induction i, j, old, new using blocks.induct keep with
  | case1 i j old new k l size hlongest hsize hleft hright =>
    have hblock := matches_longest keep old new
    rw [hlongest] at hblock
    obtain ⟨left, hleft, haligned⟩ := hleft
    obtain ⟨right, hright, haligned'⟩ := hright
    refine ⟨left ++ ⟨k, l, size⟩ :: right.map (Block.shift (k + size) (l + size)), ?_, ?_⟩
    · rw [blocks, hlongest]
      dsimp only
      rw [dif_pos hsize, hleft, hright, List.map_append, List.map_cons, List.map_map]
      simp [Block.shift, Function.comp_def, Nat.add_assoc]
    · refine haligned.append ⟨⟨Nat.le_refl k, Nat.le_refl l⟩, hblock, ?_⟩
      exact haligned'.shift hblock.old_le hblock.new_le
  | case2 i j old new k l size hlongest hsize =>
    refine ⟨[], ?_, Nat.zero_le _, Nat.zero_le _⟩
    rw [blocks, hlongest]
    dsimp only
    rw [dif_neg hsize]
    rfl

/-- The common blocks of two texts are aligned, whichever lines are too frequent to be sought. -/
theorem aligned_commonBlocks (old new : Lines) : Aligned old new 0 0 (commonBlocks old new) := by
  unfold commonBlocks
  dsimp only
  obtain ⟨bs, hbs, haligned⟩ := exists_blocks
    (fun line => !((new.eraseDups).filter fun line => !isSought new line).contains line) 0 0 old new
  have hshift : Block.shift 0 0 = id := by
    funext b
    simp [Block.shift]
  rw [hbs, hshift, List.map_id]
  exact haligned

/-- Blocks that are joined stay aligned. -/
theorem Aligned.joinBlocks (h : Aligned old new i j bs) : Aligned old new i j (joinBlocks bs) := by
  induction bs using joinBlocks.induct generalizing i j with
  | case1 b c rest hmeet ih =>
    obtain ⟨hplace, ⟨hold, hnew, hagree⟩, -, ⟨hold', hnew', hagree'⟩, hrest⟩ := h
    rw [Diff.joinBlocks, if_pos hmeet]
    refine ih ⟨hplace, ⟨by dsimp only; omega, by dsimp only; omega, fun k hk => ?_⟩, ?_⟩
    · rcases Nat.lt_or_ge k b.size with hlt | hge
      · exact hagree k hlt
      · have hsame := hagree' (k - b.size) (by dsimp only at hk; omega)
        rwa [← hmeet.1, ← hmeet.2, show b.old + b.size + (k - b.size) = b.old + k by omega,
          show b.new + b.size + (k - b.size) = b.new + k by omega] at hsame
    · rwa [← hmeet.1, ← hmeet.2, Nat.add_assoc, Nat.add_assoc] at hrest
  | case2 b c rest hapart ih =>
    rw [Diff.joinBlocks, if_neg hapart]
    exact ⟨h.1, h.2.1, ih h.2.2⟩
  | case3 bs hshort =>
    unfold Diff.joinBlocks
    split
    · next b c rest => exact absurd rfl (hshort b c rest)
    · exact h

/-- The steps between aligned blocks lead to the ends of both texts. -/
theorem leads_stepsFrom (h : Aligned old new i j bs) :
    Leads old new i j (stepsFrom old.length new.length i j bs) old.length new.length := by
  induction bs generalizing i j with
  | nil =>
    obtain ⟨hi, hj⟩ := h
    unfold stepsFrom
    split
    · exact .change ⟨hi, Nat.le_refl _⟩ ⟨hj, Nat.le_refl _⟩ .nil
    · next hend =>
      obtain rfl : i = old.length := by omega
      obtain rfl : j = new.length := by omega
      exact .nil
  | cons b bs ih =>
    obtain ⟨⟨hi, hj⟩, hblock, hrest⟩ := h
    have hold := hblock.old_le
    have hnew := hblock.new_le
    have hkeep := Leads.keep hblock (ih hrest)
    unfold stepsFrom
    dsimp only
    split
    · exact .change ⟨hi, by omega⟩ ⟨hj, by omega⟩ hkeep
    · next hnear =>
      obtain rfl : i = b.old := by omega
      obtain rfl : j = b.new := by omega
      exact hkeep

/-- The steps from one text to another lead through both. -/
theorem leads_steps (old new : Lines) :
    Leads old new 0 0 (steps old new) old.length new.length :=
  leads_stepsFrom (aligned_commonBlocks old new).joinBlocks

end Alignments

end PassTrace.Diff

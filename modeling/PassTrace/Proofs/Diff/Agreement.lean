import PassTrace.Diff.Unified

/-!
# Texts that agree

A text is aligned with itself in full, also where most of its lines are too frequent to be sought:
the first of the longest blocks found starts at the same place on both sides, and then grows to both
ends. So the unified diff of two texts that agree is empty.
-/

namespace PassTrace.Diff

variable {keep : String → Bool} {lines old new front back : Lines} {best : Block} {i j : Nat}

/-- What a text has in common with another one in front it has in common with itself. -/
theorem commonRun_le_left (keep : String → Bool) (old new : Lines) :
    commonRun keep old new ≤ commonRun keep old old := by
  induction old generalizing new with
  | nil => simp [commonRun]
  | cons a as ih =>
    cases new with
    | nil => simp [commonRun]
    | cons b bs =>
      unfold commonRun
      by_cases hab : a = b
      · subst hab
        cases hkeep : keep a with
        | true =>
          have h := ih bs
          simp only [decide_true, Bool.and_self, if_true]
          omega
        | false => simp
      · simp [hab]

/-- The lines that two texts have in common in front do not depend on their order. -/
theorem commonRun_comm (keep : String → Bool) (old new : Lines) :
    commonRun keep old new = commonRun keep new old := by
  induction old generalizing new with
  | nil => cases new <;> rfl
  | cons a as ih =>
    cases new with
    | nil => rfl
    | cons b bs =>
      unfold commonRun
      by_cases hab : a = b
      · subst hab
        rw [ih bs]
      · simp [hab, Ne.symm hab]

/-- A text has no more in common with itself than all of it. -/
theorem commonRun_self_le (keep : String → Bool) (lines : Lines) :
    commonRun keep lines lines ≤ lines.length := by
  induction lines with
  | nil => simp [commonRun]
  | cons line lines ih =>
    unfold commonRun
    split
    · rw [List.length_cons]
      omega
    · omega

/-- A text has all of it in common with itself if no line is left out. -/
theorem commonRun_self (lines : Lines) : commonRun (fun _ => true) lines lines = lines.length := by
  induction lines with
  | nil => rfl
  | cons line lines ih => simp [commonRun, ih]

/-- Blocks that start in the front part of a text are passed by if none is longer than the best. -/
theorem longestAt_append (h : ∀ k < front.length,
      commonRun keep old ((front ++ back).drop k) ≤ best.size) :
    longestAt keep i old j (front ++ back) best =
      longestAt keep i old (j + front.length) back best := by
  induction front generalizing j with
  | nil => rfl
  | cons line front ih =>
    have hfirst : commonRun keep old (line :: (front ++ back)) ≤ best.size :=
      h 0 (by simp)
    have hrest : ∀ k < front.length, commonRun keep old ((front ++ back).drop k) ≤ best.size :=
      fun k hk => h (k + 1) (by simpa using hk)
    have hplace : j + 1 + front.length = j + (line :: front).length := by
      rw [List.length_cons]
      omega
    rw [List.cons_append, longestAt, if_neg (by omega), ih hrest, hplace]

/-- The best block stays if no other is longer. -/
theorem longestAt_eq_self (h : ∀ k, commonRun keep old (new.drop k) ≤ best.size) :
    longestAt keep i old j new best = best := by
  have hall : ∀ k < new.length, commonRun keep old ((new ++ []).drop k) ≤ best.size := by
    simpa using fun k _ => h k
  have happend := longestAt_append (i := i) (j := j) hall
  rw [List.append_nil] at happend
  rw [happend, longestAt]

/-- Of the blocks that start a text and itself, the first is the longest. -/
theorem longestAt_self (hlines : lines ≠ []) : longestAt keep i lines j lines best =
    if best.size < commonRun keep lines lines then ⟨i, j, commonRun keep lines lines⟩
      else best := by
  cases lines with
  | nil => exact absurd rfl hlines
  | cons line rest =>
    rw [longestAt]
    refine longestAt_eq_self fun k => Nat.le_trans (commonRun_le_left keep _ _) ?_
    split
    · exact Nat.le_refl _
    · omega

/-- A block at the same place on both sides, in a text whose first `i` places start no longer
one. -/
structure Block.OnDiagonal (b : Block) (keep : String → Bool) (lines : Lines) (i : Nat) : Prop where
  old_eq : b.old = b.new
  inside : b.old + b.size ≤ lines.length
  longest : ∀ k < i, commonRun keep (lines.drop k) (lines.drop k) ≤ b.size

/-- Of the blocks that start a text at one place, the best is that with the same place on the other
side, unless the best so far is as long. -/
theorem longestAt_diagonal (h : best.OnDiagonal keep lines i) (hi : i < lines.length) :
    (longestAt keep i (lines.drop i) 0 lines best).OnDiagonal keep lines (i + 1) := by
  -- A block that starts further in front on the other side was met there as one with itself.
  have hfront : ∀ k < (lines.take i).length,
      commonRun keep (lines.drop i) ((lines.take i ++ lines.drop i).drop k) ≤ best.size := by
    intro k hk
    rw [List.take_append_drop, commonRun_comm]
    rw [List.length_take] at hk
    exact Nat.le_trans (commonRun_le_left keep _ _) (h.longest k (by omega))
  have hlength : (lines.take i).length = i := by
    rw [List.length_take]
    omega
  have hpassed := longestAt_append (i := i) (j := 0) hfront
  rw [List.take_append_drop, hlength, Nat.zero_add] at hpassed
  have hne : lines.drop i ≠ [] := by
    rw [ne_eq, List.drop_eq_nil_iff]
    omega
  have hsize := commonRun_self_le keep (lines.drop i)
  rw [List.length_drop] at hsize
  rw [hpassed, longestAt_self hne]
  split
  · next hlonger =>
    refine ⟨rfl, by dsimp only; omega, fun k hk => ?_⟩
    rcases Nat.lt_succ_iff_lt_or_eq.1 hk with hlt | rfl
    · exact Nat.le_of_lt (Nat.lt_of_le_of_lt (h.longest k hlt) hlonger)
    · exact Nat.le_refl _
  · next hlonger =>
    refine ⟨h.old_eq, h.inside, fun k hk => ?_⟩
    rcases Nat.lt_succ_iff_lt_or_eq.1 hk with hlt | rfl
    · exact h.longest k hlt
    · omega

/-- The best block of a text with itself is at the same place on both sides. -/
theorem longestFrom_diagonal (h : best.OnDiagonal keep lines i) (hi : i ≤ lines.length) :
    (longestFrom keep lines i (lines.drop i) best).OnDiagonal keep lines lines.length := by
  -- The induction is on the places that are left.
  induction hleft : lines.length - i generalizing i best with
  | zero =>
    obtain rfl : i = lines.length := by omega
    rw [List.drop_length, longestFrom]
    exact h
  | succ left ih =>
    have hlt : i < lines.length := by omega
    have hcons : lines.drop i = lines[i] :: lines.drop (i + 1) := List.drop_eq_getElem_cons hlt
    rw [hcons, longestFrom, ← hcons]
    exact ih (longestAt_diagonal h hlt) hlt (by omega)

/-- A text is aligned with itself on all of it. -/
theorem longest_self (keep : String → Bool) (lines : Lines) :
    longest keep lines lines = ⟨0, 0, lines.length⟩ := by
  have hstart : Block.OnDiagonal ⟨0, 0, 0⟩ keep lines 0 :=
    ⟨rfl, Nat.zero_le _, fun k hk => absurd hk (Nat.not_lt_zero k)⟩
  have h := longestFrom_diagonal hstart (Nat.zero_le _)
  rw [List.drop_zero] at h
  unfold longest
  generalize longestFrom keep lines 0 lines ⟨0, 0, 0⟩ = b at h ⊢
  rcases b with ⟨place, place', size⟩
  obtain rfl : place = place' := h.old_eq
  have hinside : place + size ≤ lines.length := h.inside
  simp only [Block.extend, commonRun_self, List.length_reverse, List.length_take, List.length_drop,
    Block.mk.injEq]
  omega

/-- Texts without lines have no common blocks. -/
theorem blocks_empty (keep : String → Bool) (i j : Nat) : blocks keep i j [] [] = [] := by
  rw [blocks, longest_self]
  rfl

/-- The common block of a text and itself is all of it. -/
theorem blocks_self (keep : String → Bool) (hlines : lines ≠ []) :
    blocks keep 0 0 lines lines = [⟨0, 0, lines.length⟩] := by
  have hpos : 0 < lines.length := List.length_pos_iff.2 hlines
  rw [blocks, longest_self]
  dsimp only
  rw [dif_pos ⟨hpos, by omega⟩]
  simp [blocks_empty]

/-- There is no step between texts without lines. -/
theorem steps_empty : steps [] [] = [] := by
  unfold steps commonBlocks
  simp [blocks_empty, joinBlocks, stepsFrom]

/-- The steps from a text to itself keep it. -/
theorem steps_self (hlines : lines ≠ []) :
    steps lines lines = [⟨true, 0, lines.length, 0, lines.length⟩] := by
  unfold steps commonBlocks
  dsimp only
  rw [blocks_self _ hlines]
  simp [joinBlocks, stepsFrom]

/-- Texts that agree have no hunks. -/
theorem hunks_self {context : Int} (hcontext : 0 ≤ context) (lines : Lines) :
    hunks context lines lines = [] := by
  -- One step that keeps lines is cut to the context and then too short to be split.
  have hkept (n : Int) (hn : 0 ≤ n) :
      hunksFrom context [] (trimLast context (trimFirst context [⟨true, 0, n, 0, n⟩])) = [] := by
    simp only [trimFirst, trimLast, if_true, Step.trimStart, Step.trimStop, hunksFrom,
      Bool.true_and, decide_eq_true_eq]
    rw [if_neg (by omega)]
    rfl
  unfold hunks
  by_cases hlines : lines = []
  · subst hlines
    rw [steps_empty]
    exact hkept 1 (by omega)
  · rw [steps_self hlines]
    exact hkept _ (by omega)

/-- The unified diff of texts that agree is empty. -/
theorem unified_self (oldName newName : String) {context : Int} (hcontext : 0 ≤ context)
    (lines : Lines) : unified oldName newName context lines lines = [] := by
  unfold unified
  rw [hunks_self hcontext]

end PassTrace.Diff

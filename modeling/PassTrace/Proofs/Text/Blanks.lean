import Mathlib.Data.List.Basic
import PassTrace.Text.Blank
import PassTrace.Text.Word

/-!
# Blanks at the ends of a text

No blank is a word character. Trimming a text takes away the blanks at its ends and nothing else.
Texts on one line that need no trimming are put together to others.
-/

namespace PassTrace.Text

/-- The blanks, as ascending disjoint ranges. -/
def blankRanges : List (Nat × Nat) :=
  [(0x09, 0x0d), (0x1c, 0x20), (0x85, 0x85), (0xa0, 0xa0), (0x1680, 0x1680), (0x2000, 0x200a),
   (0x2028, 0x2029), (0x202f, 0x202f), (0x205f, 0x205f), (0x3000, 0x3000)]

/-- Whether no range of one set meets one of another. -/
def areApart (ranges ranges' : List (Nat × Nat)) : Bool :=
  ranges.all fun r => ranges'.all fun r' => r.2 < r'.1 || r'.2 < r.1

/-- A text on one line that has no blanks at its ends. -/
structure IsTrimmed (cs : List Char) : Prop where
  ne_nil : cs ≠ []
  newline_not_mem : '\n' ∉ cs
  head_eq : ∀ c ∈ cs.head?, isBlank c = false
  last_eq : ∀ c ∈ cs.getLast?, isBlank c = false

variable {c : Char} {cs front : List Char} {n : Nat}

theorem isBlank_eq (c : Char) : isBlank c = inRanges blankRanges c.toNat := by
  simp only [isBlank, inRanges, blankRanges]
  grind

theorem inRanges_of_areApart {ranges ranges' : List (Nat × Nat)}
    (h : areApart ranges ranges' = true) (hn : inRanges ranges n = true) :
    inRanges ranges' n = false := by
  rw [← Bool.not_eq_true]
  intro hn'
  obtain ⟨r, hr, hlow, hhigh⟩ := inRanges_iff.mp hn
  obtain ⟨r', hr', hlow', hhigh'⟩ := inRanges_iff.mp hn'
  have happart := List.all_eq_true.mp (List.all_eq_true.mp h r hr) r' hr'
  simp only [Bool.or_eq_true, decide_eq_true_eq] at happart
  omega

theorem toNat_of_isAlphanum (h : c.isAlphanum = true) : 48 ≤ c.toNat := by
  have hval : c.toNat = c.val.toNat := rfl
  have hupper : 'A'.val.toNat = 65 := rfl
  have hlower : 'a'.val.toNat = 97 := rfl
  have hdigit : '0'.val.toNat = 48 := rfl
  unfold Char.isAlphanum Char.isAlpha Char.isUpper Char.isLower Char.isDigit at h
  simp only [Bool.or_eq_true, Bool.and_eq_true, decide_eq_true_eq, UInt32.le_iff_toNat_le,
    ge_iff_le] at h
  omega

/-- No word character is a blank. -/
theorem isBlank_of_isWord (h : isWord c = true) : isBlank c = false := by
  rw [← Bool.not_eq_true]
  intro hblank
  unfold isWord at h
  split at h
  · next hsmall =>
    have hplace : 48 ≤ c.toNat := by
      rcases Bool.or_eq_true_iff.mp h with halphanum | hline
      · exact toNat_of_isAlphanum halphanum
      · obtain rfl := of_decide_eq_true hline
        decide
    simp only [isBlank, Bool.or_eq_true, Bool.and_eq_true, decide_eq_true_eq, beq_iff_eq] at hblank
    omega
  · next hlarge =>
    rw [isBlank_eq] at hblank
    rw [inRanges_of_areApart (by decide +kernel) hblank] at h
    cases h

/-- Blanks in front are taken away. -/
theorem trimLeft_append (hfront : ∀ c ∈ front, isBlank c = true) :
    trimLeft (front ++ cs) = trimLeft cs :=
  List.dropWhile_append_of_pos hfront

/-- A text that starts with no blank has none taken away in front. -/
theorem trimLeft_eq_self (h : ∀ c ∈ cs.head?, isBlank c = false) : trimLeft cs = cs := by
  cases cs with
  | nil => rfl
  | cons c cs =>
    unfold trimLeft
    rw [List.dropWhile_cons_of_neg]
    simpa using h c rfl

/-- A text that ends with no blank has none taken away at its end. -/
theorem trimRight_eq_self (h : ∀ c ∈ cs.getLast?, isBlank c = false) : trimRight cs = cs := by
  induction cs with
  | nil => rfl
  | cons c cs ih =>
    cases cs with
    | nil => simp [trimRight, h c rfl]
    | cons c' cs =>
      have hrest : trimRight (c' :: cs) = c' :: cs := ih fun last hlast => h last hlast
      rw [trimRight, hrest]

theorem IsTrimmed.trim_eq (h : IsTrimmed cs) : trim cs = cs := by
  rw [trim, trimLeft_eq_self h.head_eq, trimRight_eq_self h.last_eq]

theorem isTrimmed_iff : IsTrimmed cs ↔ cs ≠ [] ∧ '\n' ∉ cs ∧
    (cs.head?.all fun c => !isBlank c) = true ∧ (cs.getLast?.all fun c => !isBlank c) = true := by
  simp only [Option.all_eq_true, Bool.not_eq_true']
  exact ⟨fun h => ⟨h.ne_nil, h.newline_not_mem, h.head_eq, h.last_eq⟩,
    fun ⟨hne, hnewline, hhead, hlast⟩ => ⟨hne, hnewline, hhead, hlast⟩⟩

instance : DecidablePred IsTrimmed := fun _ => decidable_of_iff' _ isTrimmed_iff

/-- Only the ends of a text count, and that it has no line feed. -/
theorem IsTrimmed.append {cs' : List Char} (h : IsTrimmed cs) (between : List Char)
    (hbetween : '\n' ∉ between) (h' : IsTrimmed cs') : IsTrimmed (cs ++ (between ++ cs')) where
  ne_nil := List.append_ne_nil_of_left_ne_nil h.ne_nil _
  newline_not_mem := by simp [h.newline_not_mem, hbetween, h'.newline_not_mem]
  head_eq := by
    rw [List.head?_append_of_ne_nil _ h.ne_nil]
    exact h.head_eq
  last_eq := by
    rw [← List.append_assoc, List.getLast?_append_of_ne_nil _ h'.ne_nil]
    exact h'.last_eq

end PassTrace.Text

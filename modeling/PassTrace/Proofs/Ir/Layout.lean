import Mathlib.Data.List.Chain
import PassTrace.Ir.Layout
import PassTrace.Proofs.Text.Blanks

/-!
# Normal forms of texts

The normal form of a line has its words with single spaces between them, so that it tells the words
and nothing else: texts have the same normal form exactly if their lines have the same words, where
lines without words do not count.
-/

namespace PassTrace

namespace Text

variable {c : Char} {cs : List Char} {ws : List (List Char)}

/-- A word: characters that are no blanks, at least one. -/
structure IsUnbroken (cs : List Char) : Prop where
  ne_nil : cs ≠ []
  isBlank_eq : ∀ c ∈ cs, isBlank c = false

/-- A text on one line with single spaces between its words, and no other blanks. -/
structure IsEven (cs : List Char) : Prop extends IsTrimmed cs where
  eq_space : ∀ c ∈ cs, isBlank c = true → c = ' '
  isChain : cs.IsChain fun c c' => isBlank c = false ∨ isBlank c' = false

/-- Words with single spaces between them. -/
def joinWords (ws : List (List Char)) : List Char :=
  [' '].intercalate ws

theorem isBlank_space : isBlank ' ' = true := rfl

@[simp] theorem joinWords_nil : joinWords [] = [] := rfl

@[simp] theorem joinWords_singleton (w : List Char) : joinWords [w] = w :=
  List.intercalate_singleton

theorem joinWords_cons_cons (w w' : List Char) (ws : List (List Char)) :
    joinWords (w :: w' :: ws) = w ++ ' ' :: joinWords (w' :: ws) := by
  unfold joinWords
  rw [List.intercalate_cons_cons, List.append_assoc, List.singleton_append]

section Words

/-- Characters that are no blanks belong to the word under way. -/
theorem wordsFrom_append {w : List Char} (hw : ∀ c ∈ w, isBlank c = false) (word cs : List Char) :
    wordsFrom word (w ++ cs) = wordsFrom (w.reverse ++ word) cs := by
  induction w generalizing word with
  | nil => rfl
  | cons c w ih =>
    obtain ⟨hc, hw⟩ := List.forall_mem_cons.mp hw
    rw [List.cons_append, wordsFrom, hc, if_neg (by decide), ih hw, List.reverse_cons,
      List.append_assoc]
    rfl

/-- A word up to a blank is the first word. -/
theorem words_append_blank {w : List Char} (hw : IsUnbroken w) (hc : isBlank c = true)
    (cs : List Char) : words (w ++ c :: cs) = w :: words cs := by
  unfold words
  rw [wordsFrom_append hw.isBlank_eq, List.append_nil, wordsFrom, if_pos hc, if_neg,
    List.reverse_reverse]
  simpa using hw.ne_nil

/-- A word alone is the only word. -/
theorem words_of_isUnbroken {w : List Char} (hw : IsUnbroken w) : words w = [w] := by
  have happend := wordsFrom_append hw.isBlank_eq [] []
  rw [List.append_nil, List.append_nil] at happend
  unfold words
  rw [happend, wordsFrom, if_neg, List.reverse_reverse]
  simpa using hw.ne_nil

theorem isUnbroken_reverse {word : List Char} (hne : ¬word.isEmpty = true)
    (hword : ∀ c ∈ word, isBlank c = false) : IsUnbroken word.reverse :=
  ⟨by simpa using hne, fun c hc => hword c (List.mem_reverse.mp hc)⟩

theorem isUnbroken_of_mem_wordsFrom {word w : List Char} (hword : ∀ c ∈ word, isBlank c = false)
    (h : w ∈ wordsFrom word cs) : IsUnbroken w := by
  induction cs generalizing word with
  | nil =>
    unfold wordsFrom at h
    split at h
    · cases h
    · next hne =>
      obtain rfl := List.mem_singleton.mp h
      exact isUnbroken_reverse hne hword
  | cons c cs ih =>
    unfold wordsFrom at h
    split at h
    · split at h
      · exact ih (List.forall_mem_nil _) h
      · next hne =>
        rcases List.mem_cons.mp h with rfl | h
        · exact isUnbroken_reverse hne hword
        · exact ih (List.forall_mem_nil _) h
    · next hc => exact ih (List.forall_mem_cons.mpr ⟨by simpa using hc, hword⟩) h

/-- Words are unbroken. -/
theorem isUnbroken_of_mem_words {w : List Char} (h : w ∈ words cs) : IsUnbroken w :=
  isUnbroken_of_mem_wordsFrom (List.forall_mem_nil _) h

/-- Words can be told from the text in which spaces stand between them. -/
theorem words_joinWords (h : ∀ w ∈ ws, IsUnbroken w) : words (joinWords ws) = ws := by
  induction ws with
  | nil => rfl
  | cons w ws ih =>
    obtain ⟨hw, hws⟩ := List.forall_mem_cons.mp h
    cases ws with
    | nil => rw [joinWords_singleton, words_of_isUnbroken hw]
    | cons w' ws => rw [joinWords_cons_cons, words_append_blank hw isBlank_space, ih hws]

end Words

section Joining

theorem joinWords_eq_nil_iff (h : ∀ w ∈ ws, IsUnbroken w) : joinWords ws = [] ↔ ws = [] := by
  constructor
  · intro hnil
    have hwords := words_joinWords h
    rw [hnil] at hwords
    exact hwords.symm
  · rintro rfl
    rfl

theorem IsUnbroken.isTrimmed {w : List Char} (h : IsUnbroken w) : IsTrimmed w where
  ne_nil := h.ne_nil
  newline_not_mem := fun hmem => absurd (h.isBlank_eq _ hmem) (by decide)
  head_eq := fun c hc => h.isBlank_eq c (List.mem_of_mem_head? hc)
  last_eq := fun c hc => h.isBlank_eq c (List.mem_of_mem_getLast? hc)

theorem IsUnbroken.isEven {w : List Char} (h : IsUnbroken w) : IsEven w where
  toIsTrimmed := h.isTrimmed
  eq_space := by
    intro c hc hblank
    rw [h.isBlank_eq c hc] at hblank
    cases hblank
  isChain := by
    refine List.Pairwise.isChain (List.pairwise_of_forall_mem_list fun c hc _ _ => ?_)
    exact .inl (h.isBlank_eq c hc)

/-- Another word in front, with a space behind it. -/
theorem IsEven.cons_word {w : List Char} (hw : IsUnbroken w) (h : IsEven cs) :
    IsEven (w ++ ' ' :: cs) where
  toIsTrimmed := hw.isTrimmed.append [' '] (by decide) h.toIsTrimmed
  eq_space := by
    intro c hc hblank
    rcases List.mem_append.mp hc with hc | hc
    · exact hw.isEven.eq_space c hc hblank
    · rcases List.mem_cons.mp hc with rfl | hc
      · rfl
      · exact h.eq_space c hc hblank
  isChain := by
    refine List.isChain_append.mpr ⟨hw.isEven.isChain, List.isChain_cons.mpr ⟨?_, h.isChain⟩, ?_⟩
    · exact fun c hc => .inr (h.head_eq c hc)
    · exact fun c hc _ _ => .inl (hw.isTrimmed.last_eq c hc)

theorem isEven_joinWords (h : ∀ w ∈ ws, IsUnbroken w) (hne : ws ≠ []) : IsEven (joinWords ws) := by
  induction ws with
  | nil => exact absurd rfl hne
  | cons w ws ih =>
    obtain ⟨hw, hws⟩ := List.forall_mem_cons.mp h
    cases ws with
    | nil =>
      rw [joinWords_singleton]
      exact hw.isEven
    | cons w' ws =>
      rw [joinWords_cons_cons]
      exact (ih hws (by simp)).cons_word hw

end Joining

theorem trimRight_cons_of_not_isBlank (hc : isBlank c = false) (cs : List Char) :
    trimRight (c :: cs) = c :: trimRight cs := by
  rw [trimRight]
  cases trimRight cs with
  | nil => simp [hc]
  | cons c' kept => rfl

theorem trimRight_cons_space (cs : List Char) :
    trimRight (' ' :: cs) = if trimRight cs = [] then [] else ' ' :: trimRight cs := by
  rw [trimRight]
  cases trimRight cs with
  | nil => rfl
  | cons c' kept => simp

end Text

namespace Ir

open Text

/-- What follows blanks that have been replaced starts with none. -/
theorem trimLeft_collapseBlanks (inBlanks : Bool) (cs : List Char) :
    trimLeft (collapseBlanks inBlanks cs) = collapseBlanks true cs := by
  induction cs generalizing inBlanks with
  | nil => rfl
  | cons c cs ih =>
    unfold collapseBlanks
    cases hc : isBlank c with
    | true =>
      cases inBlanks with
      | true => exact ih true
      | false => exact ih true
    | false => exact trimLeft_eq_self fun c' hc' => Option.mem_some.mp hc' ▸ hc

/-- Replacing blanks and trimming the end joins the words. In the middle of a word, the characters
passed come in front. The induction is on the text that is left, for both states. -/
theorem trimRight_collapseBlanks (cs : List Char) :
    trimRight (collapseBlanks true cs) = joinWords (words cs) ∧
      ∀ word : List Char, word ≠ [] →
        word.reverse ++ trimRight (collapseBlanks false cs) = joinWords (wordsFrom word cs) := by
  induction cs with
  | nil =>
    refine ⟨rfl, fun word hword => ?_⟩
    rw [wordsFrom, if_neg (by simpa using hword), joinWords_singleton]
    exact List.append_nil _
  | cons c cs ih =>
    obtain ⟨hbetween, hwithin⟩ := ih
    unfold words collapseBlanks wordsFrom
    cases hc : isBlank c with
    | true =>
      refine ⟨hbetween, fun word hword => ?_⟩
      have hunbroken : ∀ w ∈ words cs, IsUnbroken w := fun w => isUnbroken_of_mem_words
      simp only [if_true, Bool.false_eq_true, if_false, List.isEmpty_iff, hword]
      rw [trimRight_cons_space, hbetween, ← words]
      cases hwords : words cs with
      | nil => simp
      | cons w ws =>
        rw [hwords] at hunbroken
        rw [if_neg (mt (joinWords_eq_nil_iff hunbroken).mp (by simp)), joinWords_cons_cons]
    | false =>
      simp only [Bool.false_eq_true, if_false]
      rw [trimRight_cons_of_not_isBlank hc]
      refine ⟨hwithin [c] (by simp), fun word _ => ?_⟩
      rw [← hwithin (c :: word) (by simp), List.reverse_cons, List.append_assoc]
      rfl

/-- The normal form of a line has its words with single spaces between them. -/
theorem toList_normalLine (line : String) :
    (normalLine line).toList = joinWords (words line.toList) := by
  unfold normalLine trim
  rw [String.toList_ofList, trimLeft_collapseBlanks]
  exact (trimRight_collapseBlanks line.toList).1

/-- The words of a line tell its normal form. -/
theorem normalLine_eq (line : String) :
    normalLine line = String.ofList (joinWords (words line.toList)) := by
  rw [← toList_normalLine, String.ofList_toList]

theorem isEmpty_normalLine (line : String) :
    (normalLine line).isEmpty = (words line.toList).isEmpty := by
  have hnil : joinWords (words line.toList) = [] ↔ words line.toList = [] :=
    joinWords_eq_nil_iff fun w => isUnbroken_of_mem_words
  rw [Bool.eq_iff_iff, String.isEmpty_iff, List.isEmpty_iff, ← hnil, ← toList_normalLine,
    String.toList_eq_nil_iff]

/-- The normal form of a text is that of its lines with words. -/
theorem normalForm_eq (lines : Lines) :
    normalForm lines = (wordLists lines).map fun ws => String.ofList (joinWords ws) := by
  unfold normalForm wordLists
  rw [List.filter_map, List.filter_map, List.map_map]
  have hkept : ((fun line => !line.isEmpty) ∘ normalLine : String → Bool) =
      (fun ws => !ws.isEmpty) ∘ fun line : String => words line.toList := by
    funext line
    exact congrArg not (isEmpty_normalLine line)
  rw [hkept]
  exact List.map_congr_left fun line _ => normalLine_eq line

theorem isUnbroken_of_mem_wordLists {lines : Lines} {ws : List (List Char)}
    (h : ws ∈ wordLists lines) : ws ≠ [] ∧ ∀ w ∈ ws, IsUnbroken w := by
  obtain ⟨hmem, hne⟩ := List.mem_filter.mp h
  obtain ⟨line, -, rfl⟩ := List.mem_map.mp hmem
  exact ⟨by simpa using hne, fun w => isUnbroken_of_mem_words⟩

/-- A text and its normal form have the same words on their lines. -/
theorem wordLists_normalForm (lines : Lines) : wordLists (normalForm lines) = wordLists lines := by
  have hwords : (wordLists lines).map (fun ws => words (String.ofList (joinWords ws)).toList) =
      wordLists lines := by
    refine (List.map_congr_left fun ws hws => ?_).trans (List.map_id _)
    rw [String.toList_ofList]
    exact words_joinWords (isUnbroken_of_mem_wordLists hws).2
  have hkept : (wordLists lines).filter (fun ws => !ws.isEmpty) = wordLists lines :=
    List.filter_eq_self.mpr fun ws hws => (List.mem_filter.mp hws).2
  calc wordLists (normalForm lines)
      = ((wordLists lines).map fun ws => words (String.ofList (joinWords ws)).toList).filter
          fun ws => !ws.isEmpty := by
        rw [normalForm_eq, wordLists, List.map_map]
        rfl
    _ = wordLists lines := by rw [hwords, hkept]

/-- Texts have the same normal form exactly if their lines with words have the same words. A normal
form has even lines only, and is its own normal form. -/
theorem normalForm_canonical (a b : Lines) :
    (normalForm a = normalForm b ↔ wordLists a = wordLists b) ∧
      (∀ line ∈ normalForm a, IsEven line.toList) ∧ normalForm (normalForm a) = normalForm a := by
  refine ⟨⟨fun h => ?_, fun h => ?_⟩, fun line hline => ?_, ?_⟩
  · rw [← wordLists_normalForm a, h, wordLists_normalForm]
  · rw [normalForm_eq, h, normalForm_eq]
  · rw [normalForm_eq] at hline
    obtain ⟨ws, hws, rfl⟩ := List.mem_map.mp hline
    obtain ⟨hne, hunbroken⟩ := isUnbroken_of_mem_wordLists hws
    rw [String.toList_ofList]
    exact isEven_joinWords hunbroken hne
  · rw [normalForm_eq (normalForm a), wordLists_normalForm, ← normalForm_eq]

end Ir
end PassTrace

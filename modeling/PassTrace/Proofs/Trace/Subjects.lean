import Mathlib.Data.List.Chain
import PassTrace.Ir.Function
import PassTrace.Proofs.Text.Blanks
import PassTrace.Trace.Header

/-!
# What a pass ran on

A marker prints the name of a pass, the word "on" and what the pass ran on. A name can hold nearly
everything, so the word "on" behind it is found as the last one that what follows fits to. It is the
right one: behind it the word can stand again only as the description of a loop.
-/

namespace PassTrace.Trace

/-- What a pass ran on. -/
inductive Subject
  | module
  | component (names : List String)
  | loop (description name : String)
  | function (name : String)
  deriving DecidableEq

namespace Subject

/-- A subject as a marker prints it. -/
def text : Subject → String
  | module => "[module]"
  | component names => "(" ++ ", ".intercalate names ++ ")"
  | loop description name => "loop " ++ description ++ " in function " ++ name
  | function name => name

/-- The scope that is a subject. -/
def scope : Subject → Scope
  | module => ⟨.module, none⟩
  | component names => ⟨.cgscc, some (", ".intercalate names)⟩
  | loop _ name => ⟨.loop, some name⟩
  | function name => ⟨.function, some name⟩

end Subject

/-- A text without blanks. -/
def IsWord (cs : List Char) : Prop :=
  ∀ c ∈ cs, Text.isBlank c = false

instance : DecidablePred IsWord :=
  fun cs => List.decidableBAll (fun c => Text.isBlank c = false) cs

/-- A text of characters that names are made of. -/
structure IsIdentifier (cs : List Char) : Prop where
  ne_nil : cs ≠ []
  isNameChar : ∀ c ∈ cs, Ir.isNameChar c = true

/-- A subject whose functions are named by identifiers. The description of a loop is one word. -/
def Subject.IsPlain : Subject → Prop
  | module => True
  | component names => names ≠ [] ∧ ∀ name ∈ names, IsIdentifier name.toList
  | loop description name =>
    (description.toList ≠ [] ∧ IsWord description.toList) ∧ IsIdentifier name.toList
  | function name => IsIdentifier name.toList

/-- A text with the word "on" between blanks. -/
def onText : List Char :=
  [' ', 'o', 'n', ' ']

variable {α : Type} {accept : List Char → Option α} {cs name q rest start what word : List Char}
  {c : Char}

section Words

theorem IsIdentifier.isWord (h : IsIdentifier cs) : IsWord cs := by
  intro c hc
  have hname := h.isNameChar c hc
  unfold Ir.isNameChar at hname
  simp only [Bool.or_eq_true, decide_eq_true_eq] at hname
  rcases hname with ((hname | rfl) | rfl) | rfl
  · exact Text.isBlank_of_isWord hname
  · rfl
  · rfl
  · rfl

theorem IsWord.append {word' : List Char} (h : IsWord word) (h' : IsWord word') :
    IsWord (word ++ word') :=
  List.forall_mem_append.mpr ⟨h, h'⟩

theorem IsWord.space_not_mem (h : IsWord cs) : ' ' ∉ cs := by
  intro hmem
  cases h ' ' hmem

theorem IsWord.newline_not_mem (h : IsWord cs) : '\n' ∉ cs := by
  intro hmem
  cases h '\n' hmem

/-- What starts with a blank starts behind the word in front. -/
theorem IsWord.suffix_of_append (h : IsWord word) (hq : q <:+ word ++ rest)
    (hhead : q.head? = some ' ') : q <:+ rest := by
  induction word with
  | nil => exact hq
  | cons c word ih =>
    obtain ⟨hc, hword⟩ := List.forall_mem_cons.mp h
    rcases List.suffix_cons_iff.mp hq with rfl | hq
    · obtain rfl : c = ' ' := Option.some.inj hhead
      cases hc
    · exact ih hword hq

theorem IsWord.suffix (h : IsWord word) (hq : q <:+ word ++ ' ' :: rest)
    (hhead : q.head? = some ' ') :
    q = ' ' :: rest ∨ q <:+ rest :=
  List.suffix_cons_iff.mp (h.suffix_of_append hq hhead)

/-- Nothing in a word starts with a blank. -/
theorem IsWord.not_suffix (h : IsWord word) (hq : q <:+ word) (hhead : q.head? = some ' ') :
    False :=
  h.space_not_mem (hq.mem (List.mem_of_head? hhead))

theorem head?_of_onText (h : onText ++ [c] <+: q) : q.head? = some ' ' := by
  obtain ⟨rest, rfl⟩ := h
  rfl

end Words

section Splitting

/-- A text of which no end behind its first character is accepted is not split. -/
theorem splitLast_cons_eq_none (h : ∀ q, q <:+ cs → accept q = none) :
    splitLast accept (c :: cs) = none := by
  induction cs generalizing c with
  | nil => simp [splitLast, h [] (List.suffix_refl _)]
  | cons c' cs ih =>
    have hrest := ih (c := c') fun q hq => h q (hq.trans (List.suffix_cons c' cs))
    rw [splitLast, hrest, h _ (List.suffix_refl _)]
    rfl

/-- A text is split where its rest is accepted and not split itself. -/
theorem splitLast_append {a : α} (hstart : start ≠ []) (hrest : splitLast accept rest = none)
    (ha : accept rest = some a) : splitLast accept (start ++ rest) = some (start, a) := by
  induction start with
  | nil => exact absurd rfl hstart
  | cons c start ih =>
    cases start with
    | nil => simp [splitLast, hrest, ha]
    | cons c' start =>
      rw [List.cons_append, splitLast, ih (List.cons_ne_nil _ _)]

/-- A text is split first where its rest is accepted, if it is not accepted from further in
front. -/
theorem splitFirst_append {a : α} (hstart : start ≠ [])
    (hfront : ∀ c q, c :: q <:+ start.tail → accept (c :: q ++ rest) = none)
    (ha : accept rest = some a) : splitFirst accept (start ++ rest) = some (start, a) := by
  induction start with
  | nil => exact absurd rfl hstart
  | cons c start ih =>
    cases start with
    | nil => simp [splitFirst, ha]
    | cons c' start =>
      have hnext := ih (List.cons_ne_nil _ _) fun d q hq =>
        hfront d q (hq.trans (List.suffix_cons c' start))
      rw [List.cons_append, splitFirst, hfront c' start (List.suffix_refl _), hnext]
      rfl

/-- Where the word "on" stands in what a marker prints: between name and subject, or behind. It can
also stand at the end of the name, before this word. -/
theorem suffix_cases (hname : ¬ onText <:+: name) (hq : q <:+ name ++ (onText ++ what))
    (hon : onText ++ [c] <+: q) :
    c = 'o' ∨ q = onText ++ what ∨ q <:+ "on ".toList ++ what := by
  obtain ⟨front, hfront⟩ := hq
  rcases List.append_eq_append_iff.mp hfront with ⟨inside, rfl, rfl⟩ | ⟨beyond, rfl, hrest⟩
  · -- The word "on" starts within the name.
    obtain ⟨rest, hrest⟩ := hon
    match inside with
    | [] => exact .inr (.inl rfl)
    | [a] => cases hrest
    | [a, b] => cases hrest
    | [a, b, d] =>
      left
      simp only [onText, List.cons_append, List.nil_append, List.cons.injEq] at hrest
      exact hrest.2.2.2.2.1
    | a :: b :: d :: e :: inside =>
      refine absurd ⟨front, inside, ?_⟩ hname
      simp only [onText, List.cons_append, List.nil_append, List.cons.injEq] at hrest ⊢
      obtain ⟨rfl, rfl, rfl, rfl, -⟩ := hrest
      simp
  · cases beyond with
    | nil => exact .inr (.inl hrest.symm)
    | cons b beyond =>
      obtain ⟨-, hrest⟩ := List.cons.inj hrest
      exact .inr (.inr ⟨beyond, hrest.symm⟩)

end Splitting

section Components

/-- Of two neighbours in a list of names the second is no blank, or the first is a comma. -/
def CommaBefore (c c' : Char) : Prop :=
  Text.isBlank c' = true → c = ','

theorem IsWord.isChain (h : IsWord cs) : cs.IsChain CommaBefore := by
  induction cs with
  | nil => exact .nil
  | cons c cs ih =>
    obtain ⟨-, hcs⟩ := List.forall_mem_cons.mp h
    cases cs with
    | nil => exact .singleton c
    | cons c' cs =>
      refine List.isChain_cons_cons.mpr ⟨fun hblank => ?_, ih hcs⟩
      rw [hcs c' List.mem_cons_self] at hblank
      cases hblank

/-- A list of names on one line starts and ends with a name, and a blank in it stands behind a
comma. -/
structure IsNameList (cs : List Char) : Prop extends Text.IsTrimmed cs where
  isChain : cs.IsChain CommaBefore
  last_cases : IsWord cs ∨ ∃ front word, cs = front ++ ',' :: ' ' :: word ∧ word ≠ [] ∧ IsWord word

theorem IsWord.isTrimmed (hne : cs ≠ []) (h : IsWord cs) : Text.IsTrimmed cs :=
  ⟨hne, h.newline_not_mem, fun c hc => h c (List.mem_of_head? hc),
    fun c hc => h c (List.mem_of_getLast? hc)⟩

theorem IsIdentifier.isTrimmed (h : IsIdentifier cs) : Text.IsTrimmed cs :=
  h.isWord.isTrimmed h.ne_nil

theorem IsIdentifier.isNameList (h : IsIdentifier cs) : IsNameList cs :=
  ⟨h.isTrimmed, h.isWord.isChain, .inl h.isWord⟩

/-- A name, a comma and a list of names are a list of names. -/
theorem IsIdentifier.isNameList_append (h : IsIdentifier name) (hrest : IsNameList rest) :
    IsNameList (name ++ [',', ' '] ++ rest) := by
  have hcomma : (name ++ [',', ' ']).IsChain CommaBefore := by
    refine List.isChain_append.mpr ⟨h.isWord.isChain, ?_, ?_⟩
    · exact List.isChain_cons_cons.mpr ⟨fun _ => rfl, .singleton _⟩
    · intro c _ c' hc' hblank
      obtain rfl := Option.some.inj hc'
      cases hblank
  refine ⟨?_, List.isChain_append.mpr ⟨hcomma, hrest.isChain, ?_⟩, .inr ?_⟩
  · rw [List.append_assoc]
    exact h.isTrimmed.append _ (by decide) hrest.toIsTrimmed
  · intro c _ c' hc' hblank
    rw [hrest.head_eq c' hc'] at hblank
    cases hblank
  · rcases hrest.last_cases with hword | ⟨front, word, rfl, hne, hword⟩
    · exact ⟨name, rest, by simp, hrest.ne_nil, hword⟩
    · exact ⟨name ++ [',', ' '] ++ front, word, by simp, hne, hword⟩

theorem isNameList_intercalate {names : List String} (hne : names ≠ [])
    (h : ∀ name ∈ names, IsIdentifier name.toList) :
    IsNameList (", ".intercalate names).toList := by
  rw [String.toList_intercalate]
  induction names with
  | nil => exact absurd rfl hne
  | cons name names ih =>
    obtain ⟨hname, hnames⟩ := List.forall_mem_cons.mp h
    cases names with
    | nil => simpa using hname.isNameList
    | cons name' names =>
      rw [List.map_cons, List.map_cons, List.intercalate_cons_cons]
      exact hname.isNameList_append (ih (List.cons_ne_nil _ _) hnames)

end Components

section Subjects

variable {subject : Subject}

theorem toList_text_component (names : List String) :
    (Subject.component names).text.toList = '(' :: ((", ".intercalate names).toList ++ [')']) := by
  simp [Subject.text]

theorem toList_text_loop (description name : String) :
    (Subject.loop description name).text.toList = "loop".toList ++ ' ' :: (description.toList ++
      ' ' :: ("in".toList ++ ' ' :: ("function".toList ++ ' ' :: name.toList))) := by
  simp [Subject.text]

/-- A subject is on one line and has no blanks at its ends. -/
theorem Subject.IsPlain.isTrimmed (h : subject.IsPlain) : Text.IsTrimmed subject.text.toList := by
  cases subject with
  | module => decide
  | component names =>
    have hnames := isNameList_intercalate h.1 h.2
    have hopen : Text.IsTrimmed ['('] := by decide
    rw [toList_text_component]
    exact hopen.append _ hnames.newline_not_mem (by decide)
  | loop description name =>
    have hloop : Text.IsTrimmed "loop".toList := by decide
    have hbetween : '\n' ∉ ' ' :: (description.toList ++ " in function ".toList) := by
      simp [h.1.2.newline_not_mem]
    have htext : (Subject.loop description name).text.toList =
        "loop".toList ++ (' ' :: (description.toList ++ " in function ".toList) ++
          name.toList) := by
      simp [Subject.text]
    rw [htext]
    exact hloop.append _ hbetween h.2.isTrimmed
  | function name => exact IsIdentifier.isTrimmed h

theorem IsWord.not_onText (h : IsWord word) (hon : onText ++ [c] <+: ' ' :: word) : False := by
  obtain ⟨rest, hrest⟩ := hon
  refine h.space_not_mem ?_
  rw [← (List.cons.inj hrest).2]
  simp

/-- If a word between blanks is "on", the next character is the one behind it. -/
theorem IsWord.eq_of_onText {d : Char} (h : IsWord word)
    (hon : onText ++ [c] <+: ' ' :: (word ++ ' ' :: d :: rest)) : c = d := by
  obtain ⟨behind, hbehind⟩ := hon
  match word with
  | [] => cases hbehind
  | [a] =>
    simp only [onText, List.cons_append, List.nil_append, List.cons.injEq] at hbehind
    cases hbehind.2.2.1
  | [a, b] =>
    simp only [onText, List.cons_append, List.nil_append, List.cons.injEq] at hbehind
    exact hbehind.2.2.2.2.1
  | a :: b :: e :: word =>
    simp only [onText, List.cons_append, List.nil_append, List.cons.injEq] at hbehind
    obtain ⟨-, -, -, rfl, -⟩ := hbehind
    exact absurd (h ' ' (by simp)) (by decide)

/-- In a list of names between brackets no word stands between blanks. -/
theorem IsNameList.not_onText (h : IsNameList cs)
    (hq : q = ' ' :: '(' :: (cs ++ [')']) ∨ q <:+ '(' :: (cs ++ [')']))
    (hon : onText ++ [c] <+: q) :
    False := by
  have hchain : ('(' :: (cs ++ [')'])).IsChain CommaBefore := by
    refine List.isChain_cons.mpr ⟨fun c' hc' hblank => ?_, List.isChain_append.mpr
      ⟨h.isChain, .singleton _, fun _ _ c' hc' hblank => ?_⟩⟩
    · rw [List.head?_append_of_ne_nil _ h.ne_nil] at hc'
      rw [h.head_eq c' hc'] at hblank
      cases hblank
    · obtain rfl := Option.some.inj hc'
      cases hblank
  rcases hq with rfl | hq
  · obtain ⟨_, hrest⟩ := hon
    cases hrest
  · -- The second blank of the word does not stand behind a comma.
    have hword := hchain.infix (hon.isInfix.trans hq.isInfix)
    simp only [onText, List.cons_append, List.isChain_cons_cons] at hword
    cases hword.2.2.1 rfl

/-- In what is printed of a loop only the description can be the word "on", and the word "in" is
behind it. -/
theorem eq_of_onText_loop {description : List Char} (hdescription : IsWord description)
    (hname : IsWord name)
    (hq : q <:+ ' ' :: ("loop".toList ++ ' ' :: (description ++ ' ' :: ("in".toList ++ ' ' ::
      ("function".toList ++ ' ' :: name))))) (hon : onText ++ [c] <+: q) : c = 'i' := by
  have hhead := head?_of_onText hon
  have hloop : IsWord "loop".toList := by decide
  have hin : IsWord "in".toList := by decide
  have hfunction : IsWord "function".toList := by decide
  rcases List.suffix_cons_iff.mp hq with rfl | hq
  · obtain ⟨_, hrest⟩ := hon
    cases hrest
  rcases hloop.suffix hq hhead with rfl | hq
  · exact hdescription.eq_of_onText hon
  rcases hdescription.suffix hq hhead with rfl | hq
  · obtain ⟨_, hrest⟩ := hon
    cases hrest
  rcases hin.suffix hq hhead with rfl | hq
  · obtain ⟨_, hrest⟩ := hon
    cases hrest
  rcases hfunction.suffix hq hhead with rfl | hq
  · exact (hname.not_onText hon).elim
  · exact (hname.not_suffix hq hhead).elim

/-- Behind the word "on" and in its subject this word stands again only as the description of a
loop. -/
theorem Subject.IsPlain.exists_loop (h : subject.IsPlain)
    (hq : q <:+ "on ".toList ++ subject.text.toList) (hon : onText ++ [c] <+: q) :
    c = 'i' ∧ ∃ description name, subject = .loop description name := by
  have hhead := head?_of_onText hon
  have hword : IsWord "on".toList := by decide
  have hsubject : q = ' ' :: subject.text.toList ∨ q <:+ subject.text.toList :=
    hword.suffix hq hhead
  cases subject with
  | module =>
    have hmodule : IsWord "[module]".toList := by decide
    rcases hsubject with rfl | hq
    · exact (hmodule.not_onText hon).elim
    · exact (hmodule.not_suffix hq hhead).elim
  | component names =>
    rw [toList_text_component] at hsubject
    exact ((isNameList_intercalate h.1 h.2).not_onText hsubject hon).elim
  | loop description name =>
    obtain ⟨⟨-, hdescription⟩, hname⟩ := h
    rw [toList_text_loop] at hsubject
    exact ⟨eq_of_onText_loop hdescription hname.isWord (List.suffix_cons_iff.mpr hsubject) hon,
      description, name, rfl⟩
  | function name =>
    have hname : IsWord name.toList := IsIdentifier.isWord h
    rcases hsubject with rfl | hq
    · exact (hname.not_onText hon).elim
    · exact (hname.not_suffix hq hhead).elim

/-- What is accepted only behind the word "on", and before no word that starts as names or loops go
on, is found between name and subject or not at all. -/
theorem splitLast_subject (hne : name ≠ []) (hname : ¬ onText <:+: name) (h : subject.IsPlain)
    (haccept : ∀ q a, accept q = some a → ∃ c, c ≠ 'o' ∧ c ≠ 'i' ∧ onText ++ [c] <+: q) :
    splitLast accept (name ++ (onText ++ subject.text.toList)) =
      (accept (onText ++ subject.text.toList)).map (name, ·) := by
  have hbehind : ∀ q, q <:+ "on ".toList ++ subject.text.toList → accept q = none := by
    intro q hq
    cases ha : accept q with
    | none => rfl
    | some a =>
      obtain ⟨c, -, hc, hon⟩ := haccept q a ha
      exact absurd (h.exists_loop hq hon).1 hc
  cases ha : accept (onText ++ subject.text.toList) with
  | some a => exact splitLast_append hne (splitLast_cons_eq_none hbehind) ha
  | none =>
    obtain ⟨first, name', rfl⟩ := List.exists_cons_of_ne_nil hne
    refine splitLast_cons_eq_none fun q hq => ?_
    cases ha' : accept q with
    | none => rfl
    | some a =>
      obtain ⟨c, hc, -, hon⟩ := haccept q a ha'
      rcases suffix_cases hname (hq.trans (List.suffix_cons first _)) hon with hc' | rfl | hq
      · exact absurd hc' hc
      · rw [ha] at ha'
        cases ha'
      · rw [hbehind q hq] at ha'
        cases ha'

theorem exists_of_acceptModule {a : Unit} (h : acceptModule q = some a) :
    ∃ c, c ≠ 'o' ∧ c ≠ 'i' ∧ onText ++ [c] <+: q := by
  unfold acceptModule at h
  split at h
  · next hq => exact ⟨'[', by decide, by decide, by rw [hq]; exact ⟨"module]".toList, rfl⟩⟩
  · cases h

theorem exists_of_acceptComponent {a : List Char} (h : acceptComponent q = some a) :
    ∃ c, c ≠ 'o' ∧ c ≠ 'i' ∧ onText ++ [c] <+: q := by
  obtain ⟨rest, hrest, -⟩ := Option.bind_eq_some_iff.mp h
  exact ⟨'(', by decide, by decide, rest, (Text.behind?_eq_some_iff.mp hrest).symm⟩

theorem exists_of_acceptLoop {a : List Char} (h : acceptLoop q = some a) :
    ∃ c, c ≠ 'o' ∧ c ≠ 'i' ∧ onText ++ [c] <+: q := by
  obtain ⟨rest, hrest, -⟩ := Option.bind_eq_some_iff.mp h
  exact ⟨'l', by decide, by decide, "oop ".toList ++ rest, (Text.behind?_eq_some_iff.mp hrest).symm⟩

theorem exists_of_acceptFunction {a : List Char} (h : acceptFunction q = some a) :
    ∃ c, onText ++ [c] <+: q := by
  obtain ⟨rest, hrest, hne⟩ := Option.bind_eq_some_iff.mp h
  have hq := Text.behind?_eq_some_iff.mp hrest
  cases rest with
  | nil => cases hne
  | cons c rest => exact ⟨c, rest, hq.symm⟩

end Subjects

section Scopes

theorem behind?_append (start rest : List Char) : Text.behind? start (start ++ rest) = some rest :=
  Text.behind?_eq_some_iff.mpr rfl

/-- A character that names are not made of is in no name. -/
theorem IsIdentifier.not_mem (h : IsIdentifier name) (hc : Ir.isNameChar c = false) : c ∉ name := by
  intro hmem
  rw [h.isNameChar c hmem] at hc
  cases hc

theorem acceptModule_function (h : IsIdentifier name) : acceptModule (onText ++ name) = none := by
  refine if_neg fun hname => ?_
  have hmem : '[' ∈ onText ++ name := by
    rw [hname]
    decide
  rcases List.mem_append.mp hmem with hmem | hmem
  · cases (show '[' ∉ onText by decide) hmem
  · exact h.not_mem (by decide) hmem

theorem acceptComponent_component (h : IsNameList cs) :
    acceptComponent (onText ++ ('(' :: (cs ++ [')']))) = some cs := by
  have hbehind : Text.behind? " on (".toList (onText ++ ('(' :: (cs ++ [')']))) =
    some (cs ++ [')']) :=
    rfl
  unfold acceptComponent
  rw [hbehind, Option.bind_some, List.getLast?_concat, if_pos rfl, List.dropLast_concat, nonempty?,
    if_neg (by simpa using h.ne_nil)]

theorem acceptComponent_function (h : IsIdentifier name) :
    acceptComponent (onText ++ name) = none := by
  have hbehind : Text.behind? " on (".toList (onText ++ name) = Text.behind? ['('] name := rfl
  have hnone : Text.behind? ['('] name = none := by
    refine Option.eq_none_iff_forall_ne_some.mpr fun rest hrest => ?_
    refine h.not_mem (show Ir.isNameChar '(' = false by decide) ?_
    rw [Text.behind?_eq_some_iff.mp hrest]
    exact List.mem_cons_self
  unfold acceptComponent
  rw [hbehind, hnone]
  rfl

theorem acceptLoop_function (h : IsIdentifier name) : acceptLoop (onText ++ name) = none := by
  have hbehind : Text.behind? " on loop ".toList (onText ++ name) =
    Text.behind? "loop ".toList name :=
    rfl
  have hnone : Text.behind? "loop ".toList name = none := by
    refine Option.eq_none_iff_forall_ne_some.mpr fun rest hrest => ?_
    refine h.isWord.space_not_mem ?_
    rw [Text.behind?_eq_some_iff.mp hrest]
    simp
  unfold acceptLoop
  rw [hbehind, hnone]
  rfl

theorem acceptLoop_loop (hne : word ≠ []) (hword : IsWord word) (h : IsIdentifier name) :
    acceptLoop (onText ++ ("loop ".toList ++ (word ++ (" in function ".toList ++ name)))) =
      some name := by
  have hbehind : Text.behind? " on loop ".toList
      (onText ++ ("loop ".toList ++ (word ++ (" in function ".toList ++ name)))) =
        some (word ++ (" in function ".toList ++ name)) := rfl
  have hname : (Text.behind? " in function ".toList (" in function ".toList ++ name)).bind
      nonempty? = some name := by
    rw [behind?_append, Option.bind_some, nonempty?, if_neg (by simpa using h.ne_nil)]
  unfold acceptLoop
  have hfront (c : Char) (q : List Char) (hq : c :: q <:+ word.tail) :
      (Text.behind? " in function ".toList (c :: q ++ (" in function ".toList ++ name))).bind
        nonempty? = none := by
    have hc : ' ' ≠ c := by
      rintro rfl
      exact hword.space_not_mem (List.mem_of_mem_tail (hq.mem List.mem_cons_self))
    have hnone : Text.behind? " in function ".toList (c :: q ++ (" in function ".toList ++ name)) =
        none := if_neg hc
    rw [hnone, Option.bind_none]
  rw [hbehind, Option.bind_some, splitFirst_append hne hfront hname]
  rfl

theorem acceptFunction_function (h : IsIdentifier name) :
    acceptFunction (onText ++ name) = some name := by
  have hbehind : Text.behind? " on ".toList (onText ++ name) = some name := rfl
  unfold acceptFunction
  rw [hbehind, Option.bind_some, nonempty?, if_neg (by simpa using h.ne_nil)]

/-- The name of a pass and its scope are those that were printed. -/
theorem passAndScope_subject {subject : Subject} (hne : name ≠ []) (hname : ¬ onText <:+: name)
    (h : subject.IsPlain) :
    passAndScope (name ++ (onText ++ subject.text.toList)) = (passName name, subject.scope) := by
  -- The kinds of subjects are tried one after the other, and any but functions are told by the
  -- character behind the word "on".
  have hmodule := splitLast_subject hne hname h fun q a => exists_of_acceptModule
  have hcomponent := splitLast_subject hne hname h fun q a => exists_of_acceptComponent
  have hloop := splitLast_subject hne hname h fun q a => exists_of_acceptLoop
  unfold passAndScope
  dsimp only
  rw [hmodule]
  cases subject with
  | module => rfl
  | component names =>
    have hnames := isNameList_intercalate h.1 h.2
    rw [toList_text_component] at hcomponent ⊢
    have hmodule :
        acceptModule (onText ++ '(' :: ((", ".intercalate names).toList ++ [')'])) = none :=
      if_neg nofun
    rw [hmodule, hcomponent, acceptComponent_component hnames]
    dsimp only [Option.map]
    rw [hnames.trim_eq, String.ofList_toList]
    rfl
  | loop description function =>
    obtain ⟨⟨hdescription, hword⟩, hfunction⟩ := h
    have htext : (Subject.loop description function).text.toList =
        "loop ".toList ++ (description.toList ++ (" in function ".toList ++ function.toList)) := by
      simp [Subject.text]
    rw [htext] at hcomponent hloop ⊢
    have hmodule : acceptModule (onText ++ ("loop ".toList ++ (description.toList ++
        (" in function ".toList ++ function.toList)))) = none := if_neg nofun
    have hcomponent' : acceptComponent (onText ++ ("loop ".toList ++ (description.toList ++
        (" in function ".toList ++ function.toList)))) = none := rfl
    rw [hmodule, hcomponent, hcomponent', hloop, acceptLoop_loop hdescription hword hfunction]
    dsimp only [Option.map]
    rw [hfunction.isTrimmed.trim_eq, String.ofList_toList]
    rfl
  | function function =>
    have hfunction : splitLast acceptFunction (name ++ (onText ++ function.toList)) =
        some (name, function.toList) := by
      refine splitLast_append hne (splitLast_cons_eq_none fun q hq => ?_)
        (acceptFunction_function h)
      cases ha : acceptFunction q with
      | none => rfl
      | some a =>
        obtain ⟨c, hon⟩ := exists_of_acceptFunction ha
        obtain ⟨-, description, other, hloop⟩ := h.exists_loop hq hon
        cases hloop
    rw [Subject.text] at hcomponent hloop ⊢
    rw [acceptModule_function h, hcomponent, acceptComponent_function h, hloop,
      acceptLoop_function h]
    dsimp only [Option.map]
    rw [hfunction]
    dsimp only
    rw [(IsIdentifier.isTrimmed h).trim_eq, String.ofList_toList]
    rfl

end Scopes

end PassTrace.Trace

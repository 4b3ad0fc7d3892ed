import Mathlib.Data.List.TakeWhile
import PassTrace.Proofs.Trace.Subjects
import PassTrace.Trace.Parser

/-!
# Markers are understood as they are printed

A marker line says when a dump was taken, which pass it belongs to, what the pass ran on and whether
the dump is left out. Reading the line gives back what was printed, for nearly every name of a pass:
the stars behind the marker and the wording of an omission are found at its end only.
-/

namespace PassTrace.Trace

/-- The wordings of a marker without a dump. -/
def omissionTexts : List String :=
  ["omitted because no change", "filtered out", "(omitted because no change)", "(filtered out)"]

/-- The word for a moment. -/
def Moment.word : Moment → String
  | .start => "At Start"
  | .before => "Before"
  | .after => "After"

/-- What is printed in a marker line for a pass. -/
structure Marker where
  /-- The blanks in front. -/
  front : String := ""
  /-- A comment sign, or nothing. -/
  sign : String := ""
  /-- The blanks behind the comment sign. -/
  inner : String := ""
  moment : Moment
  /-- Whether the name of the pass is printed with its namespace. -/
  qualified : Bool := false
  pass : String
  subject : Subject
  omission : Option String := none
  colon : Bool := false

namespace Marker

/-- The name of the pass, perhaps with its namespace. -/
def name (m : Marker) : String :=
  (if m.qualified then "llvm::" else "") ++ m.pass

/-- The wording that says that the dump is left out. -/
def ending (m : Marker) : String :=
  match m.omission with
  | none => ""
  | some wording => " " ++ wording

/-- What the marker says between its stars. -/
def body (m : Marker) : String :=
  m.moment.word ++ " " ++ m.name ++ " on " ++ m.subject.text ++ m.ending

/-- The stars behind what the marker says. -/
def closing (m : Marker) : String :=
  if m.colon then " ***:" else " ***"

/-- The marker as it is printed. -/
def line (m : Marker) : String :=
  m.front ++ m.sign ++ m.inner ++ "*** IR Dump " ++ m.body ++ m.closing

end Marker

/-- A name behind which the word "on" is told apart: it has no blanks at its ends, and does not hold
this word itself. -/
structure IsPrintedName (cs : List Char) : Prop extends Text.IsTrimmed cs where
  not_onText : ¬ onText <:+: cs

/-- A name of a pass that a marker can print, with the namespace in front or without it. -/
structure IsPassName (cs : List Char) : Prop extends IsPrintedName cs where
  not_qualified : ¬ "llvm::".toList <+: cs

/-- A marker for a pass whose parts can be told apart. -/
structure Marker.IsPlain (m : Marker) : Prop where
  front_blank : ∀ c ∈ m.front.toList, Text.isBlank c = true
  sign_mem : m.sign ∈ ["", ";", "#"]
  inner_blank : ∀ c ∈ m.inner.toList, Text.isBlank c = true
  moment_ne : m.moment ≠ .start
  isPassName : IsPassName m.pass.toList
  isPlain : m.subject.IsPlain
  omission_mem : ∀ wording ∈ m.omission, wording ∈ omissionTexts

variable {cs front core body close wording word : List Char} {c : Char} {m : Marker}

section Closings

/-- The characters of a text that are no blanks. -/
def inked (cs : List Char) : List Char :=
  cs.filter fun c => !Text.isBlank c

theorem inked_trimLeft (cs : List Char) : inked (Text.trimLeft cs) = inked cs := by
  induction cs with
  | nil => rfl
  | cons c cs ih =>
    unfold Text.trimLeft
    rw [List.dropWhile_cons]
    split
    · next hblank =>
      rw [← Text.trimLeft, ih, inked, inked, List.filter_cons_of_neg (by simp [hblank])]
    · rfl

theorem inked_of_all (h : cs.all Text.isBlank = true) : inked cs = [] := by
  rw [inked, List.filter_eq_nil_iff]
  intro c hc
  simp [List.all_eq_true.mp h c hc]

/-- The end of a marker is three stars and perhaps a colon, with blanks around them. -/
theorem inked_of_closesMarker (h : closesMarker cs = true) :
    inked cs = "***:".toList ∨ inked cs = "***".toList := by
  rw [← inked_trimLeft]
  unfold closesMarker at h
  split at h
  · next rest hcs =>
    left
    rw [hcs, show '*' :: '*' :: '*' :: ':' :: rest = "***:".toList ++ rest from rfl, inked,
      List.filter_append, ← inked, ← inked, inked_of_all h]
    rfl
  · next rest _ hcs =>
    right
    rw [hcs, show '*' :: '*' :: '*' :: rest = "***".toList ++ rest from rfl, inked,
      List.filter_append, ← inked, ← inked, inked_of_all h]
    rfl
  · cases h

/-- No marker ends where a text follows that is not blank at its end, and then the stars. -/
theorem closesMarker_append (hne : body ≠ []) (hlast : ∀ c ∈ body.getLast?, Text.isBlank c = false)
    (hclose : inked close = "***:".toList ∨ inked close = "***".toList) :
    closesMarker (body ++ close) = false := by
  rw [← Bool.not_eq_true]
  intro hcloses
  have hink : inked body ≠ [] := by
    intro hnone
    have hmem := List.getLast_mem hne
    have hblank := List.filter_eq_nil_iff.mp hnone _ hmem
    rw [hlast _ (List.getLast?_eq_some_getLast hne)] at hblank
    exact hblank rfl
  have hpos := List.length_pos_iff.mpr hink
  have happend : inked (body ++ close) = inked body ++ inked close := List.filter_append ..
  have hcases := inked_of_closesMarker hcloses
  rw [happend] at hcases
  rcases hclose with hclose | hclose
  · -- There are more characters than in the longer end of a marker.
    rw [hclose] at hcases
    rcases hcases with hsame | hsame
    · have hlength := congrArg List.length hsame
      rw [List.length_append] at hlength
      omega
    · have hlength := congrArg List.length hsame
      rw [List.length_append, show "***:".toList.length = 4 from rfl,
        show "***".toList.length = 3 from rfl] at hlength
      omega
  · rw [hclose] at hcases
    rcases hcases with hsame | hsame
    · -- There are as many, but the last one is no colon.
      have hcolon := congrArg List.getLast? hsame
      rw [List.getLast?_append_of_ne_nil _ (show "***".toList ≠ [] by decide)] at hcolon
      exact absurd hcolon (by decide)
    · have hlength := congrArg List.length hsame
      rw [List.length_append] at hlength
      omega

/-- A marker ends at its stars only, however many stars are in what it says. -/
theorem upToClose_append (hne : body ≠ []) (hnewline : '\n' ∉ body)
    (hlast : ∀ c ∈ body.getLast?, Text.isBlank c = false) (hcloses : closesMarker close = true)
    (hclose : inked close = "***:".toList ∨ inked close = "***".toList) :
    upToClose (body ++ close) = some body := by
  induction body with
  | nil => exact absurd rfl hne
  | cons c rest ih =>
    have hc : c ≠ '\n' := fun hc => hnewline (hc ▸ List.mem_cons_self)
    rw [List.cons_append, upToClose, if_neg hc]
    cases rest with
    | nil => rw [List.nil_append, if_pos hcloses]
    | cons c' rest =>
      have hopen := closesMarker_append (List.cons_ne_nil c' rest) hlast hclose
      rw [hopen, ih (List.cons_ne_nil _ _) (fun hmem => hnewline (List.mem_cons_of_mem _ hmem))
        hlast]
      rfl

/-- The text of a marker is what stands between its stars. -/
theorem markerText?_append {front sign inner : List Char}
    (hfront : ∀ c ∈ front, Text.isBlank c = true)
    (hsign : sign = [] ∨ sign = [';'] ∨ sign = ['#']) (hinner : ∀ c ∈ inner, Text.isBlank c = true)
    (hbody : upToClose (body ++ close) = some body) :
    markerText? (front ++ sign ++ inner ++ "*** IR Dump ".toList ++ (body ++ close)) =
      some (Text.trim body) := by
  have hopening (rest : List Char) : Text.trimLeft ("*** IR Dump ".toList ++ rest) =
      "*** IR Dump ".toList ++ rest := rfl
  have hbehind (rest : List Char) : Text.behind? "*** IR Dump ".toList
      ("*** IR Dump ".toList ++ rest) = some rest := Text.behind?_eq_some_iff.mpr rfl
  have hsigned (d : Char) (hd : d = ';' ∨ d = '#') : markerText? (front ++ [d] ++ inner ++
      "*** IR Dump ".toList ++ (body ++ close)) = some (Text.trim body) := by
    have hline : Text.trimLeft (front ++ [d] ++ inner ++ "*** IR Dump ".toList ++ (body ++ close)) =
        d :: (inner ++ ("*** IR Dump ".toList ++ (body ++ close))) := by
      simp only [List.append_assoc, List.singleton_append]
      rw [Text.trimLeft_append hfront]
      rcases hd with rfl | rfl <;> rfl
    unfold markerText?
    rw [hline]
    dsimp only
    rw [if_pos (by simpa using hd), Text.trimLeft_append hinner, hopening, hbehind,
      Option.bind_some, hbody]
    rfl
  rcases hsign with rfl | rfl | rfl
  · have hline : Text.trimLeft (front ++ [] ++ inner ++ "*** IR Dump ".toList ++ (body ++ close)) =
        '*' :: ("** IR Dump ".toList ++ (body ++ close)) := by
      simp only [List.append_assoc, List.nil_append]
      rw [Text.trimLeft_append hfront, Text.trimLeft_append hinner]
      rfl
    have hbehind : Text.behind? "*** IR Dump ".toList
        ('*' :: ("** IR Dump ".toList ++ (body ++ close))) = some (body ++ close) := rfl
    unfold markerText?
    rw [hline]
    dsimp only
    rw [if_neg (by decide), hbehind, Option.bind_some, hbody]
    rfl
  · exact hsigned _ (.inl rfl)
  · exact hsigned _ (.inr rfl)

end Closings

section Omissions

/-- A text at whose end no wording stands says of no dump that it is left out. -/
theorem splitOmission_eq_self (h : ∀ wording ∈ omissions, ¬ wording <:+ core) :
    splitOmission core = (core, false) := by
  induction core with
  | nil => rfl
  | cons c rest ih =>
    have hrest := ih fun wording hwording hsuffix =>
      h wording hwording (hsuffix.trans (List.suffix_cons c rest))
    have hnone : ¬ (Text.isBlank c && omissions.contains (Text.trimLeft rest)) = true := by
      rw [Bool.and_eq_true, List.contains_iff_mem]
      rintro ⟨-, hmem⟩
      exact h _ hmem ((List.dropWhile_suffix _).trans (List.suffix_cons c rest))
    rw [splitOmission, if_neg hnone, hrest]

/-- The character in front of the last blank of a text. -/
def beforeLastBlank? (cs : List Char) : Option Char :=
  (cs.reverse.dropWhile fun c => !Text.isBlank c).tail.head?

theorem beforeLastBlank?_append (h : beforeLastBlank? cs = some c) :
    beforeLastBlank? (front ++ cs) = some c := by
  unfold beforeLastBlank? at h ⊢
  rw [List.reverse_append, List.dropWhile_append]
  cases hrest : cs.reverse.dropWhile fun c => !Text.isBlank c with
  | nil =>
    rw [hrest] at h
    cases h
  | cons blank rest =>
    rw [hrest] at h
    obtain ⟨rest', rfl⟩ := List.head?_eq_some_iff.mp h
    rfl

theorem beforeLastBlank?_word (h : IsWord word) : beforeLastBlank? (c :: ' ' :: word) = some c := by
  have hreverse : (c :: ' ' :: word).reverse = word.reverse ++ [' ', c] := by simp
  unfold beforeLastBlank?
  rw [hreverse, List.dropWhile_append_of_pos fun c hc => by simp [h c (List.mem_reverse.mp hc)]]
  rfl

/-- What tells the wordings of omissions apart from what a pass ran on: which character is in front
of the last blank. -/
structure IsWording (cs : List Char) : Prop extends Text.IsTrimmed cs where
  beforeLastBlank?_eq : beforeLastBlank? cs = some 'o' ∨ beforeLastBlank? cs = some 'd'

theorem isWording_of_mem (h : wording ∈ omissions) : IsWording wording := by
  have hall : ∀ wording ∈ omissions, Text.IsTrimmed wording ∧
      (beforeLastBlank? wording = some 'o' ∨ beforeLastBlank? wording = some 'd') := by
    decide +kernel
  obtain ⟨htrimmed, hend⟩ := hall wording h
  exact ⟨htrimmed, hend⟩

/-- No wording stands behind a blank in another one. -/
theorem not_suffix_of_mem_omissions : ∀ wording ∈ omissions, ∀ wording' ∈ omissions,
    ¬ ' ' :: wording <:+ wording' := by
  decide +kernel

/-- A wording behind a text and a blank is taken away with the blank. -/
theorem splitOmission_append (hlast : ∀ c ∈ core.getLast?, Text.isBlank c = false)
    (hwording : wording ∈ omissions) : splitOmission (core ++ ' ' :: wording) = (core, true) := by
  induction core with
  | nil =>
    have hself := Text.trimLeft_eq_self (isWording_of_mem hwording).head_eq
    rw [List.nil_append, splitOmission, hself, if_pos (by simpa using ⟨rfl, hwording⟩)]
  | cons c rest ih =>
    have hnone : ¬ (Text.isBlank c && omissions.contains (Text.trimLeft (rest ++ ' ' :: wording))) =
        true := by
      rw [Bool.and_eq_true, List.contains_iff_mem]
      rintro ⟨hblank, hmem⟩
      cases rest with
      | nil =>
        rw [hlast c rfl] at hblank
        cases hblank
      | cons c' rest =>
        refine not_suffix_of_mem_omissions wording hwording _ hmem ?_
        have hkept : ¬ ((c' :: rest).dropWhile Text.isBlank).isEmpty = true := by
          rw [List.isEmpty_iff, List.dropWhile_eq_nil_iff]
          intro hall
          have hend := List.getLast?_eq_some_getLast (List.cons_ne_nil c' rest)
          have hblank := hall _ (List.getLast_mem (List.cons_ne_nil c' rest))
          rw [hlast _ hend] at hblank
          cases hblank
        unfold Text.trimLeft
        rw [List.dropWhile_append, if_neg hkept]
        exact List.suffix_append _ _
    have hrest : splitOmission (rest ++ ' ' :: wording) = (rest, true) := by
      refine ih fun last hend => hlast last ?_
      cases rest with
      | nil => cases hend
      | cons c' rest => exact hend
    rw [List.cons_append, splitOmission, if_neg hnone, hrest]

/-- In front of the last blank of a subject behind the word "on" stands the end of a word of the
marker's own, or a comma. -/
theorem Subject.IsPlain.beforeLastBlank?_eq {subject : Subject} (h : subject.IsPlain) :
    beforeLastBlank? (onText ++ subject.text.toList) = some 'n' ∨
      beforeLastBlank? (onText ++ subject.text.toList) = some ',' := by
  have hon (cs : List Char) : onText ++ cs = [' ', 'o'] ++ 'n' :: ' ' :: cs := rfl
  cases subject with
  | module => exact .inl rfl
  | component names =>
    rw [toList_text_component]
    have hopen : Text.isBlank '(' = false := by decide
    have hclose : IsWord [')'] := by decide
    rcases (isNameList_intercalate h.1 h.2).last_cases with hword | ⟨front, word, hlist, -, hword⟩
    · left
      rw [hon]
      exact beforeLastBlank?_append
        (beforeLastBlank?_word (List.forall_mem_cons.mpr ⟨hopen, hword.append hclose⟩))
    · right
      rw [hlist, show onText ++ '(' :: (front ++ ',' :: ' ' :: word ++ [')']) =
        onText ++ '(' :: front ++ ',' :: ' ' :: (word ++ [')']) by simp]
      exact beforeLastBlank?_append (beforeLastBlank?_word (hword.append hclose))
  | loop description name =>
    left
    have htext : onText ++ (Subject.loop description name).text.toList =
        onText ++ "loop ".toList ++ description.toList ++ " in functio".toList ++
          'n' :: ' ' :: name.toList := by
      simp [Subject.text]
    rw [htext]
    exact beforeLastBlank?_append (beforeLastBlank?_word h.2.isWord)
  | function name =>
    left
    rw [hon]
    exact beforeLastBlank?_append (beforeLastBlank?_word (IsIdentifier.isWord h))

/-- A marker without a wording has none at the end of what the pass ran on. -/
theorem Subject.IsPlain.not_suffix {subject : Subject} (h : subject.IsPlain) :
    ∀ wording ∈ omissions, ¬ wording <:+ front ++ (onText ++ subject.text.toList) := by
  rintro wording hwording ⟨start, hstart⟩
  have hsame {c c' : Char} (hc : beforeLastBlank? wording = some c)
      (hc' : beforeLastBlank? (onText ++ subject.text.toList) = some c') : c = c' := by
    have hwhole : beforeLastBlank? (start ++ wording) = some c := beforeLastBlank?_append hc
    rw [hstart, beforeLastBlank?_append hc'] at hwhole
    exact (Option.some.inj hwhole).symm
  rcases (isWording_of_mem hwording).beforeLastBlank?_eq with hend | hend <;>
  rcases h.beforeLastBlank?_eq with hon | hon
  all_goals exact absurd (hsame hend hon) (by decide)

end Omissions

section Names

/-- The name of a pass can be printed with its namespace. -/
theorem IsPassName.isPrintedName_append (h : IsPassName cs) :
    IsPrintedName ("llvm::".toList ++ cs) := by
  have hnamespace : IsWord "llvm::".toList := by decide
  have htrimmed : Text.IsTrimmed "llvm::".toList := by decide
  refine ⟨htrimmed.append [] List.not_mem_nil h.toIsTrimmed, ?_⟩
  rintro ⟨before, behind, hparts⟩
  have hsuffix : onText ++ behind <:+ "llvm::".toList ++ cs := ⟨before, by rw [← hparts]; simp⟩
  exact h.not_onText ((List.prefix_append _ _).isInfix.trans
    (hnamespace.suffix_of_append hsuffix rfl).isInfix)

theorem Marker.IsPlain.isPrintedName (h : m.IsPlain) : IsPrintedName m.name.toList := by
  unfold Marker.name
  cases m.qualified with
  | false => simpa using h.isPassName.toIsPrintedName
  | true => simpa using h.isPassName.isPrintedName_append

/-- What is read for the name of a pass is the name without its namespace. -/
theorem Marker.IsPlain.passName_eq (h : m.IsPlain) : passName m.name.toList = m.pass := by
  unfold passName
  dsimp only
  rw [h.isPrintedName.trim_eq]
  unfold Marker.name
  cases m.qualified with
  | false =>
    have hnone : Text.behind? "llvm::".toList m.pass.toList = none := by
      refine Option.eq_none_iff_forall_ne_some.mpr fun rest hrest => ?_
      exact h.isPassName.not_qualified ⟨rest, (Text.behind?_eq_some_iff.mp hrest).symm⟩
    rw [if_neg Bool.false_ne_true, String.empty_append, hnone, Option.getD_none,
      String.ofList_toList]
  | true =>
    rw [if_pos rfl, String.toList_append, behind?_append, Option.getD_some, String.ofList_toList]

end Names

section Headers

/-- What a marker says of a pass is understood. -/
theorem headerOf?_append {line : String} {moment : Moment} {rest : List Char}
    (hmoment : moment ≠ .start) (hne : rest ≠ []) (hrest : Text.trim (' ' :: rest) = rest) :
    headerOf? line (moment.word.toList ++ ' ' :: rest) =
      some ⟨moment, (passAndScope (splitOmission rest).1).1,
        (passAndScope (splitOmission rest).1).2, (splitOmission rest).2, line⟩ := by
  obtain ⟨c, rest, rfl⟩ := List.exists_cons_of_ne_nil hne
  have hword : firstWord (moment.word.toList ++ ' ' :: c :: rest) = moment.word.toList ∧
      moment.word.toList ++ ' ' :: c :: rest ≠ "At Start".toList ∧
      momentOf? moment.word.toList = some moment := by
    cases moment with
    | start => exact absurd rfl hmoment
    | before => exact ⟨rfl, nofun, rfl⟩
    | after => exact ⟨rfl, nofun, rfl⟩
  obtain ⟨hfirst, hstart, hmomentOf⟩ := hword
  unfold headerOf?
  rw [if_neg hstart, hfirst, hmomentOf, List.drop_left, hrest]

/-- What a marker says behind the moment. -/
def Marker.said (m : Marker) : List Char :=
  m.name.toList ++ (onText ++ m.subject.text.toList) ++ m.ending.toList

theorem Marker.toList_body (m : Marker) : m.body.toList =
    m.moment.word.toList ++ ' ' :: m.said := by
  simp [Marker.body, Marker.said, onText]

theorem Marker.toList_line (m : Marker) : m.line.toList = m.front.toList ++ m.sign.toList ++
    m.inner.toList ++ "*** IR Dump ".toList ++ (m.body.toList ++ m.closing.toList) := by
  simp [Marker.line]

theorem mem_omissions : ∀ wording ∈ omissionTexts, wording.toList ∈ omissions := by
  decide +kernel

/-- What a marker says ends with no wording, or with a blank and one. -/
theorem Marker.IsPlain.ending_cases (h : m.IsPlain) :
    (m.ending.toList = [] ∧ m.omission.isSome = false) ∨
      ∃ wording ∈ omissions, m.ending.toList = ' ' :: wording ∧ m.omission.isSome = true := by
  unfold Marker.ending
  cases homission : m.omission with
  | none => exact .inl ⟨rfl, rfl⟩
  | some wording =>
    refine .inr ⟨wording.toList, mem_omissions wording (h.omission_mem wording homission), ?_, rfl⟩
    simp

/-- What a marker says in front of the wording is on one line and has no blanks at its ends. -/
theorem Marker.IsPlain.isTrimmed_subject (h : m.IsPlain) :
    Text.IsTrimmed (m.name.toList ++ (onText ++ m.subject.text.toList)) :=
  h.isPrintedName.append onText (by decide) h.isPlain.isTrimmed

/-- The wording of an omission is told apart from what the pass ran on. -/
theorem Marker.IsPlain.splitOmission_eq (h : m.IsPlain) : splitOmission m.said =
    (m.name.toList ++ (onText ++ m.subject.text.toList), m.omission.isSome) := by
  unfold Marker.said
  rcases h.ending_cases with ⟨hending, homission⟩ | ⟨wording, hwording, hending, homission⟩
  · rw [hending, homission, List.append_nil]
    exact splitOmission_eq_self h.isPlain.not_suffix
  · rw [hending, homission]
    exact splitOmission_append h.isTrimmed_subject.last_eq hwording

theorem Marker.IsPlain.isTrimmed_said (h : m.IsPlain) : Text.IsTrimmed m.said := by
  unfold Marker.said
  rcases h.ending_cases with ⟨hending, -⟩ | ⟨wording, hwording, hending, -⟩
  · rw [hending, List.append_nil]
    exact h.isTrimmed_subject
  · rw [hending]
    exact h.isTrimmed_subject.append [' '] (by decide)
      (isWording_of_mem hwording).toIsTrimmed

theorem Marker.IsPlain.isTrimmed_body (h : m.IsPlain) : Text.IsTrimmed m.body.toList := by
  have hword : Text.IsTrimmed m.moment.word.toList := by cases m.moment <;> decide
  rw [Marker.toList_body]
  exact hword.append [' '] (by decide) h.isTrimmed_said

/-- What a marker says stands between its stars, without more blanks. -/
theorem Marker.IsPlain.markerText?_eq (h : m.IsPlain) :
    markerText? m.line.toList = some m.body.toList := by
  have hsign : m.sign.toList = [] ∨ m.sign.toList = [';'] ∨ m.sign.toList = ['#'] := by
    have hmem := h.sign_mem
    simp only [List.mem_cons, List.not_mem_nil, or_false] at hmem
    rcases hmem with hsign | hsign | hsign <;> rw [hsign] <;> decide
  have hclosing : closesMarker m.closing.toList = true ∧
      (inked m.closing.toList = "***:".toList ∨ inked m.closing.toList = "***".toList) := by
    unfold Marker.closing
    cases m.colon <;> decide
  have hbody := h.isTrimmed_body
  rw [Marker.toList_line, markerText?_append h.front_blank hsign h.inner_blank (upToClose_append
    hbody.ne_nil hbody.newline_not_mem hbody.last_eq hclosing.1 hclosing.2), hbody.trim_eq]

/-- Closing a dump counts no anomaly. -/
theorem Scan.anomalies_close (s : Scan) : s.close.tally.anomalies = s.tally.anomalies := by
  unfold Scan.close
  dsimp only
  split
  · split <;> rfl
  · rfl

/-- A marker is understood as it was printed: the moment, the name of the pass without its
namespace, what it ran on and whether the dump is left out. It is not counted as an anomaly. -/
theorem Marker.classify_line (h : m.IsPlain) :
    classify m.line = .header ⟨m.moment, m.pass, m.subject.scope, m.omission.isSome, m.line⟩ ∧
      ∀ s : Scan, (s.step m.line).tally.anomalies = s.tally.anomalies := by
  have htrim : Text.trim (' ' :: m.said) = m.said := by
    have hblank : Text.trimLeft (' ' :: m.said) = Text.trimLeft m.said := rfl
    rw [Text.trim, hblank, ← Text.trim, h.isTrimmed_said.trim_eq]
  have hclass : classify m.line =
      .header ⟨m.moment, m.pass, m.subject.scope, m.omission.isSome, m.line⟩ := by
    have hheader : headerOf? m.line (m.moment.word.toList ++ ' ' :: m.said) = some _ :=
      headerOf?_append h.moment_ne h.isTrimmed_said.ne_nil htrim
    rw [h.splitOmission_eq, passAndScope_subject h.isPrintedName.ne_nil h.isPrintedName.not_onText
      h.isPlain, h.passName_eq] at hheader
    unfold classify
    rw [h.markerText?_eq]
    dsimp only
    rw [Marker.toList_body, hheader]
  refine ⟨hclass, fun s => ?_⟩
  unfold Scan.step
  rw [hclass]
  exact Scan.anomalies_close _

/-- A marker for a pass on a loop, with brackets and stars in the name of the pass and a description
that is the word before it. -/
def looping : Marker where
  front := "  "
  sign := ";"
  inner := " "
  moment := .before
  qualified := true
  pass := "Adaptor<A*, (B)> *** on"
  subject := .loop "on" "f.1"
  omission := some "(filtered out)"
  colon := true

theorem looping_isPlain : looping.IsPlain where
  front_blank := List.all_eq_true.mp (by decide)
  sign_mem := by simp [looping]
  inner_blank := List.all_eq_true.mp (by decide)
  moment_ne := by decide
  isPassName := ⟨⟨by decide, by decide +kernel⟩, by decide⟩
  isPlain := ⟨⟨by decide, by decide⟩, by decide, List.all_eq_true.mp (by decide)⟩
  omission_mem := by simp [looping, omissionTexts]

/-- Stars, brackets and the word "on" in the parts of this marker are not taken for its own. -/
theorem Marker.classify_line_looping :
    looping.line = "  ; *** IR Dump Before llvm::Adaptor<A*, (B)> *** on on loop on in function f.1 " ++
      "(filtered out) ***:" ∧
    classify looping.line =
      .header ⟨.before, "Adaptor<A*, (B)> *** on", ⟨.loop, some "f.1"⟩, true, looping.line⟩ :=
  ⟨by decide +kernel, (Marker.classify_line looping_isPlain).1⟩

end Headers

end PassTrace.Trace

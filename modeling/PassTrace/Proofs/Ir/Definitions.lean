import Mathlib.Data.List.DropRight
import PassTrace.Ir.Function

/-!
# The definition of a function is found exactly

A definition is a line that defines the function, with the comments directly above it, and goes on
to the first line behind which its braces are balanced. The first one of a module's text is found,
whatever stands above and below it. A text that is cut off before the braces are balanced has the
rest of the text for a definition.
-/

namespace PassTrace.Ir

/-- The number of braces opened in lines less those closed. -/
def linesBalance (lines : Lines) : Int :=
  lines.foldr (fun line n => braceBalance line + n) 0

/-- Whether the line in a place ends a definition, where `depth` braces are open in front of the
lines. -/
def EndsAt (depth : Int) (lines : Lines) (n : Nat) : Prop :=
  ∃ line, lines[n]? = some line ∧ closes line (depth + linesBalance (lines.take (n + 1))) = true

/-- The last of lines is the first one that ends a definition. -/
structure IsClosed (depth : Int) (lines : Lines) : Prop where
  ne_nil : lines ≠ []
  endsAt_iff : ∀ n, EndsAt depth lines n ↔ n + 1 = lines.length

/-- No line ends a definition. -/
def IsOpen (depth : Int) (lines : Lines) : Prop :=
  ∀ n, ¬ EndsAt depth lines n

/-- Whether a line is a comment. -/
def isComment (line : String) : Bool :=
  Text.startsWith line ";"

/-- Comments, and below them lines of which the first defines a function. -/
structure Starts (name : String) (comments body : Lines) : Prop where
  comment : ∀ line ∈ comments, isComment line = true
  defining : ∃ head ∈ body.head?, defines name head = true

/-- The definition of a function, with comments above it. -/
def IsDefinition (name : String) (lines : Lines) : Prop :=
  ∃ comments body, lines = comments ++ body ∧ Starts name comments body ∧ IsClosed 0 body

/-- The definition of a function that is cut off, with comments above it. -/
def IsCutOff (name : String) (lines : Lines) : Prop :=
  ∃ comments body, lines = comments ++ body ∧ Starts name comments body ∧ IsOpen 0 body

/-- Lines that may stand above the first definition of a function: none of them defines it, and the
last one is no comment. -/
structure Precedes (name : String) (lines : Lines) : Prop where
  not_defines : ∀ line ∈ lines, defines name line = false
  not_comment : ∀ line ∈ lines.getLast?, isComment line = false

variable {name line : String} {depth : Int} {comments body before after lines rest : Lines}

section Ends

theorem endsAt_zero :
    EndsAt depth (line :: rest) 0 ↔ closes line (depth + braceBalance line) = true := by
  simp [EndsAt, linesBalance]

theorem endsAt_succ {n : Nat} :
    EndsAt depth (line :: rest) (n + 1) ↔ EndsAt (depth + braceBalance line) rest n := by
  simp [EndsAt, linesBalance, Int.add_assoc]

/-- Lines that end in their first line have no other. -/
theorem isClosed_cons_of_closes (h : closes line (depth + braceBalance line) = true) :
    IsClosed depth (line :: rest) ↔ rest = [] := by
  constructor
  · intro hclosed
    have hlength := (hclosed.endsAt_iff 0).mp (endsAt_zero.mpr h)
    rw [List.length_cons] at hlength
    exact List.eq_nil_of_length_eq_zero (by omega)
  · rintro rfl
    refine ⟨List.cons_ne_nil _ _, fun n => ?_⟩
    cases n with
    | zero => exact iff_of_true (endsAt_zero.mpr h) rfl
    | succ n => simp [EndsAt]

/-- Lines that do not end in their first line end as those below it do. -/
theorem isClosed_cons_of_not_closes (h : closes line (depth + braceBalance line) = false) :
    IsClosed depth (line :: rest) ↔ IsClosed (depth + braceBalance line) rest := by
  have hfirst : ¬ EndsAt depth (line :: rest) 0 := by simp [endsAt_zero, h]
  constructor
  · rintro ⟨-, hends⟩
    refine ⟨?_, fun n => ?_⟩
    · rintro rfl
      exact hfirst ((hends 0).mpr rfl)
    · rw [← endsAt_succ, hends, List.length_cons]
      omega
  · rintro ⟨hne, hends⟩
    refine ⟨List.cons_ne_nil _ _, fun n => ?_⟩
    have hpos := List.length_pos_iff.mpr hne
    cases n with
    | zero =>
      rw [List.length_cons]
      exact iff_of_false hfirst (by omega)
    | succ n =>
      rw [endsAt_succ, hends, List.length_cons]
      omega

theorem isOpen_cons : IsOpen depth (line :: rest) ↔
    closes line (depth + braceBalance line) = false ∧ IsOpen (depth + braceBalance line) rest := by
  constructor
  · intro hopen
    exact ⟨by simpa [endsAt_zero] using hopen 0, fun n hends => hopen (n + 1)
      (endsAt_succ.mpr hends)⟩
  · rintro ⟨hfirst, hopen⟩ n hends
    cases n with
    | zero =>
      rw [endsAt_zero, hfirst] at hends
      cases hends
    | succ n => exact hopen n (endsAt_succ.mp hends)

/-- A definition is spanned up to the line that ends it. -/
theorem spanDefinition_append (h : IsClosed depth body) :
    spanDefinition depth (body ++ after) = (body, after) := by
  induction body generalizing depth with
  | nil => exact absurd rfl h.ne_nil
  | cons line rest ih =>
    simp only [List.cons_append, spanDefinition]
    split
    · next hcloses =>
      obtain rfl := (isClosed_cons_of_closes hcloses).mp h
      rfl
    · next hcloses =>
      rw [ih ((isClosed_cons_of_not_closes (by simpa using hcloses)).mp h)]

/-- A definition that is cut off is spanned up to the end. -/
theorem spanDefinition_of_isOpen (h : IsOpen depth body) :
    spanDefinition depth body = (body, []) := by
  induction body generalizing depth with
  | nil => rfl
  | cons line rest ih =>
    obtain ⟨hcloses, hopen⟩ := isOpen_cons.mp h
    simp only [spanDefinition, hcloses, ih hopen]
    rfl

/-- Lines start with some that are closed, or none ends. -/
theorem exists_isClosed_or_isOpen (depth : Int) (lines : Lines) :
    (∃ body after, lines = body ++ after ∧ IsClosed depth body) ∨ IsOpen depth lines := by
  induction lines generalizing depth with
  | nil => exact .inr fun n => by simp [EndsAt]
  | cons line rest ih =>
    cases hcloses : closes line (depth + braceBalance line) with
    | true => exact .inl ⟨[line], rest, rfl, (isClosed_cons_of_closes hcloses).mpr rfl⟩
    | false =>
      rcases ih (depth + braceBalance line) with ⟨body, after, rfl, hclosed⟩ | hopen
      · exact .inl ⟨line :: body, after, rfl, (isClosed_cons_of_not_closes hcloses).mpr hclosed⟩
      · exact .inr (isOpen_cons.mpr ⟨hcloses, hopen⟩)

end Ends

section Finding

theorem starts_append_iff (hne : body ≠ []) :
    Starts name comments (body ++ after) ↔ Starts name comments body := by
  obtain ⟨head, inside, rfl⟩ := List.exists_cons_of_ne_nil hne
  exact ⟨fun h => ⟨h.comment, h.defining⟩, fun h => ⟨h.comment, h.defining⟩⟩

/-- A comment defines nothing. -/
theorem defines_of_comment (h : isComment line = true) : defines name line = false := by
  obtain ⟨rest, hrest⟩ := Option.isSome_iff_exists.mp h
  have hline := Text.behind?_eq_some_iff.mp hrest
  have hafter : afterDefine? line = none := by
    rw [afterDefine?, hline]
    rfl
  rw [defines, hafter]

/-- The comments at the end of lines. -/
def commentsBelow (lines : Lines) : Lines :=
  lines.rtakeWhile isComment

theorem commentsBelow_append (hbefore : ∀ line ∈ before.getLast?, isComment line = false)
    (hcomments : ∀ line ∈ comments, isComment line = true) :
    commentsBelow (before ++ comments) = comments := by
  induction comments using List.reverseRecOn with
  | nil =>
    rw [List.append_nil, commentsBelow, List.rtakeWhile_eq_nil_iff]
    intro hne
    simp [hbefore _ (List.getLast?_eq_some_getLast hne)]
  | append_singleton comments line ih =>
    have hline := hcomments line (by simp)
    rw [← List.append_assoc, commentsBelow, List.rtakeWhile_concat_pos _ _ _ hline, ← commentsBelow,
      ih fun other hother => hcomments other (List.mem_append_left _ hother)]

/-- Lines that do not define a function are passed. The comments at their end are kept in mind. -/
theorem definitionFrom?_append (h : ∀ line ∈ before, defines name line = false) (passed : Lines) :
    definitionFrom? name (commentsBelow passed).reverse (before ++ rest) =
      definitionFrom? name (commentsBelow (passed ++ before)).reverse rest := by
  induction before generalizing passed with
  | nil => rw [List.append_nil, List.nil_append]
  | cons line before ih =>
    obtain ⟨hline, hbefore⟩ := List.forall_mem_cons.mp h
    have hkept : (if isComment line then line :: (commentsBelow passed).reverse else []) =
        (commentsBelow (passed ++ [line])).reverse := by
      unfold commentsBelow
      rw [List.rtakeWhile_concat]
      split <;> simp
    rw [List.cons_append, definitionFrom?, if_neg (by simp [hline]), ← isComment, hkept, ih hbefore,
      List.append_assoc, List.singleton_append]

theorem definition?_eq_none_iff :
    definition? lines name = none ↔ ∀ line ∈ lines, defines name line = false := by
  unfold definition?
  generalize [] = comments
  induction lines generalizing comments with
  | nil => simp [definitionFrom?]
  | cons line rest ih =>
    rw [definitionFrom?, List.forall_mem_cons]
    cases hline : defines name line with
    | true => simp
    | false => simp [ih]

/-- The first definition starts with its comments. -/
theorem definition?_of_starts (hprecedes : Precedes name before)
    (hstarts : Starts name comments body) :
    definition? (before ++ (comments ++ body)) name =
      some (comments ++ (spanDefinition 0 body).1) := by
  obtain ⟨hcomment, head, hhead, hdefines⟩ := hstarts
  obtain ⟨inside, rfl⟩ := List.head?_eq_some_iff.mp hhead
  have hpassed : ∀ line ∈ before ++ comments, defines name line = false := by
    intro line hline
    rcases List.mem_append.mp hline with hline | hline
    · exact hprecedes.not_defines line hline
    · exact defines_of_comment (hcomment line hline)
  have hcomments := commentsBelow_append hprecedes.not_comment hcomment
  have hskip : definitionFrom? name [] (before ++ comments ++ head :: inside) =
      definitionFrom? name (commentsBelow (before ++ comments)).reverse (head :: inside) :=
    definitionFrom?_append hpassed []
  rw [definition?, ← List.append_assoc, hskip, hcomments, definitionFrom?, if_pos hdefines,
    List.reverse_reverse]

/-- The first line that defines a function, with the comments above it, is where its definition
starts. -/
theorem exists_starts (h : ∃ line ∈ lines, defines name line = true) :
    ∃ before comments body, lines = before ++ (comments ++ body) ∧ Precedes name before ∧
      Starts name comments body := by
  obtain ⟨head, hfind⟩ := Option.isSome_iff_exists.mp (List.find?_isSome.mpr h)
  obtain ⟨hdefines, front, inside, rfl, hfront⟩ := List.find?_eq_some_iff_append.mp hfind
  refine ⟨front.rdropWhile isComment, commentsBelow front, head :: inside, ?_, ⟨?_, ?_⟩,
    ⟨fun line hline => List.mem_rtakeWhile_imp hline, head, rfl, hdefines⟩⟩
  · rw [← List.append_assoc, commentsBelow, List.rdropWhile_append_rtakeWhile]
  · intro line hline
    simpa using hfront line ((List.rdropWhile_prefix _ _).mem hline)
  · intro line hline
    have hne : front.rdropWhile isComment ≠ [] := by
      intro hnil
      rw [hnil] at hline
      cases hline
    rw [List.getLast?_eq_some_getLast hne] at hline
    obtain rfl := Option.some.inj hline
    simpa using List.rdropWhile_last_not _ _ hne

/-- A definition is found below any lines that may stand above it, and above any lines. -/
theorem definition?_of_isDefinition (hprecedes : Precedes name before)
    (h : IsDefinition name lines) : definition? (before ++ lines ++ after) name = some lines := by
  obtain ⟨comments, body, rfl, hstarts, hclosed⟩ := h
  have hbelow : Starts name comments (body ++ after) :=
    (starts_append_iff hclosed.ne_nil).mpr hstarts
  rw [List.append_assoc, List.append_assoc, definition?_of_starts hprecedes hbelow,
    spanDefinition_append hclosed]

/-- A definition that is cut off is found below any lines that may stand above it. -/
theorem definition?_of_isCutOff (hprecedes : Precedes name before) (h : IsCutOff name lines) :
    definition? (before ++ lines) name = some lines := by
  obtain ⟨comments, body, rfl, hstarts, hopen⟩ := h
  rw [definition?_of_starts hprecedes hstarts, spanDefinition_of_isOpen hopen]

theorem precedes_nil : Precedes name [] :=
  ⟨nofun, nofun⟩

/-- What is found is a definition that stands in the text, the first one, or the first one is cut
off and it is the rest of the text. -/
theorem exists_of_definition? {block : Lines} (h : definition? lines name = some block) :
    ∃ before after, lines = before ++ block ++ after ∧ Precedes name before ∧
      (IsDefinition name block ∨ after = [] ∧ IsCutOff name block) := by
  have hsome : ∃ line ∈ lines, defines name line = true := by
    by_contra hnone
    have hmissing : definition? lines name = none := definition?_eq_none_iff.mpr fun line hline =>
      Bool.eq_false_iff.mpr fun hdefines => hnone ⟨line, hline, hdefines⟩
    rw [hmissing] at h
    cases h
  obtain ⟨before, comments, body, rfl, hprecedes, hstarts⟩ := exists_starts hsome
  have hfound := (definition?_of_starts hprecedes hstarts).symm.trans h
  rcases exists_isClosed_or_isOpen 0 body with ⟨body, after, rfl, hclosed⟩ | hopen
  · rw [spanDefinition_append hclosed] at hfound
    obtain rfl := Option.some.inj hfound
    exact ⟨before, after, by simp, hprecedes,
      .inl ⟨comments, body, rfl, (starts_append_iff hclosed.ne_nil).mp hstarts, hclosed⟩⟩
  · rw [spanDefinition_of_isOpen hopen] at hfound
    obtain rfl := Option.some.inj hfound
    exact ⟨before, [], by simp, hprecedes, .inr ⟨rfl, comments, body, rfl, hstarts, hopen⟩⟩

end Finding

/-- The first definition of a function is found exactly: with the comments directly above it and up
to the line that ends it, whatever else stands in the text. Nothing is found only if no line defines
the function. What is found is such a definition, or the rest of a text that is cut off, and it has
itself for the definition. -/
theorem definition?_exact (name : String) :
    (∀ before block after, Precedes name before → IsDefinition name block →
      definition? (before ++ block ++ after) name = some block) ∧
    ∀ lines, (definition? lines name = none ↔ ∀ line ∈ lines, defines name line = false) ∧
      ∀ block, definition? lines name = some block →
        (∃ before after, lines = before ++ block ++ after ∧ Precedes name before ∧
          (IsDefinition name block ∨ after = [] ∧ IsCutOff name block)) ∧
        definition? block name = some block := by
  refine ⟨fun before block after hprecedes hblock => definition?_of_isDefinition hprecedes hblock,
    fun lines => ⟨definition?_eq_none_iff, fun block hblock => ?_⟩⟩
  obtain ⟨before, after, hlines, hprecedes, hfound⟩ := exists_of_definition? hblock
  refine ⟨⟨before, after, hlines, hprecedes, hfound⟩, ?_⟩
  rcases hfound with hclosed | ⟨-, hcut⟩
  · have hself : definition? ([] ++ block ++ []) name = some block :=
      definition?_of_isDefinition precedes_nil hclosed
    simpa using hself
  · exact definition?_of_isCutOff precedes_nil hcut

/-- A function in a module that has others of similar names, and braces within a line. -/
theorem definition?_exact_between :
    definition? (["define i32 @ff() \x7b ret i32 0 \x7d", "", "; Function Attrs: nounwind",
      "define void @f(ptr %p) \x7b", "  call void @g(\x7b i8, i8 \x7d undef)", "\x7d",
      "define void @f() \x7b"]) "f" =
    some ["; Function Attrs: nounwind", "define void @f(ptr %p) \x7b",
      "  call void @g(\x7b i8, i8 \x7d undef)", "\x7d"] := by
  have hbody : IsClosed 0
      ["define void @f(ptr %p) \x7b", "  call void @g(\x7b i8, i8 \x7d undef)", "\x7d"] :=
    (isClosed_cons_of_not_closes (by decide)).mpr <|
      (isClosed_cons_of_not_closes (by decide)).mpr <|
      (isClosed_cons_of_closes (by decide)).mpr rfl
  refine (definition?_exact "f").1 ["define i32 @ff() \x7b ret i32 0 \x7d", ""] _
    ["define void @f() \x7b"] ⟨by decide, by decide⟩
    ⟨["; Function Attrs: nounwind"], _, rfl, ⟨by decide, ?_⟩, hbody⟩
  exact ⟨_, rfl, by decide⟩

end PassTrace.Ir

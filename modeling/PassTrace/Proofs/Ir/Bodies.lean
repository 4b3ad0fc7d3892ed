import PassTrace.Proofs.Ir.Definitions

/-!
# Where the definitions that are kept end

From the top on, a text has spans of lines that belong to a definition, and lines between them. By
the rule that finds the definition of a function, a span ends with the first line behind which its
braces are balanced, be it the line that it starts with. What is kept of a text are spans too, but
their first line is not looked at. The two rules have the same spans unless a definition on one line
has lines below it.
-/

namespace PassTrace.Ir

/-- Whether a line starts a definition that is kept. -/
def startsBody (line : String) : Bool :=
  Text.startsWith line "define "

/-- Lines that go on to the first one that ends a definition, where `depth` braces are open in front
of them. If no line does, they go on to the end of the text. -/
def IsSpan (depth : Int) (lines behind : Lines) : Prop :=
  IsClosed depth lines ∨ IsOpen depth lines ∧ behind = []

/-- Lines that go on to the first one below their head that ends a definition. -/
def IsSpanBelow (lines behind : Lines) : Prop :=
  ∃ head inside, lines = head :: inside ∧ IsSpan (braceBalance head) inside behind

/-- The spans of a text, which end as `ends` tells of a span and the lines behind it. No line
between them starts a definition. -/
inductive Spans (ends : Lines → Lines → Prop) : Lines → List Lines → Prop
  | nil : Spans ends [] []
  | between {line : String} {rest : Lines} {spans : List Lines} (hline : startsBody line = false)
    (hrest : Spans ends rest spans) : Spans ends (line :: rest) spans
  | span {head : String} {inside behind : Lines} {spans : List Lines}
    (hhead : startsBody head = true) (hends : ends (head :: inside) behind)
    (hbehind : Spans ends behind spans) :
    Spans ends (head :: (inside ++ behind)) ((head :: inside) :: spans)

/-- A definition that is not inside of another ends with the line that it starts with, and the text
goes on below. -/
def Overruns (lines : Lines) : Prop :=
  ∃ passed head below spans, lines = passed ++ head :: below ∧ below ≠ [] ∧
    Spans (fun span _ => IsClosed 0 span) passed spans ∧ startsBody head = true ∧
    closes head (braceBalance head) = true

variable {head line name : String} {depth : Int} {inside inside' behind behind' lines rest : Lines}
  {spans spans' : List Lines} {ends : Lines → Lines → Prop}

section Rules

theorem isSpan_nil : IsSpan depth [] behind ↔ behind = [] := by
  constructor
  · rintro (hclosed | ⟨-, hbehind⟩)
    · exact absurd rfl hclosed.ne_nil
    · exact hbehind
  · rintro rfl
    exact .inr ⟨fun n => by simp [EndsAt], rfl⟩

/-- A span whose first line ends a definition has no other line. -/
theorem isSpan_cons_of_closes (h : closes line (depth + braceBalance line) = true) :
    IsSpan depth (line :: inside) behind ↔ inside = [] := by
  rw [IsSpan, isClosed_cons_of_closes h, isOpen_cons]
  simp [h]

theorem isSpan_cons_of_not_closes (h : closes line (depth + braceBalance line) = false) :
    IsSpan depth (line :: inside) behind ↔ IsSpan (depth + braceBalance line) inside behind := by
  rw [IsSpan, IsSpan, isClosed_cons_of_not_closes h, isOpen_cons]
  simp [h]

/-- A definition that ends with its first line has no other line. -/
theorem isSpan_head_of_closes (h : closes head (braceBalance head) = true) :
    IsSpan 0 (head :: inside) behind ↔ inside = [] :=
  isSpan_cons_of_closes (by rwa [Int.zero_add])

theorem isSpan_head_of_not_closes (h : closes head (braceBalance head) = false) :
    IsSpan 0 (head :: inside) behind ↔ IsSpan (braceBalance head) inside behind := by
  rw [isSpan_cons_of_not_closes (by rwa [Int.zero_add]), Int.zero_add]

/-- Spans are what is cut off in search of the end of a definition. -/
theorem IsSpan.spanDefinition_eq (h : IsSpan depth inside behind) :
    spanDefinition depth (inside ++ behind) = (inside, behind) := by
  rcases h with hclosed | ⟨hopen, rfl⟩
  · exact spanDefinition_append hclosed
  · rw [List.append_nil]
    exact spanDefinition_of_isOpen hopen

/-- A text has one span at its start. -/
theorem exists_isSpan (depth : Int) (lines : Lines) :
    ∃ inside behind, lines = inside ++ behind ∧ IsSpan depth inside behind := by
  rcases exists_isClosed_or_isOpen depth lines with ⟨inside, behind, rfl, hclosed⟩ | hopen
  · exact ⟨inside, behind, rfl, .inl hclosed⟩
  · exact ⟨lines, [], by rw [List.append_nil], .inr ⟨hopen, rfl⟩⟩

theorem IsSpan.unique (h : IsSpan depth inside behind) (h' : IsSpan depth inside' behind')
    (heq : inside ++ behind = inside' ++ behind') : inside = inside' ∧ behind = behind' := by
  have hcut := h.spanDefinition_eq
  rw [heq, h'.spanDefinition_eq] at hcut
  obtain ⟨rfl, rfl⟩ := Prod.mk.inj hcut
  exact ⟨rfl, rfl⟩

/-- A span that starts with a line that defines a function is the definition that is found there. -/
theorem IsSpan.definition?_eq (hspan : IsSpan 0 (head :: inside) behind)
    (hdefines : defines name head = true) :
    definition? (head :: (inside ++ behind)) name = some (head :: inside) := by
  have hstarts : Starts name [] (head :: inside ++ behind) := ⟨nofun, head, rfl, hdefines⟩
  have hfound := definition?_of_starts precedes_nil hstarts
  rwa [hspan.spanDefinition_eq] at hfound

end Rules

section Spans

/-- A rule by which each text that starts a definition has one span at its start. -/
structure IsRule (ends : Lines → Lines → Prop) : Prop where
  exists_span : ∀ head rest, ∃ inside behind, rest = inside ++ behind ∧ ends (head :: inside) behind
  unique : ∀ {head inside behind inside' behind'}, ends (head :: inside) behind →
    ends (head :: inside') behind' → inside ++ behind = inside' ++ behind' →
      inside = inside' ∧ behind = behind'

theorem isSpanBelow_cons :
    IsSpanBelow (head :: inside) behind ↔ IsSpan (braceBalance head) inside behind := by
  constructor
  · rintro ⟨_, _, heq, h⟩
    obtain ⟨rfl, rfl⟩ := List.cons.inj heq
    exact h
  · exact fun h => ⟨head, inside, rfl, h⟩

theorem isRule_isSpan : IsRule (IsSpan 0) where
  exists_span := by
    intro head rest
    cases hcloses : closes head (braceBalance head) with
    | true => exact ⟨[], rest, rfl, (isSpan_head_of_closes hcloses).mpr rfl⟩
    | false =>
      obtain ⟨inside, behind, rfl, hspan⟩ := exists_isSpan (braceBalance head) rest
      exact ⟨inside, behind, rfl, (isSpan_head_of_not_closes hcloses).mpr hspan⟩
  unique := by
    intro head inside behind inside' behind' h h' heq
    have hsame := h.unique h' (congrArg (head :: ·) heq)
    exact ⟨(List.cons.inj hsame.1).2, hsame.2⟩

theorem isRule_isSpanBelow : IsRule IsSpanBelow where
  exists_span := by
    intro head rest
    obtain ⟨inside, behind, rfl, hspan⟩ := exists_isSpan (braceBalance head) rest
    exact ⟨inside, behind, rfl, isSpanBelow_cons.mpr hspan⟩
  unique := by
    intro head inside behind inside' behind' h h' heq
    exact (isSpanBelow_cons.mp h).unique (isSpanBelow_cons.mp h') heq

theorem spans_nil_iff : Spans ends [] spans ↔ spans = [] := by
  constructor
  · rintro ⟨⟩
    rfl
  · rintro rfl
    exact .nil

/-- A line that starts no definition is between the spans. -/
theorem spans_cons_iff_of_not_startsBody (h : startsBody line = false) :
    Spans ends (line :: rest) spans ↔ Spans ends rest spans := by
  constructor
  · intro hspans
    cases hspans with
    | between _ hrest => exact hrest
    | span hhead => simp [h] at hhead
  · exact .between h

/-- A line that starts a definition starts a span. -/
theorem spans_cons_iff_of_startsBody (h : startsBody head = true) :
    Spans ends (head :: rest) spans ↔ ∃ inside behind spans', rest = inside ++ behind ∧
      spans = (head :: inside) :: spans' ∧ ends (head :: inside) behind ∧
      Spans ends behind spans' := by
  constructor
  · intro hspans
    cases hspans with
    | between hline => simp [h] at hline
    | span _ hends hbehind => exact ⟨_, _, _, rfl, rfl, hends, hbehind⟩
  · rintro ⟨inside, behind, spans', rfl, rfl, hends, hbehind⟩
    exact .span h hends hbehind

/-- By a rule, a text has spans. -/
theorem IsRule.exists_spans (hrule : IsRule ends) (lines : Lines) :
    ∃ spans, Spans ends lines spans := by
  induction hlength : lines.length using Nat.strongRecOn generalizing lines with
  | _ n ih =>
    cases lines with
    | nil => exact ⟨[], .nil⟩
    | cons head rest =>
      cases hhead : startsBody head with
      | false =>
        obtain ⟨spans, hspans⟩ := ih rest.length (by simp [← hlength]) rest rfl
        exact ⟨spans, .between hhead hspans⟩
      | true =>
        obtain ⟨inside, behind, rfl, hends⟩ := hrule.exists_span head rest
        have hlt : behind.length < n := by
          rw [← hlength, List.length_cons, List.length_append]
          omega
        obtain ⟨spans, hspans⟩ := ih behind.length hlt behind rfl
        exact ⟨_, .span hhead hends hspans⟩

/-- By a rule, a text has its spans in one way only. -/
theorem IsRule.spans_unique (hrule : IsRule ends) (h : Spans ends lines spans)
    (h' : Spans ends lines spans') : spans' = spans := by
  induction h generalizing spans' with
  | nil => exact spans_nil_iff.mp h'
  | between hline _ ih => exact ih ((spans_cons_iff_of_not_startsBody hline).mp h')
  | span hhead hends _ ih =>
    obtain ⟨inside', behind', rest', heq, rfl, hends', hbehind'⟩ :=
      (spans_cons_iff_of_startsBody hhead).mp h'
    obtain ⟨rfl, rfl⟩ := hrule.unique hends hends' heq
    rw [ih hbehind']

/-- In a text, lines stand with others below them, where the definition of each function that their
first line defines is found to be these lines. -/
def IsFoundIn (span lines : Lines) : Prop :=
  ∃ above behind, lines = above ++ (span ++ behind) ∧
    ∀ name, (∃ head ∈ span.head?, defines name head = true) →
      definition? (span ++ behind) name = some span

/-- The spans by the rule that finds definitions are the definitions that are found at their
places. -/
theorem Spans.isFoundIn (h : Spans (IsSpan 0) lines spans) :
    ∀ span ∈ spans, IsFoundIn span lines := by
  induction h with
  | nil => simp
  | @between line rest spans _ _ ih =>
    intro span hmem
    obtain ⟨above, behind, rfl, hfound⟩ := ih span hmem
    exact ⟨line :: above, behind, rfl, hfound⟩
  | @span head inside behind spans _ hspan _ ih =>
    refine List.forall_mem_cons.mpr ⟨⟨[], behind, rfl, ?_⟩, ?_⟩
    · rintro name ⟨_, hhead, hdefines⟩
      obtain rfl := Option.some.inj hhead
      exact hspan.definition?_eq hdefines
    · intro span hmem
      obtain ⟨above, below, rfl, hfound⟩ := ih span hmem
      exact ⟨head :: (inside ++ above), below, by simp, hfound⟩

end Spans

section Kept

/-- Inside of a definition all lines are kept up to its end. -/
theorem IsSpan.bodiesFrom_eq (h : IsSpan depth inside behind) :
    bodiesFrom (some depth) (inside ++ behind) = inside ++ bodiesFrom none behind := by
  induction inside generalizing depth with
  | nil =>
    obtain rfl := isSpan_nil.mp h
    rfl
  | cons line inside ih =>
    simp only [List.cons_append, bodiesFrom]
    split
    · next hcloses =>
      obtain rfl := (isSpan_cons_of_closes hcloses).mp h
      rfl
    · next hcloses => rw [ih ((isSpan_cons_of_not_closes (by simpa using hcloses)).mp h)]

/-- What is kept of a text are its spans by the rule that does not look at their first line. -/
theorem bodiesFrom_none_eq (h : Spans IsSpanBelow lines spans) :
    bodiesFrom none lines = spans.flatten := by
  induction h with
  | nil => rfl
  | @between line rest spans hline _ ih =>
    rw [bodiesFrom, ← startsBody, hline, if_neg (by simp), ih]
  | @span head inside behind spans hhead hends _ ih =>
    rw [bodiesFrom, ← startsBody, hhead, if_pos rfl, (isSpanBelow_cons.mp hends).bodiesFrom_eq, ih,
      List.flatten_cons, List.cons_append]

end Kept

section Overrunning

theorem not_overruns_nil : ¬ Overruns [] := by
  rintro ⟨passed, head, below, -, heq, -⟩
  simp at heq

/-- A line between the spans does not matter. -/
theorem overruns_cons_iff_of_not_startsBody (h : startsBody line = false) :
    Overruns (line :: rest) ↔ Overruns rest := by
  constructor
  · rintro ⟨_ | ⟨first, passed⟩, head, below, spans, heq, hbelow, hpassed, hhead, hcloses⟩
    · obtain ⟨rfl, -⟩ := List.cons.inj heq
      simp [h] at hhead
    · obtain ⟨rfl, rfl⟩ := List.cons.inj heq
      exact ⟨passed, head, below, spans, rfl, hbelow,
        (spans_cons_iff_of_not_startsBody h).mp hpassed, hhead, hcloses⟩
  · rintro ⟨passed, head, below, spans, rfl, hbelow, hpassed, hhead, hcloses⟩
    exact ⟨line :: passed, head, below, spans, rfl, hbelow, .between h hpassed, hhead, hcloses⟩

/-- A text that starts with a span overruns at its first line or behind the span. -/
theorem overruns_span_iff (hstarts : startsBody line = true)
    (hspan : IsSpan 0 (line :: inside) behind) : Overruns (line :: (inside ++ behind)) ↔
      closes line (braceBalance line) = true ∧ behind ≠ [] ∨ Overruns behind := by
  constructor
  · rintro ⟨_ | ⟨first, passed⟩, head, below, spans, heq, hbelow, hpassed, hhead, hcloses⟩
    · obtain ⟨rfl, rfl⟩ := List.cons.inj heq
      obtain rfl := (isSpan_head_of_closes hcloses).mp hspan
      exact .inl ⟨hcloses, hbelow⟩
    · obtain ⟨rfl, hrest⟩ := List.cons.inj heq
      obtain ⟨inside', between, spans', rfl, -, hclosed, hbetween⟩ :=
        (spans_cons_iff_of_startsBody hstarts).mp hpassed
      have hsame : inside ++ behind = inside' ++ (between ++ head :: below) :=
        hrest.trans (List.append_assoc ..)
      obtain ⟨-, rfl⟩ := isRule_isSpan.unique hspan (.inl hclosed) hsame
      exact .inr ⟨between, head, below, spans', rfl, hbelow, hbetween, hhead, hcloses⟩
  · rintro (⟨hcloses, hbehind⟩ | ⟨passed, head, below, spans, rfl, hbelow, hpassed, hhead, hcloses⟩)
    · obtain rfl := (isSpan_head_of_closes hcloses).mp hspan
      exact ⟨[], line, behind, [], rfl, hbehind, .nil, hstarts, hcloses⟩
    · rcases hspan with hclosed | ⟨-, hnil⟩
      · exact ⟨line :: (inside ++ passed), head, below, _, by simp, hbelow,
          .span hstarts hclosed hpassed, hhead, hcloses⟩
      · simp at hnil

/-- The spans of a definition's rule are those that are kept unless the text overruns. -/
theorem spans_isSpanBelow_iff (h : Spans (IsSpan 0) lines spans) :
    Spans IsSpanBelow lines spans ↔ ¬ Overruns lines := by
  induction h with
  | nil => exact iff_of_true .nil not_overruns_nil
  | between hline _ ih =>
    rw [spans_cons_iff_of_not_startsBody hline, overruns_cons_iff_of_not_startsBody hline, ih]
  | @span head inside behind spans hhead hspan _ ih =>
    -- Both rules count the head's braces, but only one may end there.
    have hkept : IsSpanBelow (head :: inside) behind ↔
        ¬ (closes head (braceBalance head) = true ∧ behind ≠ []) := by
      rw [isSpanBelow_cons]
      cases hcloses : closes head (braceBalance head) with
      | true =>
        obtain rfl := (isSpan_head_of_closes hcloses).mp hspan
        rw [isSpan_nil]
        simp
      | false =>
        simp [(isSpan_head_of_not_closes hcloses).mp hspan]
    rw [overruns_span_iff hhead hspan, not_or, ← hkept, ← ih, spans_cons_iff_of_startsBody hhead]
    constructor
    · rintro ⟨inside', behind', spans', heq, hsame, hends, hbehind⟩
      obtain ⟨hspan', rfl⟩ := List.cons.inj hsame
      obtain ⟨-, rfl⟩ := List.cons.inj hspan'
      obtain rfl := List.append_cancel_left heq
      exact ⟨hends, hbehind⟩
    · rintro ⟨hends, hbehind⟩
      exact ⟨inside, behind, spans, rfl, rfl, hends, hbehind⟩

end Overrunning

/-- A text has spans by the rule that finds definitions, and spans by the rule that does not look at
their first line, each in one way only. What is kept are the latter, one below the other. They are
the former unless a definition on one line, not inside of another, has lines below it. -/
theorem bodies_spans (lines : Lines) : ∃ spans kept : List Lines,
    (∀ other, Spans (IsSpan 0) lines other ↔ other = spans) ∧
    (∀ span ∈ spans, IsFoundIn span lines) ∧
    (∀ other, Spans IsSpanBelow lines other ↔ other = kept) ∧
    bodies lines = kept.flatten ∧ (kept = spans ↔ ¬ Overruns lines) := by
  obtain ⟨spans, hspans⟩ := isRule_isSpan.exists_spans lines
  obtain ⟨kept, hkept⟩ := isRule_isSpanBelow.exists_spans lines
  have hspans_iff (other : List Lines) : Spans (IsSpan 0) lines other ↔ other = spans :=
    ⟨isRule_isSpan.spans_unique hspans, fun heq => heq ▸ hspans⟩
  have hkept_iff (other : List Lines) : Spans IsSpanBelow lines other ↔ other = kept :=
    ⟨isRule_isSpanBelow.spans_unique hkept, fun heq => heq ▸ hkept⟩
  refine ⟨spans, kept, hspans_iff, hspans.isFoundIn, hkept_iff, bodiesFrom_none_eq hkept, ?_⟩
  rw [← spans_isSpanBelow_iff hspans, hkept_iff, eq_comm]

/-- Below a definition on one line a declaration is kept, although no definition spans it. -/
theorem bodies_oneLine :
    Spans (IsSpan 0) ["define void @f() \x7b ret void \x7d", "declare void @g()"]
      [["define void @f() \x7b ret void \x7d"]] ∧
    bodies ["define void @f() \x7b ret void \x7d", "declare void @g()"] =
      ["define void @f() \x7b ret void \x7d", "declare void @g()"] := by
  have hspan : IsSpan 0 ["define void @f() \x7b ret void \x7d"] ["declare void @g()"] :=
    (isSpan_head_of_closes (by decide)).mpr rfl
  exact ⟨.span (by decide) hspan (.between (by decide) .nil), by decide⟩

end PassTrace.Ir

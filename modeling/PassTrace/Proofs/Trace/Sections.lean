import Mathlib.Algebra.GroupWithZero.Nat
import PassTrace.Trace.Parser

/-!
# The sections of a trace

A trace is declared as its sections: each header with the lines below it, up to the
next header or the end. The reader goes over the lines once and closes a section
late, when the next header comes or the lines end. What it has when it is done is
what the sections say.
-/

namespace PassTrace.Trace

/-- The header that a line is, if it is one. -/
def header? (line : String) : Option Header :=
  match classify line with
  | .header h => some h
  | _ => none

/-- Whether a line is a marker that is not understood. -/
def isAnomaly (line : String) : Bool :=
  (header? line).isNone && (markerText? line.toList).isSome

/-- A header with the lines below it. -/
structure Section where
  header : Header
  body : Lines

/-- The lines in front of the first header. -/
def preamble (lines : Lines) : Lines :=
  lines.takeWhile fun line => (header? line).isNone

/-- The sections of a trace, in order. -/
def sections : Lines → List Section
  | [] => []
  | line :: rest =>
    match header? line with
    | some h => ⟨h, preamble rest⟩ :: sections rest
    | none => sections rest

/-- The sections whose headers announce dumps of one moment. -/
def sectionsAt (moment : Moment) (all : List Section) : List Section :=
  all.filter fun s => s.header.moment = moment

/-- The text in the last section at the start, or a given one if there is none. -/
def initialIn (given : Lines) (all : List Section) : Lines :=
  ((sectionsAt .start all).getLast?.map Section.body).getD given

/-- The lines in the sections before passes. -/
def linesBefore (all : List Section) : Nat :=
  ((sectionsAt .before all).map fun s => s.body.length).sum

/-- The pass that a section behind it describes, if the dump at `last` is the last one in front of
it. -/
def Section.pass (s : Section) (last : Nat) : Pass where
  name := s.header.pass
  scope := s.header.scope
  changed := !s.header.omitted
  reference := if s.header.omitted then .sameAs last else .inline s.body

/-- The last dump behind a section, with `count` passes in front of it and the last dump there at
`last`. -/
def Section.lastDump (s : Section) (count last : Nat) : Nat :=
  if s.header.omitted then last else count + 1

/-- The passes that sections behind them describe, where `count` passes come in front of them and
the last dump is at `last`. -/
def passesIn (count last : Nat) : List Section → List Pass
  | [] => []
  | s :: rest => s.pass last :: passesIn (count + 1) (s.lastDump count last) rest

/-- The last dump behind several sections. -/
def lastDumpIn (count last : Nat) : List Section → Nat
  | [] => last
  | s :: rest => lastDumpIn (count + 1) (s.lastDump count last) rest

/-- Each section behind a pass describes one. -/
@[simp] theorem length_passesIn (count last : Nat) (all : List Section) :
    (passesIn count last all).length = all.length := by
  induction all generalizing count last with
  | nil => rfl
  | cons s rest ih => simp [passesIn, ih]

/-- Sections that follow others count on from them. -/
theorem passesIn_append (count last : Nat) (front rest : List Section) :
    passesIn count last (front ++ rest) = passesIn count last front ++
      passesIn (count + front.length) (lastDumpIn count last front) rest := by
  induction front generalizing count last with
  | nil => rfl
  | cons s front ih =>
    rw [List.cons_append, passesIn, ih, List.length_cons, Nat.add_comm front.length 1,
      ← Nat.add_assoc]
    rfl

/-- The last dump behind sections that follow others. -/
theorem lastDumpIn_append (count last : Nat) (front rest : List Section) :
    lastDumpIn count last (front ++ rest) =
      lastDumpIn (count + front.length) (lastDumpIn count last front) rest := by
  induction front generalizing count last with
  | nil => rfl
  | cons s front ih =>
    rw [List.cons_append, lastDumpIn, ih, List.length_cons, Nat.add_comm front.length 1,
      ← Nat.add_assoc]
    rfl

/-- The sections of a moment are chosen one by one. -/
theorem sectionsAt_append (moment : Moment) (front rest : List Section) :
    sectionsAt moment (front ++ rest) = sectionsAt moment front ++ sectionsAt moment rest :=
  List.filter_append ..

/-- A later section at the start replaces an earlier one. -/
theorem initialIn_append (given : Lines) (front rest : List Section) :
    initialIn given (front ++ rest) = initialIn (initialIn given front) rest := by
  unfold initialIn
  rw [sectionsAt_append, List.getLast?_append]
  cases (sectionsAt .start rest).getLast? <;> rfl

/-- The lines in sections before passes add up. -/
theorem linesBefore_append (front rest : List Section) :
    linesBefore (front ++ rest) = linesBefore front + linesBefore rest := by
  simp [linesBefore, sectionsAt_append]

/-- A line that is no header is text, or an anomaly if it is a marker. -/
theorem classify_of_header?_eq_none {line : String} (h : header? line = none) :
    (classify line = .text ∧ isAnomaly line = false) ∨
      (classify line = .anomaly ∧ isAnomaly line = true) := by
  unfold isAnomaly
  rw [h]
  unfold header? at h
  unfold classify at h ⊢
  cases hmarker : markerText? line.toList with
  | none => exact Or.inl ⟨rfl, rfl⟩
  | some text =>
    cases hheader : headerOf? line text with
    | none => exact Or.inr ⟨by simp [hheader], rfl⟩
    | some h' => simp [hmarker, hheader] at h

/-- A line with a header is classified by it, and is no anomaly. -/
theorem classify_of_header?_eq_some {line : String} {h : Header} (hline : header? line = some h) :
    classify line = .header h ∧ isAnomaly line = false := by
  refine ⟨?_, by simp [isAnomaly, hline]⟩
  unfold header? at hline
  split at hline
  · next h' hclass =>
    rw [hclass, Option.some.inj hline]
  · cases hline

/-- The lines in front of a header are none. -/
theorem preamble_header {line : String} {h : Header} (hline : header? line = some h)
    (rest : Lines) : preamble (line :: rest) = [] := by
  simp [preamble, hline]

/-- A line in front of the first header comes first there. -/
theorem preamble_text {line : String} (hline : header? line = none) (rest : Lines) :
    preamble (line :: rest) = line :: preamble rest := by
  simp [preamble, hline]

namespace Scan

/-- The sections that a scan has not closed when more lines follow. -/
def sectionsWith (s : Scan) (lines : Lines) : List Section :=
  match s.header with
  | some h => ⟨h, s.body.reverse ++ preamble lines⟩ :: sections lines
  | none => sections lines

/-- The lines without a header that a scan has not discarded when more lines follow. -/
def unownedWith (s : Scan) (lines : Lines) : Lines :=
  match s.header with
  | some _ => []
  | none => s.body.reverse ++ preamble lines

/-- What closing a scan behind more lines comes to, told by the sections that it has not closed
yet. -/
structure Outcome (s : Scan) (more : Lines) (e : Scan) : Prop where
  initial : e.initial = initialIn s.initial (s.sectionsWith more)
  passes : e.passes.reverse = s.passes.reverse ++
    passesIn s.passes.length s.lastDumped (sectionsAt .after (s.sectionsWith more))
  lastDumped : e.lastDumped =
    lastDumpIn s.passes.length s.lastDumped (sectionsAt .after (s.sectionsWith more))
  lines : e.tally.lines = s.tally.lines + more.length
  headers : e.tally.headers = s.tally.headers + (sections more).length
  beforeHeaders : e.tally.beforeHeaders =
    s.tally.beforeHeaders + (sectionsAt .before (sections more)).length
  anomalies : e.tally.anomalies = s.tally.anomalies + more.countP isAnomaly
  discardedLines : e.tally.discardedLines = s.tally.discardedLines +
    (s.unownedWith more).length + linesBefore (s.sectionsWith more)

/-- A line that is no header goes to the body. -/
theorem step_text {s : Scan} {line : String} (hline : header? line = none) :
    s.step line = { s with
      body := line :: s.body
      tally := { s.tally with
        lines := s.tally.lines + 1
        anomalies := s.tally.anomalies + if isAnomaly line then 1 else 0 } } := by
  unfold step
  rcases classify_of_header?_eq_none hline with ⟨hclass, hmarker⟩ | ⟨hclass, hmarker⟩
  · simp [hclass, hmarker]
  · simp [hclass, hmarker]

/-- A header closes the section before it and begins one of its own. -/
theorem step_header {s : Scan} {line : String} {h : Header} (hline : header? line = some h) :
    s.step line = { s.close with
      header := some h
      tally := { s.close.tally with
        lines := s.close.tally.lines + 1
        headers := s.close.tally.headers + 1
        beforeHeaders := s.close.tally.beforeHeaders + if h.moment = .before then 1 else 0 } } := by
  unfold step
  rw [(classify_of_header?_eq_some hline).1]
  rcases s with ⟨initial, passes, lastDumped, header, body, tally⟩
  cases header with
  | none => rfl
  | some h₀ =>
    rcases h₀ with ⟨moment, pass, scope, omitted, line₀⟩
    cases moment <;> rfl

/-- Closing a scan leaves no lines under way. -/
theorem body_close (s : Scan) : s.close.body = [] := by
  rcases s with ⟨initial, passes, lastDumped, header, body, tally⟩
  cases header with
  | none => rfl
  | some h =>
    rcases h with ⟨moment, pass, scope, omitted, line⟩
    cases moment <;> rfl

/-- A header ends the section under way. -/
theorem sectionsWith_header {line : String} {h : Header} (hline : header? line = some h) (s : Scan)
    (rest : Lines) :
    s.sectionsWith (line :: rest) = s.sectionsWith [] ++ sections (line :: rest) := by
  unfold sectionsWith
  rw [preamble_header hline]
  cases s.header <;> simp [preamble, sections]

theorem unownedWith_header {line : String} {h : Header} (hline : header? line = some h) (s : Scan)
    (rest : Lines) : s.unownedWith (line :: rest) = s.unownedWith [] := by
  unfold unownedWith
  rw [preamble_header hline]
  rfl

/-- The section of a header is under way behind it. -/
theorem sections_header {line : String} {h : Header} (hline : header? line = some h) (s : Scan)
    (rest : Lines) : sections (line :: rest) = (s.step line).sectionsWith rest := by
  simp [step_header hline, sectionsWith, sections, hline, s.body_close]

/-- Closing a scan at the end of the lines. -/
theorem outcome_close (s : Scan) : s.Outcome [] s.close := by
  rcases s with ⟨initial, passes, lastDumped, header, body, tally⟩
  cases header with
  | none =>
    constructor <;>
      simp [close, close.discard, sectionsWith, unownedWith, initialIn, passesIn, lastDumpIn,
        linesBefore, sectionsAt, sections, preamble]
  | some h =>
    rcases h with ⟨moment, pass, scope, omitted, line⟩
    cases moment <;> constructor <;>
      simp [close, close.discard, sectionsWith, unownedWith, initialIn, passesIn, lastDumpIn,
        linesBefore, sectionsAt, sections, preamble, passOf, Section.pass, Section.lastDump]

/-- Whatever a scan comes to behind a line that is no header, it comes to from that line on. -/
theorem Outcome.of_text {s e : Scan} {line : String} {rest : Lines}
    (hline : header? line = none) (h : (s.step line).Outcome rest e) :
    s.Outcome (line :: rest) e := by
  have hsections : s.sectionsWith (line :: rest) = (s.step line).sectionsWith rest := by
    simp [step_text hline, sectionsWith, sections, preamble_text hline, hline]
  have hunowned : s.unownedWith (line :: rest) = (s.step line).unownedWith rest := by
    simp [step_text hline, unownedWith, preamble_text hline]
  have hrest : sections (line :: rest) = sections rest := by
    simp [sections, hline]
  constructor
  · rw [h.initial, hsections, step_text hline]
  · rw [h.passes, hsections, step_text hline]
  · rw [h.lastDumped, hsections, step_text hline]
  · have htally : (s.step line).tally.lines = s.tally.lines + 1 := by rw [step_text hline]
    rw [h.lines, htally, List.length_cons]
    omega
  · rw [h.headers, hrest, step_text hline]
  · rw [h.beforeHeaders, hrest, step_text hline]
  · have htally : (s.step line).tally.anomalies =
        s.tally.anomalies + if isAnomaly line then 1 else 0 := by rw [step_text hline]
    rw [h.anomalies, htally, List.countP_cons]
    omega
  · rw [h.discardedLines, hsections, hunowned, step_text hline]

/-- Whatever a scan comes to behind a header, it comes to from that header on: closing the section
under way is the first part of it. -/
theorem Outcome.of_header {s e : Scan} {line : String} {rest : Lines} {header : Header}
    (hline : header? line = some header) (h : (s.step line).Outcome rest e) :
    s.Outcome (line :: rest) e := by
  have hclose := s.outcome_close
  have hrest := sections_header hline s rest
  have hsections := sectionsWith_header hline s rest
  have hnone : (s.step line).unownedWith rest = [] := by
    rw [step_header hline]
    rfl
  -- The section that is closed counts before the one that the header begins.
  have hcount : s.close.passes.length =
      s.passes.length + (sectionsAt .after (s.sectionsWith [])).length := by
    have hlength := congrArg List.length hclose.passes
    simpa using hlength
  constructor
  · rw [h.initial, hsections, hrest, initialIn_append, ← hclose.initial, step_header hline]
  · rw [h.passes, hsections, hrest, sectionsAt_append, passesIn_append, ← hclose.lastDumped,
      ← hcount, ← List.append_assoc, ← hclose.passes, step_header hline]
  · rw [h.lastDumped, hsections, hrest, sectionsAt_append, lastDumpIn_append, ← hclose.lastDumped,
      ← hcount, step_header hline]
  · have hlines := hclose.lines
    rw [h.lines, step_header hline, List.length_cons]
    simp only [List.length_nil] at hlines ⊢
    omega
  · have hheaders := hclose.headers
    rw [h.headers, step_header hline]
    simp only [sections, hline, List.length_nil, List.length_cons] at hheaders ⊢
    omega
  · have hbefore := hclose.beforeHeaders
    rw [h.beforeHeaders, step_header hline]
    simp only [sections, hline, sectionsAt, List.filter_nil, List.length_nil, List.filter_cons]
      at hbefore ⊢
    cases header.moment <;> simp <;> omega
  · have hanomalies := hclose.anomalies
    rw [h.anomalies, step_header hline, List.countP_cons, (classify_of_header?_eq_some hline).2]
    simp only [List.countP_nil] at hanomalies ⊢
    simp
    omega
  · have hdiscarded := hclose.discardedLines
    rw [h.discardedLines, hnone, hsections, unownedWith_header hline, hrest, linesBefore_append]
    have htally : (s.step line).tally.discardedLines = s.close.tally.discardedLines := by
      rw [step_header hline]
    rw [htally, hdiscarded, List.length_nil]
    omega

/-- What a scan comes to behind any lines. -/
theorem outcome_foldl (s : Scan) (more : Lines) : s.Outcome more (more.foldl step s).close := by
  induction more generalizing s with
  | nil => exact s.outcome_close
  | cons line rest ih =>
    cases hline : header? line with
    | none => exact (ih (s.step line)).of_text hline
    | some header => exact (ih (s.step line)).of_header hline

end Scan
end PassTrace.Trace

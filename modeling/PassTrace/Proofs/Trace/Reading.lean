import PassTrace.Proofs.Trace.Sections

/-!
# The declarative reading of a trace

A trace means the pipeline that its sections describe one by one: each section behind
a pass is one pass, and an omitted dump refers to the last one that was not. The
single pass of the reader over the lines computes this pipeline, with the counts of
what it met.
-/

namespace PassTrace.Trace

/-- Pass `j` is the last of the first `k` passes with a dump, or zero if all of their dumps are
omitted. Passes count from one. -/
structure IsLastDump (dumps : List Section) (k j : Nat) : Prop where
  le : j ≤ k
  dumped : j = 0 ∨ ∃ s, dumps[j - 1]? = some s ∧ s.header.omitted = false
  omitted : ∀ {i s}, j ≤ i → i < k → dumps[i]? = some s → s.header.omitted = true

/-- A pass is the one that a section behind it describes, at place `k` among the sections behind
passes. -/
structure Describes (dumps : List Section) (k : Nat) (s : Section) (p : Pass) : Prop where
  name : p.name = s.header.pass
  scope : p.scope = s.header.scope
  dumped : s.header.omitted = false → p.changed = true ∧ p.reference = .inline s.body
  omitted : s.header.omitted = true → p.changed = false ∧
    ∃ j : Nat, p.reference = .sameAs j ∧ IsLastDump dumps k j
  bare : p.change = none ∧ p.counts = none ∧ p.remarks = none

/-- A pipeline and a tally are what the lines of a trace mean. -/
structure Reading (trace : Lines) (p : Pipeline) (t : Tally) : Prop where
  initial : p.initial = initialIn [] (sections trace)
  size : p.passes.length = (sectionsAt .after (sections trace)).length
  passes : ∀ {k s}, (sectionsAt .after (sections trace))[k]? = some s →
    ∃ pass, p.passes[k]? = some pass ∧
      Describes (sectionsAt .after (sections trace)) k s pass
  lines : t.lines = trace.length
  headers : t.headers = trace.countP fun line => (header? line).isSome
  beforeHeaders : t.beforeHeaders = (sectionsAt .before (sections trace)).length
  anomalies : t.anomalies = trace.countP isAnomaly
  discardedLines : t.discardedLines = (preamble trace).length + linesBefore (sections trace)

/-- The passes that sections describe, one by one: each refers to the last dump behind those in
front of it. -/
theorem passesIn_getElem? (count last : Nat) (all : List Section) (k : Nat) :
    (passesIn count last all)[k]? =
      all[k]?.map fun s => s.pass (lastDumpIn count last (all.take k)) := by
  induction all generalizing count last k with
  | nil => rfl
  | cons s rest ih =>
    cases k with
    | zero => rfl
    | succ k => simp [passesIn, lastDumpIn, ih]

/-- The last dump behind the first `k` sections. -/
theorem lastDumpIn_take (all : List Section) {k : Nat} (hk : k ≤ all.length) :
    IsLastDump all k (lastDumpIn 0 0 (all.take k)) := by
  induction k with
  | zero => exact ⟨Nat.le_refl _, Or.inl rfl, fun _ h => absurd h (Nat.not_lt_zero _)⟩
  | succ k ih =>
    have hlast := ih (by omega)
    have hlt : k < all.length := by omega
    have hget : all[k]? = some all[k] := List.getElem?_eq_getElem hlt
    rw [List.take_add_one, hget, lastDumpIn_append, List.length_take, Nat.min_eq_left (by omega),
      Nat.zero_add]
    show IsLastDump all (k + 1) (all[k].lastDump k (lastDumpIn 0 0 (all.take k)))
    unfold Section.lastDump
    split
    · next homitted =>
      refine ⟨Nat.le_succ_of_le hlast.le, hlast.dumped, ?_⟩
      intro i s hi hik hs
      by_cases hik' : i < k
      · exact hlast.omitted hi hik' hs
      · obtain rfl : i = k := by omega
        rw [hget] at hs
        rwa [← Option.some.inj hs]
    · next hdumped =>
      refine ⟨Nat.le_refl _, Or.inr ⟨all[k], hget, by simpa using hdumped⟩, ?_⟩
      intro i s hi hik
      omega

/-- There are as many sections as headers. -/
theorem length_sections (lines : Lines) :
    (sections lines).length = lines.countP fun line => (header? line).isSome := by
  induction lines with
  | nil => rfl
  | cons line rest ih => cases hline : header? line <;> simp [sections, hline, ih]

/-- A section describes the pass that is made of it. -/
theorem Section.pass_describes {dumps : List Section} {k last : Nat} (s : Section)
    (hlast : IsLastDump dumps k last) : Describes dumps k s (s.pass last) where
  name := rfl
  scope := rfl
  dumped := by
    intro h
    simp [Section.pass, h]
  omitted := by
    intro h
    exact ⟨by simp [Section.pass, h], last, by simp [Section.pass, h], hlast⟩
  bare := ⟨rfl, rfl, rfl⟩

/-- The reader computes the declarative reading of every list of lines. -/
theorem readLines_reading (lines : Lines) :
    Reading lines (readLines lines).1 (readLines lines).2 := by
  have h := Scan.outcome_foldl {} lines
  have hsections : Scan.sectionsWith {} lines = sections lines := rfl
  have hpasses : (readLines lines).1.passes = passesIn 0 0 (sectionsAt .after (sections lines)) :=
    h.passes
  constructor
  · exact h.initial
  · rw [hpasses, length_passesIn]
  · intro k s hs
    have hk : k < (sectionsAt .after (sections lines)).length := by
      obtain ⟨hlt, _⟩ := List.getElem?_eq_some_iff.mp hs
      exact hlt
    refine ⟨_, ?_, s.pass_describes (lastDumpIn_take _ (Nat.le_of_lt hk))⟩
    rw [hpasses, passesIn_getElem?, hs]
    rfl
  · have hlines := h.lines
    rwa [Nat.zero_add] at hlines
  · rw [← length_sections]
    have hheaders := h.headers
    rwa [Nat.zero_add] at hheaders
  · have hbefore := h.beforeHeaders
    rwa [Nat.zero_add] at hbefore
  · have hanomalies := h.anomalies
    rwa [Nat.zero_add] at hanomalies
  · have hdiscarded := h.discardedLines
    rwa [hsections, Nat.zero_add] at hdiscarded

/-- The text of a trace is read as its lines mean, whatever they are. -/
theorem read_reading (text : String) :
    Reading (Text.lines text) (read text).1 (read text).2 :=
  readLines_reading (Text.lines text)

end PassTrace.Trace

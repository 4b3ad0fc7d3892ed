import PassTrace.Proofs.Snapshot.Continuity
import PassTrace.Proofs.Trace.Reading

/-!
# The timeline of a trace

A pass whose dump is omitted refers to the last dump, and so do all passes since then. In what is
read of a trace the text before a pass is thus always the text after the pass before it, and a pass
that changed nothing shows no change.
-/

namespace PassTrace.Trace

variable {dumps : List Section} {k : Nat}

/-- There is one last dump. -/
theorem IsLastDump.unique {i j : Nat} (hi : IsLastDump dumps k i) (hj : IsLastDump dumps k j) :
    i = j := by
  have hle {i j : Nat} (hi : IsLastDump dumps k i) (hj : IsLastDump dumps k j) : j ≤ i := by
    refine Nat.le_of_not_lt fun hlt => ?_
    rcases hj.dumped with rfl | ⟨s, hs, hdumped⟩
    · omega
    · have hjk := hj.le
      rw [hi.omitted (by omega) (by omega) hs] at hdumped
      cases hdumped
  exact Nat.le_antisymm (hle hj hi) (hle hi hj)

/-- A dump that is there is the last one. -/
theorem IsLastDump.eq_of_dumped {j : Nat} {s : Section} (hj : IsLastDump dumps (k + 1) j)
    (hs : dumps[k]? = some s) (hdumped : s.header.omitted = false) : j = k + 1 := by
  have hle := hj.le
  refine Nat.le_antisymm hle (Nat.le_of_not_lt fun hlt => ?_)
  rw [hj.omitted (by omega) (by omega) hs] at hdumped
  cases hdumped

/-- Behind a dump that is omitted the last one is that in front of it. -/
theorem IsLastDump.of_omitted {j : Nat} {s : Section} (hj : IsLastDump dumps (k + 1) j)
    (hs : dumps[k]? = some s) (homitted : s.header.omitted = true) : IsLastDump dumps k j := by
  have hle := hj.le
  refine ⟨?_, hj.dumped, fun hji hik => hj.omitted hji (by omega)⟩
  refine Nat.le_of_not_lt fun hlt => ?_
  obtain rfl : j = k + 1 := by omega
  rcases hj.dumped with hzero | ⟨s', hs', hdumped⟩
  · omega
  · rw [Nat.add_sub_cancel, hs] at hs'
    obtain rfl := Option.some.inj hs'
    rw [homitted] at hdumped
    cases hdumped

variable {trace : Lines} {p : Pipeline} {t : Tally}

/-- The section that describes a pass. -/
theorem Reading.describes (h : Reading trace p t) {pass : Pass} (hpass : p.passes[k]? = some pass) :
    ∃ s, (sectionsAt .after (sections trace))[k]? = some s ∧
      Describes (sectionsAt .after (sections trace)) k s pass := by
  obtain ⟨hlt, -⟩ := List.getElem?_eq_some_iff.1 hpass
  rw [h.size] at hlt
  have hs := List.getElem?_eq_getElem hlt
  obtain ⟨pass', hpass', hdescribes⟩ := h.passes hs
  obtain rfl : pass' = pass := Option.some.inj (hpass'.symm.trans hpass)
  exact ⟨_, hs, hdescribes⟩

/-- References in what is read of a trace lead backwards. -/
theorem Reading.isBackward (h : Reading trace p t) : p.IsBackward := by
  intro k pass target hpass hreference
  obtain ⟨s, -, hdescribes⟩ := h.describes hpass
  cases homitted : s.header.omitted with
  | false =>
    rw [(hdescribes.dumped homitted).2] at hreference
    cases hreference
  | true =>
    obtain ⟨-, j, hj, hlast⟩ := hdescribes.omitted homitted
    rw [hj] at hreference
    obtain rfl := Reference.sameAs.inj hreference
    have hle := hlast.le
    omega

/-- A pass with an omitted dump means what the last dump means. -/
theorem Describes.meaning_succ {pass : Pass} {s : Section} {j : Nat}
    (hdescribes : Describes dumps k s pass) (hpass : p.passes[k]? = some pass)
    (homitted : s.header.omitted = true) (hlast : IsLastDump dumps k j) :
    p.meaning (k + 1) = p.meaning j := by
  obtain ⟨-, j', hreference, hlast'⟩ := hdescribes.omitted homitted
  obtain rfl := hlast.unique hlast'
  have hle := hlast.le
  rw [Pipeline.meaning_succ, hpass, Option.map_some, hreference]
  dsimp only
  rw [if_pos (by omega), Int.toNat_natCast]

/-- Every index means what the last dump up to it means. -/
theorem Reading.meaning_eq (h : Reading trace p t) {j : Nat} (hk : k ≤ p.size)
    (hlast : IsLastDump (sectionsAt .after (sections trace)) k j) : p.meaning k = p.meaning j := by
  cases k with
  | zero =>
    have hle := hlast.le
    obtain rfl : j = 0 := by omega
    rfl
  | succ k =>
    have hpass : p.passes[k]? = some p.passes[k] := List.getElem?_eq_getElem hk
    obtain ⟨s, hs, hdescribes⟩ := h.describes hpass
    cases homitted : s.header.omitted with
    | false => rw [hlast.eq_of_dumped hs homitted]
    | true =>
      exact hdescribes.meaning_succ hpass homitted (hlast.of_omitted hs homitted)

/-- An unchanged pass in what is read of a trace left the text as it was. -/
theorem Reading.isContinuous (h : Reading trace p t) : p.IsContinuous := by
  intro k pass hpass hchanged
  obtain ⟨hk, -⟩ := List.getElem?_eq_some_iff.1 hpass
  obtain ⟨s, -, hdescribes⟩ := h.describes hpass
  cases homitted : s.header.omitted with
  | false =>
    rw [(hdescribes.dumped homitted).1] at hchanged
    cases hchanged
  | true =>
    obtain ⟨-, j, -, hlast⟩ := hdescribes.omitted homitted
    rw [hdescribes.meaning_succ hpass homitted hlast]
    exact (h.meaning_eq (Nat.le_of_lt hk) hlast).symm

/-- Whatever was asked of it before, a resolver that looks at what was read of a trace yields texts
that follow on from each other, and views of them show the changes of their texts. -/
theorem read_continuous (text : String) {r : Resolver} (hr : r.Serves (read text).1) :
    r.Continuous := by
  have hreading := readLines_reading (Text.lines text)
  have hpipeline : r.pipeline = (readLines (Text.lines text)).1 := hr.1
  refine hr.faithful.continuous ?_ ?_
  · rw [hpipeline]
    exact hreading.isBackward
  · rw [hpipeline]
    exact hreading.isContinuous

/-- A trace in which a dump is omitted, behind a dump before the pass. -/
def omittingTrace : String :=
  "*** IR Dump After A on f ***\nret void\n" ++
    "*** IR Dump Before B on f ***\nret\n" ++
    "*** IR Dump After B on f omitted because no change ***\n"

/-- In a trace with an omitted dump the texts follow on from each other, also for a resolver that
was asked for one before. -/
theorem read_continuous_omitting :
    (read omittingTrace).1.passes.map (·.changed) = [true, false] ∧
      ((Resolver.new (read omittingTrace).1).call (.resolve 2)).2.Serves (read omittingTrace).1 ∧
      ((Resolver.new (read omittingTrace).1).call (.resolve 2)).2.Continuous := by
  have hserves : ((Resolver.new (read omittingTrace).1).call (.resolve 2)).2.Serves
      (read omittingTrace).1 :=
    (Resolver.new_serves _).call (.resolve 2)
  exact ⟨by decide +kernel, hserves, read_continuous omittingTrace hserves⟩

end PassTrace.Trace

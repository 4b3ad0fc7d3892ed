import Mathlib.Data.Fintype.Fin
import Mathlib.InformationTheory.Hamming
import PassTrace.Proofs.View

/-!
# Changed lines as a distance

Two texts are compared place by place, and behind the end of a text there is no line. So texts are
words of one length over the lines and the missing line, and the number of changed lines is the
Hamming distance of these words, however far they reach behind both ends. It is therefore a metric
on texts. What views report of a pass that changed something is this distance of the texts shown.
-/

namespace PassTrace
namespace Ir

variable {a b c : Lines} {n : Nat}

/-- The lines at the first places of a text, of which those behind its end are missing. -/
def padded (n : Nat) (lines : Lines) (place : Fin n) : Option String :=
  lines[place.val]?

theorem changedLines_nil_right (lines : Lines) : changedLines lines [] = lines.length := by
  cases lines <;> rfl

/-- Changed lines are counted from the first place on. -/
theorem changedLines_eq_add (a b : Lines) :
    changedLines a b = (if a.head? = b.head? then 0 else 1) + changedLines a.tail b.tail := by
  cases a with
  | nil => cases b <;> simp [changedLines, Nat.add_comm]
  | cons line a =>
    cases b with
    | nil => simp [changedLines_nil_right, Nat.add_comm]
    | cons line' b => simp [changedLines]

/-- The texts of words that reach behind their ends are told by the words. -/
theorem padded_inj (ha : a.length ≤ n) (hb : b.length ≤ n) : padded n a = padded n b ↔ a = b := by
  refine ⟨fun h => List.ext_getElem? fun i => ?_, congrArg _⟩
  rcases Nat.lt_or_ge i n with hi | hi
  · exact congrFun h ⟨i, hi⟩
  · rw [List.getElem?_eq_none (by omega), List.getElem?_eq_none (by omega)]

/-- The distance of two words is counted from the first place on. -/
theorem hammingDist_padded_succ (a b : Lines) (n : Nat) :
    hammingDist (padded (n + 1) a) (padded (n + 1) b) =
      (if a.head? = b.head? then 0 else 1) + hammingDist (padded n a.tail) (padded n b.tail) := by
  have hhead (lines : Lines) : padded (n + 1) lines 0 = lines.head? := by
    cases lines <;> rfl
  have htail (lines : Lines) (i : Fin n) : padded (n + 1) lines i.succ = padded n lines.tail i := by
    cases lines <;> rfl
  unfold hammingDist
  rw [Fin.card_filter_univ_succ']
  simp only [hhead, htail, ne_eq, ite_not]

/-- The number of changed lines is the Hamming distance of the texts as words. -/
theorem changedLines_eq_hammingDist (ha : a.length ≤ n) (hb : b.length ≤ n) :
    changedLines a b = hammingDist (padded n a) (padded n b) := by
  induction n generalizing a b with
  | zero =>
    obtain rfl : a = [] := List.length_eq_zero_iff.mp (by omega)
    obtain rfl : b = [] := List.length_eq_zero_iff.mp (by omega)
    rfl
  | succ n ih =>
    rw [changedLines_eq_add, hammingDist_padded_succ, ih]
    · rw [List.length_tail]
      omega
    · rw [List.length_tail]
      omega

/-- Two texts have no changed lines exactly if they are the same. -/
theorem changedLines_eq_zero_iff : changedLines a b = 0 ↔ a = b := by
  have ha : a.length ≤ max a.length b.length := Nat.le_max_left _ _
  have hb : b.length ≤ max a.length b.length := Nat.le_max_right _ _
  rw [changedLines_eq_hammingDist ha hb, hammingDist_eq_zero, padded_inj ha hb]

theorem changedLines_comm (a b : Lines) : changedLines a b = changedLines b a := by
  have ha : a.length ≤ max a.length b.length := Nat.le_max_left _ _
  have hb : b.length ≤ max a.length b.length := Nat.le_max_right _ _
  rw [changedLines_eq_hammingDist ha hb, changedLines_eq_hammingDist hb ha, hammingDist_comm]

/-- What changes on the way over a third text is no less. -/
theorem changedLines_triangle (a b c : Lines) :
    changedLines a c ≤ changedLines a b + changedLines b c := by
  -- One length for the words of all three texts.
  obtain ⟨n, ha, hb, hc⟩ : ∃ n, a.length ≤ n ∧ b.length ≤ n ∧ c.length ≤ n :=
    ⟨a.length + b.length + c.length, by omega, by omega, by omega⟩
  rw [changedLines_eq_hammingDist ha hc, changedLines_eq_hammingDist ha hb,
    changedLines_eq_hammingDist hb hc]
  exact hammingDist_triangle _ _ _

/-- No more lines change than the longer text has. -/
theorem changedLines_le_max (a b : Lines) : changedLines a b ≤ max a.length b.length := by
  have hle := hammingDist_le_card_fintype (x := padded (max a.length b.length) a)
    (y := padded (max a.length b.length) b)
  rwa [Fintype.card_fin,
    ← changedLines_eq_hammingDist (Nat.le_max_left _ _) (Nat.le_max_right _ _)] at hle

/-- All lines behind the end of a text are changed. -/
theorem length_le_add_changedLines (a b : Lines) : a.length ≤ b.length + changedLines a b := by
  have htriangle := changedLines_triangle a b []
  rw [changedLines_nil_right, changedLines_nil_right] at htriangle
  omega

end Ir

/-- A view of a pass that changed something reports the distance of the texts that it shows. -/
theorem View.change_of_changed {d : Desk} {index : Int} {pass : Pass} (stripDebugInfo : Bool)
    (hpass : d.resolver.pipeline.pass? index = some pass) (hchanged : pass.changed = true) :
    let view := ((ofPass stripDebugInfo index).run d).1
    view.change = Ir.lineChange view.before view.after := by
  rw [run_ofPass stripDebugInfo hpass]
  unfold ofTexts changeOf
  rw [hchanged]
  rfl

namespace Ir

/-- The number of changed lines is a metric on texts, between the difference and the maximum of
their lengths. So a pass that changed something is shown without changed lines exactly if the same
text is shown before it and after it. -/
theorem lineChange_metric :
    (∀ a b c : Lines,
      ((lineChange a b).changed = 0 ↔ a = b) ∧
      (lineChange a b).changed = (lineChange b a).changed ∧
      (lineChange a c).changed ≤ (lineChange a b).changed + (lineChange b c).changed ∧
      |(a.length : Int) - b.length| ≤ (lineChange a b).changed ∧
      (lineChange a b).changed ≤ max (a.length : Int) b.length) ∧
    ∀ (d : Desk) (index : Int) (pass : Pass) (stripDebugInfo : Bool),
      d.resolver.pipeline.pass? index = some pass → pass.changed = true →
      let view := ((View.ofPass stripDebugInfo index).run d).1
      view.change.changed = 0 ↔ view.before = view.after := by
  have hzero (a b : Lines) : (lineChange a b).changed = 0 ↔ a = b :=
    Int.natCast_eq_zero.trans changedLines_eq_zero_iff
  constructor
  · intro a b c
    have hchanged (a b : Lines) : (lineChange a b).changed = changedLines a b := rfl
    refine ⟨hzero a b, ?_, ?_, ?_, ?_⟩
    · rw [hchanged, changedLines_comm, hchanged]
    · simp only [hchanged]
      exact_mod_cast changedLines_triangle a b c
    · have hle := length_le_add_changedLines a b
      have hge := length_le_add_changedLines b a
      rw [changedLines_comm] at hge
      rw [hchanged, abs_le]
      omega
    · rw [hchanged]
      exact_mod_cast changedLines_le_max a b
  · intro d index pass stripDebugInfo hpass hchanged
    dsimp only
    rw [View.change_of_changed stripDebugInfo hpass hchanged]
    exact hzero _ _

/-- A pass after which another debug location is attached to a line. -/
def relocating : Pass where
  name := "sroa"
  scope := ⟨.function, some "f"⟩
  changed := true
  reference := .inline ["define void @f() \x7b", "  ret void, !dbg !4", "\x7d", "!4 = !\x7b\x7d"]

/-- A view of the pass without debug information reports no changed lines. -/
theorem lineChange_metric_relocating :
    let desk : Desk := ⟨.new ⟨["define void @f() \x7b", "  ret void, !dbg !3", "\x7d"],
      [relocating]⟩, []⟩
    let view := ((View.ofPass true 1).run desk).1
    desk.resolver.pipeline.pass? 1 = some relocating ∧ relocating.changed = true ∧
      view.before = ["define void @f() \x7b", "  ret void", "\x7d"] ∧ view.change.changed = 0 := by
  intro desk view
  have hbefore : view.before = ["define void @f() \x7b", "  ret void", "\x7d"] := by decide +kernel
  have hafter : view.after = ["define void @f() \x7b", "  ret void", "\x7d"] := by decide +kernel
  have hzero := lineChange_metric.2 desk 1 relocating true rfl rfl
  exact ⟨rfl, rfl, hbefore, hzero.mpr (hbefore.trans hafter.symm)⟩

end Ir
end PassTrace

import PassTrace.Proofs.Snapshot.Memory
import PassTrace.View

/-!
# What a view shows

A look at a pass runs two look-ups, and its notices are their gaps. With a faithful memory the texts
that it shows are made of the meanings before and after the pass.
-/

namespace PassTrace

/-- The notice for a gap, if there is one. -/
def gapNotices (gap : Option Gap) : List Notice :=
  (gap.map Notice.gap).toList

namespace Viewing

/-- Settling an answer takes up its resolver and its gap. -/
theorem run_settle (answer : Resolver.Answer) (d : Desk) :
    (settle answer).run d = (answer.lines, ⟨answer.resolver,
      gapNotices answer.gap ++ d.notices⟩) := by
  rcases answer with ⟨lines, resolver, gap⟩
  cases gap <;> rfl

theorem run_pipeline_bind {α : Type} (f : Pipeline → Viewing α) (d : Desk) :
    (pipeline >>= f).run d = (f d.resolver.pipeline).run d := rfl

end Viewing

namespace View

/-- The view of a pass with given texts before and after it. -/
def ofTexts (stripDebugInfo : Bool) (p : Pipeline) (index : Int) (pass : Pass)
    (before after : Lines) : View :=
  let shown (lines : Lines) := present stripDebugInfo (narrow pass.scope lines)
  { beforeName := nameBefore p index pass.scope
    before := shown before
    afterName := pass.title
    after := shown after
    change := changeOf pass.changed (shown before) (shown after) }

/-- A view of a pass asks for the text before it and then for the text after it. -/
theorem run_ofPass {d : Desk} {index : Int} {pass : Pass} (stripDebugInfo : Bool)
    (hpass : d.resolver.pipeline.pass? index = some pass) :
    let before := d.resolver.before index
    let after := before.resolver.after index
    (ofPass stripDebugInfo index).run d =
      (ofTexts stripDebugInfo d.resolver.pipeline index pass before.lines after.lines,
        ⟨after.resolver, gapNotices after.gap ++ (gapNotices before.gap ++ d.notices)⟩) := by
  have hbefore : (Viewing.textBefore index).run d =
      (Viewing.settle (d.resolver.before index)).run d := rfl
  have hafter (d : Desk) : (Viewing.textAfter index).run d =
      (Viewing.settle (d.resolver.after index)).run d := rfl
  unfold ofPass
  rw [Viewing.run_pipeline_bind, hpass]
  simp only [StateT.run_bind, hbefore, hafter, Viewing.run_settle]
  rfl

end View
end PassTrace

import PassTrace.Diff.Unified
import PassTrace.Ir.Counting
import PassTrace.Ir.DebugInfo
import PassTrace.Ir.LineChange
import PassTrace.Notice

/-!
# Views of passes

A view shows the text before and after a pass, narrowed to what the pass ran on and, if asked for,
without debug information. Looking at a pass fills the resolver's memory and may give notices; it
does not change what is seen.
-/

namespace PassTrace

/-- What views are made from: a resolver, and the notices given so far, last first. -/
structure Desk where
  resolver : Resolver
  notices : List Notice := []

/-- A look at a pipeline. -/
abbrev Viewing := StateM Desk

namespace Viewing

/-- Gives a notice. -/
def notify (notice : Notice) : Viewing Unit :=
  modify fun d => { d with notices := notice :: d.notices }

/-- The pipeline that is looked at. -/
def pipeline : Viewing Pipeline :=
  return (← get).resolver.pipeline

/-- Takes up what a look-up yields: its resolver and its gap. -/
def settle (answer : Resolver.Answer) : Viewing Lines := do
  modify fun d => { d with resolver := answer.resolver }
  if let some g := answer.gap then notify (.gap g)
  return answer.lines

/-- The text at an index. -/
def textAt (index : Int) : Viewing Lines := do
  settle ((← get).resolver.resolve index)

/-- The text after a pass. -/
def textAfter (index : Int) : Viewing Lines := do
  settle ((← get).resolver.after index)

/-- The text before a pass. -/
def textBefore (index : Int) : Viewing Lines := do
  settle ((← get).resolver.before index)

end Viewing

/-- The texts before and after a pass, with what they are called. -/
structure View where
  beforeName : String
  before : Lines
  afterName : String
  after : Lines
  change : LineChange
  deriving DecidableEq, Repr, Inhabited

namespace View

/-- The name of the text before the first pass. -/
def initialName : String := "Initial"

/-- The view of a pass that is not there. -/
def absent : View := ⟨initialName, [], "", [], ⟨0, 0, 0⟩⟩

/-- A text narrowed to what a pass ran on. -/
def narrow (scope : Scope) (lines : Lines) : Lines :=
  if scope.isNarrow then Ir.targetDefinitions lines (scope.target.getD "") else lines

/-- A text as views show it, with or without debug information. -/
def present (stripDebugInfo : Bool) (lines : Lines) : Lines :=
  if stripDebugInfo then (Ir.withoutDebugInfo lines).1 else lines

/-- The name of the text before a pass: the title of the pass that left it, and what the view is
narrowed to. -/
def nameBefore (p : Pipeline) (index : Int) (scope : Scope) : String :=
  let name :=
    if index ≤ 1 then initialName
    else ((p.pass? (index - 1)).map Pass.title).getD initialName
  if scope.isNarrow then name ++ " -> " ++ scope.target.getD "" else name

/-- The change that a view shows. A pass that changed nothing has no changed lines. -/
def changeOf (changed : Bool) (before after : Lines) : LineChange :=
  if changed then Ir.lineChange before after else ⟨before.length, after.length, 0⟩

/-- The view of the pass at an index. -/
def ofPass (stripDebugInfo : Bool) (index : Int) : Viewing View := do
  let p ← Viewing.pipeline
  match p.pass? index with
  | none =>
    Viewing.notify (.noPass index p.size)
    return absent
  | some pass =>
    let shown (lines : Lines) := present stripDebugInfo (narrow pass.scope lines)
    let before := shown (← Viewing.textBefore index)
    let after := shown (← Viewing.textAfter index)
    return {
      beforeName := nameBefore p index pass.scope
      before
      afterName := pass.title
      after
      change := changeOf pass.changed before after }

/-- The unified diff of a view. -/
def diff (context : Int) (v : View) : Lines :=
  Diff.unified s!"before/{v.beforeName}" s!"after/{v.afterName}" context v.before v.after

/-- The counts of the text after a pass: those that the pass carries, or else of the text itself. -/
def countsAfter (index : Int) : Viewing Counts := do
  match ((← Viewing.pipeline).pass? index).bind Pass.counts with
  | some counts => return counts
  | none => return Ir.count (← Viewing.textAfter index)

/-- The counts of the text before a pass. -/
def countsBefore (index : Int) : Viewing Counts := do
  if index = 1 then return Ir.count (← Viewing.pipeline).initial
  else countsAfter (index - 1)

/-- The line that shows a pass with its counts and how far they changed, which can be too long to be
written. -/
def countsLine (index : Int) : Viewing (Except IntegerFault String) := do
  let p ← Viewing.pipeline
  match p.pass? index with
  | none => return .ok ""
  | some pass =>
    let current ← countsAfter index
    let previous ← countsBefore index
    let change := Ir.delta previous current
    return (Ir.deltaText Except.error (fun c => Except.ok (current.get c)) change.get).map
      fun text => s!"[Pass {index}/{p.size}] {pass.title} | {text}"

end View
end PassTrace

import PassTrace.Diff.Matching

/-!
# Unified diffs

A diff in unified form shows each change with some lines around it that stay the same. Changes that
are near to each other share a hunk.
-/

namespace PassTrace.Diff

/-- The lines from one place to before another, where a negative place counts from the end. -/
def slice (lines : Lines) (start stop : Int) : Lines :=
  let place (k : Int) := (if k < 0 then k + lines.length else k).toNat
  (lines.take (place stop)).drop (place start)

/-- The step from the whole text to itself that stands for texts without lines. -/
def emptySteps : List Step := [⟨true, 0, 1, 0, 1⟩]

/-- The step without the lines that are more than `context` before its end. -/
def Step.trimStart (context : Int) (s : Step) : Step :=
  { s with
    oldStart := max s.oldStart (s.oldStop - context)
    newStart := max s.newStart (s.newStop - context) }

/-- The step without the lines that are `context` or more behind its start. -/
def Step.trimStop (context : Int) (s : Step) : Step :=
  { s with
    oldStop := min s.oldStop (s.oldStart + context)
    newStop := min s.newStop (s.newStart + context) }

/-- The steps with the lines kept at the start cut to the context. -/
def trimFirst (context : Int) : List Step → List Step
  | s :: rest => (if s.keeps then s.trimStart context else s) :: rest
  | [] => []

/-- The steps with the lines kept at the end cut to the context. -/
def trimLast (context : Int) : List Step → List Step
  | [] => []
  | [s] => [if s.keeps then s.trimStop context else s]
  | s :: rest => s :: trimLast context rest

/-- A group of steps if it changes something. -/
def hunkOf (group : List Step) : List (List Step) :=
  match group with
  | [] => []
  | [s] => if s.keeps then [] else [group]
  | _ => [group]

/-- The hunks of the steps that are left, where `group` are the steps of the hunk under way, last
first. A stretch of kept lines longer than twice the context ends a hunk. -/
def hunksFrom (context : Int) (group : List Step) : List Step → List (List Step)
  | [] => hunkOf group.reverse
  | s :: rest =>
    if s.keeps && context + context < s.oldStop - s.oldStart then
      (s.trimStop context :: group).reverse :: hunksFrom context [s.trimStart context] rest
    else hunksFrom context (s :: group) rest

/-- The hunks of a diff: groups of steps. -/
def hunks (context : Int) (old new : Lines) : List (List Step) :=
  let all := steps old new
  let all := if all.isEmpty then emptySteps else all
  hunksFrom context [] (trimLast context (trimFirst context all))

/-- A range of lines as a hunk's head shows it: its first line, counted from one, and its length
unless that is one. An empty range shows the line before it. -/
def rangeText (start stop : Int) : String :=
  let length := stop - start
  if length = 1 then toString (start + 1)
  else if length = 0 then s!"{start},{length}"
  else s!"{start + 1},{length}"

/-- The head of a hunk. -/
def hunkHead (group : List Step) : String :=
  match group.head?, group.getLast? with
  | some first, some last =>
    s!"@@ -{rangeText first.oldStart last.oldStop} +{rangeText first.newStart last.newStop} @@"
  | _, _ => ""

/-- The lines of a step, each marked as kept, removed or added. -/
def stepLines (old new : Lines) (s : Step) : Lines :=
  if s.keeps then (slice old s.oldStart s.oldStop).map (" " ++ ·)
  else
    (slice old s.oldStart s.oldStop).map ("-" ++ ·) ++
      (slice new s.newStart s.newStop).map ("+" ++ ·)

/-- The unified diff of two texts with names. Texts that agree have an empty one. -/
def unified (oldName newName : String) (context : Int) (old new : Lines) : Lines :=
  match hunks context old new with
  | [] => []
  | groups =>
    s!"--- {oldName}" :: s!"+++ {newName}" ::
      groups.flatMap fun group => hunkHead group :: group.flatMap (stepLines old new)

end PassTrace.Diff

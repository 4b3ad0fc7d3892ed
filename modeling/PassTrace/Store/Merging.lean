import PassTrace.Store.Sorting

/-!
# Sorting by merging runs

Two runs are merged value by value, until one of them has won so often in a row that it pays to look
how many of its values come next all together. The shorter run decides from which end the merge
goes: seen from the back, the runs change places and the order is turned round. Runs wait on a pile
until their neighbour behind is known, and are merged such that all take part in about as many
merges.
-/

namespace PassTrace.Sorting

variable {α ε : Type}

/-- Leaps from place to place, each twice as long as the one before, as long as a property holds.
Yields the last place where it held, and the first where it did not or else the limit. -/
def leap (holds : Nat → Except ε Bool) (limit last place : Nat) : Except ε (Nat × Nat) :=
  if place < limit then
    match holds place with
    | .error fault => .error fault
    | .ok true => leap holds limit place (2 * place + 1)
    | .ok false => .ok (last, place)
  else .ok (last, limit)
termination_by limit - place
decreasing_by omega

/-- The number of values in front of which a property holds, found by leaps and then by halving. -/
def lead (fromBack : Bool) (holds : α → Except ε Bool) (xs : List α) : Except ε Nat := do
  if ← holdsAt holds xs 0 then
    let (last, place) ← leap (holdsAt holds xs) xs.length 0 1
    boundary fromBack (holdsAt holds xs) (last + 1) place
  else return 0

/-- Two runs under way of being merged. Of equal values those of the first run come first. -/
structure Merge (α : Type) where
  /-- What is merged, last first. -/
  merged : List α
  first : List α
  second : List α

namespace Merge

/-- The merge with some more values taken from the first run. -/
def takeFirst (m : Merge α) (count : Nat) : Merge α :=
  { m with merged := (m.first.take count).reverse ++ m.merged, first := m.first.drop count }

/-- The merge with some more values taken from the second run. -/
def takeSecond (m : Merge α) (count : Nat) : Merge α :=
  { m with merged := (m.second.take count).reverse ++ m.merged, second := m.second.drop count }

/-- Whether the rest is settled: nothing is left of the second run, or no more than one value of the
first, which is known to come last. -/
def isSettled (m : Merge α) : Bool :=
  match m.first, m.second with
  | _, [] | [], _ | [_], _ => true
  | _, _ => false

/-- The values of a merge whose rest is settled. -/
def result (m : Merge α) : List α :=
  m.merged.reverse ++ m.second ++ m.first

variable (fromBack : Bool) (less : α → α → Except ε Bool)

/-- Takes from the first run all values that come next, and one of the second. Yields also how many
those were. -/
def passFirst (m : Merge α) : Except ε (Merge α × Nat) := do
  match m.second with
  | [] => return (m, 0)
  | y :: _ =>
    let count ← lead fromBack (notBefore less y) m.first
    let m := m.takeFirst count
    return (if m.isSettled then m else m.takeSecond 1, count)

/-- Takes from the second run all values that come next, and one of the first. Yields also how many
those were. -/
def passSecond (m : Merge α) : Except ε (Merge α × Nat) := do
  match m.first with
  | [] => return (m, 0)
  | x :: _ =>
    let count ← lead fromBack (less · x) m.second
    let m := m.takeSecond count
    return (if m.isSettled then m else m.takeFirst 1, count)

/-- Passes over both runs, that which lies in front first. Yields also the greater of the counts. -/
def passBoth (m : Merge α) : Except ε (Merge α × Nat) := do
  let (m, count) ← if fromBack then m.passSecond fromBack less else m.passFirst fromBack less
  if m.isSettled then return (m, count)
  let (m, count') ← if fromBack then m.passFirst fromBack less else m.passSecond fromBack less
  return (m, max count count')

/-- How a merge goes on. -/
inductive Pace
  /-- Value by value, with how often in a row the first run won, or the second. -/
  | steps (first second : Nat)
  /-- Passing over the values that come next all together. -/
  | leaps

/-- The number of values for which it pays to pass over them together. -/
def worthwhile : Nat := 7

/-- Merges until the rest is settled, which takes at most `fuel` steps. With `patience` wins in a
row steps give way to leaps. Yields also the patience for the next merge: leaps make it less, and
going back to steps makes it more. -/
def run : Nat → Nat → Pace → Merge α → Except ε (Merge α × Nat)
  | 0, patience, _, m => .ok (m, patience)
  | fuel + 1, patience, .leaps, m => do
    let patience := max 1 (patience - 1)
    let (m, count) ← m.passBoth fromBack less
    if m.isSettled then return (m, patience)
    else if worthwhile ≤ count then run fuel patience .leaps m
    else run fuel (patience + 1) (.steps 0 0) m
  | fuel + 1, patience, .steps wins wins', m => do
    match m.first, m.second with
    | x :: _, y :: _ =>
      let (m, wins, wins') ← (do
        if ← less y x then return (m.takeSecond 1, 0, wins' + 1)
        else return (m.takeFirst 1, wins + 1, 0) : Except ε (Merge α × Nat × Nat))
      if m.isSettled then return (m, patience)
      else if patience ≤ max wins wins' then run fuel (patience + 1) .leaps m
      else run fuel patience (.steps wins wins') m
    | _, _ => return (m, patience)

/-- Merges two runs of which the first value of the second is known to come first. -/
def ofRuns (patience : Nat) (first second : List α) : Except ε (List α × Nat) := do
  let m := takeSecond ⟨[], first, second⟩ 1
  if m.isSettled then return (m.result, patience)
  let (m, patience) ← m.run fromBack less (first.length + second.length) patience (.steps 0 0)
  return (m.result, patience)

end Merge

/-- Merges two neighbouring runs. What is in place already, at the front of the first and at the
back of the second, is left there. -/
def mergeRuns (less : α → α → Except ε Bool) (patience : Nat) (first second : List α) :
    Except ε (List α × Nat) := do
  match second with
  | [] => return (first, patience)
  | y :: _ =>
    let inFront ← lead false (notBefore less y) first
    let (front, first) := first.splitAt inFront
    match first.getLast? with
    | none => return (front ++ second, patience)
    | some x =>
      let atBack ← lead true (fun y => notBefore less y x) second.reverse
      let (second, back) := second.splitAt (second.length - atBack)
      if second.isEmpty then return (front ++ first ++ back, patience)
      else if first.length ≤ second.length then
        let (merged, patience) ← Merge.ofRuns false less patience first second
        return (front ++ merged ++ back, patience)
      else
        let turned (x y : α) : Except ε Bool := less y x
        let (merged, patience) ← Merge.ofRuns true turned patience second.reverse first.reverse
        return (front ++ merged.reverse ++ back, patience)

/-- A run that waits on the pile. -/
structure Waiting (α : Type) where
  run : List α
  /-- How early the place behind the run is met when the values are halved again and again. -/
  depth : Nat

/-- The runs that wait, last first, and the patience of the next merge. -/
structure Pile (α : Type) where
  runs : List (Waiting α)
  patience : Nat

/-- How often the values must be halved to part the middles of two neighbouring runs, of which the
first starts at a place. -/
def depthBetween (total start length next : Nat) : Nat :=
  let early := 2 * start + length
  let late := early + length + next
  ((List.range total).find? fun k => (early <<< k) / total ≠ (late <<< k) / total).getD total

namespace Pile

variable (less : α → α → Except ε Bool)

/-- Merges the last runs as long as the place between them is met later than at a depth. -/
def mergeBelow (depth : Nat) : List (Waiting α) → Nat → Except ε (Pile α)
  | [], patience => .ok ⟨[], patience⟩
  | [last], patience => .ok ⟨[last], patience⟩
  | last :: before :: rest, patience =>
    if depth < before.depth then do
      let (run, patience) ← mergeRuns less patience before.run last.run
      mergeBelow depth (⟨run, before.depth⟩ :: rest) patience
    else .ok ⟨last :: before :: rest, patience⟩
termination_by runs => runs.length

/-- The pile with a run put on top. Runs that lie deeper than the place in front of it are merged
first. -/
def push (total : Nat) (p : Pile α) (run : List α) : Except ε (Pile α) := do
  match p.runs with
  | [] => return ⟨[⟨run, 0⟩], p.patience⟩
  | last :: rest =>
    let start := (rest.flatMap Waiting.run).length
    let depth := depthBetween total start last.run.length run.length
    let p ← mergeBelow less depth p.runs p.patience
    match p.runs with
    | [] => return ⟨[⟨run, 0⟩], p.patience⟩
    | last :: rest => return ⟨⟨run, 0⟩ :: { last with depth } :: rest, p.patience⟩

/-- Merges all runs. The last but one goes with the shorter one of its neighbours. -/
def collapse : List (Waiting α) → Nat → Except ε (List α)
  | [], _ => .ok []
  | [last], _ => .ok last.run
  | [last, before], patience => do
    let (run, patience) ← mergeRuns less patience before.run last.run
    collapse [⟨run, before.depth⟩] patience
  | last :: before :: third :: rest, patience =>
    if third.run.length < last.run.length then do
      let (run, patience) ← mergeRuns less patience third.run before.run
      collapse (last :: ⟨run, third.depth⟩ :: rest) patience
    else do
      let (run, patience) ← mergeRuns less patience before.run last.run
      collapse (⟨run, before.depth⟩ :: third :: rest) patience
termination_by runs => runs.length

/-- The pile with all runs of the values put on top, which are at most `fuel`. -/
def pushAll (total : Nat) : Nat → Pile α → List α → Except ε (Pile α)
  | 0, p, _ => .ok p
  | _, p, [] => .ok p
  | fuel + 1, p, x :: xs => do
    let (run, rest) ← nextRun less (leastRun 0 total) (x :: xs)
    pushAll total fuel (← push less total p run) rest

end Pile

/-- The values in order. -/
def sort (less : α → α → Except ε Bool) (xs : List α) : Except ε (List α) := do
  let p ← Pile.pushAll less xs.length xs.length ⟨[], Merge.worthwhile⟩ xs
  Pile.collapse less p.runs p.patience

/-- The values in falling order, where equal ones keep their order. -/
def sortFalling (less : α → α → Except ε Bool) (xs : List α) : Except ε (List α) := do
  return (← sort less xs.reverse).reverse

end PassTrace.Sorting

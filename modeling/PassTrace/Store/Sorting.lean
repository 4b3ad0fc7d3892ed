/-!
# Runs under comparisons that may fail

A sort is made of runs of values that are in order. A run in front of the values that is already
there is kept, or turned round if it is strictly falling. It is made longer by further values, each
put behind those that are not greater, at a place found by halving. Equal values keep their order.
Comparisons may fail, and they may contradict each other; so it matters which of them are made.
-/

namespace PassTrace.Sorting

variable {α ε : Type}

/-- The place from `low` to `high` in front of which a property holds and behind which it does not,
found by halving. Where there are two middle places the first is tried, or the second if the search
comes from the back. -/
def boundary (fromBack : Bool) (holds : Nat → Except ε Bool) (low high : Nat) : Except ε Nat :=
  if low < high then
    let half := (high - low) / 2
    let middle := if fromBack then high - 1 - half else low + half
    match holds middle with
    | .error fault => .error fault
    | .ok true => boundary fromBack holds (middle + 1) high
    | .ok false => boundary fromBack holds low middle
  else .ok low
termination_by high - low
decreasing_by all_goals (split <;> omega)

/-- Whether a property holds of the value at a place. It does not where there is none. -/
def holdsAt (holds : α → Except ε Bool) (xs : List α) (k : Nat) : Except ε Bool :=
  match xs[k]? with
  | some x => holds x
  | none => .ok false

/-- Whether a value does not come before another. -/
def notBefore (less : α → α → Except ε Bool) (x y : α) : Except ε Bool := do
  return !(← less x y)

/-- The run with a value put in its place. -/
def insert (less : α → α → Except ε Bool) (run : List α) (x : α) : Except ε (List α) := do
  let k ← boundary false (holdsAt (notBefore less x) run) 0 run.length
  return run.take k ++ x :: run.drop k

/-- The values in front, last first, that go on as `goesOn` says from each to the next, and the
rest. -/
def runFrom (goesOn : α → α → Except ε Bool) (read : List α) (last : α) :
    List α → Except ε (List α × List α)
  | [] => .ok (last :: read, [])
  | x :: rest => do
    if ← goesOn last x then runFrom goesOn (last :: read) x rest
    else return (last :: read, x :: rest)

/-- The run in front, in order, and the rest. -/
def firstRun (less : α → α → Except ε Bool) : List α → Except ε (List α × List α)
  | [] => .ok ([], [])
  | [x] => .ok ([x], [])
  | x :: y :: rest => do
    if ← less y x then runFrom (fun last next => less next last) [x] y rest
    else
      let (run, rest) ← runFrom (fun last next => notBefore less next last) [x] y rest
      return (run.reverse, rest)

/-- A run of at least a given length, unless there are fewer values, and the rest. -/
def nextRun (less : α → α → Except ε Bool) (least : Nat) (xs : List α) :
    Except ε (List α × List α) := do
  let (run, rest) ← firstRun less xs
  let missing := least - run.length
  return (← (rest.take missing).foldlM (insert less) run, rest.drop missing)

/-- The number of values that are sorted as one run. -/
def longestRun : Nat := 64

/-- The least length of the runs of a sort: a sixth to a half of a hundred or so, chosen such that
the number of runs is a power of two or just below one. With `carry` values were left over when the
length was halved. -/
def leastRun (carry length : Nat) : Nat :=
  if length < longestRun then length + carry
  else leastRun (max carry (length % 2)) (length / 2)
termination_by length
decreasing_by simp [longestRun] at *; omega

end PassTrace.Sorting

import PassTrace.Pipeline

/-!
# Counting changed lines

Two texts are compared place by place: a line counts as changed if the other text has a different
line at its place, or none.
-/

namespace PassTrace.Ir

/-- The number of places at which two texts differ. -/
def changedLines : Lines → Lines → Nat
  | [], after => after.length
  | before, [] => before.length
  | line :: before, line' :: after =>
    (if line = line' then 0 else 1) + changedLines before after

/-- The lengths of two texts and the number of places at which they differ. -/
def lineChange (before after : Lines) : LineChange :=
  ⟨before.length, after.length, changedLines before after⟩

end PassTrace.Ir

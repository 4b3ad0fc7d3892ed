import PassTrace.Pipeline

/-!
# Going from change to change

The nearest pass behind or before an index that changed the module. There is none beyond either end.
-/

namespace PassTrace.Pipeline

/-- The first changed pass behind an index. -/
def nextChanged (p : Pipeline) (index : Int) : Option Nat :=
  let start := (max (index + 1) 1).toNat
  ((p.passes.drop (start - 1)).findIdx? (·.changed)).map (start + ·)

/-- The last changed pass before an index. -/
def previousChanged (p : Pipeline) (index : Int) : Option Nat :=
  let stop := (min (index - 1) p.size).toNat
  ((p.passes.take stop).reverse.findIdx? (·.changed)).map (stop - ·)

/-- The first changed pass. -/
def firstChanged (p : Pipeline) : Option Nat :=
  p.nextChanged 0

/-- The last changed pass. -/
def lastChanged (p : Pipeline) : Option Nat :=
  p.previousChanged (p.size + 1)

/-- The index of a pass nearest to the one asked for, or zero if there is no pass. -/
def clamp (p : Pipeline) (index : Int) : Int :=
  if p.size = 0 then 0 else max 1 (min index p.size)

end PassTrace.Pipeline

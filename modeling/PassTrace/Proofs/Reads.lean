/-!
# Readers

A reader takes a result from the front of a sequence and leaves the rest, with a proof
that bounds what it left. Two runs that leave the same are equal, whatever the proof.
-/

namespace PassTrace

/-- A reader succeeded with a result and left the rest. -/
def Reads {ε α β : Type} {P : β → Prop} (result : Except ε (α × { rest : β // P rest })) (a : α)
    (rest : β) : Prop :=
  ∃ h, result = .ok (a, ⟨rest, h⟩)

end PassTrace

/-!
# Finding one text in another
-/

namespace PassTrace.Text

/-- The rest of a text behind a given start. -/
def behind? : List Char → List Char → Option (List Char)
  | [], cs => some cs
  | _ :: _, [] => none
  | a :: as, c :: cs => if a = c then behind? as cs else none

theorem behind?_eq_some_iff {start cs rest : List Char} :
    behind? start cs = some rest ↔ cs = start ++ rest := by
  induction start generalizing cs with
  | nil => simp [behind?]
  | cons a as ih =>
    cases cs with
    | nil => simp [behind?]
    | cons c cs =>
      simp only [behind?, List.cons_append, List.cons.injEq]
      split
      · simp_all
      · simp_all [eq_comm]

/-- Whether a text starts with another. -/
def startsWith (text start : String) : Bool :=
  (behind? start.toList text.toList).isSome

/-- Whether some end of a text, the whole and the empty one included, has a property. -/
def anyEnd (p : List Char → Bool) : List Char → Bool
  | [] => p []
  | c :: rest => p (c :: rest) || anyEnd p rest

/-- Whether a text holds another. -/
def holds (text part : String) : Bool :=
  anyEnd (fun cs => (behind? part.toList cs).isSome) text.toList

end PassTrace.Text

import PassTrace.Number.Binary64
import PassTrace.Pipeline
import PassTrace.Text.Blank

/-!
# Texts compared without regard to layout

A line's normal form has one space for each run of blanks and none at the ends; lines without words
are dropped.
-/

namespace PassTrace.Ir

/-- A text with each run of blanks replaced by one space; `inBlanks` says whether the run before it
has been replaced. -/
def collapseBlanks (inBlanks : Bool) : List Char → List Char
  | [] => []
  | c :: rest =>
    if Text.isBlank c then
      if inBlanks then collapseBlanks true rest else ' ' :: collapseBlanks true rest
    else c :: collapseBlanks false rest

/-- The normal form of a line. -/
def normalLine (line : String) : String :=
  String.ofList (Text.trim (collapseBlanks false line.toList))

/-- The normal form of a text. -/
def normalForm (lines : Lines) : Lines :=
  (lines.map normalLine).filter fun line => !line.isEmpty

/-- The words of the lines that have any. -/
def wordLists (lines : Lines) : List (List (List Char)) :=
  (lines.map fun line => Text.words line.toList).filter fun ws => !ws.isEmpty

/-- How far filtering shortened a text. -/
structure Shortening where
  /-- The number of lines of the whole text. -/
  whole : Nat
  /-- The number of lines that filtering left. -/
  filtered : Nat
  deriving DecidableEq, Repr

namespace Shortening

/-- The number of lines that filtering removed. -/
def removed (s : Shortening) : Int :=
  s.whole - s.filtered

/-- The removed part in percent; an empty text has none. -/
def percent (s : Shortening) : Option Binary64 :=
  if s.whole = 0 then none
  else
    let part := Binary64.ofFraction (s.removed < 0) s.removed.natAbs s.whole
    some (part.mul (.ofFraction false 100 1))

end Shortening
end PassTrace.Ir

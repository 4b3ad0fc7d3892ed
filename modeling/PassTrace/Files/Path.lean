/-!
# Paths

A path is a sequence of names, read from the root or from the work directory. Empty names and names
of one dot are dropped; a name of two dots is kept, since it is resolved where the path is followed.
-/

namespace PassTrace

/-- Where a path starts. Two slashes in front are kept apart from one. -/
inductive Anchor
  | work
  | root
  | doubleRoot
  deriving DecidableEq, Repr, Inhabited

/-- A path. -/
structure Path where
  anchor : Anchor
  parts : List String
  deriving DecidableEq, Repr, Inhabited

namespace Path

/-- The names in a text, between its slashes. -/
def namesOf (text : String) : List String :=
  let rec split : List Char → List (List Char)
    | [] => [[]]
    | c :: rest =>
      if c = '/' then [] :: split rest
      else
        match split rest with
        | [] => [[c]]
        | name :: names => (c :: name) :: names
  (split text.toList).map String.ofList

/-- The names in a text that a file system goes through one after the other, those of dots
included. -/
def stepsOf (text : String) : List String :=
  (namesOf text).filter fun name => !name.isEmpty

/-- Whether a slash at the end of a text asks for a directory. -/
def asksDirectory (text : String) : Bool :=
  text.toList.getLast? = some '/'

/-- Where the path of a text starts. -/
def anchorOf (text : String) : Anchor :=
  match text.toList with
  | '/' :: '/' :: '/' :: _ => .root
  | '/' :: '/' :: _ => .doubleRoot
  | '/' :: _ => .root
  | _ => .work

/-- The path that a text denotes. -/
def ofString (text : String) : Path :=
  ⟨anchorOf text, (namesOf text).filter fun name => !name.isEmpty && name ≠ "."⟩

/-- The text of a path. -/
def toString (p : Path) : String :=
  let names := "/".intercalate p.parts
  match p.anchor with
  | .work => if p.parts.isEmpty then "." else names
  | .root => "/" ++ names
  | .doubleRoot => "//" ++ names

/-- Whether a null character stands in a path, which ends all texts that a file system is given. -/
def holdsNull (p : Path) : Bool :=
  p.parts.any fun name => name.toList.contains '\x00'

/-- The last name of a path, or the empty text. -/
def name (p : Path) : String :=
  p.parts.getLast?.getD ""

/-- The path without its last name. -/
def parent (p : Path) : Path :=
  { p with parts := p.parts.dropLast }

/-- The path of a text, read from the end of another path. -/
def join (p : Path) (text : String) : Path :=
  let q := ofString text
  if q.anchor = .work then { p with parts := p.parts ++ q.parts } else q

/-- The place of the last dot of a name, if there are characters on both sides of it. -/
def dot? (name : List Char) : Option Nat :=
  let behind := name.reverse.takeWhile (· ≠ '.')
  let before := name.length - behind.length - 1
  if !behind.isEmpty && behind.length < name.length && 0 < before then some before else none

/-- A text cut at its last slash: what is in front without slashes at its end, unless it has nothing
else, and the name behind. -/
def cutName (text : List Char) : List Char × List Char :=
  let front := (text.reverse.dropWhile (· ≠ '/')).reverse
  let above := if front.all (· = '/') then front else (front.reverse.dropWhile (· = '/')).reverse
  (above, (text.reverse.takeWhile (· ≠ '/')).reverse)

/-- The text of the directory in which a text names something, and the name. A slash at the end of
the text does not count. -/
def cutLast (text : List Char) : List Char × List Char :=
  let (above, name) := cutName text
  if name.isEmpty then cutName above else (above, name)

/-- The end of a path's last name from its last dot on. -/
def suffix (p : Path) : String :=
  match dot? p.name.toList with
  | some k => String.ofList (p.name.toList.drop k)
  | none => ""

/-- A path's last name up to its last dot. -/
def stem (p : Path) : String :=
  match dot? p.name.toList with
  | some k => String.ofList (p.name.toList.take k)
  | none => p.name

end Path
end PassTrace

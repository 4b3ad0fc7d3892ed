import PassTrace.Pipeline
import PassTrace.Text.Blank
import PassTrace.Text.Search
import PassTrace.Text.Word

/-!
# Functions in a module's text

A function is defined by a line that starts with `define` and names it behind the first `@`, quoted
or plain, with the parameters in parentheses behind the name. The definition goes on to the line
that balances the braces. Comments directly above a definition belong to it.
-/

namespace PassTrace.Ir

/-- Whether parameters follow: blanks and an opening parenthesis. -/
def opensParameters (cs : List Char) : Bool :=
  (Text.trimLeft cs).head? = some '('

/-- What follows the first `@` of a line that starts with the word `define`. -/
def afterDefine? (line : String) : Option (List Char) :=
  match Text.behind? "define".toList line.toList with
  | none => none
  | some rest =>
    if Text.endsWord rest then
      match rest.dropWhile (· ≠ '@') with
      | [] => none
      | _ :: tail => some tail
    else none

/-- Whether a line defines the function of a name. -/
def defines (name line : String) : Bool :=
  match afterDefine? line with
  | none => false
  | some tail =>
    let named (spelling : List Char) := (Text.behind? spelling tail).any opensParameters
    named ('"' :: (name.toList ++ ['"'])) || named name.toList

/-- The number of braces opened on a line less those closed. -/
def braceBalance (line : String) : Int :=
  (line.toList.count '{' : Int) - line.toList.count '}'

/-- Whether a definition ends on a line behind which the braces opened since its start number
`depth`. -/
def closes (line : String) (depth : Int) : Bool :=
  depth ≤ 0 && line.toList.contains '}'

/-- The lines up to the one that ends a definition, and the lines behind it, where `depth` braces
are open. A definition that is cut off goes to the end. -/
def spanDefinition (depth : Int) : Lines → Lines × Lines
  | [] => ([], [])
  | line :: rest =>
    let depth := depth + braceBalance line
    if closes line depth then ([line], rest)
    else
      let (inside, behind) := spanDefinition depth rest
      (line :: inside, behind)

/-- The definition that starts with the first line that defines a name, where `comments` are the
comment lines directly above, last first. -/
def definitionFrom? (name : String) (comments : Lines) : Lines → Option Lines
  | [] => none
  | line :: rest =>
    if defines name line then
      some (comments.reverse ++ (spanDefinition 0 (line :: rest)).1)
    else definitionFrom? name (if Text.startsWith line ";" then line :: comments else []) rest

/-- The definition of a function, with the comments directly above it. -/
def definition? (lines : Lines) (name : String) : Option Lines :=
  definitionFrom? name [] lines

/-- The parts of a text between commas. -/
def splitCommas : List Char → List (List Char)
  | [] => [[]]
  | c :: rest =>
    if c = ',' then [] :: splitCommas rest
    else
      match splitCommas rest with
      | [] => [[c]]
      | part :: parts => (c :: part) :: parts

/-- The functions that a target names: those between its commas, without blanks around them. -/
def targetNames (target : String) : List String :=
  ((splitCommas target.toList).map Text.trim).filterMap fun name =>
    if name.isEmpty then none else some (String.ofList name)

/-- Texts one below the other, with an empty line between any two. -/
def joinParagraphs : List Lines → Lines
  | [] => []
  | [lines] => lines
  | lines :: rest => lines ++ "" :: joinParagraphs rest

/-- The definitions of the functions that a target names. A target that names one function as a
whole has its definition only. -/
def targetDefinitions (lines : Lines) (target : String) : Lines :=
  match definition? lines target with
  | some definition => definition
  | none => joinParagraphs ((targetNames target).filterMap (definition? lines))

/-- Whether a character can stand in a plain name. -/
def isNameChar (c : Char) : Bool :=
  Text.isWord c || c = '-' || c = '$' || c = '.'

/-- The name of the function that a line defines. -/
def definedName? (line : String) : Option String :=
  match afterDefine? line with
  | none => none
  | some ('"' :: tail) =>
    let name := tail.takeWhile (· ≠ '"')
    match tail.dropWhile (· ≠ '"') with
    | _ :: rest =>
      if !name.isEmpty && opensParameters rest then some (String.ofList name) else none
    | [] => none
  | some tail =>
    let name := tail.takeWhile isNameChar
    if !name.isEmpty && opensParameters (tail.dropWhile isNameChar) then
      some (String.ofList name)
    else none

/-- The names of the functions that a text defines, in order. -/
def definedNames (lines : Lines) : List String :=
  lines.filterMap definedName?

/-- The lines of a text that belong to function definitions, where `depth` is the number of open
braces inside a definition and `none` outside. -/
def bodiesFrom : Option Int → Lines → Lines
  | _, [] => []
  | some depth, line :: rest =>
    let depth := depth + braceBalance line
    line :: bodiesFrom (if closes line depth then none else some depth) rest
  | none, line :: rest =>
    if Text.startsWith line "define " then line :: bodiesFrom (some (braceBalance line)) rest
    else bodiesFrom none rest

/-- The lines of a text that belong to function definitions. A line that starts a definition leaves
it open, also where its braces are balanced. -/
def bodies (lines : Lines) : Lines :=
  bodiesFrom none lines

end PassTrace.Ir

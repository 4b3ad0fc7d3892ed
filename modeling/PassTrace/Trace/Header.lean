import PassTrace.Pipeline
import PassTrace.Text.Blank
import PassTrace.Text.Search

/-!
# Headers in a trace

A compiler that prints the module after each pass sets a marker line in front of each dump. The
marker says whether the dump was taken at the start, before a pass or after it, names the pass and
what it ran on, and may say that the dump is left out because nothing changed. A marker whose
wording is not understood is an anomaly and counts as text of the module.
-/

namespace PassTrace.Trace

/-- When a dump was taken. -/
inductive Moment
  | start
  | before
  | after
  deriving DecidableEq, Repr, Inhabited

/-- The name of a moment in listings. -/
def Moment.name : Moment → String
  | .start => "start"
  | .before => "before"
  | .after => "after"

/-- A marker line that was understood. At the start there is no pass, and its name is empty. -/
structure Header where
  moment : Moment
  pass : String
  scope : Scope
  omitted : Bool
  line : String
  deriving DecidableEq, Repr, Inhabited

/-- What a line of a trace is. -/
inductive LineClass
  | text
  | anomaly
  | header (h : Header)
  deriving DecidableEq, Repr

/-- Whether a text is the end of a marker: three stars, perhaps a colon, and blanks around them. -/
def closesMarker (cs : List Char) : Bool :=
  match Text.trimLeft cs with
  | '*' :: '*' :: '*' :: ':' :: rest => rest.all Text.isBlank
  | '*' :: '*' :: '*' :: rest => rest.all Text.isBlank
  | _ => false

/-- The least text in front, of at least one character and on one line, behind which a marker
ends. -/
def upToClose : List Char → Option (List Char)
  | [] => none
  | c :: rest =>
    if c = '\n' then none
    else if closesMarker rest then some [c]
    else (upToClose rest).map (c :: ·)

/-- What a marker says, if the line is one: the text between its opening and its closing stars,
without blanks at the ends. A comment sign may stand in front. -/
def markerText? (line : List Char) : Option (List Char) :=
  let body := Text.trimLeft line
  let body :=
    match body with
    | c :: rest => if c = ';' || c = '#' then Text.trimLeft rest else body
    | [] => []
  ((Text.behind? "*** IR Dump ".toList body).bind upToClose).map Text.trim

/-- The wordings that say that a dump is left out. -/
def omissions : List (List Char) :=
  let words := ["omitted because no change", "filtered out"]
  words.flatMap fun w => [w, "(" ++ w, w ++ ")", "(" ++ w ++ ")"].map String.toList

/-- A text without the wording at its end that says that the dump is left out, and whether there was
one. -/
def splitOmission : List Char → List Char × Bool
  | [] => ([], false)
  | c :: rest =>
    if Text.isBlank c && omissions.contains (Text.trimLeft rest) then ([], true)
    else
      let (kept, omitted) := splitOmission rest
      (c :: kept, omitted)

/-- The longest start of a text, of at least one character, whose rest is accepted, and what it is
accepted as. -/
def splitLast {α : Type} (accept : List Char → Option α) : List Char → Option (List Char × α)
  | [] => none
  | c :: rest =>
    match splitLast accept rest with
    | some (start, a) => some (c :: start, a)
    | none => (accept rest).map ([c], ·)

/-- The shortest start of a text, of at least one character, whose rest is accepted, and what it is
accepted as. -/
def splitFirst {α : Type} (accept : List Char → Option α) : List Char → Option (List Char × α)
  | [] => none
  | c :: rest =>
    match accept rest with
    | some a => some ([c], a)
    | none => (splitFirst accept rest).map fun (start, a) => (c :: start, a)

/-- A text that is not empty. -/
def nonempty? (cs : List Char) : Option (List Char) :=
  if cs.isEmpty then none else some cs

/-- The rest behind the name of a pass that ran on the whole module. -/
def acceptModule (cs : List Char) : Option Unit :=
  if cs = " on [module]".toList then some () else none

/-- The functions in parentheses behind the name of a pass that ran on a call-graph component. -/
def acceptComponent (cs : List Char) : Option (List Char) :=
  (Text.behind? " on (".toList cs).bind fun rest =>
    if rest.getLast? = some ')' then nonempty? rest.dropLast else none

/-- The function behind the name of a pass that ran on a loop. -/
def acceptLoop (cs : List Char) : Option (List Char) :=
  (Text.behind? " on loop ".toList cs).bind fun rest =>
    (splitFirst (fun tail => (Text.behind? " in function ".toList tail).bind nonempty?) rest).map (·.2)

/-- The function behind the name of a pass. -/
def acceptFunction (cs : List Char) : Option (List Char) :=
  (Text.behind? " on ".toList cs).bind nonempty?

/-- The name of a pass without blanks at its ends and without the namespace in front. -/
def passName (cs : List Char) : String :=
  let cs := Text.trim cs
  String.ofList ((Text.behind? "llvm::".toList cs).getD cs)

/-- The characters up to the first parenthesis, if that is a closing one and they are not empty. -/
def upToClosing : List Char → Option (List Char)
  | [] => none
  | c :: rest =>
    if c = '(' || c = ')' then none
    else
      match rest with
      | ')' :: _ => some [c]
      | _ => (upToClosing rest).map (c :: ·)

/-- The text in the last pair of parentheses that holds a text without parentheses. -/
def lastParenthesized : List Char → Option (List Char)
  | [] => none
  | c :: rest =>
    match lastParenthesized rest with
    | some inner => some inner
    | none => if c = '(' then upToClosing rest else none

/-- The name of a pass that says in parentheses what it is called, and nothing of what it ran on. -/
def bareName (cs : List Char) : String :=
  match lastParenthesized cs with
  | some inner => String.ofList (Text.trim inner)
  | none => passName cs

/-- The name of a pass and what it ran on. -/
def passAndScope (cs : List Char) : String × Scope :=
  let within (kind : ScopeKind) (found : List Char × List Char) : String × Scope :=
    (passName found.1, ⟨kind, some (String.ofList (Text.trim found.2))⟩)
  match splitLast acceptModule cs with
  | some (name, _) => (passName name, ⟨.module, none⟩)
  | none =>
    match splitLast acceptComponent cs with
    | some found => within .cgscc found
    | none =>
      match splitLast acceptLoop cs with
      | some found => within .loop found
      | none =>
        match splitLast acceptFunction cs with
        | some found => within .function found
        | none => (bareName cs, ⟨.unknown, none⟩)

/-- The word in front of the first space. -/
def firstWord (cs : List Char) : List Char :=
  cs.takeWhile (· ≠ ' ')

/-- The moment that a word of a marker stands for. -/
def momentOf? (word : List Char) : Option Moment :=
  if word = "After".toList then some .after
  else if word = "Before".toList then some .before
  else none

/-- The header that a marker's text stands for, if it is understood. -/
def headerOf? (line : String) (text : List Char) : Option Header :=
  if text = "At Start".toList then some ⟨.start, "", ⟨.unknown, none⟩, false, line⟩
  else
    match momentOf? (firstWord text), Text.trim (text.drop (firstWord text).length) with
    | some moment, c :: rest =>
      let (body, omitted) := splitOmission (c :: rest)
      let (pass, scope) := passAndScope body
      some ⟨moment, pass, scope, omitted, line⟩
    | _, _ => none

/-- What a line of a trace is. -/
def classify (line : String) : LineClass :=
  match markerText? line.toList with
  | none => .text
  | some text =>
    match headerOf? line text with
    | none => .anomaly
    | some h => .header h

end PassTrace.Trace

import PassTrace.Json.Basic
import PassTrace.Text.Hex
import PassTrace.Text.Quoted

/-!
# Writing JSON text

Three forms: on one line with a blank behind each comma and colon, where strings keep the characters
of all scripts or show them escaped; and over several lines, indented by two blanks a level. A value
is also shown inside messages in a form of its own, with named values capitalised and strings quoted
as in other messages.
-/

namespace PassTrace.Json

/-- A code unit as an escape. -/
def escapeUnit (n : Nat) : List Char :=
  '\\' :: 'u' :: Text.hexDigits 4 n

/-- The letter that stands for a character behind a backslash. -/
def escapeLetter? (c : Char) : Option Char :=
  if c = '"' || c = '\\' then some c
  else if c = '\x08' then some 'b'
  else if c = '\x0c' then some 'f'
  else if c = '\n' then some 'n'
  else if c = '\r' then some 'r'
  else if c = '\t' then some 't'
  else none

/-- A character inside a string. With `ascii`, characters that do not print in ASCII are escaped, as
one code unit or two; without it only control characters are. -/
def escapeChar (ascii : Bool) (c : Char) : List Char :=
  let n := c.toNat
  match escapeLetter? c with
  | some letter => ['\\', letter]
  | none =>
    if n < 0x20 then escapeUnit n
    else if !ascii || n < 0x7f then [c]
    else if n < 0x10000 then escapeUnit n
    else
      escapeUnit (0xd800 + (n - 0x10000) / 0x400) ++ escapeUnit (0xdc00 + (n - 0x10000) % 0x400)

/-- A string in double quotes. -/
def renderString (ascii : Bool) (s : String) : List Char :=
  '"' :: (s.toList.flatMap (escapeChar ascii) ++ ['"'])

/-- A floating-point number, with the names that JSON text has for those that are not finite. -/
def renderFloat : Binary64 → List Char
  | .nan => "NaN".toList
  | .infinity negative => if negative then "-Infinity".toList else "Infinity".toList
  | x => x.numeral.toList

mutual

/-- A value on one line. -/
def render (ascii : Bool) : Json → List Char
  | null => "null".toList
  | bool b => if b then "true".toList else "false".toList
  | int n => (toString n).toList
  | float x => renderFloat x
  | string s => renderString ascii s
  | array items => '[' :: (renderItems ascii items ++ [']'])
  | object fields => '{' :: (renderFields ascii fields ++ ['}'])

/-- The items of an array on one line. -/
def renderItems (ascii : Bool) : List Json → List Char
  | [] => []
  | [item] => render ascii item
  | item :: rest => render ascii item ++ ',' :: ' ' :: renderItems ascii rest

/-- The fields of an object on one line. -/
def renderFields (ascii : Bool) : Fields → List Char
  | [] => []
  | [(name, item)] => renderString ascii name ++ ':' :: ' ' :: render ascii item
  | (name, item) :: rest =>
    renderString ascii name ++ ':' :: ' ' :: (render ascii item ++
      ',' :: ' ' :: renderFields ascii rest)

end

/-- A line feed and the blanks of an indentation level. -/
def newLine (level : Nat) : List Char :=
  '\n' :: List.replicate (2 * level) ' '

mutual

/-- A value over several lines, where its own first line stands at a level. -/
def renderIndented (level : Nat) : Json → List Char
  | array [] => ['[', ']']
  | array items =>
    '[' :: (indentedItems (level + 1) items ++ (newLine level ++ [']']))
  | object [] => ['{', '}']
  | object fields =>
    '{' :: (indentedFields (level + 1) fields ++ (newLine level ++ ['}']))
  | v => render false v

/-- The items of an array, each on lines of its own. -/
def indentedItems (level : Nat) : List Json → List Char
  | [] => []
  | [item] => newLine level ++ renderIndented level item
  | item :: rest =>
    newLine level ++ (renderIndented level item ++ ',' :: indentedItems level rest)

/-- The fields of an object, each on lines of its own. -/
def indentedFields (level : Nat) : Fields → List Char
  | [] => []
  | [(name, item)] =>
    newLine level ++ (renderString false name ++ ':' :: ' ' :: renderIndented level item)
  | (name, item) :: rest =>
    newLine level ++ (renderString false name ++ ':' :: ' ' :: (renderIndented level item ++
      ',' :: indentedFields level rest))

end

/-- A value on one line, with the characters of all scripts. -/
def line (v : Json) : String :=
  String.ofList (render false v)

/-- A value on one line, in ASCII. -/
def asciiLine (v : Json) : String :=
  String.ofList (render true v)

/-- A value over several lines. -/
def document (v : Json) : String :=
  String.ofList (renderIndented 0 v)

mutual

/-- A value inside a message. -/
def shown : Json → String
  | null => "None"
  | bool b => if b then "True" else "False"
  | int n => toString n
  | float x => x.numeral
  | string s => Text.quoted s
  | array items => "[" ++ shownItems items ++ "]"
  | object fields => "\x7b" ++ shownFields fields ++ "\x7d"

/-- The items of an array inside a message. -/
def shownItems : List Json → String
  | [] => ""
  | [item] => shown item
  | item :: rest => shown item ++ ", " ++ shownItems rest

/-- The fields of an object inside a message. -/
def shownFields : Fields → String
  | [] => ""
  | [(name, item)] => Text.quoted name ++ ": " ++ shown item
  | (name, item) :: rest =>
    Text.quoted name ++ ": " ++ shown item ++ ", " ++ shownFields rest

end

/-- A value inside a message, where a string stands without quotes. -/
def plain : Json → String
  | string s => s
  | v => shown v

end PassTrace.Json

import PassTrace.Ir.Function

/-!
# Leaving out debug information

Metadata definitions, debug records and calls of debug intrinsics take whole lines and are dropped;
references to debug locations at the end of instructions are cut out of their lines.
-/

namespace PassTrace.Ir

/-- Whether a word and an opening parenthesis come first. -/
def callsWord (cs : List Char) : Bool :=
  match cs.takeWhile Text.isWord, cs.dropWhile Text.isWord with
  | _ :: _, '(' :: _ => true
  | _, _ => false

/-- Whether a line is a debug record. -/
def isDebugRecord (line : String) : Bool :=
  match line.toList with
  | [] => false
  | c :: rest =>
    Text.isBlank c && (Text.behind? "#dbg_".toList (Text.trimLeft rest)).any callsWord

/-- Whether a line calls a debug intrinsic. -/
def isDebugCall (line : String) : Bool :=
  let body := Text.trimLeft line.toList
  ((Text.behind? "call".toList body).isSome || (Text.behind? "tail call".toList body).isSome) &&
    Text.anyEnd (fun cs => (Text.behind? "@llvm.dbg.".toList cs).any callsWord) line.toList

/-- Whether a line holds debug information only. -/
def isDebugLine (line : String) : Bool :=
  Text.startsWith line "!" || isDebugRecord line || isDebugCall line

/-- Whether a character is an ASCII digit. -/
def isDigit (c : Char) : Bool :=
  '0' ≤ c && c ≤ '9'

/-- What follows a reference to a debug location, if one comes first. -/
def behindLocation? (cs : List Char) : Option (List Char) :=
  (Text.behind? ", !dbg !".toList cs).bind fun rest =>
    if rest.head?.any isDigit then some (rest.dropWhile isDigit) else none

/-- A text without the references to debug locations in it. The first `skip` characters belong to
a reference already met. -/
def cutLocations (skip : Nat) : List Char → List Char
  | [] => []
  | c :: rest =>
    match skip with
    | k + 1 => cutLocations k rest
    | 0 =>
      match behindLocation? (c :: rest) with
      | some tail => cutLocations (rest.length - tail.length) rest
      | none => c :: cutLocations 0 rest

/-- The lines without debug information, and the number of lines dropped. -/
def withoutDebugInfo (lines : Lines) : Lines × Nat :=
  let kept := lines.filter fun line => !isDebugLine line
  (kept.map fun line => String.ofList (cutLocations 0 line.toList), lines.length - kept.length)

end PassTrace.Ir

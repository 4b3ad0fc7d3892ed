import PassTrace.Ir.Function
import PassTrace.Number.Integer

/-!
# Counting what a module's text holds

Each line counts at most once as a function, a label or an instruction; of the instructions, phi
nodes, calls, loads and stores are counted too. The text of counts shows them beside their change.
-/

namespace PassTrace.Ir

/-- Whether a line is a label: a name with a colon, and perhaps a comment behind it. -/
def isLabel (line : String) : Bool :=
  let cs := line.toList
  match cs.takeWhile isNameChar, cs.dropWhile isNameChar with
  | _ :: _, ':' :: rest =>
    match Text.trimLeft rest with
    | [] => true
    | c :: comment =>
      c = ';' && !(if comment.getLast? = some '\n' then comment.dropLast else comment).contains '\n'
  | _, _ => false

/-- Whether a text starts with a given word. -/
def startsWithWord (cs : List Char) (word : String) : Bool :=
  (Text.behind? word.toList cs).any Text.endsWord

/-- The words that instructions without a result start with. -/
def instructionWords : List String :=
  ["store", "ret", "br", "call", "invoke", "switch", "unreachable", "tail call", "musttail call"]

/-- Whether a line is an instruction: indented, and either the definition of a value or started by
one of the instruction words. -/
def isInstruction (line : String) : Bool :=
  match line.toList with
  | [] => false
  | c :: rest =>
    let body := Text.trimLeft rest
    Text.isBlank c && (body.head? = some '%' || instructionWords.any (startsWithWord body))

/-- Whether a load follows the name of a value of which some characters were read. -/
def assignsLoad : List Char → Bool
  | [] => false
  | c :: rest =>
    (match Text.trimLeft (c :: rest) with
      | '=' :: tail => startsWithWord (Text.trimLeft tail) "load"
      | _ => false) || (!Text.isBlank c && assignsLoad rest)

/-- Whether a line is indented and defines a value by a load. -/
def isLoad (line : String) : Bool :=
  match line.toList with
  | [] => false
  | c :: rest =>
    Text.isBlank c &&
      match Text.trimLeft rest with
      | '%' :: first :: tail => !Text.isBlank first && assignsLoad tail
      | _ => false

/-- A number, one more if a condition holds. -/
def oneMoreIf (condition : Bool) (n : Int) : Int :=
  if condition then n + 1 else n

/-- The counts with those of a line added. -/
def countLine (counts : Counts) (line : String) : Counts :=
  if Text.startsWith line "define " then { counts with functions := counts.functions + 1 }
  else if isLabel line then { counts with basicBlocks := counts.basicBlocks + 1 }
  else if isInstruction line then
    { counts with
      instructions := counts.instructions + 1
      phiNodes := oneMoreIf (Text.holds line " phi ") counts.phiNodes
      calls := oneMoreIf (Text.holds line "call " || Text.holds line "invoke ") counts.calls
      loads := oneMoreIf (isLoad line) counts.loads
      stores := oneMoreIf (Text.behind? "store".toList (Text.trimLeft line.toList)).isSome counts.stores }
  else counts

/-- The counts of a text. -/
def count (lines : Lines) : Counts :=
  lines.foldl countLine {}

/-- Counts of which some may be missing, by the counters' names. -/
abbrev PartialCounts := List (String × Int)

namespace PartialCounts

/-- The value of a counter, if it is there. -/
def get? (counts : PartialCounts) (name : String) : Option Int :=
  (counts.find? fun entry => entry.1 = name).map (·.2)

/-- How far the counts rose from those before; a counter that was missing before counts from
zero. -/
def delta (before after : PartialCounts) : PartialCounts :=
  after.map fun (name, value) => (name, value - (before.get? name).getD 0)

end PartialCounts

/-- How far counts rose from those before. -/
def delta (before after : Counts) : Counts :=
  Counts.ofFunction fun c => after.get c - before.get c

section Text

variable {m : Type → Type} [Monad m]

/-- All counters, where the value of each is read in the order of the text. -/
def fullText (read : Counter → m Int) : m String := do
  let functions ← read .functions
  let basicBlocks ← read .basicBlocks
  let instructions ← read .instructions
  let phiNodes ← read .phiNodes
  let calls ← read .calls
  let loads ← read .loads
  let stores ← read .stores
  return s!"Fns: {functions} | BBs: {basicBlocks} | Insts: {instructions} | Phis: {phiNodes}" ++
    s!" | Calls: {calls} | Loads: {loads} | Stores: {stores}"

/-- The instructions, blocks and functions. -/
def shortText (read : Counter → m Int) : m String := do
  let instructions ← read .instructions
  let basicBlocks ← read .basicBlocks
  let functions ← read .functions
  return s!"Insts: {instructions} | BBs: {basicBlocks} | Fns: {functions}"

/-- A value with its change in parentheses, unless that is zero. -/
def changeText (value change : Int) : Except IntegerFault String := do
  let text ← Numeral.write value
  if change = 0 then return text
  else
    let sign := if 0 < change then "+" else ""
    return s!"{text} ({sign}{← Numeral.write change})"

/-- The instructions, blocks and functions with their change. A change can be too long to be
written, which ends the text as `refuse` says. -/
def deltaText (refuse : IntegerFault → m String) (read : Counter → m Int)
    (change : Counter → Int) : m String := do
  let changeOf (c : Counter) : m String := do
    match changeText (← read c) (change c) with
    | .ok text => return text
    | .error fault => refuse fault
  let instructions ← changeOf .instructions
  let basicBlocks ← changeOf .basicBlocks
  let functions ← changeOf .functions
  return s!"Insts: {instructions} | BBs: {basicBlocks} | Fns: {functions}"

end Text

end PassTrace.Ir

import PassTrace.Notice

/-!
# The world that operations act on

Operations read and change files, read the clock and give notices. They may fail; what they did
until then stays done.
-/

namespace PassTrace

/-- What is shown to the user. -/
inductive Output
  | line (text : String)
  /-- A session was saved in a file of some bytes. -/
  | saved (path : String) (size : Nat)
  deriving DecidableEq, Repr

/-- Files, the clock, and the notices and the output given so far, last first. -/
structure World where
  files : FileTree
  now : Binary64
  notices : List Notice := []
  output : List Output := []

/-- An operation that acts on the world and may fail. -/
abbrev Operation := ExceptT Failure (StateM World)

namespace Operation

/-- Gives a notice. -/
def notify (notice : Notice) : Operation Unit :=
  modify fun w => { w with notices := notice :: w.notices }

/-- Gives several notices. -/
def notifyAll (notices : List Notice) : Operation Unit :=
  notices.forM notify

/-- Shows something to the user. -/
def display (output : Output) : Operation Unit :=
  modify fun w => { w with output := output :: w.output }

/-- Shows a line to the user. -/
def print (text : String) : Operation Unit :=
  display (.line text)

/-- The time. -/
def clock : Operation Binary64 :=
  return (← get).now

/-- The date. -/
def date : Operation DateTime := do
  match DateTime.ofTimestamp (← clock) with
  | .ok date => return date
  | .error fault => throw (.calendar fault)

/-- Asks the file tree. -/
def askFiles {α : Type} (question : FileTree → Except FileFault α) :
    Operation (Except FileFault α) :=
  return question (← get).files

/-- Changes the file tree, unless the change fails. -/
def changeFiles (change : FileTree → Binary64 → Except FileFault FileTree) :
    Operation (Except FileFault Unit) := do
  let w ← get
  match change w.files w.now with
  | .ok files =>
    set { w with files }
    return .ok ()
  | .error fault => return .error fault

/-- The result of a file operation, where its fault becomes a failure. -/
def orFail {α : Type} (failure : FileFault → Failure) : Except FileFault α → Operation α
  | .ok a => return a
  | .error fault => throw (failure fault)

/-- Refuses a path that cannot be handed to the file system. -/
def usable (p : Path) : Operation Unit := do
  if p.holdsNull then throw .nullInPath

/-- The content of a file. -/
def contents (p : Path) : Operation (Except FileFault Bytes) := do
  usable p
  askFiles (·.read p)

/-- Writes a file. -/
def writeFile (p : Path) (bytes : Bytes) : Operation (Except FileFault Unit) := do
  usable p
  changeFiles fun files now => files.write p bytes now

/-- Removes a file. -/
def removeFile (p : Path) : Operation (Except FileFault Unit) := do
  usable p
  changeFiles fun files _ => files.remove p

/-- Changes the file tree at a path in several steps, which stay done if a later one fails. -/
def changeAt (change : FileTree → Path → FileTree.Change) (p : Path) :
    Operation (Except FileFault Unit) := do
  usable p
  let w ← get
  let (files, fault) := change w.files p
  set { w with files }
  match fault with
  | none => return .ok ()
  | some fault => return .error fault

/-- Makes a directory and those above it, where they are not there. -/
def makeDirectories (p : Path) : Operation (Except FileFault Unit) :=
  changeAt FileTree.ensureDirectories p

/-- Refuses a text that cannot be handed to the file system. -/
def usableText (text : String) : Operation Unit := do
  if text.toList.contains '\x00' then throw .nullInPath

/-- Removes the file that a text names. -/
def removeNamed (text : String) : Operation (Except FileFault Unit) := do
  usableText text
  changeFiles fun files _ => files.removeNamed text

/-- Makes the directory that a text names. -/
def makeNamed (text : String) : Operation (Except FileFault Unit) := do
  usableText text
  changeFiles fun files _ => files.makeNamed text

/-- Makes the directory that a text names, which must not be there, and those above it, where they
are not there: no more than `levels` of them. If one above was not there, a dot at the end names
that one. -/
def makeUpward : (levels : Nat) → (text : List Char) → Operation (Except FileFault Unit)
  | 0, _ => throw .tooManyDirectories
  | levels + 1, text => do
    let (above, name) := Path.cutLast text
    let files := (← get).files
    if above.isEmpty || name.isEmpty || (files.named? (String.ofList above)).isSome then
      makeNamed (String.ofList text)
    else
      match ← makeUpward levels above with
      | .error ⟨.alreadyExists, _⟩ | .ok () =>
        if name = ['.'] then return .ok () else makeNamed (String.ofList text)
      | .error fault => return .error fault

/-- The number of directories that are made at once. -/
def maxDirectories : Nat := 993

/-- Makes the directory that a text names, which must not be there, and those above it, where they
are not there. -/
def makeNewDirectory (text : String) : Operation (Except FileFault Unit) :=
  makeUpward maxDirectories text.toList

/-- Makes the directory in which a file is to be written, and those above it. -/
def makeParents (p : Path) : Operation (Except FileFault Unit) :=
  makeDirectories p.parent

/-- Makes the directory for a file, and writes the file there. -/
def writeBelow (p : Path) (bytes : Bytes) : Operation (Except FileFault Unit) := do
  match ← makeParents p with
  | .ok () => writeFile p bytes
  | .error fault => return .error fault

end Operation
end PassTrace

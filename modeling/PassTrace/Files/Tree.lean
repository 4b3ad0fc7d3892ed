import PassTrace.Files.Path
import PassTrace.Number.Binary64
import PassTrace.Text.Quoted
import PassTrace.Text.Utf8

/-!
# File trees

A file tree is a value: files and directories by their location, which is the list of names from the
root. Operations follow paths from the work directory and say why they fail.
-/

namespace PassTrace

/-- The names on the way from the root. -/
abbrev Location := List String

/-- What stands at a location. -/
inductive Entry
  | directory
  | file (bytes : Bytes) (modified : Binary64)
  deriving DecidableEq, Inhabited

/-- Why an operation on a file fails. -/
inductive FileCause
  | notFound
  | alreadyExists
  | notDirectory
  | isDirectory
  | nameTooLong
  deriving DecidableEq, Repr, Inhabited

/-- The number and the wording of a cause. -/
def FileCause.describe : FileCause → Nat × String
  | .notFound => (2, "No such file or directory")
  | .alreadyExists => (17, "File exists")
  | .notDirectory => (20, "Not a directory")
  | .isDirectory => (21, "Is a directory")
  | .nameTooLong => (36, "File name too long")

/-- A failed operation on the file of a path. -/
structure FileFault where
  cause : FileCause
  path : String
  deriving DecidableEq, Repr, Inhabited

/-- The wording of a fault. -/
def FileFault.message (f : FileFault) : String :=
  let (number, words) := f.cause.describe
  s!"[Errno {number}] {words}: {Text.quoted f.path}"

/-- The entries of a file system other than its root, and the directory that paths start from. -/
structure FileTree where
  entries : List (Location × Entry)
  work : Location
  deriving Inhabited

namespace FileTree

/-- A tree that holds an empty work directory of one name. -/
def empty (work : String) : FileTree :=
  ⟨[([work], .directory)], [work]⟩

/-- The entry at a location. -/
def at? (t : FileTree) (place : Location) : Option Entry :=
  if place.isEmpty then some .directory
  else (t.entries.find? fun e => e.1 = place).map (·.2)

/-- The tree with an entry put at a location. -/
def put (t : FileTree) (place : Location) (entry : Entry) : FileTree :=
  { t with entries := (place, entry) :: t.entries.filter fun e => e.1 ≠ place }

/-- The tree without the entry at a location. -/
def erase (t : FileTree) (place : Location) : FileTree :=
  { t with entries := t.entries.filter fun e => e.1 ≠ place }

/-- The location that a name leads to. -/
def enter (place : Location) (name : String) : Location :=
  if name = "." then place else if name = ".." then place.dropLast else place ++ [name]

/-- The greatest length of a name, in bytes. -/
def maxNameBytes : Nat := 255

/-- The greatest length of a path's text, in bytes. -/
def maxPathBytes : Nat := 4095

/-- The location that names lead to. All but the last must be directories; the last need not be
there. -/
def follow (t : FileTree) (place : Location) : List String → Except FileCause Location
  | [] => .ok place
  | name :: rest =>
    match t.at? place with
    | none => .error .notFound
    | some (.file ..) => .error .notDirectory
    | some .directory =>
      if maxNameBytes < name.utf8ByteSize then .error .nameTooLong
      else t.follow (enter place name) rest

/-- Where paths with an anchor start. -/
def start (t : FileTree) : Anchor → Location
  | .work => t.work
  | .root | .doubleRoot => []

/-- The location of a path. -/
def locate (t : FileTree) (p : Path) : Except FileCause Location :=
  if maxPathBytes < p.toString.utf8ByteSize then .error .nameTooLong
  else t.follow (t.start p.anchor) p.parts

/-- The entry of a path. -/
def lookUp (t : FileTree) (p : Path) : Except FileCause Entry := do
  let place ← t.locate p
  match t.at? place with
  | none => .error .notFound
  | some entry => return entry

/-- Whether there is anything at a path. -/
def has (t : FileTree) (p : Path) : Except FileFault Bool :=
  if p.holdsNull then .ok false
  else
    match t.lookUp p with
    | .ok _ => .ok true
    | .error .nameTooLong => .error ⟨.nameTooLong, p.toString⟩
    | .error _ => .ok false

/-- Whether a path leads to a directory. -/
def isDirectory (t : FileTree) (p : Path) : Bool :=
  match t.lookUp p with
  | .ok .directory => true
  | _ => false

/-- The location that a text leads to when the system is given it as it is. -/
def locateText (t : FileTree) (text : String) : Except FileCause Location :=
  if text.isEmpty then .error .notFound
  else if maxPathBytes < text.utf8ByteSize then .error .nameTooLong
  else t.follow (t.start (Path.anchorOf text)) (Path.stepsOf text)

/-- The entry that a text names. A slash at its end asks for a directory. -/
def named? (t : FileTree) (text : String) : Option Entry :=
  match t.locateText text with
  | .error _ => none
  | .ok place => (t.at? place).filter fun entry => entry = .directory || !Path.asksDirectory text

/-- Whether a text names a file. -/
def isFile (t : FileTree) (text : String) : Bool :=
  match t.named? text with
  | some (.file ..) => true
  | _ => false

/-- The content of a file. -/
def read (t : FileTree) (p : Path) : Except FileFault Bytes :=
  match t.lookUp p with
  | .error cause => .error ⟨cause, p.toString⟩
  | .ok .directory => .error ⟨.isDirectory, p.toString⟩
  | .ok (.file bytes _) => .ok bytes

/-- The tree with a file written, in place of one that was there. -/
def write (t : FileTree) (p : Path) (bytes : Bytes) (now : Binary64) :
    Except FileFault FileTree :=
  match t.locate p with
  | .error cause => .error ⟨cause, p.toString⟩
  | .ok place =>
    match t.at? place with
    | some .directory => .error ⟨.isDirectory, p.toString⟩
    | _ => .ok (t.put place (.file bytes now))

/-- The tree without the file at the location to which a text leads. -/
def removeAt (t : FileTree) (text : String) : Except FileCause Location → Except FileFault FileTree
  | .error cause => .error ⟨cause, text⟩
  | .ok place =>
    match t.at? place with
    | none => .error ⟨.notFound, text⟩
    | some .directory => .error ⟨.isDirectory, text⟩
    | some (.file ..) =>
      if Path.asksDirectory text then .error ⟨.notDirectory, text⟩ else .ok (t.erase place)

/-- The tree without the file of a path. -/
def remove (t : FileTree) (p : Path) : Except FileFault FileTree :=
  t.removeAt p.toString (t.locate p)

/-- The tree without the file that a text names. -/
def removeNamed (t : FileTree) (text : String) : Except FileFault FileTree :=
  t.removeAt text (t.locateText text)

/-- The tree with one directory made at the location to which a text leads. -/
def makeAt (t : FileTree) (text : String) : Except FileCause Location → Except FileFault FileTree
  | .error cause => .error ⟨cause, text⟩
  | .ok place =>
    match t.at? place with
    | some _ => .error ⟨.alreadyExists, text⟩
    | none => .ok (t.put place .directory)

/-- The tree with one directory made. -/
def makeDirectory (t : FileTree) (p : Path) : Except FileFault FileTree :=
  t.makeAt p.toString (t.locate p)

/-- The tree with the directory made that a text names. -/
def makeNamed (t : FileTree) (text : String) : Except FileFault FileTree :=
  t.makeAt text (t.locateText text)

/-- The tree with one directory made, if it is not there. -/
def ensureDirectory (t : FileTree) (p : Path) : Except FileFault FileTree :=
  match t.makeDirectory p with
  | .ok t => .ok t
  | .error fault => if t.isDirectory p then .ok t else .error fault

/-- What comes of a change of several steps: the tree as far as the change went, and the fault that
ended it. -/
abbrev Change := FileTree × Option FileFault

/-- The tree after one step of a change. -/
def afterStep (t : FileTree) : Except FileFault FileTree → Change
  | .ok t => (t, none)
  | .error fault => (t, some fault)

/-- The tree with the directory of a path made, and those above it, where they are not there. The
names of the path come last first. -/
def ensureUpward (t : FileTree) (anchor : Anchor) : List String → Change
  | [] => t.afterStep (t.ensureDirectory ⟨anchor, []⟩)
  | name :: above =>
    let p : Path := ⟨anchor, (name :: above).reverse⟩
    match t.makeDirectory p with
    | .ok t => (t, none)
    | .error fault =>
      if fault.cause = .notFound then
        match t.ensureUpward anchor above with
        | (t, none) => t.afterStep (t.ensureDirectory p)
        | (t, some fault) => (t, some fault)
      else t.afterStep (t.ensureDirectory p)

/-- The tree with the directory of a path made, and those above it, where they are not there. -/
def ensureDirectories (t : FileTree) (p : Path) : Change :=
  t.ensureUpward p.anchor p.parts.reverse

/-- The location that names lead to when nothing is looked up: two dots always lead back. -/
def resolveNames (place : Location) (names : List String) : Location :=
  names.foldl enter place

/-- The path from the root that a path stands for. -/
def resolve (t : FileTree) (p : Path) : Path :=
  ⟨.root, resolveNames (t.start p.anchor) p.parts⟩

/-- The paths of all entries below the work directory, those of directories with a slash at the end,
in the order of their texts. -/
def listing (t : FileTree) : List String :=
  let below := t.entries.filterMap fun (place, entry) =>
    if t.work.isPrefixOf place && place ≠ t.work then
      let text := "/".intercalate (place.drop t.work.length)
      some (match entry with
        | .directory => text ++ "/"
        | .file .. => text)
    else none
  below.mergeSort fun a b => !(b < a)

end FileTree
end PassTrace

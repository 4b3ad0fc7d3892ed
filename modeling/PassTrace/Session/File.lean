import PassTrace.Codec.Sha256
import PassTrace.Session.Decode
import PassTrace.Session.Encode
import PassTrace.World

/-!
# Session files

A file whose name ends in `.gz` holds a compressed payload, any other the payload itself. With a
session goes a record of its source file, against which the file is checked when the session is
loaded.
-/

namespace PassTrace

/-- Runs a computation that gives notices. -/
def Operation.report {α : Type} (computation : Reporting α) : Operation α := do
  let (result, notices) := (computation.run).run []
  Operation.notifyAll notices.reverse
  match result with
  | .ok a => return a
  | .error failure => throw failure

namespace SourceFile

open Operation

/-- The record of a source file: its path, and if it can be read its checksum and when it was last
changed. -/
def record (p : Path) : Operation Json.Fields := do
  usable p
  let files := (← get).files
  let resolved := files.resolve p
  let file : Json.Fields := [("file", .string resolved.toString)]
  match files.lookUp resolved with
  | .ok (.file bytes modified) =>
    return file ++ [("checksum", .string (Sha256.hexDigest bytes)), ("mtime", .float modified)]
  | .ok .directory =>
    notify (.noChecksum resolved.toString ⟨.isDirectory, resolved.toString⟩)
    return file
  | .error cause =>
    notify (.noChecksum resolved.toString ⟨cause, resolved.toString⟩)
    return file

/-- The greatest number of an open file. -/
def greatestDescriptor : Int := 2147483647

/-- The text of a path, if a value is one. A number stands for an open file, none of which is a
regular file. -/
def pathText? : Json → Except Failure (Option String)
  | .string text => .ok (some text)
  | .bool _ => .ok none
  | .int n =>
    if greatestDescriptor < n then .error (.descriptor .tooGreat)
    else if n < -greatestDescriptor - 1 then .error (.descriptor .tooSmall)
    else .ok none
  | _ => .error .wrongKind

/-- The date of a value; one that is no number has none. -/
def dateOf (timestamp : Json) : Except Failure (Option DateTime) :=
  let dated (d : Except CalendarFault DateTime) : Except Failure (Option DateTime) :=
    match d with
    | .ok d => .ok (some d)
    | .error fault => .error (.calendar fault)
  match timestamp with
  | .int n => dated (DateTime.ofSecond n 0)
  | .bool b => dated (DateTime.ofSecond (if b then 1 else 0) 0)
  | .float x => dated (DateTime.ofTimestamp x)
  | _ => .ok none

/-- How the source file of a session departs from its record, if it does. -/
def drift (files : FileTree) (m : Metadata) : Except Failure (Option Drift) := do
  let file := m.source.get "file"
  if file.isVoid then return none
  match ← pathText? file with
  | none => return some (.missing file)
  | some text =>
    if !files.isFile text then return some (.missing file)
    let saved := m.source.get "checksum"
    if saved.isVoid then return none
    match files.read (Path.ofString text) with
    | .error fault => return some (.unreadable file fault)
    | .ok bytes =>
      let current := Sha256.hexDigest bytes
      if saved.asString? = some current then return none
      return some (.changed (← dateOf m.timestamp) file saved current)

end SourceFile

namespace Session

open Operation

/-- Whether files of a name are compressed. -/
def isCompressed (p : Path) : Bool :=
  p.suffix = ".gz"

/-- The bytes of a session file that is written at a time, or those to which it is cut short by a
failure. -/
def fileBytes (p : Path) (now : Binary64) (payload : String) : Except (Bytes × Failure) Bytes :=
  let bytes := Text.utf8 payload
  let cutShort (failure : Failure) : Bytes × Failure := (Gzip.cutShort p.name, failure)
  if isCompressed p then
    match now.truncate with
    | .error fault => .error (cutShort (.integer fault))
    | .ok second =>
      match Gzip.timeOf second with
      | .error fault => .error (cutShort (.fileTime fault))
      | .ok time => .ok (Gzip.compress p.name time bytes)
  else .ok bytes

/-- Writes a pipeline with its origin to a file, and returns the file's size. -/
def saveFile (p : Path) (pipeline : Pipeline) (source compilation : Json.Fields) : Operation Nat := do
  notifyAll (payloadNotices pipeline)
  let now ← clock
  let write (bytes : Bytes) : Operation Unit := do
    orFail (.sessionFile p.toString) (← writeBelow p bytes)
  match encode now pipeline source compilation with
  | .error failure => throw failure
  | .ok payload =>
    match fileBytes p now payload with
    | .ok bytes =>
      write bytes
      return bytes.length
    | .error (bytes, failure) =>
      write bytes
      throw failure

/-- Reads the session of a file. -/
def loadFile (p : Path) : Operation Session := do
  match ← contents p with
  | .error fault => throw (.sessionFile p.toString fault)
  | .ok bytes =>
    if isCompressed p then
      match Gzip.decompress bytes with
      | .error fault => throw (.corrupt (.unreadableFile p.name fault) none)
      | .ok bytes => report (decode (.bytes bytes))
    else report (decode (.bytes bytes))

end Session
end PassTrace

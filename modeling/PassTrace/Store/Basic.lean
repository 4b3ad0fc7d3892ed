import PassTrace.Session.File
import PassTrace.Store.Index
import PassTrace.Text.Line

/-!
# Stores of sessions

A store keeps sessions by source file in a directory of its own, with an index of them. Of each
source file only the newest sessions are kept; old ones can be cleaned up. Beside the sessions of a
source file stands the name of the one saved last.
-/

namespace PassTrace

/-- A store below a directory. -/
structure Store where
  root : Path
  config : Config

namespace Store

open Operation

/-- The file of the index. -/
def indexPath (s : Store) : Path :=
  s.root.join "metadata.json"

/-- The directory of the sessions of a source file, or that of all sessions. -/
def sessionDirectory (s : Store) (source : Option String) : Path :=
  let base := s.root.join "sessions"
  match source with
  | none => base
  | some source => if source.isEmpty then base else base.join (Path.ofString source).stem

/-- The name of the file beside the sessions that holds the name of the last one. -/
def latestName : String := "latest"

/-- The result of a pure step. -/
def orThrow {α : Type} : Except Failure α → Operation α
  | .ok a => return a
  | .error failure => throw failure

/-- The index that the content of its file holds. An index that is not JSON is given up. -/
def readIndex (bytes : Bytes) : Operation Index := do
  match Text.decodeUtf8 bytes with
  | .error fault => throw (.text fault)
  | .ok cs =>
    match Json.parseChars (Text.unifyLineFeeds cs) with
    | .ok v => orThrow (Index.ofJson v)
    | .error (.badInteger fault) => throw (.integer fault)
    | .error (.tooDeep kind) => throw (.tooDeep kind)
    | .error (.badSyntax fault place) =>
      notify (.unreadableIndex fault place)
      return .fresh

/-- The index of a store. -/
def loadIndex (s : Store) : Operation Index := do
  let p := s.indexPath
  if ← orFail .file (← askFiles (·.has p)) then
    readIndex (← orFail (.sessionFile p.toString) (← contents p))
  else return .fresh

/-- Writes the index of a store. -/
def saveIndex (s : Store) (index : Index) : Operation Unit := do
  let p := s.indexPath
  let text := (Json.object index.fields).document
  orFail (.sessionFile p.toString) (← writeBelow p (Text.utf8 text))

/-- The end of the names of session files. -/
def extension (s : Store) : String :=
  if s.config.compressSessions then ".json.gz" else ".json"

/-- The optimization level as a part of a file name. -/
def levelSuffix (level : Json) : Except Failure String :=
  if level.isVoid then .ok ""
  else
    match level with
    | .string text => .ok ("-" ++ String.ofList (text.toList.dropWhile (· = '-')))
    | _ => .error .lacksOperation

/-- The name of the file for a new session: the name asked for, or else the date and the
optimization level. -/
def fileName (s : Store) (name : Option String) (level : Json) : Operation String := do
  match name.filter fun name => !name.isEmpty with
  | some name =>
    if name.endsWith ".json" || name.endsWith ".json.gz" then return name
    else return name ++ s.extension
  | none =>
    let date ← Operation.date
    return date.fileText ++ (← orThrow (levelSuffix level)) ++ s.extension

/-- Deletes the file of a session, if one is named and it is there. -/
def deleteFile (file : Json) : Operation Unit := do
  if file.isVoid then return ()
  let p ← orThrow (Index.pathOf file)
  match ← removeFile p with
  | .ok () => return ()
  | .error fault =>
    if fault.cause = .notFound then return ()
    else notify (.notDeleted file.plain fault)

/-- The list of the sessions of a source file to which a new one is added, without those in a file.
The value must be a list of sessions. -/
def sessionsBeside (file : String) (list : Json) : Except Failure (List Json.Fields) := do
  let entries ← Index.entries list
  match list with
  | .array _ => return entries.filter fun entry => (entry.get "file").asString? ≠ some file
  | _ => .error .wrongKind

/-- The number of sessions to keep, which must be one. -/
def limit (s : Store) : Except Failure Int :=
  match s.config.maxSessions with
  | some n => .ok n
  | none => .error .wrongKind

/-- Saves a pipeline as a session of a source file, and returns the file's path. -/
def save (s : Store) (p : Pipeline) (source : String) (compilation : Json.Fields)
    (name : Option String) : Operation Path := do
  if p.size = 0 then throw .noPasses
  let record ← SourceFile.record (Path.ofString source)
  let directory := s.sessionDirectory (some source)
  let level := compilation.get "opt_level"
  let fileName ← s.fileName name level
  let path := directory.join fileName
  let size ← Session.saveFile path p record compilation
  let index ← s.loadIndex
  let key := (Path.ofString source).name
  let others ← orThrow (sessionsBeside path.toString (index.sessionsOf key))
  let entry : Json.Fields := [
    ("timestamp", .float (← clock)),
    ("name", Json.ofOption .string name),
    ("opt_level", level),
    ("checksum", record.get "checksum"),
    ("file", .string path.toString),
    ("size", .int size),
    ("passes", .int p.size),
    ("changed_passes", .int p.changedCount)]
  let all := entry :: others
  let kept := Index.dropPlace (← orThrow s.limit) all.length
  (all.drop kept).forM fun old => deleteFile (old.get "file")
  s.saveIndex (index.setSessions key (.array ((all.take kept).map .object)))
  match ← writeFile (directory.join latestName) (Text.utf8 fileName) with
  | .ok () => return path
  | .error fault =>
    notify (.latestNotWritten fault)
    return path

/-- The sessions of a source file, newest first. -/
def listSessions (s : Store) (source : String) : Operation (List Json.Fields) := do
  orThrow ((← s.loadIndex).listSessions (Path.ofString source).name)

/-- The sessions of all source files, newest first. -/
def listAll (s : Store) : Operation (List Json.Fields) := do
  orThrow (← s.loadIndex).listAll

/-- The session of a source file that a query asks for. -/
def find (s : Store) (source : String) (query : Index.Query) : Operation Json.Fields := do
  orThrow ((← s.loadIndex).find source query)

/-- Loads the session of a source file that a query asks for. A drift of the source file gives a
notice. -/
def load (s : Store) (source : String) (query : Index.Query) : Operation Session := do
  let entry ← s.find source query
  match Json.Fields.get? entry "file" with
  | none => throw (.missingField "file")
  | some file =>
    let session ← Session.loadFile (← orThrow (Index.pathOf file))
    if let some drift ← orThrow (SourceFile.drift (← get).files session.metadata) then
      notify (.drift drift)
    return session

/-- Deletes the session of a source file that a query asks for: its file, and all that the index
lists of the source file for the same file. -/
def delete (s : Store) (source : String) (query : Index.Query) : Operation Json.Fields := do
  let entry ← s.find source query
  let file := entry.get "file"
  deleteFile file
  let index ← s.loadIndex
  let key := (Path.ofString source).name
  let entries ← orThrow (Index.entries (index.sessionsOf key))
  let kept := entries.filter fun other => !(other.get "file").equal file
  s.saveIndex (index.setSessions key (.array (kept.map .object)))
  return entry

/-- The time before which sessions are as old as an age in days, which must be a number. -/
def cutoff (now : Binary64) : Option Json.Number → Except Failure Binary64
  | none => .error .wrongKind
  | some (.int days) =>
    match Binary64.ofInt? (days * 24 * 60 * 60) with
    | some seconds => .ok (now.sub seconds)
    | none => .error .beyondFloats
  | some (.float days) =>
    let number (n : Nat) : Binary64 := .ofFraction false n 1
    .ok (now.sub (((days.mul (number 24)).mul (number 60)).mul (number 60)))

/-- Whether a session was saved before a time. -/
def isOld (limit : Binary64) (entry : Json.Fields) : Except Failure Bool :=
  match entry.get "timestamp" with
  | .null => .ok false
  | timestamp =>
    match timestamp.asNumber? with
    | some n => .ok (n.less (.float limit))
    | none => .error .wrongKind

/-- Deletes the files of the sessions in a list that were saved before a time. Returns those that
are kept and the number of those deleted. -/
def cleanList (limit : Binary64) : List Json → Operation (List Json × Nat)
  | [] => return ([], 0)
  | item :: rest => do
    let entry ← orThrow (Index.readable item)
    if ← orThrow (isOld limit entry) then
      deleteFile (entry.get "file")
      let (kept, deleted) ← cleanList limit rest
      return (kept, deleted + 1)
    else
      let (kept, deleted) ← cleanList limit rest
      return (item :: kept, deleted)

/-- Cleans up the lists of several source files. -/
def cleanLists (limit : Binary64) (index : Index) : List String → Operation (Index × Nat)
  | [] => return (index, 0)
  | key :: rest => do
    let items ← orThrow (Index.items (index.sessionsOf key))
    let (kept, deleted) ← cleanList limit items
    let (index, more) ← cleanLists limit (index.setSessions key (.array kept)) rest
    return (index, deleted + more)

/-- Deletes the sessions, of one source file or of all, that are older than an age or, if that is
null, than the configured one. Returns their number. -/
def cleanUp (s : Store) (source : Option String) (age : Json) : Operation Nat := do
  let age :=
    match age with
    | .null => s.config.maxAge
    | age => age.asNumber?
  let limit ← orThrow (cutoff (← clock) age)
  let index ← s.loadIndex
  let keys :=
    match source.filter fun source => !source.isEmpty with
    | some source => [(Path.ofString source).name]
    | none => index.sessions.map (·.1)
  let (index, deleted) ← cleanLists limit index keys
  s.saveIndex index
  return deleted

/-- The line that shows a session in a list. -/
def entryLine (entry : Json.Fields) : Except Failure String := do
  let date ← SourceFile.dateOf (entry.get "timestamp")
  let saved := (date.map DateTime.listText).getD "unknown time"
  let name := entry.get "name"
  let file := entry.get "file"
  let label ←
    if !name.isVoid then .ok name.plain
    else if file.isVoid then .ok "unnamed"
    else (Index.pathOf file).map Path.name
  let number := (entry.get "index").plain
  let number := String.ofList (List.replicate (3 - number.length) ' ') ++ number
  let passes := (entry.get "passes").plain
  let changed := (entry.get "changed_passes").plain
  return s!"{number}. {saved}  {label}  ({passes} passes, {changed} changed)"

/-- The lines that show the sessions of a source file, newest first, where each is made when it is
shown. -/
def listing (s : Store) (source : String) : Operation (List (Except Failure String)) := do
  let entries ← s.listSessions source
  if entries.isEmpty then return [.ok s!"No stored sessions for {source}"]
  else return entries.map entryLine

end Store
end PassTrace

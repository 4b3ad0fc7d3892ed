import PassTrace.CommandLine.Run
import Std.Time.DateTime.Timestamp

/-!
# The program

Takes up the files that a run can touch, lets the run act on them, and carries its changes out.
-/

namespace PassTrace.Program

/-- The directory that the program runs in. -/
def workPath : IO Path :=
  return Path.ofString (← IO.currentDir).toString

/-- A time in seconds. -/
def secondsOf (seconds : Int) (nanoseconds : Nat) : Binary64 :=
  let total := seconds * 1000000000 + nanoseconds
  .ofFraction (total < 0) total.natAbs 1000000000

/-- Takes up the entry at a location, and all below it to a depth. -/
def takeUp : Nat → FileTree → Location → IO FileTree
  | 0, files, _ => return files
  | depth + 1, files, place => do
    let path := (← IO.currentDir) / (Path.mk .root place).toString
    if ← path.isDir then
      let mut files := files.put place .directory
      for entry in ← path.readDir do
        files ← takeUp depth files (place ++ [entry.fileName])
      return files
    else if ← path.pathExists then
      let bytes ← IO.FS.readBinFile path
      let modified := (← path.metadata).modified
      return files.put place (.file bytes.toList (secondsOf modified.sec modified.nsec.toNat))
    else return files

/-- The depth to which the directory of the store is taken up. -/
def storeDepth : Nat := 8

/-- Takes up the directories on the way to a path, and what is there to a depth. -/
def takeUpPath (depth : Nat) (files : FileTree) (p : Path) : IO FileTree := do
  let place := (files.resolve p).parts
  let files ← (List.range place.length).foldlM (fun files k => takeUpDirectory files (place.take k))
    files
  takeUp depth files place
where
  /-- Takes up a directory without what is in it. -/
  takeUpDirectory (files : FileTree) (place : Location) : IO FileTree := do
    if place.isEmpty then return files
    let path := (← IO.currentDir) / (Path.mk .root place).toString
    if ← path.isDir then return files.put place .directory else return files

/-- Takes up the files that options name, with the store and the source files of sessions. -/
def filesOf (o : CommandLine.Options) : IO FileTree := do
  let work ← workPath
  let files ← takeUpPath 1 ⟨[], work.parts⟩ (work.join "x")
  let named := [o.trace, o.session, o.save, o.sourceFile, o.report, o.logFile].filterMap
    fun text => text.bind CommandLine.Argument.value?
  let files ← named.foldlM (fun files text => takeUpPath 2 files (Path.ofString text)) files
  takeUpPath storeDepth files (Path.ofString o.config.sessionDirectory)

/-- Takes up the source file of the session that is loaded. -/
def withSource (o : CommandLine.Options) (files : FileTree) : IO FileTree := do
  match o.session.bind CommandLine.Argument.value? with
  | none => return files
  | some text =>
    let (result, _) := (Session.loadFile (Path.ofString text)).run.run { files, now := .zero }
    match result with
    | .error _ => return files
    | .ok s =>
      match s.metadata.source.get "file" with
      | .string source => takeUpPath 1 files (Path.ofString source)
      | _ => return files

/-- Carries out the changes from one file tree to another. -/
def carryOut (before after : FileTree) : IO Unit := do
  for (place, _) in before.entries do
    if (after.at? place).isNone then
      IO.FS.removeFile ((← IO.currentDir) / (Path.mk .root place).toString)
  let byDepth := after.entries.mergeSort fun e e' => e.1.length ≤ e'.1.length
  for (place, entry) in byDepth do
    if before.at? place ≠ some entry then
      let path := (← IO.currentDir) / (Path.mk .root place).toString
      match entry with
      | .directory => IO.FS.createDirAll path
      | .file bytes _ => IO.FS.writeBinFile path (ByteArray.mk bytes.toArray)

/-- The text of what is shown to the user after some time, in milliseconds. -/
def outputText (elapsed : Nat) : Output → String
  | .line text => text
  | .saved path size => s!"Session saved to: {path} ({size} bytes, {elapsed}.0 ms)"

/-- What the program says about its options. -/
def usage : String :=
  "usage: passtrace (--trace FILE | --session FILE) [--save FILE] [--source-file FILE] [--store]\n" ++
    "  [--list-sessions] [--list] [--show N] [--next-changed N] [--stats] [--report FILE]\n" ++
    "  [--strip-debug-metadata] [--log-file FILE] [--verbose] [--quiet]"

/-- Runs the program with options that were understood. -/
def runWith (arguments : List String) (o : CommandLine.Options) : IO UInt32 := do
  let start ← IO.monoMsNow
  let files ← withSource o (← filesOf o)
  let time ← Std.Time.Timestamp.now
  let now := secondsOf 0 time.toNanosecondsSinceUnixEpoch.val.toNat
  let (result, world) := (CommandLine.run arguments).run.run { files, now }
  carryOut files world.files
  let elapsed := (← IO.monoMsNow) - start
  for output in world.output.reverse do
    IO.println (outputText elapsed output)
  if o.has .verbose then
    for notice in world.notices.reverse do
      IO.eprintln notice.message
  match result with
  | .ok (.exit code) => return code.toUInt32
  | .ok (.usage ending) => return ending.exitCode.toUInt32
  | .error failure =>
    IO.eprintln s!"error: {failure.message}"
    return 1

end PassTrace.Program

/-- Shows what the passes of an optimizer did, from a trace or a saved session. -/
def main (arguments : List String) : IO UInt32 := do
  match PassTrace.CommandLine.readOptions arguments with
  | .ok o => PassTrace.Program.runWith arguments o
  | .error ending =>
    IO.println PassTrace.Program.usage
    return ending.exitCode.toUInt32

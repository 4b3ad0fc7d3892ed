import PassTrace.Failure
import PassTrace.Snapshot.Resolver

/-!
# Notices

What an operation remarks on without failing: texts that cannot be found, stored values that are
dropped, files that cannot be written although nothing depends on them.
-/

namespace PassTrace

/-- How the source file of a session departs from what the session recorded. -/
inductive Drift
  /-- There is no such file. -/
  | missing (file : Json)
  | unreadable (file : Json) (fault : FileFault)
  /-- The file's checksum is another one. The date is that of the session, if it has one. -/
  | changed (savedAt : Option DateTime) (file saved : Json) (current : String)

/-- The wording of a drift. -/
def Drift.message : Drift → String
  | .missing file => s!"Source file not found: {file.plain}"
  | .unreadable file fault => s!"Failed to read source file {file.plain}: {fault.message}"
  | .changed savedAt file saved current =>
    let date := (savedAt.map DateTime.isoText).getD "unknown time"
    s!"Source file has changed since session was saved ({date})\n" ++
      s!"File: {file.plain}\n" ++
      s!"Saved checksum: {saved.plain}\n" ++
      s!"Current checksum: {current}"

/-- A remark on something that did not go as expected. -/
inductive Notice
  | gap (gap : Gap)
  /-- A view of a pass that is not there. -/
  | noPass (index : Int) (size : Nat)
  /-- A pass that is saved with an empty text since its reference leads nowhere. -/
  | notSaved (position : Nat) (target : Int)
  | malformedCounts (position : Nat)
  | malformedChange (position : Nat)
  | noChecksum (path : String) (fault : FileFault)
  | unreadableIndex (fault : Json.SyntaxFault) (place : Json.Place)
  | drift (drift : Drift)
  | notDeleted (file : String) (fault : FileFault)
  | latestNotWritten (fault : FileFault)
  | reportNotWritten (fault : FileFault)
  | diffNotWritten (failure : Failure)

/-- The wording of a notice. -/
def Notice.message : Notice → String
  | .gap g => g.message
  | .noPass index size => s!"No pass at index {index} (pipeline has {size})"
  | .notSaved position target =>
    s!"Pass {position} references invalid index {target}; storing as empty snapshot"
  | .malformedCounts position => s!"Ignoring malformed stats on pass {position}"
  | .malformedChange position => s!"Ignoring malformed diff_stats on pass {position}"
  | .noChecksum path fault => s!"Could not checksum source file {path}: {fault.message}"
  | .unreadableIndex fault place =>
    s!"Session index is unreadable, starting a new one: {(Json.Fault.badSyntax fault place).message}"
  | .drift d => d.message
  | .notDeleted file fault => s!"Could not delete session file {file}: {fault.message}"
  | .latestNotWritten fault => s!"Could not update latest pointer: {fault.message}"
  | .reportNotWritten fault => s!"Failed to save JSON report: {fault.message}"
  | .diffNotWritten failure => s!"Failed to save diff file: {failure.message}"

end PassTrace

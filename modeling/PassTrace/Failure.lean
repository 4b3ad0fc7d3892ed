import PassTrace.Calendar
import PassTrace.Config
import PassTrace.Damage
import PassTrace.Files.Tree
import PassTrace.Json.Writable

/-!
# Failures

The reasons for which an operation gives no result. Sessions that cannot be read are damaged, of a
newer kind, or in a file that cannot be used; sessions that are asked for may be absent. The other
failures come from arguments and stored values that do not have the form that is needed.
-/

namespace PassTrace

/-- The version of the session format that is read and written. -/
def schemaVersion : Nat := 1

/-- A session that is not in the store. -/
inductive MissingSession
  | none (source : String)
  | atIndex (index : Json)
  | named (key : String)

/-- The wording for a missing session. -/
def MissingSession.message : MissingSession → String
  | .none source => s!"No saved sessions for {source}"
  | .atIndex index => s!"Session index {index.shown} not found"
  | .named key => s!"Session '{key}' not found"

/-- A number that does not name an open file. -/
inductive DescriptorFault
  | tooGreat
  | tooSmall
  deriving DecidableEq, Repr

/-- The wording of a fault. -/
def DescriptorFault.message : DescriptorFault → String
  | .tooGreat => "fd is greater than maximum"
  | .tooSmall => "fd is less than minimum"

/-- Why an operation fails. -/
inductive Failure
  /-- A session of a version not known yet. -/
  | newerSchema (found : Int)
  /-- A payload that is not a session, with the position of the damage if it has one. -/
  | corrupt (damage : Damage) (position : Option Nat)
  /-- A session or the index of a store that cannot be written or read. -/
  | sessionFile (path : String) (fault : FileFault)
  | noSession (missing : MissingSession)
  | chunkSize (fault : ChunkSizeFault)
  /-- A pipeline to be stored that has no passes. -/
  | noPasses
  | integer (fault : IntegerFault)
  /-- A field that is not there. -/
  | missingField (name : String)
  | unpack (fault : UnpackFault)
  /-- A file whose bytes are not UTF-8. -/
  | text (fault : Text.Utf8Fault)
  | calendar (fault : CalendarFault)
  | file (fault : FileFault)
  /-- A path with a null character. -/
  | nullInPath
  /-- A time that the head of a compressed file cannot hold. -/
  | fileTime (fault : Gzip.TimeFault)
  /-- A JSON value of some kind that is nested too deeply. -/
  | tooDeep (kind : Json.Compound)
  /-- A JSON value beyond the limits of writing. -/
  | notWritten (fault : Json.WriteFault)
  /-- A directory so far below those that are there that it is not made. -/
  | tooManyDirectories
  /-- An integer beyond all floating-point numbers. -/
  | beyondFloats
  | descriptor (fault : DescriptorFault)
  /-- A position outside a list. -/
  | outsideList
  /-- A value that does not have the operation asked of it. -/
  | lacksOperation
  /-- A value of the wrong kind for an operation. -/
  | wrongKind

/-- The failure for settings that are refused. -/
def Failure.ofSetting : SettingFault → Failure
  | .wrongKind => .wrongKind
  | .chunkSize fault => .chunkSize fault

/-- The wording of a failure. The last two have none. -/
def Failure.message : Failure → String
  | .newerSchema found =>
    s!"Unsupported schema version {found} (current: {schemaVersion}); " ++
      "upgrade the inspector to load this session"
  | .corrupt damage none => s!"Corrupt session payload: {damage.message}"
  | .corrupt damage (some position) =>
    s!"Corrupt session payload: {damage.message} (at byte {position})"
  | .sessionFile path fault => s!"Session I/O failed for {path}: {fault.message}"
  | .noSession missing => missing.message
  | .chunkSize fault => fault.message
  | .noPasses => "No passes to save"
  | .integer fault => fault.message
  | .missingField name => Text.quoted name
  | .unpack fault => fault.message
  | .text fault => fault.message
  | .calendar fault => fault.message
  | .file fault => fault.message
  | .nullInPath => "embedded null byte"
  | .fileTime fault => fault.message
  | .tooDeep kind => kind.tooDeepMessage
  | .notWritten fault => fault.message
  | .tooManyDirectories => "maximum recursion depth exceeded"
  | .beyondFloats => "int too large to convert to float"
  | .descriptor fault => fault.message
  | .outsideList => "list index out of range"
  | .lacksOperation | .wrongKind => ""

/-- Whether a session could not be read or written. -/
def Failure.concernsSession : Failure → Bool
  | .newerSchema _ | .corrupt .. | .sessionFile .. => true
  | _ => false

/-- Whether the system could not do what was asked, or a session asked for is not there. -/
def Failure.concernsSystem : Failure → Bool
  | .file _ | .calendar .beyondYears | .noSession _ => true
  | _ => false

/-- Whether a value of the right kind is out of place. -/
def Failure.concernsValue : Failure → Bool
  | .chunkSize _ | .noPasses | .text _ | .nullInPath => true
  | .integer .infinite => false
  | .integer _ | .notWritten (.badInteger _) => true
  | .unpack (.zlib _) => false
  | .unpack _ => true
  | .calendar .notANumber | .calendar (.yearOutOfRange _) => true
  | _ => false

end PassTrace

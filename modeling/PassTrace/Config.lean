import PassTrace.Json.Order
import PassTrace.Json.Printer

/-!
# Configuration

The settings of an inspector and its store, with their defaults. Settings are values with names;
what they mean is a configuration. Work in chunks needs a chunk size of at least one, so settings
are checked before they are used. Other settings may be anything: a flag is set by every value that
is not void, and a number that is none fails only where it is needed.
-/

namespace PassTrace

/-- How pipelines are shown and sessions kept. -/
structure Config where
  /-- Whether views leave out debug information. -/
  stripDebugInfo : Bool := false
  /-- The number of passes whose changes are computed at a time. -/
  chunkSize : Json.Number := .int 50
  /-- The number of passes whose counts are computed at a time. -/
  countsChunkSize : Json.Number := .int 100
  /-- The directory in which sessions are kept. -/
  sessionDirectory : String := ".pipeline-inspector"
  /-- Whether sessions are kept compressed. -/
  compressSessions : Bool := true
  /-- The number of sessions kept for a source file, if it is one. A negative number counts from the
  end. -/
  maxSessions : Option Int := some 10
  /-- The age in days from which on sessions are cleaned up, if it is a number. -/
  maxAge : Option Json.Number := some (.int 30)
  verbose : Bool := false
  quiet : Bool := false
  deriving DecidableEq, Inhabited

/-- A chunk size that is not positive. -/
structure ChunkSizeFault where
  setting : String
  size : Json

/-- The wording of a fault. -/
def ChunkSizeFault.message (f : ChunkSizeFault) : String :=
  s!"{f.setting} must be positive, got {f.size.plain}"

/-- Why settings are refused. -/
inductive SettingFault
  /-- A setting that there is not, or a chunk size that is no number. -/
  | wrongKind
  | chunkSize (fault : ChunkSizeFault)

namespace Settings

/-- What a file of settings holds. -/
def inFile : Json.Fields :=
  [("strip_debug_metadata", .bool false), ("chunk_size", .int 50), ("stats_chunk_size", .int 100),
    ("session_dir", .string ".pipeline-inspector"), ("compress_sessions", .bool true),
    ("max_sessions_per_file", .int 10), ("max_age_days", .int 30)]

/-- All settings with their defaults. -/
def defaults : Json.Fields :=
  inFile ++ [("verbose", .bool false), ("quiet", .bool false)]

/-- All settings, of which some are given. -/
def complete (given : Json.Fields) : Json.Fields :=
  defaults.merge given

/-- The chunk size that a value stands for. A value that is not a number is not less than one. -/
def chunkSize (setting : String) (v : Json) : Except SettingFault Json.Number :=
  match v.asNumber? with
  | none => .error .wrongKind
  | some size => if size.less (.int 1) then .error (.chunkSize ⟨setting, v⟩) else .ok size

/-- The number of sessions to keep that a value stands for; none are kept if there is no value. -/
def maxSessions? (v : Json) : Option Int :=
  match v, v.asNumber? with
  | .null, _ => some 0
  | _, some (.int n) => some n
  | _, _ => none

/-- The configuration of settings of which some are given. -/
def config (given : Json.Fields) : Except SettingFault Config := do
  if given.any fun setting => (defaults.get? setting.1).isNone then .error .wrongKind
  let all := complete given
  let isSet (setting : String) : Bool := !(all.get setting).isVoid
  return {
    chunkSize := ← chunkSize "chunk_size" (all.get "chunk_size")
    countsChunkSize := ← chunkSize "stats_chunk_size" (all.get "stats_chunk_size")
    stripDebugInfo := isSet "strip_debug_metadata"
    sessionDirectory := ((all.get "session_dir").asString?).getD ""
    compressSessions := isSet "compress_sessions"
    maxSessions := maxSessions? (all.get "max_sessions_per_file")
    maxAge := (all.get "max_age_days").asNumber?
    verbose := isSet "verbose"
    quiet := isSet "quiet" }

end Settings
end PassTrace

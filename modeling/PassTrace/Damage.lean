import PassTrace.Codec.Base64
import PassTrace.Codec.Gzip
import PassTrace.Codec.Zlib
import PassTrace.Json.Fault
import PassTrace.Json.Printer
import PassTrace.Text.Encoding

/-!
# Damage in session payloads

A payload that is not read as a session is damaged. The damage says what is missing or malformed and
at which pass or table entry; for a text that is no JSON it comes with a position.
-/

namespace PassTrace

/-- Why a compressed text is not unpacked. -/
inductive UnpackFault
  | base64 (fault : Base64.Fault)
  | zlib (fault : Zlib.Fault)
  | utf8 (fault : Text.Utf8Fault)
  deriving DecidableEq, Repr

/-- The wording of a fault. -/
def UnpackFault.message : UnpackFault → String
  | .base64 fault => fault.message
  | .zlib fault => fault.message
  | .utf8 fault => fault.message

/-- Why an entry of a table of texts is not read. -/
inductive EntryFault
  | unpack (fault : UnpackFault)
  | json (fault : Json.Fault)
  deriving DecidableEq, Repr

/-- The wording of a fault. -/
def EntryFault.message : EntryFault → String
  | .unpack fault => fault.message
  | .json fault => fault.message

/-- What is wrong with a pass of a payload. -/
inductive PassDamage
  | notObject
  | noName
  | noChangedFlag
  | noReference
  | unknownEntry (key : String)
  | unknownScope (kind : Json)
  | badTarget

/-- The wording of the damage. -/
def PassDamage.message : PassDamage → String
  | .notObject => "is not an object"
  | .noName => "has no name"
  | .noChangedFlag => "has no changed flag"
  | .noReference => "has no IR reference"
  | .unknownEntry key => s!"references unknown IR entry {Text.quoted key}"
  | .unknownScope kind => s!"has unknown scope type {kind.shown}"
  | .badTarget => "has a non-string scope target"

/-- What is wrong with a payload. -/
inductive Damage
  | badJson (fault : Json.SyntaxFault)
  | badEncoding (reason : Text.EncodingReason)
  | notObject
  | badVersion (found : Json)
  | noPipeline
  | noTable
  | noPassList
  | entryNotText (key : String)
  | entryUnreadable (key : String) (fault : EntryFault)
  | entryNotLines (key : String)
  | noInitialEntry
  | badPass (position : Nat) (damage : PassDamage)
  | sizeMismatch (stated : Json) (found : Nat)
  | unreadableFile (name : String) (fault : Gzip.Fault)

/-- The wording of the damage. -/
def Damage.message : Damage → String
  | .badJson fault => s!"invalid JSON: {fault.message}"
  | .badEncoding reason => s!"payload is not UTF-8: {reason.message}"
  | .notObject => "top-level value is not an object"
  | .badVersion found => s!"missing or invalid schema version {found.shown}"
  | .noPipeline => "missing pipeline section"
  | .noTable => "missing IR table"
  | .noPassList => "missing pass list"
  | .entryNotText key => s!"IR entry {Text.quoted key} is not a string"
  | .entryUnreadable key fault =>
    s!"failed to decompress IR entry {Text.quoted key}: {fault.message}"
  | .entryNotLines key => s!"IR entry {Text.quoted key} is not a list of lines"
  | .noInitialEntry => "missing initial snapshot entry"
  | .badPass position damage => s!"pass {position} {damage.message}"
  | .sizeMismatch stated found =>
    s!"pass count mismatch: header says {stated.shown}, found {found}"
  | .unreadableFile name fault => s!"failed to decompress {name}: {fault.message}"

end PassTrace

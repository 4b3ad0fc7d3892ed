import PassTrace.Codec.CheckSum
import PassTrace.Codec.Deflate
import PassTrace.Codec.Inflate

/-!
# The zlib format

A deflate stream between a head of two bytes and the Adler-32 of its output. What follows it is not
looked at.
-/

namespace PassTrace.Zlib

/-- Why a stream is not read. -/
inductive Fault
  | badHead
  | unknownMethod
  | badWindow
  | needsDictionary
  | badCheck
  | contents (fault : Deflate.Fault)
  deriving DecidableEq, Repr

end Zlib

/-- The wording of a fault in a deflate stream. -/
def Deflate.Fault.message : Deflate.Fault → String
  | .truncated => "Error -5 while decompressing data: incomplete or truncated stream"
  | .invalidBlockType => "Error -3 while decompressing data: invalid block type"
  | .invalidStoredLengths => "Error -3 while decompressing data: invalid stored block lengths"
  | .tooManySymbols => "Error -3 while decompressing data: too many length or distance symbols"
  | .invalidCodeLengths => "Error -3 while decompressing data: invalid code lengths set"
  | .invalidRepeat => "Error -3 while decompressing data: invalid bit length repeat"
  | .missingEndOfBlock =>
    "Error -3 while decompressing data: invalid code -- missing end-of-block"
  | .invalidLiteralLengths => "Error -3 while decompressing data: invalid literal/lengths set"
  | .invalidDistanceLengths => "Error -3 while decompressing data: invalid distances set"
  | .invalidLiteral => "Error -3 while decompressing data: invalid literal/length code"
  | .invalidDistance => "Error -3 while decompressing data: invalid distance code"
  | .distanceTooFar => "Error -3 while decompressing data: invalid distance too far back"

namespace Zlib

/-- The wording of a fault. -/
def Fault.message : Fault → String
  | .badHead => "Error -3 while decompressing data: incorrect header check"
  | .unknownMethod => "Error -3 while decompressing data: unknown compression method"
  | .badWindow => "Error -3 while decompressing data: invalid window size"
  | .needsDictionary => "Error 2 while decompressing data"
  | .badCheck => "Error -3 while decompressing data: incorrect data check"
  | .contents fault => fault.message

/-- The number of four bytes, the first the most significant. -/
def word (a b c d : UInt8) : Nat :=
  ((a.toNat * 0x100 + b.toNat) * 0x100 + c.toNat) * 0x100 + d.toNat

/-- The output of a stream. -/
def decompress : Bytes → Except Fault Bytes
  | method :: flags :: rest =>
    if (method.toNat * 0x100 + flags.toNat) % 31 ≠ 0 then .error .badHead
    else if method.toNat % 16 ≠ 8 then .error .unknownMethod
    else if 7 < method.toNat / 16 then .error .badWindow
    else if flags.toNat.testBit 5 then
      .error (if rest.length < 4 then .contents .truncated else .needsDictionary)
    else
      match Deflate.inflate rest with
      | .error fault => .error (.contents fault)
      | .ok (out, ⟨a :: b :: c :: d :: _, _⟩) =>
        if word a b c d = adler32 out then .ok out else .error .badCheck
      | .ok _ => .error (.contents .truncated)
  | _ => .error (.contents .truncated)

/-- A number below `2 ^ 32` as four bytes, the first the most significant. -/
def wordBytes (n : Nat) : Bytes :=
  [UInt8.ofNat (n / 0x1000000), UInt8.ofNat (n / 0x10000), UInt8.ofNat (n / 0x100), UInt8.ofNat n]

/-- A stream with the given output, which is stored as it is. -/
def store (bytes : Bytes) : Bytes :=
  0x78 :: 0x01 :: (Deflate.store bytes ++ wordBytes (adler32 bytes))

/-- Whether a stream has the given output. -/
def holds (stream bytes : Bytes) : Bool :=
  (decompress stream).toOption = some bytes

theorem holds_iff {stream bytes : Bytes} : holds stream bytes ↔ decompress stream = .ok bytes := by
  unfold holds
  cases decompress stream <;> simp [Except.toOption]

/-- A stream with the given output, made short with the usual effort. It is read again before it is
given, and if its output were another, the bytes would be stored. -/
def compress (bytes : Bytes) : Bytes :=
  let stream := 0x78 :: 0x9c :: (Deflate.deflate .usual bytes ++ wordBytes (adler32 bytes))
  if holds stream bytes then stream else store bytes

theorem compress_eq_store_or (bytes : Bytes) :
    compress bytes = store bytes ∨ decompress (compress bytes) = .ok bytes := by
  dsimp only [compress]
  split
  next h => exact .inr (holds_iff.1 h)
  next => exact .inl rfl

end PassTrace.Zlib

import PassTrace.Damage
import PassTrace.Pipeline

/-!
# Packed texts

Inside a payload a text is kept as bytes in UTF-8, compressed, and written in letters.
-/

namespace PassTrace.Packing

/-- A text packed. -/
def pack (text : String) : String :=
  String.ofList (Base64.encode (Zlib.compress (Text.utf8 text)))

/-- A packed text unpacked. -/
def unpack (packed : String) : Except UnpackFault String :=
  match Base64.decode packed.toList with
  | .error fault => .error (.base64 fault)
  | .ok compressed =>
    match Zlib.decompress compressed with
    | .error fault => .error (.zlib fault)
    | .ok bytes =>
      match Text.decodeUtf8 bytes with
      | .error fault => .error (.utf8 fault)
      | .ok cs => .ok (String.ofList cs)

/-- A list of lines packed. -/
def packLines (lines : Lines) : String :=
  pack (Json.strings lines).asciiLine

end PassTrace.Packing

import PassTrace.Codec.CheckSum
import PassTrace.Codec.Deflate
import PassTrace.Codec.Inflate
import PassTrace.Codec.Zlib
import PassTrace.Text.Quoted

/-!
# The gzip format

A file is a sequence of members, each a deflate stream between a head and the CRC-32 and length of
its output. Zero bytes may stand behind a member.
-/

namespace PassTrace.Gzip

/-- Why a file is not read. -/
inductive Fault
  | notGzip (start : Bytes)
  | unknownMethod
  | truncated
  | badCheck (stated actual : Nat)
  | badLength
  | contents (fault : Deflate.Fault)
  deriving DecidableEq, Repr

/-- The wording of a fault. -/
def Fault.message : Fault → String
  | .notGzip start => s!"Not a gzipped file ({Text.quotedBytes start})"
  | .unknownMethod => "Unknown compression method"
  | .truncated => "Compressed file ended before the end-of-stream marker was reached"
  | .badCheck stated actual =>
    let hex (n : Nat) := "0x" ++ String.ofList (Text.hexNumeral n)
    s!"CRC check failed {hex stated} != {hex actual}"
  | .badLength => "Incorrect length of data produced"
  | .contents fault => fault.message

/-- The bytes behind the first zero byte. -/
def afterZero : Bytes → Bytes
  | [] => []
  | b :: rest => if b = 0 then rest else afterZero rest

theorem length_afterZero_le (bytes : Bytes) : (afterZero bytes).length ≤ bytes.length := by
  induction bytes with
  | nil => simp [afterZero]
  | cons b rest ih => simp only [afterZero]; split <;> simp; omega

/-- What remains of a sequence of bytes. -/
abbrev Remaining (bytes : Bytes) := { rest : Bytes // rest.length ≤ bytes.length }

/-- The bytes behind the first `count`. -/
def skip (count : Nat) (bytes : Bytes) : Except Fault (Remaining bytes) :=
  if bytes.length < count then .error .truncated else .ok ⟨bytes.drop count, by simp⟩

/-- The bytes behind an extra field of a head, which starts with its length. -/
def skipExtra : (bytes : Bytes) → Except Fault (Remaining bytes)
  | a :: b :: rest => do
    let ⟨rest', h⟩ ← skip (a.toNat + b.toNat * 0x100) rest
    return ⟨rest', by simp; omega⟩
  | _ => .error .truncated

/-- The bytes behind the parts of a head that its flags announce. -/
def skipOptional (flags : Nat) (bytes : Bytes) : Except Fault (Remaining bytes) := do
  let ⟨bytes₁, h₁⟩ ← if flags.testBit 2 then skipExtra bytes else .ok ⟨bytes, Nat.le_refl _⟩
  let bytes₂ := if flags.testBit 3 then afterZero bytes₁ else bytes₁
  have h₂ : bytes₂.length ≤ bytes₁.length := by
    simp only [bytes₂]; split
    · exact length_afterZero_le _
    · exact Nat.le_refl _
  let bytes₃ := if flags.testBit 4 then afterZero bytes₂ else bytes₂
  have h₃ : bytes₃.length ≤ bytes₂.length := by
    simp only [bytes₃]; split
    · exact length_afterZero_le _
    · exact Nat.le_refl _
  let ⟨bytes₄, h₄⟩ ← if flags.testBit 1 then skip 2 bytes₃ else .ok ⟨bytes₃, Nat.le_refl _⟩
  return ⟨bytes₄, by omega⟩

/-- The output of a deflate stream with its check sum and length, and the bytes behind them. -/
def readContents (bytes : Bytes) : Except Fault (Bytes × Remaining bytes) :=
  match Deflate.inflate bytes with
  | .error .truncated => .error .truncated
  | .error fault => .error (.contents fault)
  | .ok (out, ⟨a :: b :: c :: d :: e :: f :: g :: h :: rest, hrest⟩) =>
    let stated := Zlib.word d c b a
    let actual := crc32 out
    if stated ≠ actual then .error (.badCheck stated actual)
    else if Zlib.word h g f e ≠ out.length % 0x100000000 then .error .badLength
    else .ok (out, ⟨rest, by simp at hrest; omega⟩)
  | .ok _ => .error .truncated

/-- The output of the members of a file from the second on, or from the first; zero bytes in front
are skipped before all but the first. -/
def readMembers (bytes : Bytes) : Except Fault Bytes :=
  match bytes with
  | [] => .ok []
  | 0x1f :: 0x8b :: method :: flags :: _ :: _ :: _ :: _ :: _ :: _ :: rest =>
    if method ≠ 8 then .error .unknownMethod
    else do
      let ⟨rest₁, _h₁⟩ ← skipOptional flags.toNat rest
      let (out, ⟨rest₂, _h₂⟩) ← readContents rest₁
      have _h₃ : (rest₂.dropWhile (· = 0)).length ≤ rest₂.length :=
        (List.dropWhile_suffix _).length_le
      let more ← readMembers (rest₂.dropWhile (· = 0))
      return out ++ more
  | 0x1f :: 0x8b :: _ => .error .truncated
  | _ => .error (.notGzip (bytes.take 2))
termination_by bytes.length
decreasing_by simp; omega

/-- The output of a file. -/
def decompress (bytes : Bytes) : Except Fault Bytes :=
  readMembers bytes

/-- Why a time does not fit into the head of a file. -/
inductive TimeFault
  /-- It is negative, or beyond twice the width of the field. -/
  | noWord
  /-- It is beyond the width of the field. -/
  | tooLate
  deriving DecidableEq, Repr

/-- The wording of a fault. -/
def TimeFault.message : TimeFault → String
  | .noWord => "argument out of range"
  | .tooLate => "'L' format requires 0 <= number <= 4294967295"

/-- The time for the head of a file, in seconds. -/
def timeOf (second : Int) : Except TimeFault UInt32 :=
  if second < 0 ∨ 0x10000000000000000 ≤ second then .error .noWord
  else if 0x100000000 ≤ second then .error .tooLate
  else .ok (UInt32.ofNat second.toNat)

/-- The name of a file as its head gives it: without the ending, a byte for each character. A name
with a zero character or one beyond a byte is left out. -/
def nameBytes (name : String) : Bytes :=
  let cs := name.toList
  let cs := if ".gz".toList.isSuffixOf cs then cs.take (cs.length - 3) else cs
  if name.toList.all fun c => 0 < c.toNat && c.toNat < 0x100 then
    cs.map fun c => UInt8.ofNat c.toNat
  else []

/-- The start of a head up to the time, whose flags announce a name if there is one. -/
def headStart (name : Bytes) : Bytes :=
  [0x1f, 0x8b, 8, if name.isEmpty then 0 else 8]

/-- A file of one member around the given stream, whose output is `bytes`. -/
def enclose (name : Bytes) (time : UInt32) (stream bytes : Bytes) : Bytes :=
  headStart name ++ (Zlib.wordBytes time.toNat).reverse ++ [2, 0xff] ++
    (if name.isEmpty then [] else name ++ [0]) ++ stream ++
    (Zlib.wordBytes (crc32 bytes)).reverse ++ (Zlib.wordBytes bytes.length).reverse

/-- A file of some name with the given output, which is stored as it is. -/
def store (name : String) (time : UInt32) (bytes : Bytes) : Bytes :=
  enclose (nameBytes name) time (Deflate.store bytes) bytes

/-- Whether a file has the given output. -/
def holds (file bytes : Bytes) : Bool :=
  (decompress file).toOption = some bytes

theorem holds_iff {file bytes : Bytes} : holds file bytes ↔ decompress file = .ok bytes := by
  unfold holds
  cases decompress file <;> simp [Except.toOption]

/-- A file of some name with the given output, made as short as can be. It is read again before it
is given, and if its output were another, the bytes would be stored. -/
def compress (name : String) (time : UInt32) (bytes : Bytes) : Bytes :=
  let file := enclose (nameBytes name) time (Deflate.deflate .greatest bytes) bytes
  if holds file bytes then file else store name time bytes

theorem compress_eq_store_or (name : String) (time : UInt32) (bytes : Bytes) :
    compress name time bytes = store name time bytes ∨
      decompress (compress name time bytes) = .ok bytes := by
  dsimp only [compress]
  split
  next h => exact .inr (holds_iff.1 h)
  next => exact .inl rfl

/-- What is left of a file of some name if its time does not fit: the head up to there, and the end
of an empty member. -/
def cutShort (name : String) : Bytes :=
  headStart (nameBytes name) ++ [3, 0] ++ Zlib.wordBytes 0 ++ Zlib.wordBytes 0

end PassTrace.Gzip

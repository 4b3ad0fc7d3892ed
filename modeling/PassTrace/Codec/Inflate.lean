import PassTrace.Codec.PrefixCode
import PassTrace.Text.Utf8

/-!
# The deflate format

A stream is a sequence of blocks: stored bytes, or literals and references to earlier output in a
prefix code that is fixed or described in the block. The bits of a byte come lowest first. Reading
ends behind the last block and keeps what follows.
-/

namespace PassTrace.Deflate

/-- Why a stream is not read. -/
inductive Fault
  | truncated
  | invalidBlockType
  | invalidStoredLengths
  | tooManySymbols
  | invalidCodeLengths
  | invalidRepeat
  | missingEndOfBlock
  | invalidLiteralLengths
  | invalidDistanceLengths
  | invalidLiteral
  | invalidDistance
  | distanceTooFar
  deriving DecidableEq, Repr

/-- The bits of a sequence of bytes. -/
def bitsOf (bytes : Bytes) : List Bool :=
  bytes.flatMap fun b => (List.range 8).map fun k => b.toNat.testBit k

/-- The number of a sequence of bits, the lowest first. -/
def ofBits : List Bool → Nat
  | [] => 0
  | bit :: bits => (if bit then 1 else 0) + 2 * ofBits bits

/-- The bytes of a sequence of bits; bits short of a byte are dropped. -/
def bytesOf : List Bool → Bytes
  | a :: b :: c :: d :: e :: f :: g :: h :: rest =>
    UInt8.ofNat (ofBits [a, b, c, d, e, f, g, h]) :: bytesOf rest
  | _ => []

/-- What remains of a sequence of bits from which one or more were read. -/
abbrev Fewer (bits : List Bool) := { rest : List Bool // rest.length < bits.length }

/-- What remains of a sequence of bits from which any number were read. -/
abbrev Remaining (bits : List Bool) := { rest : List Bool // rest.length ≤ bits.length }

/-- The number of the next `count` bits, and the rest. -/
def take? : (count : Nat) → (bits : List Bool) → Except Fault (Nat × Remaining bits)
  | 0, bits => .ok (0, ⟨bits, Nat.le_refl _⟩)
  | _ + 1, [] => .error .truncated
  | count + 1, bit :: bits => do
    let (n, ⟨rest, h⟩) ← take? count bits
    return ((if bit then 1 else 0) + 2 * n, ⟨rest, by simp; omega⟩)

/-- The bits from the next whole byte on, of a stream of whole bytes. -/
def alignToByte (bits : List Bool) : List Bool :=
  bits.drop (bits.length % 8)

/-- Reads a symbol whose word has at least one bit. -/
def readSymbol (code : CodeTree) (fault : Fault) (bits : List Bool) :
    Except Fault (Nat × Fewer bits) :=
  match code, bits with
  | .branch _ _, [] => .error .truncated
  | .branch zero one, bit :: rest =>
    let below := if bit then one else zero
    match h : below.read rest with
    | .found n tail =>
      .ok (n, ⟨tail, by have := CodeTree.length_of_read h; simp; omega⟩)
    | .invalid => .error fault
    | .ended => .error .truncated
  | _, _ => .error fault

/-- The least length of each length symbol from 257 on, with its count of further bits. -/
def lengthRanges : List (Nat × Nat) :=
  [(3, 0), (4, 0), (5, 0), (6, 0), (7, 0), (8, 0), (9, 0), (10, 0), (11, 1), (13, 1), (15, 1),
   (17, 1), (19, 2), (23, 2), (27, 2), (31, 2), (35, 3), (43, 3), (51, 3), (59, 3), (67, 4),
   (83, 4), (99, 4), (115, 4), (131, 5), (163, 5), (195, 5), (227, 5), (258, 0)]

/-- The least distance of each distance symbol, with its count of further bits. -/
def distanceRanges : List (Nat × Nat) :=
  [(1, 0), (2, 0), (3, 0), (4, 0), (5, 1), (7, 1), (9, 2), (13, 2), (17, 3), (25, 3), (33, 4),
   (49, 4), (65, 5), (97, 5), (129, 6), (193, 6), (257, 7), (385, 7), (513, 8), (769, 8), (1025, 9),
   (1537, 9), (2049, 10), (3073, 10), (4097, 11), (6145, 11), (8193, 12), (12289, 12), (16385, 13),
   (24577, 13)]

/-- Output with `count` bytes more, each a copy of the one `distance` before it. -/
def copyBack (distance : Nat) : Nat → Array UInt8 → Array UInt8
  | 0, out => out
  | count + 1, out => copyBack distance count (out.push (out.getD (out.size - distance) 0))

/-- A reference to earlier output behind its length symbol: the output with the bytes copied, and
the bits behind. -/
def readReference (distances : CodeTree) (symbol : Nat) (out : Array UInt8) (bits : List Bool) :
    Except Fault (Array UInt8 × Remaining bits) := do
  let some (leastLength, lengthBits) := lengthRanges[symbol - 257]? | .error .invalidLiteral
  let (moreLength, ⟨bits₁, h₁⟩) ← take? lengthBits bits
  let (distanceSymbol, ⟨bits₂, h₂⟩) ← readSymbol distances .invalidDistance bits₁
  let some (leastDistance, distanceBits) := distanceRanges[distanceSymbol]?
    | .error .invalidDistance
  let (moreDistance, ⟨bits₃, h₃⟩) ← take? distanceBits bits₂
  let distance := leastDistance + moreDistance
  if out.size < distance then .error .distanceTooFar
  else return (copyBack distance (leastLength + moreLength) out, ⟨bits₃, by omega⟩)

/-- One symbol of a block in a prefix code and what belongs to it: the output with the bytes that
it stands for, whether it ends the block, and the bits behind. -/
def readItem (literals distances : CodeTree) (out : Array UInt8) (bits : List Bool) :
    Except Fault (Array UInt8 × Bool × Fewer bits) := do
  let (symbol, ⟨rest, h⟩) ← readSymbol literals .invalidLiteral bits
  if symbol < 256 then return (out.push (UInt8.ofNat symbol), false, ⟨rest, h⟩)
  else if symbol = 256 then return (out, true, ⟨rest, h⟩)
  else
    let (out, ⟨rest', h'⟩) ← readReference distances symbol out rest
    return (out, false, ⟨rest', by omega⟩)

/-- The contents of a block in a prefix code: the output with them added, and the bits behind the
end of the block, which are fewer than `limit`. -/
def readCoded (literals distances : CodeTree) (limit : Nat) (out : Array UInt8) (bits : List Bool)
    (hbits : bits.length ≤ limit) :
    Except Fault (Array UInt8 × { rest : List Bool // rest.length < limit }) :=
  match readItem literals distances out bits with
  | .error fault => .error fault
  | .ok (out, true, rest) => .ok (out, ⟨rest.1, Nat.lt_of_lt_of_le rest.2 hbits⟩)
  | .ok (out, false, rest) =>
    readCoded literals distances limit out rest.1 (Nat.le_trans (Nat.le_of_lt rest.2) hbits)
termination_by bits.length
decreasing_by exact rest.2

/-- The word lengths of the fixed code of literals and lengths. -/
def fixedLiterals : WordLengths :=
  List.replicate 144 8 ++ List.replicate 112 9 ++ List.replicate 24 7 ++ List.replicate 8 8

/-- The word lengths of the fixed code of distances. -/
def fixedDistances : WordLengths :=
  List.replicate 32 5

/-- The order in which the word lengths of the code for word lengths are given. -/
def lengthOrder : List Nat :=
  [16, 17, 18, 0, 8, 7, 9, 6, 10, 5, 11, 4, 12, 3, 13, 2, 14, 1, 15]

/-- Reads `count` numbers of three bits. -/
def readTriples : (count : Nat) → (bits : List Bool) → Except Fault (List Nat × Remaining bits)
  | 0, bits => .ok ([], ⟨bits, Nat.le_refl _⟩)
  | count + 1, bits => do
    let (n, ⟨rest, h⟩) ← take? 3 bits
    let (ns, ⟨rest', h'⟩) ← readTriples count rest
    return (n :: ns, ⟨rest', by omega⟩)

/-- Reads word lengths up to `total` of them, where `read` holds those read, last first. Symbols up
to 15 are lengths, 16 repeats the last one, 17 and 18 stand for runs of zeros. -/
def readLengths (code : CodeTree) (total : Nat) (read : List Nat) (bits : List Bool) :
    Except Fault (List Nat × Remaining bits) := do
  if total ≤ read.length then return (read.reverse, ⟨bits, Nat.le_refl _⟩)
  else
    let (symbol, ⟨rest, h⟩) ← readSymbol code .invalidCodeLengths bits
    if symbol < 16 then
      let (lengths, ⟨rest', h'⟩) ← readLengths code total (symbol :: read) rest
      return (lengths, ⟨rest', Nat.le_trans h' (Nat.le_of_lt h)⟩)
    else
      let (extraBits, least) :=
        if symbol = 16 then (2, 3) else if symbol = 17 then (3, 3) else (7, 11)
      let (more, ⟨rest', h'⟩) ← take? extraBits rest
      let some repeated := if symbol = 16 then read.head? else some 0 | .error .invalidRepeat
      if total < read.length + (least + more) then .error .invalidRepeat
      else
        let (lengths, ⟨rest'', h''⟩) ←
          readLengths code total (List.replicate (least + more) repeated ++ read) rest'
        return (lengths, ⟨rest'', Nat.le_trans h'' (Nat.le_trans h' (Nat.le_of_lt h))⟩)
termination_by bits.length
decreasing_by
  · exact h
  · exact Nat.lt_of_le_of_lt h' h

/-- The code for word lengths. Without words, every bit reads as the length zero. -/
def lengthCode (lengths : WordLengths) : CodeTree :=
  if lengths.longest = 0 then .branch (.symbol 0) (.symbol 0) else lengths.tree

/-- The two codes described at the start of a block. -/
def readCodes (bits : List Bool) : Except Fault ((CodeTree × CodeTree) × Remaining bits) := do
  let (head, ⟨bits₁, h₁⟩) ← take? 14 bits
  let literalCount := head % 32 + 257
  let distanceCount := head / 32 % 32 + 1
  let lengthCount := head / 1024 + 4
  if 286 < literalCount || 30 < distanceCount then .error .tooManySymbols
  else
    let (given, ⟨bits₂, h₂⟩) ← readTriples lengthCount bits₁
    let lengths : WordLengths := (List.range 19).map fun n =>
      (given[lengthOrder.idxOf n]?).getD 0
    if !lengths.isAdmissible false then .error .invalidCodeLengths
    else
      let (all, ⟨bits₃, h₃⟩) ←
        readLengths (lengthCode lengths) (literalCount + distanceCount) [] bits₂
      let literals : WordLengths := all.take literalCount
      let distances : WordLengths := all.drop literalCount
      if literals.getD 256 0 = 0 then .error .missingEndOfBlock
      else if !literals.isAdmissible true then .error .invalidLiteralLengths
      else if !distances.isAdmissible true then .error .invalidDistanceLengths
      else return ((literals.tree, distances.tree), ⟨bits₃, by omega⟩)

/-- The output with the next `count` bytes added, and the bits behind them. -/
def readBytes (limit : Nat) : (count : Nat) → (out : Array UInt8) → (bits : List Bool) →
    bits.length ≤ limit → Except Fault (Array UInt8 × { rest : List Bool // rest.length ≤ limit })
  | 0, out, bits, hbits => .ok (out, ⟨bits, hbits⟩)
  | count + 1, out, bits, hbits =>
    match take? 8 bits with
    | .error fault => .error fault
    | .ok (n, ⟨rest, hrest⟩) =>
      readBytes limit count (out.push (UInt8.ofNat n)) rest (by omega)

/-- The contents of a stored block: the output with them added, and the bits behind them. -/
def readStored (out : Array UInt8) (bits : List Bool) :
    Except Fault (Array UInt8 × Remaining bits) := do
  have h₀ : (alignToByte bits).length ≤ bits.length := by simp [alignToByte]
  let (lengths, ⟨bits₁, h₁⟩) ← take? 32 (alignToByte bits)
  let length := lengths % 0x10000
  if length + lengths / 0x10000 ≠ 0xffff then .error .invalidStoredLengths
  else readBytes bits.length length out bits₁ (by omega)

/-- The contents of a block of one of the four types: the output with them added, and the bits
behind them. -/
def readContents (type : Nat) (out : Array UInt8) (bits : List Bool) :
    Except Fault (Array UInt8 × Remaining bits) :=
  match type with
  | 0 => readStored out bits
  | 1 => do
    let (out, ⟨rest, h⟩) ←
      readCoded fixedLiterals.tree fixedDistances.tree bits.length out bits (Nat.le_refl _)
    return (out, ⟨rest, by omega⟩)
  | 2 => do
    let ((literals, distances), ⟨rest, h⟩) ← readCodes bits
    let (out, ⟨rest', h'⟩) ← readCoded literals distances bits.length out rest h
    return (out, ⟨rest', by omega⟩)
  | _ => .error .invalidBlockType

/-- The blocks of a stream up to the last: the output with their contents added, and the bits from
the next whole byte on, no more than `limit`. -/
def readBlocks (limit : Nat) (out : Array UInt8) (bits : List Bool) (hbits : bits.length ≤ limit) :
    Except Fault (Array UInt8 × { rest : List Bool // rest.length ≤ limit }) :=
  match bits with
  | [] => .error .truncated
  | last :: bits => do
    let (type, ⟨rest, h⟩) ← take? 2 bits
    let (out, ⟨rest', h'⟩) ← readContents type out rest
    if last then
      return (out, ⟨alignToByte rest', by simp [alignToByte] at hbits ⊢; omega⟩)
    else readBlocks limit out rest' (by simp at hbits; omega)
termination_by bits.length
decreasing_by simp; omega

theorem length_bitsOf (bytes : Bytes) : (bitsOf bytes).length = 8 * bytes.length := by
  induction bytes with
  | nil => rfl
  | cons b rest ih =>
    have h : (bitsOf (b :: rest)).length = 8 + (bitsOf rest).length := by simp [bitsOf]
    rw [h, ih, List.length_cons]
    omega

theorem length_bytesOf_le (bits : List Bool) : 8 * (bytesOf bits).length ≤ bits.length := by
  fun_induction bytesOf bits with
  | case1 a b c d e f g h rest ih => simp; omega
  | case2 => simp

/-- The output of a stream and the bytes behind it. -/
def inflate (bytes : Bytes) :
    Except Fault (Bytes × { rest : Bytes // rest.length ≤ bytes.length }) := do
  let (out, ⟨rest, h⟩) ← readBlocks _ #[] (bitsOf bytes) (Nat.le_refl _)
  return (out.toList, ⟨bytesOf rest, by
    have := length_bytesOf_le rest
    have := length_bitsOf bytes
    omega⟩)

/-- A number as two bytes, the lower first. -/
def littleEndian16 (n : Nat) : Bytes :=
  [UInt8.ofNat n, UInt8.ofNat (n / 0x100)]

/-- A stored block. -/
def storedBlock (last : Bool) (bytes : Bytes) : Bytes :=
  (if last then 1 else 0) ::
    (littleEndian16 bytes.length ++ littleEndian16 (0xffff - bytes.length) ++ bytes)

/-- A stream of stored blocks that holds the given bytes. -/
def store (bytes : Bytes) : Bytes :=
  if _h : bytes.length ≤ 0xffff then storedBlock true bytes
  else storedBlock false (bytes.take 0xffff) ++ store (bytes.drop 0xffff)
termination_by bytes.length
decreasing_by simp; omega

end PassTrace.Deflate

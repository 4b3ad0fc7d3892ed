import PassTrace.Codec.Inflate
import PassTrace.Codec.Repetition
import PassTrace.Codec.ShortestCode

/-!
# Deflated bytes

The items that tell a sequence of bytes are written in blocks, each in the shortest of three forms:
in the fixed code, in a code made for it that goes before it, or as the bytes themselves.
-/

namespace PassTrace.Deflate

/-- The `count` lowest bits of a number, the lowest first. -/
def lowBits (count n : Nat) : List Bool :=
  (List.range count).map n.testBit

/-- A symbol and the bits behind its word. -/
structure Coded where
  symbol : Nat
  more : List Bool
  deriving DecidableEq, Repr

/-- A number as the range in which it is, of those that start with the symbol `first`, and its
offset there. -/
def codedIn (ranges : List (Nat × Nat)) (first n : Nat) : Coded :=
  let k := ranges.countP (·.1 ≤ n) - 1
  let (least, bits) := ranges.getD k (0, 0)
  ⟨first + k, lowBits bits (n - least)⟩

/-- The symbol of an item in the code of literals and lengths, and that in the code of distances. -/
def Item.coded : Item → Coded × Option Coded
  | .literal byte => (⟨byte.toNat, []⟩, none)
  | .reference length distance =>
    (codedIn lengthRanges 257 length, some (codedIn distanceRanges 0 distance))

/-- The symbols of a block: those of its items and the one that ends it. -/
def codedItems (items : List Item) : List (Coded × Option Coded) :=
  items.map Item.coded ++ [(⟨256, []⟩, none)]

/-- The words of a code by symbol, their first bit first. -/
def wordBits (lengths : WordLengths) : Array (List Bool) :=
  lengths.words.foldl
    (fun all (length, value, n) => all.setIfInBounds n (lowBits length value).reverse)
    (Array.replicate lengths.length [])

/-- A symbol in a code whose words are given. -/
def Coded.bits (words : Array (List Bool)) (coded : Coded) : List Bool :=
  words.getD coded.symbol [] ++ coded.more

/-- The symbols of a block in two codes. -/
def contentsBits (literals distances : WordLengths) (contents : List (Coded × Option Coded)) :
    List Bool :=
  let literalWords := wordBits literals
  let distanceWords := wordBits distances
  contents.flatMap fun (literal, distance) =>
    literal.bits literalWords ++ distance.elim [] (Coded.bits distanceWords)

/-- How often each symbol below `size` occurs. -/
def countsOf (size : Nat) (symbols : List Nat) : Array Nat :=
  symbols.foldl (fun counts n => counts.modify n (· + 1)) (Array.replicate size 0)

/-- Word lengths up to the last symbol that has a word. -/
def trimmed (lengths : WordLengths) : WordLengths :=
  (lengths.reverse.dropWhile (· = 0)).reverse

/-- Lengths as runs: each with the number of times that it stands there. -/
def runsOf : List Nat → List (Nat × Nat)
  | [] => []
  | l :: rest =>
    match runsOf rest with
    | (l', count) :: runs =>
      if l = l' then (l, count + 1) :: runs else (l, 1) :: (l', count) :: runs
    | [] => [(l, 1)]

/-- The symbols of `count` zeros. -/
def codedZeros (count : Nat) : List Coded :=
  if 138 < count then ⟨18, lowBits 7 127⟩ :: codedZeros (count - 138)
  else if 11 ≤ count then [⟨18, lowBits 7 (count - 11)⟩]
  else if 3 ≤ count then [⟨17, lowBits 3 (count - 3)⟩]
  else List.replicate count ⟨0, []⟩
termination_by count
decreasing_by omega

/-- The symbols of `count` lengths more that are the same as the one before. -/
def codedAgain (length count : Nat) : List Coded :=
  if 6 < count then ⟨16, lowBits 2 3⟩ :: codedAgain length (count - 6)
  else if 3 ≤ count then [⟨16, lowBits 2 (count - 3)⟩]
  else List.replicate count ⟨length, []⟩
termination_by count
decreasing_by omega

/-- The symbols of the lengths of words. -/
def codedLengths (lengths : WordLengths) : List Coded :=
  (runsOf lengths).flatMap fun (length, count) =>
    if length = 0 then codedZeros count else ⟨length, []⟩ :: codedAgain length (count - 1)

/-- The description of two codes. -/
def codesBits (literals distances : WordLengths) : List Bool :=
  let coded := codedLengths literals ++ codedLengths distances
  let lengths := WordLengths.ofCounts 7 (countsOf 19 (coded.map Coded.symbol))
  let given := lengthOrder.map (lengths.getD · 0)
  let count := max 4 (trimmed given).length
  let words := wordBits lengths
  lowBits 5 (literals.length - 257) ++ lowBits 5 (distances.length - 1) ++ lowBits 4 (count - 4) ++
    (given.take count).flatMap (lowBits 3) ++ coded.flatMap (Coded.bits words)

/-- The form of a block. -/
inductive BlockType
  | stored
  | fixed
  | described
  deriving DecidableEq, Repr

/-- The bits in front of a block. -/
def BlockType.head (last : Bool) : BlockType → List Bool
  | .stored => [last, false, false]
  | .fixed => [last, true, false]
  | .described => [last, false, true]

/-- A block in the fixed code. -/
def fixedBits (last : Bool) (contents : List (Coded × Option Coded)) : List Bool :=
  BlockType.fixed.head last ++ contentsBits fixedLiterals fixedDistances contents

/-- A block in the codes that are best for it. -/
def describedBits (last : Bool) (contents : List (Coded × Option Coded)) : List Bool :=
  let literals := trimmed (.ofCounts 15 (countsOf 286 (contents.map (·.1.symbol))))
  let distances :=
    trimmed (.ofCounts 15 (countsOf 30 (contents.filterMap (·.2.map Coded.symbol))))
  BlockType.described.head last ++ codesBits literals distances ++
    contentsBits literals distances contents

/-- The number of bytes with room for some bits. -/
def bytesFor (bits : List Bool) : Nat :=
  (bits.length + 7) / 8

/-- The bits that are missing to a whole byte, behind `written` bits. -/
def padding (written : Nat) : List Bool :=
  List.replicate ((8 - written % 8) % 8) false

/-- A block of bytes as they are, behind `written` bits. -/
def storedBits (last : Bool) (written : Nat) (bytes : Bytes) : List Bool :=
  let head := BlockType.stored.head last
  head ++ padding (written + head.length) ++
    bitsOf (littleEndian16 bytes.length ++ littleEndian16 (0xffff - bytes.length) ++ bytes)

/-- A block behind `written` bits, in its shortest form. Four bytes besides its own are counted for
bytes as they are, and the fixed code is taken where the other is not shorter. -/
def blockBits (last : Bool) (written : Nat) (items : List Item) (bytes : Bytes) : List Bool :=
  let contents := codedItems items
  let fixed := fixedBits last contents
  let described := describedBits last contents
  if bytes.length + 4 ≤ min (bytesFor fixed) (bytesFor described) then
    storedBits last written bytes
  else if bytesFor fixed ≤ bytesFor described then fixed
  else described

/-- The number of items in a full block. -/
def blockSize : Nat := 16383

/-- The items of each block. A block is closed as soon as it is full, but not by a literal at the
very end. -/
def blocksOf (items : List Item) : List (List Item) :=
  match _h : items.drop (blockSize - 1) with
  | [] => [items]
  | [.literal _] => [items]
  | _ :: _ => items.take blockSize :: blocksOf (items.drop blockSize)
termination_by items.length
decreasing_by
  have := congrArg List.length _h
  simp only [blockSize, List.length_drop, List.length_cons] at *
  omega

/-- Blocks behind `written` bits, which tell the given bytes. -/
def blocksBits (written : Nat) (bytes : Bytes) : List (List Item) → List Bool
  | [] => []
  | items :: blocks =>
    let size := items.foldl (fun size item => size + item.size) 0
    let bits := blockBits blocks.isEmpty written items (bytes.take size)
    bits ++ blocksBits (written + bits.length) (bytes.drop size) blocks

/-- The bytes of a sequence of bits behind those in `out`, the last one filled up with zeros. -/
def fillBytes (out : Array UInt8) : List Bool → Array UInt8
  | a :: b :: c :: d :: e :: f :: g :: h :: rest =>
    fillBytes (out.push (UInt8.ofNat (ofBits [a, b, c, d, e, f, g, h]))) rest
  | [] => out
  | bits => out.push (UInt8.ofNat (ofBits bits))

/-- A stream that holds the given bytes, as short as the effort makes it. -/
def deflate (effort : Effort) (bytes : Bytes) : Bytes :=
  (fillBytes #[] (blocksBits 0 bytes (blocksOf (tell effort bytes)))).toList

end PassTrace.Deflate

/-!
# Prefix codes

A code gives each symbol a word of bits, none the start of another. It is described by the lengths
of the words alone: among words of one length the symbols ascend, and shorter words come first.
Reading a symbol walks down a tree, one bit at a step.
-/

namespace PassTrace

/-- The words of a code from some bits on. A place that no word reaches is unused. -/
inductive CodeTree
  | unused
  | symbol (n : Nat)
  | branch (zero one : CodeTree)
  deriving Repr

namespace CodeTree

/-- What reading a symbol comes to. -/
inductive Reading
  /-- A symbol, and the bits behind its word. -/
  | found (symbol : Nat) (rest : List Bool)
  /-- The bits are the start of no word. -/
  | invalid
  /-- The bits end within a word. -/
  | ended
  deriving Repr

/-- Reads a symbol. -/
def read : CodeTree → List Bool → Reading
  | symbol n, bits => .found n bits
  | unused, _ => .invalid
  | branch .., [] => .ended
  | branch zero one, bit :: bits => if bit then read one bits else read zero bits

theorem length_of_read {t : CodeTree} {bits rest : List Bool} {n : Nat}
    (h : t.read bits = .found n rest) : rest.length ≤ bits.length := by
  induction t generalizing bits with
  | unused => simp [read] at h
  | symbol m => simp only [read, Reading.found.injEq] at h; simp [h.2]
  | branch zero one ih₀ ih₁ =>
    cases bits with
    | nil => simp [read] at h
    | cons bit bits =>
      simp only [read] at h
      split at h
      · have := ih₁ h; simp; omega
      · have := ih₀ h; simp; omega

/-- The tree below a word of `depth` bits and value `word`, for a code given by the words' lengths
and values, with symbols. At most `levels` more levels are built. -/
def ofWords (words : List (Nat × Nat × Nat)) : Nat → Nat → Nat → CodeTree
  | levels, depth, word =>
    match words.find? fun (length, value, _) => length = depth && value = word with
    | some (_, _, n) => symbol n
    | none =>
      match levels with
      | 0 => unused
      | levels + 1 =>
        let below := words.filter fun (length, value, _) =>
          depth < length && value / Nat.pow 2 (length - depth) = word
        if below.isEmpty then unused
        else
          branch (ofWords below levels (depth + 1) (2 * word))
            (ofWords below levels (depth + 1) (2 * word + 1))

end CodeTree

/-- The lengths of the words of a code, by symbol. A symbol of length zero has no word. -/
abbrev WordLengths := List Nat

namespace WordLengths

/-- The longest word of the formats here. -/
def maxLength : Nat := 15

/-- The values of the words of one length that start at `next`, with their symbols, and the value
behind the last. -/
def wordsOfLength (lengths : WordLengths) (length next : Nat) :
    List (Nat × Nat × Nat) × Nat :=
  let symbols := lengths.zipIdx.filterMap fun (l, n) => if l = length then some n else none
  (symbols.zipIdx.map fun (n, k) => (length, next + k, n), next + symbols.length)

/-- The words of lengths from `length` on, `count` of them, where the least word of that length has
the value `next`. -/
def wordsFrom (lengths : WordLengths) : Nat → Nat → Nat → List (Nat × Nat × Nat)
  | 0, _, _ => []
  | count + 1, length, next =>
    let (words, after) := lengths.wordsOfLength length next
    words ++ wordsFrom lengths count (length + 1) (2 * after)

/-- The words of a code as length, value and symbol. -/
def words (lengths : WordLengths) : List (Nat × Nat × Nat) :=
  lengths.wordsFrom maxLength 1 0

/-- The tree of a code. A code without words has two unused places, so that reading from it takes
a bit before it fails. -/
def tree (lengths : WordLengths) : CodeTree :=
  match CodeTree.ofWords lengths.words maxLength 0 0 with
  | .branch zero one => .branch zero one
  | _ => .branch .unused .unused

/-- The places that words leave free, of `2 ^ maxLength`; negative if there are too many words. -/
def free (lengths : WordLengths) : Int :=
  Nat.pow 2 maxLength - (lengths.filter (0 < ·)).foldl (fun n l => n + Nat.pow 2 (maxLength - l)) 0

/-- The length of the longest word. -/
def longest (lengths : WordLengths) : Nat :=
  lengths.foldl max 0

/-- Whether the words fit beside each other and fill all places. A code without words passes, and
with `single` one word of one bit too. -/
def isAdmissible (single : Bool) (lengths : WordLengths) : Bool :=
  lengths.longest = 0 || lengths.free = 0 ||
    (single && 0 < lengths.free && lengths.longest = 1)

end WordLengths
end PassTrace

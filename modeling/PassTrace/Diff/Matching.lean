import PassTrace.Pipeline

/-!
# Matching two texts

Two texts are aligned on their longest common block, then what stands before it and what stands
behind it are aligned in turn. In a long second text, lines that are very frequent do not count when
the longest block is sought; they can only lengthen a block that was found, or form one where there
is no other.
-/

namespace PassTrace.Diff

/-- Lines that two texts have in common: `size` of them, from given places on. -/
structure Block where
  old : Nat
  new : Nat
  size : Nat
  deriving DecidableEq, Repr

/-- The number of lines in front that two texts have in common and that pass a test. -/
def commonRun (keep : String → Bool) : Lines → Lines → Nat
  | a :: as, b :: bs => if a = b && keep b then commonRun keep as bs + 1 else 0
  | _, _ => 0

/-- The longer of a block and the longest of those that start a text at place `i` and a second text
from place `j` on. Of blocks of one size the first counts. -/
def longestAt (keep : String → Bool) (i : Nat) (old : Lines) : Nat → Lines → Block → Block
  | _, [], best => best
  | j, b :: bs, best =>
    let size := commonRun keep old (b :: bs)
    longestAt keep i old (j + 1) bs (if best.size < size then ⟨i, j, size⟩ else best)

/-- The longer of a block and the longest of those from place `i` on. -/
def longestFrom (keep : String → Bool) (new : Lines) : Nat → Lines → Block → Block
  | _, [], best => best
  | i, a :: as, best =>
    longestFrom keep new (i + 1) as (longestAt keep i (a :: as) 0 new best)

/-- A block made longer at both ends as far as the texts agree. -/
def Block.extend (old new : Lines) (b : Block) : Block :=
  let all (_ : String) := true
  let before := commonRun all (old.take b.old).reverse (new.take b.new).reverse
  let behind := commonRun all (old.drop (b.old + b.size)) (new.drop (b.new + b.size))
  ⟨b.old - before, b.new - before, before + b.size + behind⟩

/-- The block to align two texts on: the longest, of those the first in the old text, and of those
the first in the new one. -/
def longest (keep : String → Bool) (old new : Lines) : Block :=
  (longestFrom keep new 0 old ⟨0, 0, 0⟩).extend old new

/-- The common blocks of two texts that start at given places, in order. -/
def blocks (keep : String → Bool) (i j : Nat) (old new : Lines) : List Block :=
  match longest keep old new with
  | ⟨k, l, size⟩ =>
    if _h : 0 < size ∧ k + size ≤ old.length then
      blocks keep i j (old.take k) (new.take l) ++
        ⟨i + k, j + l, size⟩ ::
          blocks keep (i + k + size) (j + l + size)
            (old.drop (k + size)) (new.drop (l + size))
    else []
termination_by old.length
decreasing_by all_goals (simp; omega)

/-- The length from which on a text counts as long. -/
def longText : Nat := 200

/-- Whether a line is not too frequent in a text to be sought. -/
def isSought (text : Lines) (line : String) : Bool :=
  text.length < longText || text.count line ≤ text.length / 100 + 1

/-- The common blocks of two texts, in order. -/
def commonBlocks (old new : Lines) : List Block :=
  let frequent := (new.eraseDups).filter fun line => !isSought new line
  blocks (fun line => !frequent.contains line) 0 0 old new

/-- Blocks of which none ends where the next starts in both texts. -/
def joinBlocks : List Block → List Block
  | b :: c :: rest =>
    if b.old + b.size = c.old ∧ b.new + b.size = c.new then
      joinBlocks (⟨b.old, b.new, b.size + c.size⟩ :: rest)
    else b :: joinBlocks (c :: rest)
  | bs => bs
termination_by bs => bs.length

/-- A step from one text to another: lines from `oldStart` to before `oldStop` become the lines
from `newStart` to before `newStop`. They are the same if the step keeps lines. -/
structure Step where
  keeps : Bool
  oldStart : Int
  oldStop : Int
  newStart : Int
  newStop : Int
  deriving DecidableEq, Repr

/-- The steps between the places `i` and `j` and the ends of two texts, where `bs` are the blocks to
keep. -/
def stepsFrom (oldSize newSize i j : Nat) : List Block → List Step
  | [] => if i < oldSize ∨ j < newSize then [⟨false, i, oldSize, j, newSize⟩] else []
  | b :: bs =>
    let kept : Step := ⟨true, b.old, b.old + b.size, b.new, b.new + b.size⟩
    let rest := kept :: stepsFrom oldSize newSize (b.old + b.size) (b.new + b.size) bs
    if i < b.old ∨ j < b.new then ⟨false, i, b.old, j, b.new⟩ :: rest else rest

/-- The steps from one text to another. -/
def steps (old new : Lines) : List Step :=
  stepsFrom old.length new.length 0 0 (joinBlocks (commonBlocks old new))

end PassTrace.Diff

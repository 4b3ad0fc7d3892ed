import PassTrace.Codec.PrefixCode

/-!
# Shortest prefix codes

Of the prefix codes for symbols that occur some number of times, one of least total length. The two
lightest nodes are joined until one is left, and the depth of a symbol below it is the length of its
word. Words longer than a limit are shortened at the cost of others.
-/

namespace PassTrace

/-- A node of a code under construction. -/
structure WeightedTree where
  /-- How often the symbols below the node occur. -/
  weight : Nat
  /-- The longest way down. -/
  height : Nat
  /-- The symbols below. -/
  tree : CodeTree
  deriving Repr

namespace WeightedTree

/-- Whether a node is to be joined no later than another: it is lighter, or as light and no
higher. -/
def precedes (a b : WeightedTree) : Bool :=
  a.weight < b.weight || a.weight = b.weight && a.height ≤ b.height

/-- The node above two. -/
def join (a b : WeightedTree) : WeightedTree :=
  ⟨a.weight + b.weight, max a.height b.height + 1, .branch a.tree b.tree⟩

/-- The place below `k` whose node precedes that of the other, in a heap. -/
def firstBelow (heap : Array WeightedTree) (k : Nat) (h : 2 * k + 1 < heap.size) :
    { child : Nat // child < heap.size ∧ k < child } :=
  if h' : 2 * k + 2 < heap.size then
    if heap[2 * k + 2].precedes heap[2 * k + 1] then ⟨2 * k + 2, h', by omega⟩
    else ⟨2 * k + 1, h, by omega⟩
  else ⟨2 * k + 1, h, by omega⟩

/-- Puts a node into a heap at place `k` or below, so that it precedes all below it. -/
def sink (heap : Array WeightedTree) (k : Nat) (node : WeightedTree) : Array WeightedTree :=
  if h : 2 * k + 1 < heap.size then
    match firstBelow heap k h with
    | ⟨child, hchild, _⟩ =>
      if node.precedes heap[child] then heap.setIfInBounds k node
      else sink (heap.setIfInBounds k heap[child]) child node
  else heap.setIfInBounds k node
termination_by heap.size - k
decreasing_by
  simp only [Array.size_setIfInBounds]
  omega

/-- A heap of nodes: each precedes those at the places `2 * k + 1` and `2 * k + 2` below its own,
`k`. -/
def heapOf (nodes : Array WeightedTree) : Array WeightedTree :=
  (List.range (nodes.size / 2)).foldr
    (fun k heap => match heap[k]? with
      | some node => sink heap k node
      | none => heap)
    nodes

/-- The symbol of a node that is a single one. -/
def symbol? (node : WeightedTree) : Option Nat :=
  match node.tree with
  | .symbol n => some n
  | _ => none

/-- Joins the first two nodes of a heap as many times as `joins` says. Gives the tree of the first
node left, and the symbols in the order in which they were joined, behind those in `joined`. -/
def joinAll : (joins : Nat) → (heap : Array WeightedTree) → (joined : Array Nat) →
    CodeTree × Array Nat
  | 0, heap, joined => ((heap[0]?).elim .unused tree, joined)
  | joins + 1, heap, joined =>
    match heap[0]?, heap.back? with
    | some first, some last =>
      let heap := sink heap.pop 0 last
      match heap[0]? with
      | some second =>
        joinAll joins (sink heap 0 (first.join second))
          (joined ++ first.symbol?.toArray ++ second.symbol?.toArray)
      | none => (first.tree, joined)
    | _, _ => (.unused, joined)

end WeightedTree

namespace CodeTree

/-- The symbols of a tree whose top has some depth, with their depths. -/
def depths : CodeTree → (depth : Nat) → List (Nat × Nat)
  | .unused, _ => []
  | .symbol n, depth => [(n, depth)]
  | .branch zero one, depth => depths zero (depth + 1) ++ depths one (depth + 1)

/-- The number of nodes of a tree whose top has some depth that are deeper than a limit. -/
def countDeeper (limit : Nat) : CodeTree → (depth : Nat) → Nat
  | .branch zero one, depth =>
    countDeeper limit zero (depth + 1) + countDeeper limit one (depth + 1) +
      (if limit < depth then 1 else 0)
  | _, depth => if limit < depth then 1 else 0

end CodeTree

namespace WordLengths

/-- Makes room among words of at most `limit` bits, where `counts` holds the number of words of each
length: the longest word below the limit gets one bit more and a brother, which had the greatest
length. This is done `rounds` times. -/
def makeRoom (limit : Nat) : (rounds : Nat) → (counts : Array Nat) → Array Nat
  | 0, counts => counts
  | rounds + 1, counts =>
    let length := ((List.range limit).reverse.find? (0 < counts.getD · 0)).getD 0
    makeRoom limit rounds
      (((counts.modify length (· - 1)).modify (length + 1) (· + 2)).modify limit (· - 1))

/-- The lengths of the words of symbols that are joined to a tree, with the symbols. Two nodes that
are too deep give way in each round; the symbols that were joined first get the longest words. -/
def limited (limit : Nat) (tree : CodeTree) (joined : List Nat) : List (Nat × Nat) :=
  let tooDeep := tree.countDeeper limit 0
  if tooDeep = 0 then tree.depths 0
  else
    let cut := (tree.depths 0).foldl
      (fun counts (_, depth) => counts.modify (min depth limit) (· + 1))
      (Array.replicate (limit + 1) 0)
    let counts := makeRoom limit ((tooDeep + 1) / 2) cut
    joined.zip
      ((List.range (limit + 1)).reverse.flatMap fun l => List.replicate (counts.getD l 0) l)

/-- The lengths of the words of a code, none longer than `limit`, for symbols that occur as often as
`counts` says. There are at least two words, though the second stands for nothing that occurs. -/
def ofCounts (limit : Nat) (counts : Array Nat) : WordLengths :=
  let nodes := counts.zipIdx.filterMap fun (count, n) =>
    if count = 0 then none else some ⟨count, 0, .symbol n⟩
  let lengths : List (Nat × Nat) :=
    match nodes.toList.filterMap WeightedTree.symbol? with
    | [] => [(0, 1), (1, 1)]
    | [n] => [(n, 1), (if n < 2 then n + 1 else 0, 1)]
    | _ =>
      let (tree, joined) := WeightedTree.joinAll (nodes.size - 1) (WeightedTree.heapOf nodes) #[]
      limited limit tree joined.toList
  (lengths.foldl (fun all (n, length) => all.setIfInBounds n length)
    (Array.replicate counts.size 0)).toList

end WordLengths
end PassTrace

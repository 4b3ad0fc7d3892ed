import PassTrace.Pipeline

/-!
# Looking up the text at an index

A look-up follows references to earlier indices down to a pass that carries its text, or to the
initial text. A reference that does not point backwards, and an index outside the pipeline, have the
empty text; each is reported as a gap. Every index that a look-up visits is remembered.
-/

namespace PassTrace

/-- A text that could not be found. -/
inductive Gap
  /-- The index is outside a pipeline of `size` passes. -/
  | outside (index : Int) (size : Nat)
  /-- A pass refers to an index that is not before it. -/
  | notBackward (index : Nat) (target : Int)
  /-- The text before a pass was asked for, and there is no such pass. -/
  | noPass (index : Int)
  deriving DecidableEq, Repr

/-- The wording of a gap. -/
def Gap.message : Gap → String
  | .outside index size => s!"Resolution gap: pass index {index} outside 0..{size}"
  | .notBackward index target => s!"Resolution gap: pass {index} references index {target}"
  | .noPass index => s!"Resolution gap: no pass at index {index}"

/-- The text that an index refers to: what the look-up has to find. -/
def Pipeline.meaning (p : Pipeline) (index : Nat) : Lines :=
  match index with
  | 0 => p.initial
  | k + 1 =>
    match p.passes[k]?.map Pass.reference with
    | none => []
    | some (.inline lines) => lines
    | some (.sameAs target) =>
      if 0 ≤ target ∧ target < k + 1 then p.meaning target.toNat else []
termination_by index
decreasing_by omega

/-- A pipeline with the texts found so far, one place for each index from zero on. -/
structure Resolver where
  pipeline : Pipeline
  cache : List (Option Lines)

namespace Resolver

/-- A resolver that knows the initial text only. -/
def new (p : Pipeline) : Resolver :=
  ⟨p, some p.initial :: List.replicate p.size none⟩

/-- The resolver turned to another pipeline. -/
def reset (_ : Resolver) (p : Pipeline) : Resolver :=
  new p

/-- The resolver with the texts found so far forgotten. -/
def clear (r : Resolver) : Resolver :=
  r.reset r.pipeline

/-- The number of indices whose text is known. -/
def cachedCount (r : Resolver) : Nat :=
  r.cache.countP Option.isSome

/-- The known text at an index. -/
def known? (r : Resolver) (index : Nat) : Option Lines :=
  (r.cache[index]?).join

/-- What following references comes to. -/
structure Walk where
  lines : Lines
  /-- The indices visited whose text was not known. -/
  visited : List Nat
  gap : Option Gap

/-- Follows references from an index on. -/
def walk (r : Resolver) (index : Nat) : Walk :=
  match r.known? index with
  | some lines => ⟨lines, [], none⟩
  | none =>
    match (r.pipeline.pass? index).map Pass.reference with
    | none => ⟨[], [index], none⟩
    | some (.inline lines) => ⟨lines, [index], none⟩
    | some (.sameAs target) =>
      if _h : 0 ≤ target ∧ target < index then
        let w := r.walk target.toNat
        { w with visited := index :: w.visited }
      else ⟨[], [index], some (.notBackward index target)⟩
termination_by index
decreasing_by omega

/-- The resolver with a text remembered at some indices. -/
def remember (r : Resolver) (indices : List Nat) (lines : Lines) : Resolver :=
  { r with cache := indices.foldl (fun cache k => cache.set k (some lines)) r.cache }

/-- What a look-up yields: a text, the resolver that remembers it, and the gap met, if any. -/
structure Answer where
  lines : Lines
  resolver : Resolver
  gap : Option Gap

/-- The text after the pass at an index, where index zero has the initial text. -/
def resolve (r : Resolver) (index : Int) : Answer :=
  if 0 ≤ index ∧ index < r.cache.length then
    let w := r.walk index.toNat
    ⟨w.lines, r.remember w.visited w.lines, w.gap⟩
  else ⟨[], r, some (.outside index (r.cache.length - 1))⟩

/-- The text after the pass at an index. -/
def after (r : Resolver) (index : Int) : Answer :=
  r.resolve index

/-- The text before the pass at an index. A pass that changed nothing has the same text before it as
after it. -/
def before (r : Resolver) (index : Int) : Answer :=
  if index ≤ 1 then ⟨r.pipeline.initial, r, none⟩
  else
    match r.pipeline.pass? index with
    | none => ⟨[], r, some (.noPass index)⟩
    | some p => if p.changed then r.resolve (index - 1) else r.after index

end Resolver
end PassTrace

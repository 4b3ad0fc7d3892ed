import PassTrace.Json.Basic

/-!
# Pipelines of passes

An optimizer runs a sequence of passes over a module. A pipeline records the module's text before
the first pass and, for each pass, what it ran on, whether it changed the module, and where the text
after it is found: with the pass itself, or as that of an earlier index. Passes count from one;
index zero stands for the initial text.
-/

namespace PassTrace

/-- The text of a module, line by line. -/
abbrev Lines := List String

/-- The kinds of things that a pass runs on. -/
inductive ScopeKind
  | module
  | function
  | cgscc
  | loop
  | unknown
  deriving DecidableEq, Repr, Inhabited

namespace ScopeKind

/-- The kind's name in reports and sessions. -/
def name : ScopeKind → String
  | module => "module"
  | function => "function"
  | cgscc => "cgscc"
  | loop => "loop"
  | unknown => "unknown"

/-- All kinds. -/
def all : List ScopeKind := [module, function, cgscc, loop, unknown]

/-- The kind with a name. -/
def ofName? (s : String) : Option ScopeKind :=
  all.find? fun kind => kind.name = s

/-- The letter that marks the kind in a list of passes. -/
def tag : ScopeKind → String
  | module => "M"
  | function => "F"
  | cgscc => "C"
  | loop => "L"
  | unknown => "?"

/-- Whether passes of this kind run on a part of the module that has a name. -/
def hasTarget : ScopeKind → Bool
  | function | cgscc | loop => true
  | module | unknown => false

theorem ofName?_name (kind : ScopeKind) : ofName? kind.name = some kind := by
  cases kind <;> decide

end ScopeKind

/-- What a pass ran on. -/
structure Scope where
  kind : ScopeKind
  target : Option String
  deriving DecidableEq, Repr, Inhabited

/-- Whether a scope names a part of the module that views can be narrowed to. -/
def Scope.isNarrow (s : Scope) : Bool :=
  s.kind.hasTarget && s.target.any fun t => !t.isEmpty

/-- Where the text after a pass is found. -/
inductive Reference
  /-- The pass carries the text. -/
  | inline (lines : Lines)
  /-- The text is that at another index, which should be an earlier one. -/
  | sameAs (index : Int)
  deriving DecidableEq, Repr, Inhabited

/-- How many lines a text had before a pass and after it, and how many of them differ. -/
structure LineChange where
  before : Int
  after : Int
  changed : Int
  deriving DecidableEq, Repr, Inhabited

/-- The things that are counted in a module's text. -/
inductive Counter
  | instructions
  | basicBlocks
  | functions
  | phiNodes
  | calls
  | loads
  | stores
  deriving DecidableEq, Repr

namespace Counter

/-- The counter's name in sessions. -/
def name : Counter → String
  | instructions => "instructions"
  | basicBlocks => "basic_blocks"
  | functions => "functions"
  | phiNodes => "phi_nodes"
  | calls => "calls"
  | loads => "loads"
  | stores => "stores"

/-- All counters, in the order in which they are listed. -/
def all : List Counter :=
  [instructions, basicBlocks, functions, phiNodes, calls, loads, stores]

end Counter

/-- The values of all counters. -/
structure Counts where
  instructions : Int := 0
  basicBlocks : Int := 0
  functions : Int := 0
  phiNodes : Int := 0
  calls : Int := 0
  loads : Int := 0
  stores : Int := 0
  deriving DecidableEq, Repr, Inhabited

namespace Counts

/-- The value of a counter. -/
def get (c : Counts) : Counter → Int
  | .instructions => c.instructions
  | .basicBlocks => c.basicBlocks
  | .functions => c.functions
  | .phiNodes => c.phiNodes
  | .calls => c.calls
  | .loads => c.loads
  | .stores => c.stores

/-- The counts with a given value for each counter. -/
def ofFunction (f : Counter → Int) : Counts :=
  ⟨f .instructions, f .basicBlocks, f .functions, f .phiNodes, f .calls, f .loads, f .stores⟩

@[simp] theorem get_ofFunction (f : Counter → Int) (c : Counter) : (ofFunction f).get c = f c := by
  cases c <;> rfl

end Counts

/-- One run of a pass. The last three fields are filled in later, or read from a session. -/
structure Pass where
  name : String
  scope : Scope
  changed : Bool
  reference : Reference
  change : Option LineChange := none
  counts : Option Counts := none
  remarks : Option (List Json) := none
  deriving Inhabited

/-- The pass as the compiler prints it: its name with what it ran on. -/
def Pass.title (p : Pass) : String :=
  match p.scope.kind, p.scope.target with
  | .module, _ => p.name ++ " on [module]"
  | _, none => p.name
  | .cgscc, some target => p.name ++ " on (" ++ target ++ ")"
  | _, some target => p.name ++ " on " ++ target

/-- The initial text of a module and the passes run over it. -/
structure Pipeline where
  initial : Lines := []
  passes : List Pass := []
  deriving Inhabited

namespace Pipeline

/-- The number of passes. -/
def size (p : Pipeline) : Nat :=
  p.passes.length

/-- The pass at an index; there is none at zero. -/
def pass? (p : Pipeline) (index : Int) : Option Pass :=
  if 1 ≤ index then p.passes[(index - 1).toNat]? else none

/-- The number of passes that changed the module. -/
def changedCount (p : Pipeline) : Nat :=
  p.passes.countP (·.changed)

/-- The pipeline with one pass replaced by a function of it. -/
def modifyPass (p : Pipeline) (index : Nat) (f : Pass → Pass) : Pipeline :=
  { p with passes := p.passes.modify (index - 1) f }

end Pipeline
end PassTrace

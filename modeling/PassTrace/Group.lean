import PassTrace.Pipeline

/-!
# Groups of passes

An optimizer runs a pass over one function after the other, so a plain list of passes repeats
itself. Runs of one pass over different functions are collapsed into a group, which can be folded
away. A pass over the whole module stands alone and ends all groups before it; a second run over the
same function starts a new group.
-/

namespace PassTrace

/-- A run of a pass within a group. -/
structure Member where
  target : Option String
  index : Nat
  deriving DecidableEq, Repr, Inhabited

/-- Runs of one pass over different targets. -/
structure Collapsed where
  pass : String
  kind : ScopeKind
  members : List Member
  folded : Bool := true
  hasChanges : Bool := false
  deriving DecidableEq, Repr, Inhabited

/-- What a group holds. -/
inductive GroupContent
  | standalone (index : Nat)
  | collapsed (group : Collapsed)
  deriving DecidableEq, Repr, Inhabited

/-- A group with its place in the list of groups, counted from one. -/
structure Group where
  place : Nat
  content : GroupContent
  deriving DecidableEq, Repr, Inhabited

namespace Collapsed

/-- Whether a run can join a group: the pass and the kind of scope agree, and the target is new. -/
def admits (g : Collapsed) (p : Pass) : Bool :=
  g.pass = p.name && g.kind = p.scope.kind && !(g.members.map (·.target)).contains p.scope.target

/-- The open groups with a run in the first of them that it can join, or in a new last one. -/
def insert (p : Pass) (index : Nat) : List Collapsed → List Collapsed
  | [] => [{ pass := p.name, kind := p.scope.kind, members := [⟨p.scope.target, index⟩] }]
  | g :: rest =>
    if g.admits p then { g with members := g.members ++ [⟨p.scope.target, index⟩] } :: rest
    else g :: insert p index rest

/-- The group with the runs that changed something in front. -/
def arrange (changed : Nat → Bool) (g : Collapsed) : Collapsed :=
  let (first, last) := g.members.partition fun m => changed m.index
  { g with members := first ++ last, hasChanges := !first.isEmpty }

end Collapsed

namespace Group

/-- The groups of passes whose first index is `index`, where `pending` are the groups that are still
open. -/
def collect (pending : List Collapsed) (index : Nat) : List Pass → List GroupContent
  | [] => pending.map .collapsed
  | p :: rest =>
    if p.scope.kind = .module then
      pending.map .collapsed ++ .standalone index :: collect [] (index + 1) rest
    else collect (Collapsed.insert p index pending) (index + 1) rest

/-- Whether the pass at an index changed the module. -/
def changedAt (p : Pipeline) (index : Nat) : Bool :=
  (p.pass? index).any (·.changed)

/-- The content of a group as it is shown: the runs of a collapsed group arranged. -/
def present (p : Pipeline) : GroupContent → GroupContent
  | .standalone index => .standalone index
  | .collapsed g => .collapsed (g.arrange (changedAt p))

/-- The groups of a pipeline, all folded. -/
def ofPipeline (p : Pipeline) : List Group :=
  ((collect [] 1 p.passes).zipIdx 1).map fun (content, place) => ⟨place, present p content⟩

/-- The indices of the passes in a group, ascending. -/
def indices (g : Group) : List Nat :=
  match g.content with
  | .standalone index => [index]
  | .collapsed c => (c.members.map (·.index)).mergeSort

/-- Whether a group holds the pass at an index. -/
def hasPass (g : Group) (index : Int) : Bool :=
  match g.content with
  | .standalone i => (i : Int) = index
  | .collapsed c => c.members.any fun m => (m.index : Int) = index

/-- The group that holds the pass at an index. -/
def find? (groups : List Group) (index : Int) : Option Group :=
  groups.find? (·.hasPass index)

/-- The group folded or unfolded. A pass that stands alone stays as it is. -/
def setFolded (folded : Bool) (g : Group) : Group :=
  match g.content with
  | .standalone _ => g
  | .collapsed c => { g with content := .collapsed { c with folded } }

/-- Whether a group is folded; a pass that stands alone is not. -/
def isFolded (g : Group) : Bool :=
  match g.content with
  | .standalone _ => false
  | .collapsed c => c.folded

/-- The group with its fold turned over. -/
def toggle (g : Group) : Group :=
  g.setFolded !g.isFolded

/-- The rows that a list of groups shows: one for each group, and below an unfolded group one for
each of its runs. -/
def rows (groups : List Group) : List (Group × Option Member) :=
  groups.flatMap fun g =>
    (g, none) ::
      match g.content with
      | .standalone _ => []
      | .collapsed c => if c.folded then [] else c.members.map fun m => (g, some m)

end Group
end PassTrace

import PassTrace.Json.Literal

/-!
# Reading JSON text

One pass over the text, each part of it read once. Blanks may stand around values and punctuation;
a comma must have an item behind it. Of fields with one name the last counts, in the place of the
first. Arrays and objects are read down to a number of levels.
-/

namespace PassTrace.Json

/-- A value without parts: one with a name, or a number. -/
def simpleValue (cs : List Char) : Except Trouble (Json × Rest cs) :=
  match h : named? cs with
  | some (value, rest) => .ok (value, ⟨rest, length_of_named? h⟩)
  | none =>
    match h : number? cs with
    | none => .error (.badSyntax .expectingValue cs.length)
    | some (.error fault, _) => .error (.badInteger fault)
    | some (.ok value, rest) => .ok (value, ⟨rest, length_of_number? h⟩)

/-- The number of levels to which arrays and objects may be nested. -/
def maxLevels : Nat := 990

mutual

/-- The value in front of a text, and the rest. It has at most `levels` levels of arrays and
objects. -/
def value (levels : Nat) (cs : List Char) : Except Trouble (Json × Rest cs) :=
  match cs with
  | '"' :: rest => do
    let (s, r) ← stringBody ('"' :: rest) rest
    return (.string (String.ofList s), ⟨r.1, by have := r.2; simp; omega⟩)
  | '[' :: rest =>
    if levels = 0 then .error (.tooDeep .array)
    else match h : skipBlanks rest with
    | ']' :: tail =>
      .ok (.array [], ⟨tail, by have := length_skipBlanks_le rest; simp [h] at this ⊢; omega⟩)
    | inner => do
      have hle : inner.length ≤ rest.length := h ▸ length_skipBlanks_le rest
      let (items, r) ← arrayItems (levels - 1) inner
      return (.array items, ⟨r.1, by have := r.2; simp; omega⟩)
  | '{' :: rest =>
    if levels = 0 then .error (.tooDeep .object)
    else match h : skipBlanks rest with
    | '}' :: tail =>
      .ok (.object [], ⟨tail, by have := length_skipBlanks_le rest; simp [h] at this ⊢; omega⟩)
    | inner => do
      have hle : inner.length ≤ rest.length := h ▸ length_skipBlanks_le rest
      let (fields, r) ← objectFields (levels - 1) [] inner
      return (.object fields, ⟨r.1, by have := r.2; simp; omega⟩)
  | cs => simpleValue cs
termination_by 2 * cs.length
decreasing_by all_goals (simp; omega)

/-- The items of an array from an item on, and the rest behind the closing bracket. -/
def arrayItems (levels : Nat) (cs : List Char) : Except Trouble (List Json × Rest cs) := do
  let (item, r) ← value levels cs
  have hr := r.2
  have hs := length_skipBlanks_le r.1
  match h : skipBlanks r.1 with
  | ']' :: tail => return ([item], ⟨tail, by simp [h] at hs; omega⟩)
  | ',' :: tail =>
    have ht := length_skipBlanks_le tail
    let (items, r') ← arrayItems levels (skipBlanks tail)
    return (item :: items, ⟨r'.1, by have := r'.2; simp [h] at hs; omega⟩)
  | tail => .error (.badSyntax .expectingComma tail.length)
termination_by 2 * cs.length + 1
decreasing_by
  · omega
  · simp [h] at hs; omega

/-- The fields of an object from a name on, set in turn on those already read, and the rest behind
the closing brace. -/
def objectFields (levels : Nat) (read : Fields) (cs : List Char) :
    Except Trouble (Fields × Rest cs) :=
  match cs with
  | '"' :: rest => do
    let (name, r) ← stringBody ('"' :: rest) rest
    have hr := r.2
    have hs := length_skipBlanks_le r.1
    match h : skipBlanks r.1 with
    | ':' :: tail =>
      have ht := length_skipBlanks_le tail
      let (item, r₁) ← value levels (skipBlanks tail)
      have hr₁ := r₁.2
      have hs₁ := length_skipBlanks_le r₁.1
      let fields := read.set (String.ofList name) item
      match h₁ : skipBlanks r₁.1 with
      | '}' :: tail₁ =>
        return (fields, ⟨tail₁, by simp [h, h₁] at *; omega⟩)
      | ',' :: tail₁ =>
        have ht₁ := length_skipBlanks_le tail₁
        let (all, r₂) ← objectFields levels fields (skipBlanks tail₁)
        return (all, ⟨r₂.1, by have := r₂.2; simp [h, h₁] at *; omega⟩)
      | tail₁ => .error (.badSyntax .expectingComma tail₁.length)
    | tail => .error (.badSyntax .expectingColon tail.length)
  | cs => .error (.badSyntax .expectingName cs.length)
termination_by 2 * cs.length + 1
decreasing_by
  · simp [h] at *; omega
  · simp [h, h₁] at *; omega

end

/-- A fault with its place in the text. -/
def Trouble.toFault (text : List Char) : Trouble → Fault
  | .badSyntax fault remaining => .badSyntax fault (Place.before text remaining)
  | .badInteger fault => .badInteger fault
  | .tooDeep kind => .tooDeep kind

/-- The value that a text denotes whose byte order mark, if it had one, was taken off. -/
def parseUnmarked (text : List Char) : Except Fault Json :=
  match value maxLevels (skipBlanks text) with
  | .error trouble => .error (trouble.toFault text)
  | .ok (v, rest) =>
    match skipBlanks rest.1 with
    | [] => .ok v
    | tail => .error (.badSyntax .extraData (Place.before text tail.length))

/-- The value that a text denotes. A byte order mark is refused by its name. -/
def parseChars (text : List Char) : Except Fault Json :=
  match text with
  | '\uFEFF' :: _ => .error (.badSyntax .byteOrderMark (Place.before text text.length))
  | _ => parseUnmarked text

/-- The value that a text denotes. -/
def parse (text : String) : Except Fault Json :=
  parseChars text.toList

end PassTrace.Json

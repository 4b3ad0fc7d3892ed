import PassTrace.Text.Utf8

/-!
# Repetitions

A sequence of bytes is told in items: bytes, and references that repeat earlier ones. Earlier places
are looked up by a key of the three bytes there, the last place first. A reference is held back by
one byte: if the next place has a longer one, the byte before it is told alone.
-/

namespace PassTrace.Deflate

/-- A part of a sequence of bytes. -/
inductive Item
  /-- A byte. -/
  | literal (byte : UInt8)
  /-- As many bytes as `length`, each equal to the one `distance` before it. -/
  | reference (length distance : Nat)
  deriving DecidableEq, Repr

/-- The number of bytes that an item stands for. -/
def Item.size : Item → Nat
  | .literal _ => 1
  | .reference length _ => length

/-- The length of the shortest reference. -/
def leastLength : Nat := 3

/-- The length of the longest reference. -/
def greatestLength : Nat := 258

/-- How far back references go: less than the format has room for, by the longest reference and the
bytes of one more key. -/
def greatestDistance : Nat := 32768 - 262

/-- How far back the shortest references go; farther ones take more bits than their bytes. -/
def shortestReach : Nat := 4096

/-- How much is spent on the search for references. -/
structure Effort where
  /-- With a reference of this length at hand, the search for a longer one takes a quarter of the
  steps. -/
  fair : Nat
  /-- With a reference of this length at hand, none is searched for. -/
  enough : Nat
  /-- A reference of this length ends the search. -/
  plenty : Nat
  /-- The number of places that one search looks at. -/
  steps : Nat
  deriving DecidableEq, Repr

/-- The effort for what is packed often. -/
def Effort.usual : Effort := ⟨8, 16, 128, 128⟩

/-- The effort for what is packed once and kept. -/
def Effort.greatest : Effort := ⟨32, greatestLength, greatestLength, 4096⟩

/-- Bytes that earlier ones repeat: how many, and the place of the earlier ones. -/
structure Repeat where
  /-- The number of bytes; fewer than the shortest reference has are none. -/
  length : Nat
  /-- The place of the earlier bytes. -/
  place : Nat
  deriving DecidableEq, Repr

/-- No repetition. -/
def Repeat.none : Repeat := ⟨leastLength - 1, 0⟩

/-- The number of keys. -/
def keyCount : Nat := 0x8000

/-- The key of three bytes. Other bytes may share it, but none that differ in the last byte only. -/
def key (a b c : UInt8) : Nat :=
  (a.toNat * 0x400 ^^^ b.toNat * 0x20 ^^^ c.toNat) % keyCount

/-- The key of the bytes at a place, unless fewer than three are left. -/
def keyAt (bytes : Array UInt8) (place : Nat) : Option Nat :=
  if place + 2 < bytes.size then
    some (key (bytes.getD place 0) (bytes.getD (place + 1) 0) (bytes.getD (place + 2) 0))
  else none

/-- The places of a sequence of bytes up to some place. Zero stands for no place, so that nothing
repeats the very first bytes. -/
structure Places where
  /-- The last place of each key. -/
  latest : Array Nat
  /-- For each place the one before it with the same key. -/
  earlier : Array Nat

namespace Places

/-- No places. -/
def empty : Places := ⟨Array.replicate keyCount 0, #[]⟩

/-- Adds the next place. -/
def add (bytes : Array UInt8) (places : Places) (place : Nat) : Places :=
  match keyAt bytes place, places with
  | none, places => places
  | some k, ⟨latest, earlier⟩ =>
    let before := latest.getD k 0
    ⟨latest.setIfInBounds k place, earlier.push before⟩

/-- Adds the next `count` places. -/
def addMany (bytes : Array UInt8) : (count : Nat) → Places → (place : Nat) → Places
  | 0, places, _ => places
  | count + 1, places, place => addMany bytes count (places.add bytes place) (place + 1)

end Places

/-- How many bytes from one place on are equal to those from another on, up to a limit. -/
def agreement (bytes : Array UInt8) : (limit : Nat) → (here there : Nat) → Nat
  | 0, _, _ => 0
  | limit + 1, here, there =>
    if bytes.getD here 0 = bytes.getD there 0 then
      agreement bytes limit (here + 1) (there + 1) + 1
    else 0

/-- The longest repetition of the bytes at `here`, or `best` if none is longer, where `place` is the
first of the earlier places to look at. At most `steps` of them are, and none at `floor` or before
but the first. A place that does not agree where `best` ends cannot have a longer one. -/
def longest (bytes : Array UInt8) (earlier : Array Nat) (plenty limit floor here : Nat) :
    (steps : Nat) → (place : Nat) → (best : Repeat) → Repeat
  | 0, _, best => best
  | steps + 1, place, best =>
    let length :=
      if bytes.getD (here + best.length) 0 = bytes.getD (place + best.length) 0 then
        agreement bytes limit here place
      else 0
    let best := if best.length < length then ⟨length, place⟩ else best
    let next := earlier.getD place 0
    if plenty ≤ best.length ∨ next ≤ floor then best
    else longest bytes earlier plenty limit floor here steps next best

/-- The repetition of the bytes at `here` that the places before it offer, given the one at hand for
the byte before. -/
def Places.offer (effort : Effort) (bytes : Array UInt8) (places : Places) (here : Nat)
    (atHand : Repeat) : Repeat :=
  let place := ((keyAt bytes here).bind (places.latest[·]?)).getD 0
  if place = 0 ∨ place + greatestDistance < here ∨ effort.enough ≤ atHand.length then .none
  else
    let limit := min greatestLength (bytes.size - here)
    let steps := if effort.fair ≤ atHand.length then effort.steps / 4 else effort.steps
    let found := longest bytes places.earlier (min effort.plenty limit) limit
      (here - greatestDistance) here steps place atHand
    if found.length = leastLength ∧ found.place + shortestReach < here then .none else found

/-- The items from the place `here` on, behind those told already. If the byte before `here` is not
told yet, `held` is the repetition that was offered for the bytes from it on. -/
def tellFrom (effort : Effort) (bytes : Array UInt8) (told : Array Item) (places : Places)
    (held : Option Repeat) (here : Nat) : Array Item :=
  if here < bytes.size then
    let offered := places.offer effort bytes here (held.getD .none)
    let places := places.add bytes here
    match held with
    | none => tellFrom effort bytes told places (some offered) (here + 1)
    | some before =>
      if leastLength ≤ before.length ∧ offered.length ≤ before.length then
        let item := .reference before.length (here - 1 - before.place)
        let places := places.addMany bytes (before.length - 2) (here + 1)
        tellFrom effort bytes (told.push item) places none (here + (before.length - 1))
      else
        let item := .literal (bytes.getD (here - 1) 0)
        tellFrom effort bytes (told.push item) places (some offered) (here + 1)
  else
    match held with
    | none => told
    | some _ => told.push (.literal (bytes.getD (here - 1) 0))
termination_by bytes.size - here
decreasing_by
  · omega
  · simp only [leastLength] at *; omega
  · omega

/-- The items that tell a sequence of bytes. -/
def tell (effort : Effort) (bytes : Bytes) : List Item :=
  (tellFrom effort bytes.toArray #[] .empty none 0).toList

end PassTrace.Deflate

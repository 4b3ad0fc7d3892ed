import PassTrace.Json.Basic
import PassTrace.Json.Fault
import PassTrace.Text.Hex
import PassTrace.Text.Search

/-!
# The lexical forms of JSON

Strings, numbers and the named values. Each reader takes the text from where the form starts and
returns what it denotes with the rest of the text, which is shorter. A fault is placed by the number
of characters that remain from its place on.

Two extensions are read: `NaN`, `Infinity` and `-Infinity` as numbers, and an escaped half of a
surrogate pair that stands alone as a replacement character.
-/

namespace PassTrace.Json

/-- A fault met while reading. -/
inductive Trouble
  | badSyntax (fault : SyntaxFault) (remaining : Nat)
  | badInteger (fault : IntegerFault)
  | tooDeep (kind : Compound)
  deriving DecidableEq, Repr

/-- What remains of a text after something was read from it. -/
abbrev Rest (text : List Char) := { rest : List Char // rest.length < text.length }

theorem length_lt_append {rest tail : List Char} (front : List Char)
    (h : rest.length < tail.length) : rest.length < (front ++ tail).length := by
  rw [List.length_append]
  omega

/-- What remains of the end of a text remains of the text. -/
def Rest.behind {tail : List Char} (front : List Char) (r : Rest tail) : Rest (front ++ tail) :=
  ⟨r.1, length_lt_append front r.2⟩

/-- The text without the blanks in front that may stand between the parts of a value. -/
def skipBlanks (cs : List Char) : List Char :=
  cs.dropWhile fun c => c = ' ' || c = '\n' || c = '\t' || c = '\r'

theorem length_skipBlanks_le (cs : List Char) : (skipBlanks cs).length ≤ cs.length :=
  (List.dropWhile_suffix _).length_le

/-- Four hexadecimal digits as a number. -/
def codeUnit? (a b c d : Char) : Option Nat := do
  let a ← Text.hexValue? a
  let b ← Text.hexValue? b
  let c ← Text.hexValue? c
  let d ← Text.hexValue? d
  return a * 0x1000 + b * 0x100 + c * 0x10 + d

/-- Whether a code unit is the first half of a surrogate pair. -/
def isHighSurrogate (n : Nat) : Bool := 0xd800 ≤ n && n < 0xdc00

/-- Whether a code unit is the second half of a surrogate pair. -/
def isLowSurrogate (n : Nat) : Bool := 0xdc00 ≤ n && n < 0xe000

/-- The character of a code unit; half a surrogate pair becomes a replacement character. -/
def ofCodeUnit (n : Nat) : Char :=
  if isHighSurrogate n || isLowSurrogate n then '\uFFFD' else Char.ofNat n

/-- The character of a surrogate pair. -/
def ofSurrogates (high low : Nat) : Char :=
  Char.ofNat (0x10000 + (high - 0xd800) * 0x400 + (low - 0xdc00))

/-- The character that a letter behind a backslash stands for. -/
def unescape? (c : Char) : Option Char :=
  if c = '"' || c = '\\' || c = '/' then some c
  else if c = 'b' then some '\x08'
  else if c = 'f' then some '\x0c'
  else if c = 'n' then some '\n'
  else if c = 'r' then some '\r'
  else if c = 't' then some '\t'
  else none

/-- The characters of a string up to its closing quote, and the rest behind it, where `opened` is
the text from the opening quote on. -/
def stringBody (opened : List Char) :
    (cs : List Char) → Except Trouble (List Char × Rest cs)
  | [] => .error (.badSyntax .unterminatedString opened.length)
  | '"' :: rest => .ok ([], ⟨rest, Nat.lt_succ_self _⟩)
  | '\\' :: 'u' :: a :: b :: c :: d :: '\\' :: 'u' :: a' :: b' :: c' :: d' :: e' :: rest =>
    let tail := a' :: b' :: c' :: d' :: e' :: rest
    match codeUnit? a b c d with
    | none => .error (.badSyntax .invalidUnicodeEscape (tail.length + 7))
    | some high =>
      if isHighSurrogate high then
        match codeUnit? a' b' c' d' with
        | none => .error (.badSyntax .invalidUnicodeEscape (tail.length + 1))
        | some low =>
          if isLowSurrogate low then do
            let (cs, r) ← stringBody opened (e' :: rest)
            return (ofSurrogates high low :: cs, r.behind ['\\', 'u', a, b, c, d, '\\', 'u', a', b', c', d'])
          else do
            let (cs, r) ← stringBody opened ('\\' :: 'u' :: tail)
            return ('\uFFFD' :: cs, r.behind ['\\', 'u', a, b, c, d])
      else do
        let (cs, r) ← stringBody opened ('\\' :: 'u' :: tail)
        return (ofCodeUnit high :: cs, r.behind ['\\', 'u', a, b, c, d])
  | '\\' :: 'u' :: a :: b :: c :: d :: e :: rest =>
    match codeUnit? a b c d with
    | none => .error (.badSyntax .invalidUnicodeEscape (rest.length + 6))
    | some n => do
      let (cs, r) ← stringBody opened (e :: rest)
      return (ofCodeUnit n :: cs, r.behind ['\\', 'u', a, b, c, d])
  | '\\' :: 'u' :: rest => .error (.badSyntax .invalidUnicodeEscape (rest.length + 1))
  | ['\\'] => .error (.badSyntax .unterminatedString opened.length)
  | '\\' :: c :: rest =>
    match unescape? c with
    | none => .error (.badSyntax .invalidEscape (rest.length + 2))
    | some c' => do
      let (cs, r) ← stringBody opened rest
      return (c' :: cs, r.behind ['\\', c])
  | c :: rest =>
    if c.toNat < 0x20 then .error (.badSyntax .controlCharacter (rest.length + 1))
    else do
      let (cs, r) ← stringBody opened rest
      return (c :: cs, r.behind [c])
termination_by cs => cs.length
decreasing_by all_goals (simp; try omega)

theorem stringBody_cons_quote (opened rest : List Char) :
    stringBody opened ('"' :: rest) = .ok ([], ⟨rest, Nat.lt_succ_self _⟩) := by
  rw [stringBody]

/-- Whether a character is an ASCII digit. -/
def isAsciiDigit (c : Char) : Bool := '0' ≤ c && c ≤ '9'

/-- The digits in front, as numbers, and the rest. -/
def spanDigits : List Char → List Nat × List Char
  | [] => ([], [])
  | c :: rest =>
    if isAsciiDigit c then
      let (ds, tail) := spanDigits rest
      ((c.toNat - 0x30) :: ds, tail)
    else ([], c :: rest)

theorem length_spanDigits (cs : List Char) :
    (spanDigits cs).1.length + (spanDigits cs).2.length = cs.length := by
  induction cs with
  | nil => rfl
  | cons c rest ih =>
    simp only [spanDigits]
    split
    · simp only [List.length_cons]; omega
    · simp

/-- The digits of the integer part of a number: a zero alone, or digits that start with none. -/
def integerDigits (cs : List Char) : List Nat × List Char :=
  match cs with
  | '0' :: rest => ([0], rest)
  | _ => spanDigits cs

/-- The digits behind a point, if a point with a digit behind it comes first. -/
def fractionDigits (cs : List Char) : List Nat × List Char :=
  match cs with
  | '.' :: rest =>
    let (ds, tail) := spanDigits rest
    if ds.isEmpty then ([], cs) else (ds, tail)
  | _ => ([], cs)

/-- The exponent, if an exponent mark with an optional sign and digits comes first. -/
def exponentPart (cs : List Char) : Option Int × List Char :=
  match cs with
  | [] => (none, cs)
  | mark :: rest =>
    if mark = 'e' || mark = 'E' then
      let (negative, body) : Bool × List Char :=
        match rest with
        | '-' :: body => (true, body)
        | '+' :: body => (false, body)
        | _ => (false, rest)
      let (ds, tail) := spanDigits body
      if ds.isEmpty then (none, cs)
      else
        let n : Int := ofDigits 0 ds
        (some (if negative then -n else n), tail)
    else (none, cs)

theorem length_integerDigits (cs : List Char) :
    (integerDigits cs).1.length + (integerDigits cs).2.length = cs.length := by
  unfold integerDigits
  split
  · simp only [List.length_cons, List.length_nil]; omega
  · exact length_spanDigits cs

theorem length_fractionDigits_le (cs : List Char) : (fractionDigits cs).2.length ≤ cs.length := by
  unfold fractionDigits
  split
  · rename_i rest
    have := length_spanDigits rest
    dsimp only
    split <;> simp only [List.length_cons] <;> omega
  · exact Nat.le_refl _

theorem length_exponentPart_le (cs : List Char) : (exponentPart cs).2.length ≤ cs.length := by
  unfold exponentPart
  split
  · exact Nat.le_refl _
  · rename_i mark rest
    split
    · split
      rename_i negative body hb
      have hle : body.length ≤ rest.length := by
        split at hb <;> simp_all
      have := length_spanDigits body
      dsimp only
      split <;> simp only [List.length_cons] <;> omega
    · exact Nat.le_refl _

/-- A number and what follows it. A fraction or an exponent makes it a floating-point number. There
is no result if the text does not start with a number. -/
def number? (cs : List Char) : Option (Except IntegerFault Json × List Char) :=
  let (negative, body) : Bool × List Char :=
    match cs with
    | '-' :: rest => (true, rest)
    | _ => (false, cs)
  let (whole, rest) := integerDigits body
  if whole.isEmpty then none
  else
    let (parts, rest) := fractionDigits rest
    let (exponent, rest) := exponentPart rest
    if parts.isEmpty && exponent.isNone then
      if maxDigits < whole.length then some (.error (.tooManyDigits whole.length), rest)
      else
        let n : Int := ofDigits 0 whole
        some (.ok (.int (if negative then -n else n)), rest)
    else
      let decimal : Decimal :=
        ⟨ofDigits (ofDigits 0 whole) parts, exponent.getD 0 - parts.length⟩
      some (.ok (.float (decimal.toBinary64 negative)), rest)

/-- Reading a number takes up at least one digit. -/
theorem length_of_number? {cs rest : List Char} {r : Except IntegerFault Json}
    (h : number? cs = some (r, rest)) : rest.length < cs.length := by
  unfold number? at h
  split at h
  rename_i negative body hb
  have hle : body.length ≤ cs.length := by
    split at hb <;> simp_all
  have hi := length_integerDigits body
  have hf := length_fractionDigits_le (integerDigits body).2
  have he := length_exponentPart_le (fractionDigits (integerDigits body).2).2
  dsimp only at h
  split at h
  · simp at h
  · rename_i hw
    have : 0 < (integerDigits body).1.length := by
      cases hd : (integerDigits body).1 <;> simp_all
    split at h
    · split at h
      all_goals
        simp only [Option.some.injEq, Prod.mk.injEq] at h
        obtain ⟨-, rfl⟩ := h
        omega
    · simp only [Option.some.injEq, Prod.mk.injEq] at h
      obtain ⟨-, rfl⟩ := h
      omega

/-- The values that have a name. -/
def namedValues : List (String × Json) :=
  [("null", .null), ("true", .bool true), ("false", .bool false), ("NaN", .float .nan),
   ("Infinity", .float (.infinity false)), ("-Infinity", .float (.infinity true))]

/-- A value with a name, if one comes first, and the rest. -/
def named? (cs : List Char) : Option (Json × List Char) :=
  namedValues.findSome? fun (name, value) => (Text.behind? name.toList cs).map (value, ·)

/-- Reading a name takes up its characters. -/
theorem length_of_named? {cs rest : List Char} {v : Json}
    (h : named? cs = some (v, rest)) : rest.length < cs.length := by
  obtain ⟨⟨name, value⟩, hmem, hv⟩ := List.exists_of_findSome?_eq_some h
  obtain ⟨tail, ht, heq⟩ := Option.map_eq_some_iff.1 hv
  obtain ⟨rfl, rfl⟩ := Prod.mk.inj heq
  rw [Text.behind?_eq_some_iff.1 ht]
  have : 0 < name.toList.length := by
    revert hmem
    simp only [namedValues, List.mem_cons, List.not_mem_nil, Prod.mk.injEq, or_false]
    rintro (⟨rfl, _⟩ | ⟨rfl, _⟩ | ⟨rfl, _⟩ | ⟨rfl, _⟩ | ⟨rfl, _⟩ | ⟨rfl, _⟩) <;> decide
  rw [List.length_append]
  omega

end PassTrace.Json

import PassTrace.Json.Literal
import PassTrace.Json.Printer
import PassTrace.Proofs.Reads
import PassTrace.Proofs.Text.Utf8

/-!
# Strings read back

A character is written as it is, behind a backslash, as one code unit or as two. Each
form is told by its start, whatever stands behind it, and is read as the character.
-/

namespace PassTrace.Json

/-- A hexadecimal digit has the value that it was written for. -/
theorem hexValue?_hexDigit {d : Nat} (hd : d < 16) : Text.hexValue? (Text.hexDigit d) = some d := by
  have hall : ∀ d < 16, Text.hexValue? (Text.hexDigit d) = some d := by decide
  exact hall d hd

/-- The four digits of a code unit. -/
theorem hexDigits_four (n : Nat) : Text.hexDigits 4 n =
    [Text.hexDigit (n / 16 / 16 / 16 % 16), Text.hexDigit (n / 16 / 16 % 16),
      Text.hexDigit (n / 16 % 16), Text.hexDigit (n % 16)] := rfl

/-- The four digits of a code unit are read as the code unit. -/
theorem codeUnit?_hexDigits {n : Nat} (hn : n < 0x10000) :
    codeUnit? (Text.hexDigit (n / 16 / 16 / 16 % 16)) (Text.hexDigit (n / 16 / 16 % 16))
      (Text.hexDigit (n / 16 % 16)) (Text.hexDigit (n % 16)) = some n := by
  unfold codeUnit?
  rw [hexValue?_hexDigit (Nat.mod_lt _ (by decide)), hexValue?_hexDigit (Nat.mod_lt _ (by decide)),
    hexValue?_hexDigit (Nat.mod_lt _ (by decide)), hexValue?_hexDigit (Nat.mod_lt _ (by decide))]
  simp only [Option.bind_eq_bind, Option.bind_some, Option.pure_def, Option.some.injEq]
  omega

variable {opened cs rest tail : List Char}

/-- The closing quote ends a string. -/
theorem stringBody_quote : Reads (stringBody opened ('"' :: rest)) [] rest :=
  ⟨Nat.lt_succ_self _, stringBody_cons_quote opened rest⟩

/-- A character that stands for itself. -/
theorem stringBody_plain {c : Char} (hquote : c ≠ '"') (hbackslash : c ≠ '\\')
    (hprints : 0x20 ≤ c.toNat) (htail : Reads (stringBody opened tail) cs rest) :
    Reads (stringBody opened (c :: tail)) (c :: cs) rest := by
  obtain ⟨h, htail⟩ := htail
  refine ⟨Nat.lt_succ_of_lt h, ?_⟩
  rw [stringBody.eq_8 _ _ _ hquote (by simp [hbackslash]) (by simp [hbackslash])
    (by simp [hbackslash]) (by simp [hbackslash]) (by simp [hbackslash]), if_neg (by omega), htail]
  rfl

/-- A letter behind a backslash. -/
theorem stringBody_letter {c letter : Char} (hu : letter ≠ 'u') (hc : unescape? letter = some c)
    (htail : Reads (stringBody opened tail) cs rest) :
    Reads (stringBody opened ('\\' :: letter :: tail)) (c :: cs) rest := by
  obtain ⟨h, htail⟩ := htail
  refine ⟨by simp; omega, ?_⟩
  rw [stringBody.eq_7 _ _ _ (by simp [hu]) (by simp [hu]) hu, hc]
  simp only [htail]
  rfl

/-- A code unit that stands alone: the text behind it may go on with another one. -/
theorem stringBody_unit {n : Nat} (hn : n < 0x10000) (hhigh : isHighSurrogate n = false)
    (htail : Reads (stringBody opened tail) cs rest) :
    Reads (stringBody opened (escapeUnit n ++ tail)) (ofCodeUnit n :: cs) rest := by
  obtain ⟨h, htail⟩ := htail
  refine ⟨by simp [escapeUnit]; omega, ?_⟩
  have hunit := codeUnit?_hexDigits hn
  simp only [escapeUnit, hexDigits_four, List.cons_append, List.nil_append]
  match tail with
  | [] => simp at h
  | e :: more =>
    by_cases hpair : ∃ a b c d e' last, e = '\\' ∧ more = 'u' :: a :: b :: c :: d :: e' :: last
    · obtain ⟨a, b, c, d, e', last, rfl, rfl⟩ := hpair
      rw [stringBody.eq_3, hunit]
      simp only [hhigh, htail]
      rfl
    · rw [stringBody.eq_4 _ _ _ _ _ _ _
        (fun a b c d e' last he hmore => hpair ⟨a, b, c, d, e', last, he, hmore⟩), hunit]
      simp only [htail]
      rfl

/-- Two code units that are one character. -/
theorem stringBody_pair (high low : Nat) (hhigh : 0xd800 ≤ high ∧ high < 0xdc00)
    (hlow : 0xdc00 ≤ low ∧ low < 0xe000) (htail : Reads (stringBody opened tail) cs rest) :
    Reads (stringBody opened (escapeUnit high ++ (escapeUnit low ++ tail)))
      (ofSurrogates high low :: cs) rest := by
  obtain ⟨h, htail⟩ := htail
  refine ⟨by simp [escapeUnit]; omega, ?_⟩
  have hunit := codeUnit?_hexDigits (n := high) (by omega)
  have hunit' := codeUnit?_hexDigits (n := low) (by omega)
  have hfirst : isHighSurrogate high = true := by simpa [isHighSurrogate] using hhigh
  have hsecond : isLowSurrogate low = true := by simpa [isLowSurrogate] using hlow
  simp only [escapeUnit, hexDigits_four, List.cons_append, List.nil_append]
  match tail with
  | [] => simp at h
  | e :: more =>
    rw [stringBody.eq_3, hunit]
    simp only [hunit', hfirst, hsecond, htail, if_true]
    rfl

/-- A character is the one of its code unit. -/
theorem ofCodeUnit_toNat (c : Char) : ofCodeUnit c.toNat = c := by
  have h := Text.not_surrogate c
  have hno : (isHighSurrogate c.toNat || isLowSurrogate c.toNat) = false := by
    simp only [isHighSurrogate, isLowSurrogate, Bool.or_eq_false_iff, Bool.and_eq_false_iff,
      decide_eq_false_iff_not]
    omega
  unfold ofCodeUnit
  rw [if_neg (by simp [hno]), Char.ofNat_toNat]

/-- A character is the one of its two code units. -/
theorem ofSurrogates_toNat {c : Char} (hc : 0x10000 ≤ c.toNat) :
    ofSurrogates (0xd800 + (c.toNat - 0x10000) / 0x400) (0xdc00 + (c.toNat - 0x10000) % 0x400) =
      c := by
  have hvalue : 0x10000 + (0xd800 + (c.toNat - 0x10000) / 0x400 - 0xd800) * 0x400 +
      (0xdc00 + (c.toNat - 0x10000) % 0x400 - 0xdc00) = c.toNat := by omega
  unfold ofSurrogates
  rw [hvalue, Char.ofNat_toNat]

/-- The letter of a character stands for it. -/
theorem unescape?_of_escapeLetter? {c letter : Char} (h : escapeLetter? c = some letter) :
    letter ≠ 'u' ∧ unescape? letter = some c := by
  unfold escapeLetter? at h
  split at h
  next hc =>
    obtain rfl := Option.some.inj h
    have hc : c = '"' ∨ c = '\\' := by simpa using hc
    rcases hc with rfl | rfl <;> decide
  next =>
    repeat' split at h
    case isFalse.isFalse.isFalse.isFalse.isFalse => exact nomatch h
    all_goals
      obtain rfl := Option.some.inj h
      subst c
      decide

/-- A character without a letter is no quote and no backslash. -/
theorem ne_of_escapeLetter? {c : Char} (h : escapeLetter? c = none) : c ≠ '"' ∧ c ≠ '\\' := by
  constructor
  · rintro rfl
    exact absurd h (by decide)
  · rintro rfl
    exact absurd h (by decide)

/-- A character is read as it was written, with what stands behind it. -/
theorem stringBody_escapeChar (ascii : Bool) (c : Char)
    (htail : Reads (stringBody opened tail) cs rest) :
    Reads (stringBody opened (escapeChar ascii c ++ tail)) (c :: cs) rest := by
  have hchar := Text.not_surrogate c
  have hunit (hsmall : c.toNat < 0x10000) :
      Reads (stringBody opened (escapeUnit c.toNat ++ tail)) (c :: cs) rest := by
    have hhigh : isHighSurrogate c.toNat = false := by
      simp only [isHighSurrogate, Bool.and_eq_false_iff, decide_eq_false_iff_not]
      omega
    have h := stringBody_unit hsmall hhigh htail
    rwa [ofCodeUnit_toNat] at h
  cases hletter : escapeLetter? c with
  | some letter =>
    obtain ⟨hu, hc⟩ := unescape?_of_escapeLetter? hletter
    have hform : escapeChar ascii c = ['\\', letter] := by simp only [escapeChar, hletter]
    rw [hform]
    exact stringBody_letter hu hc htail
  | none =>
    obtain ⟨hquote, hbackslash⟩ := ne_of_escapeLetter? hletter
    unfold escapeChar
    rw [hletter]
    dsimp only
    by_cases hcontrol : c.toNat < 0x20
    · rw [if_pos hcontrol]
      exact hunit (by omega)
    rw [if_neg hcontrol]
    by_cases hplain : (!ascii || decide (c.toNat < 0x7f)) = true
    · rw [if_pos hplain]
      exact stringBody_plain hquote hbackslash (by omega) htail
    rw [if_neg hplain]
    by_cases hsmall : c.toNat < 0x10000
    · rw [if_pos hsmall]
      exact hunit hsmall
    · rw [if_neg hsmall, List.append_assoc]
      have h := stringBody_pair (0xd800 + (c.toNat - 0x10000) / 0x400)
        (0xdc00 + (c.toNat - 0x10000) % 0x400) (by omega) (by omega) htail
      rwa [ofSurrogates_toNat (by omega)] at h

/-- The body of a string is read as it was written, up to its closing quote. -/
theorem stringBody_escape (ascii : Bool) (opened cs rest : List Char) :
    Reads (stringBody opened (cs.flatMap (escapeChar ascii) ++ '"' :: rest)) cs rest := by
  induction cs with
  | nil => exact stringBody_quote
  | cons c cs ih =>
    rw [List.flatMap_cons, List.append_assoc]
    exact stringBody_escapeChar ascii c ih

end PassTrace.Json

import PassTrace.Json.Parser
import PassTrace.Json.Printer
import PassTrace.Proofs.Number.Shortest

/-!
# Numbers read back

An integer is written with its digits, a floating-point number with a point or an
exponent, so that reading tells them apart. Behind a number stands nothing that could
belong to it: a comma, a closing bracket, the end of a line or that of the text.
-/

namespace PassTrace.Json

/-- What may stand behind a value: nothing, or a text from a comma, a closing bracket or the end of
a line on. -/
def IsTail (rest : List Char) : Prop :=
  ∀ c ∈ rest.head?, c = ',' ∨ c = ']' ∨ c = '}' ∨ c = '\n'

/-- Nothing stands behind the last value. -/
theorem isTail_nil : IsTail [] := by
  intro c hc
  cases hc

/-- A text that starts with a comma, a closing bracket or the end of a line stands behind a
value. -/
theorem isTail_cons {c : Char} {rest : List Char} (hc : c = ',' ∨ c = ']' ∨ c = '}' ∨ c = '\n') :
    IsTail (c :: rest) := by
  intro d hd
  obtain rfl : c = d := by simpa using hd
  exact hc

/-- Whether a text does not go on with a digit. -/
def StopsDigits (rest : List Char) : Prop :=
  ∀ c ∈ rest.head?, isAsciiDigit c = false

/-- No digit stands right behind a value. -/
theorem IsTail.stopsDigits {rest : List Char} (hrest : IsTail rest) : StopsDigits rest := by
  intro c hc
  rcases hrest c hc with rfl | rfl | rfl | rfl <;> decide

/-- No point stands right behind a value. -/
theorem IsTail.head_ne {rest : List Char} (hrest : IsTail rest) : rest.head? ≠ some '.' := by
  intro hhead
  rcases hrest '.' (by simp [hhead]) with h | h | h | h <;> exact absurd h (by decide)

/-- Whether a text has digits only, and at least one. -/
def IsNumeral (digits : List Char) : Prop :=
  digits ≠ [] ∧ ∀ c ∈ digits, isAsciiDigit c = true

/-- The decimal digits of a number are a numeral. -/
theorem isNumeral_toDigits (n : Nat) : IsNumeral (Nat.toDigits 10 n) := by
  refine ⟨Nat.toDigits_ne_nil, fun c hc => ?_⟩
  have hdigit := Nat.isDigit_of_mem_toDigits (by decide) (by decide) hc
  simpa [Char.isDigit, isAsciiDigit, Char.le_def] using hdigit

/-- The values of the digits of a text. -/
def digitsOf (digits : List Char) : List Nat :=
  digits.map fun c => c.toNat - 0x30

/-- Digits are read up to where they stop. -/
theorem spanDigits_append {digits rest : List Char} (hdigits : ∀ c ∈ digits, isAsciiDigit c = true)
    (hrest : StopsDigits rest) : spanDigits (digits ++ rest) = (digitsOf digits, rest) := by
  induction digits with
  | nil =>
    cases rest with
    | nil => rfl
    | cons c rest =>
      have hc : isAsciiDigit c = false := hrest c rfl
      simp [spanDigits, digitsOf, hc]
  | cons c digits ih =>
    have hc : isAsciiDigit c = true := hdigits c (by simp)
    have hih := ih fun d hd => hdigits d (by simp [hd])
    simp [spanDigits, hc, hih, digitsOf]

/-- The number of digits is continued as the number of their characters. -/
theorem ofDigits_digitsOf (start : Nat) (digits : List Char) :
    ofDigits start (digitsOf digits) = Nat.ofDigitChars 10 digits start := by
  unfold ofDigits digitsOf
  rw [List.foldl_map, Nat.ofDigitChars_eq_foldl]
  rfl

/-- Whether a text can be the integer part of a number: a numeral that has no zero in front of
other digits. -/
def IsWhole (digits : List Char) : Prop :=
  IsNumeral digits ∧ (digits.head? = some '0' → digits = ['0'])

/-- The integer part of a number is read up to where its digits stop. -/
theorem integerDigits_append {whole rest : List Char} (hwhole : IsWhole whole)
    (hrest : StopsDigits rest) : integerDigits (whole ++ rest) = (digitsOf whole, rest) := by
  unfold integerDigits
  split
  next tail heq =>
    have hzero : whole = ['0'] := by
      refine hwhole.2 ?_
      cases hw : whole with
      | nil => exact absurd hw hwhole.1.1
      | cons c cs =>
        rw [hw, List.cons_append] at heq
        injection heq with hc
        rw [hc, List.head?_cons]
    subst hzero
    obtain rfl : rest = tail := by simpa using heq
    rfl
  next => exact spanDigits_append hwhole.1.2 hrest

/-- The digits of a number do not start with a zero, unless the number is zero. -/
theorem head?_toDigits {n : Nat} (hn : n ≠ 0) : (Nat.toDigits 10 n).head? ≠ some '0' := by
  induction n using Nat.strongRecOn with
  | _ n ih =>
    by_cases hsmall : n < 10
    · have hdigit : ∀ d < 10, d ≠ 0 → Nat.digitChar d ≠ '0' := by decide
      rw [Nat.toDigits_of_lt_base hsmall]
      simpa using hdigit n hsmall hn
    · have hrest : (Nat.toDigits 10 (n / 10)).head? ≠ some '0' := ih (n / 10) (by omega) (by omega)
      rw [Nat.toDigits_of_base_le (by decide) (by omega), List.head?_append]
      cases hd : Nat.toDigits 10 (n / 10) with
      | nil => exact absurd hd Nat.toDigits_ne_nil
      | cons c cs => simpa [hd] using hrest

/-- The decimal digits of a number are an integer part. -/
theorem isWhole_toDigits (n : Nat) : IsWhole (Nat.toDigits 10 n) := by
  refine ⟨isNumeral_toDigits n, fun hhead => ?_⟩
  by_cases hn : n = 0
  · rw [hn, Nat.toDigits_zero]
  · exact absurd hhead (head?_toDigits hn)

/-- Without a point there is no fraction. -/
theorem fractionDigits_of_head {rest : List Char} (hrest : rest.head? ≠ some '.') :
    fractionDigits rest = ([], rest) := by
  unfold fractionDigits
  split
  next => exact absurd rfl hrest
  next => rfl

/-- A fraction is read up to where its digits stop. -/
theorem fractionDigits_append {parts rest : List Char} (hparts : IsNumeral parts)
    (hrest : StopsDigits rest) :
    fractionDigits ('.' :: (parts ++ rest)) = (digitsOf parts, rest) := by
  have hne : digitsOf parts ≠ [] := by simpa [digitsOf] using hparts.1
  simp [fractionDigits, spanDigits_append hparts.2 hrest, hne]

/-- Without its mark there is no exponent. -/
theorem exponentPart_of_isTail {rest : List Char} (hrest : IsTail rest) :
    exponentPart rest = (none, rest) := by
  unfold exponentPart
  split
  next => rfl
  next mark rest =>
    have hmark : ¬ (mark = 'e' ∨ mark = 'E') := by
      rcases hrest mark rfl with rfl | rfl | rfl | rfl <;> decide
    rw [if_neg (by simpa using hmark)]

/-- An exponent is read as it was written. -/
theorem exponentPart_exponentText (e : Int) {rest : List Char} (hrest : IsTail rest) :
    exponentPart ('e' :: (Decimal.exponentText e ++ rest)) = (some e, rest) := by
  let digits := Nat.toDigits 10 e.natAbs
  let shown := if digits.length < 2 then '0' :: digits else digits
  have htext : Decimal.exponentText e = (if e < 0 then '-' else '+') :: shown := rfl
  have hshown : ∀ c ∈ shown, isAsciiDigit c = true := by
    have hdigits := (isNumeral_toDigits e.natAbs).2
    intro c hc
    simp only [shown] at hc
    split at hc
    · rcases List.mem_cons.1 hc with rfl | hc
      · decide
      · exact hdigits c hc
    · exact hdigits c hc
  have hspan : spanDigits (shown ++ rest) = (digitsOf shown, rest) :=
    spanDigits_append hshown hrest.stopsDigits
  have hne : digitsOf shown ≠ [] := by
    have := Nat.toDigits_ne_nil (n := e.natAbs) (b := 10)
    simp only [digitsOf, shown, ne_eq, List.map_eq_nil_iff]
    split
    · simp
    · exact this
  have hvalue : ofDigits 0 (digitsOf shown) = e.natAbs := by
    rw [ofDigits_digitsOf]
    simp only [shown]
    split
    · rw [Nat.ofDigitChars_cons]
      exact Nat.ofDigitChars_ten_toDigits
    · exact Nat.ofDigitChars_ten_toDigits
  rw [htext]
  unfold exponentPart
  by_cases he : e < 0
  · have hsigned : -(ofDigits 0 (digitsOf shown) : Int) = e := by omega
    simp [he, hspan, hne, hsigned]
  · have hsigned : (ofDigits 0 (digitsOf shown) : Int) = e := by omega
    simp [he, hspan, hne, hsigned]

/-- The sign in front of a number. -/
def signText (negative : Bool) : List Char :=
  if negative then ['-'] else []

/-- What stands behind an integer part does not go on with a digit or a sign of its own. -/
theorem IsWhole.head_ne {whole : List Char} (hwhole : IsWhole whole) (rest : List Char) :
    (whole ++ rest).head? ≠ some '-' := by
  intro hhead
  cases hw : whole with
  | nil => exact hwhole.1.1 hw
  | cons c cs =>
    rw [hw, List.cons_append, List.head?_cons] at hhead
    obtain rfl : c = '-' := by simpa using hhead
    have hdigit : isAsciiDigit '-' = true := hwhole.1.2 '-' (by simp [hw])
    exact absurd hdigit (by decide)

/-- A number is read part by part: its sign, the integer part, the fraction and the exponent. -/
theorem number?_eq_of_parts (negative : Bool) {body rest tail tail' : List Char}
    {whole parts : List Nat} {exponent : Option Int} (hbody : body.head? ≠ some '-')
    (hwhole : integerDigits body = (whole, rest)) (hne : whole ≠ [])
    (hparts : fractionDigits rest = (parts, tail))
    (hexponent : exponentPart tail = (exponent, tail')) :
    number? (signText negative ++ body) =
      if parts.isEmpty && exponent.isNone then
        if maxDigits < whole.length then some (.error (.tooManyDigits whole.length), tail')
        else
          some (.ok (.int (if negative then -(ofDigits 0 whole : Int) else ofDigits 0 whole)),
            tail')
      else
        some (.ok (.float (Decimal.toBinary64 negative
          ⟨ofDigits (ofDigits 0 whole) parts, exponent.getD 0 - parts.length⟩)), tail') := by
  cases negative with
  | true =>
    unfold number?
    simp [signText, hwhole, hne, hparts, hexponent]
  | false =>
    have hsign : signText false ++ body = body := rfl
    rw [hsign]
    unfold number?
    split
    next negative body' heq =>
      split at heq
      next => exact absurd rfl hbody
      next =>
        obtain ⟨rfl, rfl⟩ := Prod.mk.inj heq
        simp [hwhole, hne, hparts, hexponent]

/-- Digits without a point and an exponent are read as an integer. -/
theorem number?_integer (negative : Bool) {whole rest : List Char} (hwhole : IsWhole whole)
    (hshort : whole.length ≤ maxDigits) (hrest : IsTail rest) :
    number? (signText negative ++ (whole ++ rest)) =
      some (.ok (.int (if negative then -(Nat.ofDigitChars 10 whole 0 : Int)
        else Nat.ofDigitChars 10 whole 0)), rest) := by
  have hne : digitsOf whole ≠ [] := by simpa [digitsOf] using hwhole.1.1
  have hlength : ¬ maxDigits < (digitsOf whole).length := by
    rw [digitsOf, List.length_map]
    omega
  rw [number?_eq_of_parts negative (hwhole.head_ne rest)
    (integerDigits_append hwhole hrest.stopsDigits) hne (fractionDigits_of_head hrest.head_ne)
    (exponentPart_of_isTail hrest)]
  simp [hlength, ofDigits_digitsOf]

/-- The numeral of an integer: its sign and its digits. -/
theorem toList_toString (n : Int) :
    (toString n).toList = signText (n < 0) ++ Nat.toDigits 10 n.natAbs := by
  rw [Int.toString_eq_repr, Int.repr_eq_if]
  by_cases hneg : n < 0
  · have habs : (-n).toNat = n.natAbs := by omega
    rw [if_neg (by omega), habs]
    simp [hneg, signText]
  · have habs : n.toNat = n.natAbs := by omega
    rw [if_pos (by omega), habs]
    simp [hneg, signText]

/-- An integer is read as it was written, if it has no more digits than are read. -/
theorem number?_toString (n : Int) {rest : List Char}
    (hn : (toString n.natAbs).length ≤ maxDigits) (hrest : IsTail rest) :
    number? ((toString n).toList ++ rest) = some (.ok (.int n), rest) := by
  have hshort : (Nat.toDigits 10 n.natAbs).length ≤ maxDigits := by
    rwa [Nat.toString_eq_ofList_toDigits, String.length_ofList] at hn
  rw [toList_toString, List.append_assoc, number?_integer _ (isWhole_toDigits _) hshort hrest,
    Nat.ofDigitChars_ten_toDigits]
  have hsigned : (if n < 0 then -(n.natAbs : Int) else n.natAbs) = n := by
    split <;> omega
  simp only [decide_eq_true_eq, hsigned]

/-- A text reads as a decimal fraction if its number is the one nearest to that fraction,
whatever the sign in front of it and the text behind it. -/
def ReadsAs (text : List Char) (d : Decimal) : Prop :=
  ∀ (negative : Bool) (rest : List Char), IsTail rest →
    number? (signText negative ++ (text ++ rest)) =
      some (.ok (.float (d.toBinary64 negative)), rest)

/-- Only the nearest magnitude of the fraction matters. -/
theorem ReadsAs.congr {text : List Char} {d d' : Decimal} (h : ReadsAs text d)
    (hd : d.toMagnitude = d'.toMagnitude) : ReadsAs text d' := by
  intro negative rest hrest
  have hvalue : d.toBinary64 negative = d'.toBinary64 negative := by
    unfold Decimal.toBinary64
    rw [hd]
  rw [← hvalue]
  exact h negative rest hrest

/-- A point and the digits behind it. -/
theorem readsAs_fraction {whole parts : List Char} (hwhole : IsWhole whole)
    (hparts : IsNumeral parts) :
    ReadsAs (whole ++ '.' :: parts) ⟨Nat.ofDigitChars 10 (whole ++ parts) 0, -parts.length⟩ := by
  intro negative rest hrest
  have hne : digitsOf whole ≠ [] := by simpa [digitsOf] using hwhole.1.1
  have hne' : digitsOf parts ≠ [] := by simpa [digitsOf] using hparts.1
  have hpoint : StopsDigits ('.' :: (parts ++ rest)) := by
    intro c hc
    obtain rfl : '.' = c := by simpa using hc
    decide
  have hlength : (digitsOf parts).length = parts.length := List.length_map _
  rw [List.append_assoc, List.cons_append, number?_eq_of_parts negative (hwhole.head_ne _)
    (integerDigits_append hwhole hpoint) hne (fractionDigits_append hparts hrest.stopsDigits)
    (exponentPart_of_isTail hrest)]
  simp [hne', ofDigits_digitsOf, Nat.ofDigitChars_append, hlength]

/-- The digits behind a point, with the point, if there are any. -/
def pointText (parts : List Char) : List Char :=
  if parts.isEmpty then [] else '.' :: parts

/-- A fraction that may be missing, and an exponent. -/
theorem readsAs_exponent {whole parts : List Char} (hwhole : IsWhole whole)
    (hparts : ∀ c ∈ parts, isAsciiDigit c = true) (e : Int) :
    ReadsAs (whole ++ (pointText parts ++ 'e' :: Decimal.exponentText e))
      ⟨Nat.ofDigitChars 10 (whole ++ parts) 0, e - parts.length⟩ := by
  intro negative rest hrest
  have hne : digitsOf whole ≠ [] := by simpa [digitsOf] using hwhole.1.1
  have hmark : StopsDigits ('e' :: (Decimal.exponentText e ++ rest)) := by
    intro c hc
    obtain rfl : 'e' = c := by simpa using hc
    decide
  have hstop : StopsDigits (pointText parts ++ 'e' :: (Decimal.exponentText e ++ rest)) := by
    unfold pointText
    split
    · exact hmark
    · intro c hc
      obtain rfl : '.' = c := by simpa using hc
      decide
  have hfraction :
      fractionDigits (pointText parts ++ 'e' :: (Decimal.exponentText e ++ rest)) =
        (digitsOf parts, 'e' :: (Decimal.exponentText e ++ rest)) := by
    unfold pointText
    split
    next hempty =>
      rw [List.isEmpty_iff.1 hempty]
      exact fractionDigits_of_head (by simp)
    next hsome => exact fractionDigits_append ⟨by simpa using hsome, hparts⟩ hmark
  have hlength : (digitsOf parts).length = parts.length := List.length_map _
  have htext : whole ++ (pointText parts ++ 'e' :: Decimal.exponentText e) ++ rest =
      whole ++ (pointText parts ++ 'e' :: (Decimal.exponentText e ++ rest)) := by
    simp
  rw [htext, number?_eq_of_parts negative (hwhole.head_ne _) (integerDigits_append hwhole hstop)
    hne hfraction (exponentPart_exponentText e hrest)]
  simp [ofDigits_digitsOf, Nat.ofDigitChars_append, hlength]

/-- A text is the one without the zeros behind, and zeros. -/
theorem eq_append_zeros (digits : List Char) : ∃ zeros : Nat,
    digits = (digits.reverse.dropWhile (· = '0')).reverse ++ List.replicate zeros '0' := by
  let dropped := digits.reverse.takeWhile (· = '0')
  have hzeros : dropped = List.replicate dropped.length '0' := by
    refine List.eq_replicate_of_mem fun c hc => ?_
    simpa using List.all_eq_true.1 List.all_takeWhile c hc
  refine ⟨dropped.length, ?_⟩
  rw [← List.reverse_inj, List.reverse_append, List.reverse_replicate, List.reverse_reverse,
    ← hzeros]
  exact List.takeWhile_append_dropWhile.symm

/-- The digits that are written are those of the coefficient without the zeros behind. -/
theorem significantDigits_eq {d : Decimal} (hd : d.coefficient ≠ 0) :
    ∃ (kept : List Char) (zeros : Nat), d.significantDigits = (kept, d.leadingPlace) ∧
      IsNumeral kept ∧ kept.head? ≠ some '0' ∧
      d.coefficient = Nat.ofDigitChars 10 kept 0 * 10 ^ zeros ∧
      d.leadingPlace - kept.length = d.exponent + zeros := by
  let digits := Nat.toDigits 10 d.coefficient
  let kept := (digits.reverse.dropWhile (· = '0')).reverse
  obtain ⟨zeros, hdigits⟩ : ∃ zeros : Nat, digits = kept ++ List.replicate zeros '0' :=
    eq_append_zeros digits
  -- A number other than zero starts with another digit, so that not all of them are dropped.
  have hhead : digits.head? ≠ some '0' := head?_toDigits hd
  have hnonempty : digits ≠ [] := Nat.toDigits_ne_nil
  have hne : kept ≠ [] := by
    intro hnil
    rw [hdigits, hnil, List.nil_append] at hhead hnonempty
    cases zeros with
    | zero => exact hnonempty rfl
    | succ k => exact hhead rfl
  have hkept : kept.head? ≠ some '0' := by
    rw [hdigits] at hhead
    cases hk : kept with
    | nil => exact absurd hk hne
    | cons c cs => simpa [hk] using hhead
  have hvalue : d.coefficient = Nat.ofDigitChars 10 kept 0 * 10 ^ zeros := by
    have hread : Nat.ofDigitChars 10 digits 0 = d.coefficient := Nat.ofDigitChars_ten_toDigits
    rw [← hread, hdigits, Nat.ofDigitChars_append, Nat.ofDigitChars_replicate_zero, Nat.mul_comm]
  have hmem (c : Char) (hc : c ∈ kept) : c ∈ digits := by
    rw [hdigits]
    exact List.mem_append_left _ hc
  have hlength : digits.length = kept.length + zeros := by
    rw [hdigits, List.length_append, List.length_replicate]
  refine ⟨kept, zeros, ?_, ⟨hne, fun c hc => (isNumeral_toDigits _).2 c (hmem c hc)⟩, hkept,
    hvalue, ?_⟩
  · have hshown : (if kept.isEmpty then ['0'] else kept) = kept := if_neg (by simpa using hne)
    change (if kept.isEmpty then ['0'] else kept, d.leadingPlace) = (kept, d.leadingPlace)
    rw [hshown]
  · change ((digits.length : Nat) : Int) + d.exponent - kept.length = d.exponent + zeros
    omega

/-- A numeral that does not start with a zero can be an integer part. -/
theorem IsNumeral.isWhole {digits : List Char} (hdigits : IsNumeral digits)
    (hhead : digits.head? ≠ some '0') : IsWhole digits :=
  ⟨hdigits, fun h => absurd h hhead⟩

/-- The digits `kept`, the first at a place up to the fourth behind the point, all stand behind
it. -/
theorem readsAs_small {kept : List Char} (hkept : IsNumeral kept) {place : Int}
    (hplace : place ≤ 0) :
    ReadsAs ('0' :: '.' :: (List.replicate (-place).toNat '0' ++ kept))
      ⟨Nat.ofDigitChars 10 kept 0, place - kept.length⟩ := by
  let parts := List.replicate (-place).toNat '0' ++ kept
  have hzero : IsWhole ['0'] := ⟨⟨by simp, by simp [isAsciiDigit]⟩, fun _ => rfl⟩
  have hparts : IsNumeral parts := by
    refine ⟨by simp [parts, hkept.1], fun c hc => ?_⟩
    rcases List.mem_append.1 hc with hc | hc
    · rw [List.eq_of_mem_replicate hc]
      decide
    · exact hkept.2 c hc
  have hcoefficient : Nat.ofDigitChars 10 (['0'] ++ parts) 0 = Nat.ofDigitChars 10 kept 0 := by
    simp [parts, Nat.ofDigitChars_append, Nat.ofDigitChars_replicate_zero, Nat.ofDigitChars_cons]
  have hexponent : -(parts.length : Int) = place - kept.length := by
    simp only [parts, List.length_append, List.length_replicate]
    omega
  have h := readsAs_fraction hzero hparts
  rw [hcoefficient, hexponent] at h
  exact h

/-- Zeros behind a numeral that can be an integer part. -/
theorem IsNumeral.isWhole_append_zeros {digits : List Char} (h : IsNumeral digits)
    (hhead : digits.head? ≠ some '0') (zeros : Nat) :
    IsWhole (digits ++ List.replicate zeros '0') := by
  obtain ⟨hne, hdigits⟩ := h
  refine IsNumeral.isWhole ⟨by simp [hne], fun c hc => ?_⟩ ?_
  · rcases List.mem_append.1 hc with hc | hc
    · exact hdigits c hc
    · rw [List.eq_of_mem_replicate hc]
      decide
  · cases digits with
    | nil => exact absurd rfl hne
    | cons c cs => exact hhead

/-- The digits `kept` end in front of the point, with zeros up to it. -/
theorem readsAs_padded {kept : List Char} (hkept : IsNumeral kept) (hhead : kept.head? ≠ some '0')
    (zeros : Nat) :
    ReadsAs (kept ++ List.replicate zeros '0' ++ ['.', '0'])
      ⟨Nat.ofDigitChars 10 kept 0, zeros⟩ := by
  have hzero : IsNumeral ['0'] := ⟨by simp, by simp [isAsciiDigit]⟩
  have hcoefficient : Nat.ofDigitChars 10 (kept ++ List.replicate zeros '0' ++ ['0']) 0 =
      Nat.ofDigitChars 10 kept 0 * 10 ^ (zeros + 1) := by
    simp only [Nat.ofDigitChars_append, Nat.ofDigitChars_replicate_zero, Nat.ofDigitChars_cons,
      Nat.ofDigitChars_nil, Nat.pow_succ]
    ring_nf
    simp
  have hexponent : -(([ '0' ] : List Char).length : Int) = (zeros : Int) - (zeros + 1 : Nat) := by
    simp only [List.length_singleton]
    omega
  have h := readsAs_fraction (hkept.isWhole_append_zeros hhead zeros) hzero
  rw [hcoefficient, hexponent] at h
  exact h.congr (Decimal.toMagnitude_shift _ _ _)

/-- The digits `kept` with the point between two of them. -/
theorem readsAs_split {kept : List Char} (hkept : IsNumeral kept) (hhead : kept.head? ≠ some '0')
    {place : Nat} (hplace : 0 < place) (hlt : place < kept.length) :
    ReadsAs (kept.take place ++ '.' :: kept.drop place)
      ⟨Nat.ofDigitChars 10 kept 0, place - kept.length⟩ := by
  have htake : kept.take place ≠ [] := by
    rw [ne_eq, List.take_eq_nil_iff]
    rintro (rfl | hnil)
    · exact Nat.lt_irrefl 0 hplace
    · exact hkept.1 hnil
  have hwhole : IsWhole (kept.take place) := by
    refine IsNumeral.isWhole ⟨htake, fun c hc => hkept.2 c (List.mem_of_mem_take hc)⟩ ?_
    rwa [List.head?_take, if_neg (by omega)]
  have hparts : IsNumeral (kept.drop place) := by
    refine ⟨?_, fun c hc => hkept.2 c (List.mem_of_mem_drop hc)⟩
    rw [ne_eq, List.drop_eq_nil_iff]
    omega
  have hexponent : -((kept.drop place).length : Int) = place - kept.length := by
    rw [List.length_drop]
    omega
  have h := readsAs_fraction hwhole hparts
  rw [List.take_append_drop, hexponent] at h
  exact h

/-- The digits `kept`, the first at a place before the point, with zeros up to the point if they
end before it. -/
theorem readsAs_large {kept : List Char} (hkept : IsNumeral kept) (hhead : kept.head? ≠ some '0')
    (place : Nat) (hplace : 0 < place) :
    ReadsAs (kept.take place ++ List.replicate (place - (kept.take place).length) '0' ++
        '.' :: (if (kept.drop place).isEmpty then ['0'] else kept.drop place))
      ⟨Nat.ofDigitChars 10 kept 0, place - kept.length⟩ := by
  by_cases hshort : kept.length ≤ place
  · have hexponent : (place : Int) - kept.length = ((place - kept.length : Nat) : Int) := by omega
    rw [List.take_of_length_le hshort, List.drop_of_length_le hshort, hexponent]
    exact readsAs_padded hkept hhead (place - kept.length)
  · have hlength : (kept.take place).length = place := by
      rw [List.length_take]
      omega
    have hparts : ¬(kept.drop place).isEmpty := by
      rw [List.isEmpty_iff, List.drop_eq_nil_iff]
      omega
    rw [hlength, Nat.sub_self, List.replicate_zero, List.append_nil, if_neg hparts]
    exact readsAs_split hkept hhead hplace (by omega)

/-- The digits `kept` with a point behind the first, and an exponent. -/
theorem readsAs_scientific {kept : List Char} (hkept : IsNumeral kept)
    (hhead : kept.head? ≠ some '0') (place : Int) :
    ReadsAs (kept.take 1 ++ (if kept.length = 1 then [] else '.' :: kept.drop 1) ++
        'e' :: Decimal.exponentText (place - 1))
      ⟨Nat.ofDigitChars 10 kept 0, place - kept.length⟩ := by
  cases hk : kept with
  | nil => exact absurd hk hkept.1
  | cons c cs =>
    have hc : isAsciiDigit c = true := hkept.2 c (by simp [hk])
    have hwhole : IsWhole [c] := by
      refine IsNumeral.isWhole ⟨by simp, by simpa using hc⟩ ?_
      simpa [hk] using hhead
    have hpoint : (if (c :: cs).length = 1 then [] else '.' :: cs) = pointText cs := by
      cases cs <;> rfl
    have hexponent : place - 1 - (cs.length : Int) = place - ((c :: cs).length : Nat) := by
      rw [List.length_cons]
      omega
    have hcs : ∀ d ∈ cs, isAsciiDigit d = true := fun d hd => hkept.2 d (by simp [hk, hd])
    have h := readsAs_exponent hwhole hcs (place - 1)
    rw [hexponent] at h
    simpa only [List.take_succ_cons, List.take_zero, List.drop_succ_cons, List.drop_zero, hpoint,
      List.cons_append, List.nil_append] using h

/-- The text of a decimal fraction reads as the fraction. -/
theorem readsAs_text {d : Decimal} (hd : d.coefficient = 0 → d = ⟨0, 0⟩) : ReadsAs d.text d := by
  by_cases hzero : d.coefficient = 0
  · have hzeros : IsNumeral ['0'] := ⟨by simp, by simp [isAsciiDigit]⟩
    have hwhole : IsWhole ['0'] := ⟨hzeros, fun _ => rfl⟩
    rw [hd hzero]
    exact readsAs_fraction hwhole hzeros
  obtain ⟨kept, zeros, hdigits, hkept, hhead, hvalue, hplace⟩ := significantDigits_eq hzero
  have hsame : Decimal.toMagnitude ⟨Nat.ofDigitChars 10 kept 0, d.leadingPlace - kept.length⟩ =
      d.toMagnitude := by
    have hshift := Decimal.toMagnitude_shift (Nat.ofDigitChars 10 kept 0)
      (d.leadingPlace - kept.length) zeros
    have hd : (⟨Nat.ofDigitChars 10 kept 0 * 10 ^ zeros,
        d.leadingPlace - kept.length - zeros⟩ : Decimal) = d := by
      rw [← hvalue, hplace]
      simp
    rw [← hshift, hd]
  refine ReadsAs.congr ?_ hsame
  unfold Decimal.text
  rw [hdigits]
  dsimp only
  split
  next hpositional =>
    split
    next hsmall => exact readsAs_small hkept hsmall
    next hlarge =>
      have hcast : ((d.leadingPlace.toNat : Nat) : Int) = d.leadingPlace := by omega
      have h := readsAs_large hkept hhead d.leadingPlace.toNat (by omega)
      rw [hcast] at h
      exact h
  next => exact readsAs_scientific hkept hhead d.leadingPlace

/-- A finite floating-point number is read as it was written. -/
theorem number?_numeral (negative : Bool) (m : Magnitude) {rest : List Char} (hrest : IsTail rest) :
    number? ((Binary64.finite negative m).numeral.toList ++ rest) =
      some (.ok (.float (.finite negative m)), rest) := by
  have htext : (Binary64.finite negative m).numeral.toList =
      signText negative ++ (Decimal.shortest m).text := by
    rw [Binary64.numeral, String.toList_ofList]
    rfl
  have hvalue : (Decimal.shortest m).toBinary64 negative = .finite negative m := by
    unfold Decimal.toBinary64
    rw [Decimal.toMagnitude_shortest]
  rw [htext, List.append_assoc, ← hvalue]
  exact readsAs_text Decimal.shortest_eq_zero negative rest hrest

end PassTrace.Json

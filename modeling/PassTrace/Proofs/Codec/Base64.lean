import PassTrace.Codec.Base64

/-!
# Base64 read back

The letters of a group of three bytes are read as the three bytes, and a last group of
one byte or two is completed by padding that ends the text.
-/

namespace PassTrace.Base64

/-- A letter is read as its number; it is no padding mark and no foreign letter. -/
theorem letter_spec {n : Nat} (hn : n < 64) :
    value? (letter n) = some n ∧ letter n ≠ '=' ∧ (letter n).toNat < 0x80 := by
  have hall : ∀ n < 64, value? (letter n) = some n ∧ letter n ≠ '=' ∧ (letter n).toNat < 0x80 := by
    decide
  exact hall n hn

variable {n carry letters : Nat} {bytes : Bytes} {rest : List Char}

/-- The first letter of a group. -/
theorem decodeFrom_first (hn : n < 64) :
    decodeFrom ⟨0, carry, 0, false, letters⟩ bytes (letter n :: rest) =
      decodeFrom ⟨1, n, 0, false, letters + 1⟩ bytes rest := by
  obtain ⟨hvalue, hpad, -⟩ := letter_spec hn
  rw [decodeFrom, if_neg hpad, hvalue]
  rfl

/-- The second letter of a group. -/
theorem decodeFrom_second (hn : n < 64) :
    decodeFrom ⟨1, carry, 0, false, letters⟩ bytes (letter n :: rest) =
      decodeFrom ⟨2, n % 16, 0, false, letters + 1⟩ (UInt8.ofNat (carry * 4 + n / 16) :: bytes)
        rest := by
  obtain ⟨hvalue, hpad, -⟩ := letter_spec hn
  rw [decodeFrom, if_neg hpad, hvalue]
  rfl

/-- The third letter of a group. -/
theorem decodeFrom_third (hn : n < 64) :
    decodeFrom ⟨2, carry, 0, false, letters⟩ bytes (letter n :: rest) =
      decodeFrom ⟨3, n % 4, 0, false, letters + 1⟩ (UInt8.ofNat (carry * 16 + n / 4) :: bytes)
        rest := by
  obtain ⟨hvalue, hpad, -⟩ := letter_spec hn
  rw [decodeFrom, if_neg hpad, hvalue]
  rfl

/-- The last letter of a group. -/
theorem decodeFrom_fourth (hn : n < 64) :
    decodeFrom ⟨3, carry, 0, false, letters⟩ bytes (letter n :: rest) =
      decodeFrom ⟨0, 0, 0, false, letters + 1⟩ (UInt8.ofNat (carry * 64 + n) :: bytes) rest := by
  obtain ⟨hvalue, hpad, -⟩ := letter_spec hn
  rw [decodeFrom, if_neg hpad, hvalue]
  rfl

/-- A number that was taken from a byte is the byte. -/
theorem ofNat_eq {m : Nat} {b : UInt8} (h : m = b.toNat) : UInt8.ofNat m = b := by
  rw [h, UInt8.ofNat_toNat]

/-- The letters of some bytes are read as the bytes, behind those already read. -/
theorem decodeFrom_encode (more : Bytes) (letters : Nat) (bytes : Bytes) :
    decodeFrom ⟨0, 0, 0, false, letters⟩ bytes (encode more) = .ok (bytes.reverse ++ more) := by
  fun_induction encode more generalizing letters bytes with
  | case1 => simp [decodeFrom]
  | case2 a =>
    have ha := a.toNat_lt
    rw [decodeFrom_first (by omega), decodeFrom_second (by omega),
      ofNat_eq (b := a) (by omega)]
    simp [decodeFrom]
  | case3 a b =>
    have ha := a.toNat_lt
    have hb := b.toNat_lt
    rw [decodeFrom_first (by omega), decodeFrom_second (by omega), decodeFrom_third (by omega),
      ofNat_eq (b := b) (by omega), ofNat_eq (b := a) (by omega)]
    simp [decodeFrom]
  | case4 a b c rest ih =>
    have ha := a.toNat_lt
    have hb := b.toNat_lt
    have hc := c.toNat_lt
    rw [decodeFrom_first (by omega), decodeFrom_second (by omega), decodeFrom_third (by omega),
      decodeFrom_fourth (by omega), ofNat_eq (b := c) (by omega), ofNat_eq (b := b) (by omega),
      ofNat_eq (b := a) (by omega), ih]
    simp

/-- What is written is letters and padding marks, all in ASCII. -/
theorem encode_ascii (bytes : Bytes) : ∀ c ∈ encode bytes, c.toNat < 0x80 := by
  have hletter {n : Nat} (hn : n < 64) : (letter n).toNat < 0x80 := (letter_spec hn).2.2
  fun_induction encode bytes with
  | case1 => simp
  | case2 a =>
    have ha := a.toNat_lt
    simp only [List.mem_cons, List.not_mem_nil, or_false, forall_eq_or_imp, forall_eq]
    exact ⟨hletter (by omega), hletter (by omega), by decide, by decide⟩
  | case3 a b =>
    have ha := a.toNat_lt
    have hb := b.toNat_lt
    simp only [List.mem_cons, List.not_mem_nil, or_false, forall_eq_or_imp, forall_eq]
    exact ⟨hletter (by omega), hletter (by omega), hletter (by omega), by decide⟩
  | case4 a b c rest ih =>
    have ha := a.toNat_lt
    have hb := b.toNat_lt
    have hc := c.toNat_lt
    simp only [List.mem_cons, forall_eq_or_imp]
    exact ⟨hletter (by omega), hletter (by omega), hletter (by omega), hletter (by omega), ih⟩

/-- What is written does not start with a padding mark. -/
theorem head?_encode (bytes : Bytes) : (encode bytes).head? ≠ some '=' := by
  have hletter (a : UInt8) : letter (a.toNat / 4) ≠ '=' := by
    have ha := a.toNat_lt
    exact (letter_spec (by omega)).2.1
  fun_cases encode bytes with
  | case1 => simp
  | case2 a => simpa using hletter a
  | case3 a b => simpa using hletter a
  | case4 a b c rest => simpa using hletter a

/-- Bytes are read back from their letters. -/
theorem decode_letters (bytes : Bytes) : decode (encode bytes) = .ok bytes := by
  have hascii : ¬ ((encode bytes).any (0x80 ≤ ·.toNat)) = true := by
    rw [List.any_eq_true]
    rintro ⟨c, hc, hlarge⟩
    have hsmall := encode_ascii bytes c hc
    have hlarge : 0x80 ≤ c.toNat := by simpa using hlarge
    omega
  unfold decode
  rw [if_neg hascii, if_neg (head?_encode bytes)]
  exact decodeFrom_encode bytes 0 []

end PassTrace.Base64

import PassTrace.Text.Encoding

/-!
# UTF-8 read back

The bytes of a character tell their number by the first of them, and all readers take
them as that character. A text is therefore read back from its bytes.
-/

namespace PassTrace.Text

/-- A character is no half of a surrogate pair. -/
theorem not_surrogate (c : Char) : c.toNat < 0xd800 ∨ 0xe000 ≤ c.toNat ∧ c.toNat < 0x110000 := by
  have h := c.valid
  unfold UInt32.isValidChar Nat.isValidChar at h
  change c.toNat < 0xd800 ∨ 0xdfff < c.toNat ∧ c.toNat < 0x110000 at h
  omega

variable {surrogates : Bool} {start : Nat} {a b c d : UInt8} {rest : Bytes}

/-- A byte that can follow the first, told by its number. -/
theorem isContinuation_iff : isContinuation b = true ↔ 0x80 ≤ b.toNat ∧ b.toNat < 0xc0 := by
  simp [isContinuation, UInt8.le_iff_toNat_le, UInt8.lt_iff_toNat_lt]

/-- The form of one byte. -/
theorem utf8Pieces_one (ha : a.toNat < 0x80) :
    utf8Pieces surrogates start (a :: rest) =
      .ok (Char.ofNat a.toNat) :: utf8Pieces surrogates (start + 1) rest := by
  have hsmall : a < 0x80 := UInt8.lt_iff_toNat_lt.2 ha
  rw [utf8Pieces.eq_def]
  simp only [if_pos hsmall]

/-- The form of two bytes. -/
theorem utf8Pieces_two (ha : 0xc2 ≤ a.toNat ∧ a.toNat < 0xe0) (hb : isContinuation b = true) :
    utf8Pieces surrogates start (a :: b :: rest) =
      .ok (Char.ofNat (a.toNat % 0x20 * 0x40 + tailBits b)) ::
        utf8Pieces surrogates (start + 2) rest := by
  have hlarge : ¬ a < 0x80 := by simp [UInt8.lt_iff_toNat_lt]; omega
  have hstart : ¬ (a < 0xc2 || 0xf4 < a) = true := by simp [UInt8.lt_iff_toNat_lt]; omega
  have htwo : a < 0xe0 := UInt8.lt_iff_toNat_lt.2 ha.2
  rw [utf8Pieces.eq_def]
  simp only [if_neg hlarge, if_neg hstart, if_pos htwo, if_pos hb]

/-- The form of three bytes. -/
theorem utf8Pieces_three (ha : 0xe0 ≤ a.toNat ∧ a.toNat < 0xf0) (hb : secondFits a b = true)
    (hc : isContinuation c = true) :
    utf8Pieces surrogates start (a :: b :: c :: rest) =
      .ok (Char.ofNat (a.toNat % 0x10 * 0x1000 + tailBits b * 0x40 + tailBits c)) ::
        utf8Pieces surrogates (start + 3) rest := by
  have hlarge : ¬ a < 0x80 := by simp [UInt8.lt_iff_toNat_lt]; omega
  have hstart : ¬ (a < 0xc2 || 0xf4 < a) = true := by simp [UInt8.lt_iff_toNat_lt]; omega
  have htwo : ¬ a < 0xe0 := by simp [UInt8.lt_iff_toNat_lt]; omega
  have hthree : a < 0xf0 := UInt8.lt_iff_toNat_lt.2 ha.2
  rw [utf8Pieces.eq_def]
  simp [hlarge, hstart, htwo, hb, hc, hthree]

/-- The form of four bytes. -/
theorem utf8Pieces_four (ha : 0xf0 ≤ a.toNat ∧ a.toNat ≤ 0xf4) (hb : secondFits a b = true)
    (hc : isContinuation c = true) (hd : isContinuation d = true) :
    utf8Pieces surrogates start (a :: b :: c :: d :: rest) =
      .ok (Char.ofNat (a.toNat % 0x08 * 0x40000 + tailBits b * 0x1000 + tailBits c * 0x40 +
        tailBits d)) :: utf8Pieces surrogates (start + 4) rest := by
  have hlarge : ¬ a < 0x80 := by simp [UInt8.lt_iff_toNat_lt]; omega
  have hstart : ¬ (a < 0xc2 || 0xf4 < a) = true := by simp [UInt8.lt_iff_toNat_lt]; omega
  have htwo : ¬ a < 0xe0 := by simp [UInt8.lt_iff_toNat_lt]; omega
  have hthree : ¬ a < 0xf0 := by simp [UInt8.lt_iff_toNat_lt]; omega
  rw [utf8Pieces.eq_def]
  simp [hlarge, hstart, htwo, hb, hc, hd, hthree]

/-- The bits that a continuation byte was written with. -/
theorem isContinuation_ofNat (n : Nat) :
    isContinuation (UInt8.ofNat (n % 0x40 + 0x80)) = true ∧
      tailBits (UInt8.ofNat (n % 0x40 + 0x80)) = n % 0x40 := by
  have hbyte : (UInt8.ofNat (n % 0x40 + 0x80)).toNat = n % 0x40 + 0x80 := by
    rw [UInt8.toNat_ofNat']
    omega
  constructor
  · rw [isContinuation_iff, hbyte]
    omega
  · rw [tailBits, hbyte]
    omega

/-- Whether a continuation byte fits behind the first: it must not make the number smaller than the
form is for, nor that of half a surrogate pair, nor too large. -/
theorem secondFits_of_bounds (hb : isContinuation b = true)
    (hshort : a.toNat = 0xe0 → 0xa0 ≤ b.toNat) (hhalf : a.toNat = 0xed → b.toNat < 0xa0)
    (hshort' : a.toNat = 0xf0 → 0x90 ≤ b.toNat) (hlarge : a.toNat = 0xf4 → b.toNat < 0x90) :
    secondFits a b = true := by
  rw [isContinuation_iff] at hb
  unfold secondFits secondBounds
  simp only [← UInt8.toNat_inj, UInt8.le_iff_toNat_le, Bool.and_eq_true, decide_eq_true_eq]
  by_cases h : a.toNat = 0xe0
  · simp [h]
    omega
  by_cases h : a.toNat = 0xed
  · simp [h]
    omega
  by_cases h : a.toNat = 0xf0
  · simp [h]
    omega
  by_cases h : a.toNat = 0xf4
  · simp [h]
    omega
  simp [*]
  omega

/-- The number of a byte. -/
theorem toNat_ofNat {n : Nat} (hn : n < 0x100) : (UInt8.ofNat n).toNat = n := by
  rw [UInt8.toNat_ofNat']
  exact Nat.mod_eq_of_lt hn

/-- The bytes of a character are read as the character. -/
theorem utf8Pieces_utf8EncodeChar (surrogates : Bool) (start : Nat) (ch : Char) (rest : Bytes) :
    ∃ start', utf8Pieces surrogates start (String.utf8EncodeChar ch ++ rest) =
      .ok ch :: utf8Pieces surrogates start' rest := by
  have hchar := not_surrogate ch
  have hself (m : Nat) (hm : m = ch.toNat) : Char.ofNat m = ch := by
    rw [hm]
    exact Char.ofNat_toNat ch
  have hvalue : ch.val.toNat = ch.toNat := rfl
  unfold String.utf8EncodeChar
  dsimp only
  rw [hvalue]
  -- The cases are the four lengths. Behind the first byte all hold six bits of the character.
  generalize ch.toNat = n at hchar hself
  obtain ⟨hlast, hlastBits⟩ := isContinuation_ofNat n
  obtain ⟨hsixth, hsixthBits⟩ := isContinuation_ofNat (n / 64)
  obtain ⟨htwelfth, htwelfthBits⟩ := isContinuation_ofNat (n / 4096)
  split
  next hone =>
    have ha : (UInt8.ofNat n).toNat = n := toNat_ofNat (by omega)
    refine ⟨start + 1, ?_⟩
    rw [List.singleton_append, utf8Pieces_one (by omega), hself _ ha]
  next hone =>
  split
  next htwo =>
    have ha : (UInt8.ofNat (n / 64 % 0x20 + 0xc0)).toNat = n / 64 % 0x20 + 0xc0 :=
      toNat_ofNat (by omega)
    refine ⟨start + 2, ?_⟩
    rw [List.cons_append, List.singleton_append, utf8Pieces_two (by omega) hlast, ha, hlastBits,
      hself _ (by omega)]
  next htwo =>
  split
  next hthree =>
    have ha : (UInt8.ofNat (n / 4096 % 0x10 + 0xe0)).toNat = n / 4096 % 0x10 + 0xe0 :=
      toNat_ofNat (by omega)
    have hb : (UInt8.ofNat (n / 64 % 0x40 + 0x80)).toNat = n / 64 % 0x40 + 0x80 :=
      toNat_ofNat (by omega)
    have hfits := secondFits_of_bounds (a := UInt8.ofNat (n / 4096 % 0x10 + 0xe0)) hsixth
      (by omega) (by omega) (by omega) (by omega)
    refine ⟨start + 3, ?_⟩
    rw [List.cons_append, List.cons_append, List.singleton_append,
      utf8Pieces_three (by omega) hfits hlast, ha, hsixthBits, hlastBits, hself _ (by omega)]
  next hthree =>
    have ha : (UInt8.ofNat (n / 262144 % 0x08 + 0xf0)).toNat = n / 262144 % 0x08 + 0xf0 :=
      toNat_ofNat (by omega)
    have hb : (UInt8.ofNat (n / 4096 % 0x40 + 0x80)).toNat = n / 4096 % 0x40 + 0x80 :=
      toNat_ofNat (by omega)
    have hfits := secondFits_of_bounds (a := UInt8.ofNat (n / 262144 % 0x08 + 0xf0)) htwelfth
      (by omega) (by omega) (by omega) (by omega)
    refine ⟨start + 4, ?_⟩
    rw [List.cons_append, List.cons_append, List.cons_append, List.singleton_append,
      utf8Pieces_four (by omega) hfits hsixth hlast, ha, htwelfthBits, hsixthBits, hlastBits,
      hself _ (by omega)]

/-- The bytes of a text are read as its characters, without a fault. -/
theorem utf8Pieces_encodeUtf8 (surrogates : Bool) (start : Nat) (cs : List Char) :
    utf8Pieces surrogates start (encodeUtf8 cs) = cs.map .ok := by
  induction cs generalizing start with
  | nil => rfl
  | cons c cs ih =>
    obtain ⟨start', h⟩ := utf8Pieces_utf8EncodeChar surrogates start c (encodeUtf8 cs)
    have hcons : encodeUtf8 (c :: cs) = String.utf8EncodeChar c ++ encodeUtf8 cs := rfl
    rw [hcons, h, ih, List.map_cons]

/-- Pieces without a fault are the characters. -/
theorem mapM_map_ok (cs : List Char) :
    (cs.map .ok : List (Except Utf8Fault Char)).mapM id = .ok cs := by
  induction cs with
  | nil => rfl
  | cons c cs ih =>
    rw [List.map_cons, List.mapM_cons, ih]
    rfl

/-- A text is read back from its bytes. -/
theorem decodeUtf8_utf8 (s : String) : decodeUtf8 (utf8 s) = .ok s.toList := by
  unfold decodeUtf8 utf8
  rw [utf8Pieces_encodeUtf8, mapM_map_ok]

theorem utf8_inj {s t : String} : utf8 s = utf8 t ↔ s = t := by
  refine ⟨fun h => ?_, congrArg _⟩
  have hdecoded := congrArg decodeUtf8 h
  rw [decodeUtf8_utf8, decodeUtf8_utf8] at hdecoded
  exact String.toList_inj.mp (Except.ok.inj hdecoded)

/-- A text is read back from its bytes where halves of surrogate pairs may stand. -/
theorem decodeUtf8Relaxed_utf8 (s : String) : decodeUtf8Relaxed (utf8 s) = .ok s.toList := by
  unfold decodeUtf8Relaxed utf8
  rw [utf8Pieces_encodeUtf8, mapM_map_ok]

/-- A text that starts as an object with fields does is known to be in UTF-8. -/
theorem decodeAny_utf8 {s : String} {cs : List Char} (hs : s.toList = '{' :: '"' :: cs) :
    decodeAny (utf8 s) = .ok s.toList := by
  have hbytes : utf8 s = 0x7b :: 0x22 :: encodeUtf8 cs := by
    unfold utf8 encodeUtf8
    rw [hs, List.flatMap_cons, List.flatMap_cons]
    rfl
  have hdetect : Encoding.detect (utf8 s) = .utf8 := by
    rw [hbytes]
    match encodeUtf8 cs with
    | [] => rfl
    | [_] => rfl
    | _ :: _ :: _ => rfl
  unfold decodeAny
  rw [hdetect]
  exact decodeUtf8Relaxed_utf8 s

section Lengths

variable {cs : List Char} {n : Nat}

theorem encodeUtf8_cons (c : Char) (cs : List Char) :
    encodeUtf8 (c :: cs) = String.utf8EncodeChar c ++ encodeUtf8 cs := rfl

theorem encodeUtf8_append (cs cs' : List Char) :
    encodeUtf8 (cs ++ cs') = encodeUtf8 cs ++ encodeUtf8 cs' :=
  List.flatMap_append

/-- Characters of more than one byte are those beyond ASCII. -/
theorem utf8Size_eq_one_iff (c : Char) : c.utf8Size = 1 ↔ c.toNat < 0x80 := by
  have hvalue : c.val.toNat = c.toNat := rfl
  have hbound : (127 : UInt32).toNat = 127 := rfl
  rw [Char.utf8Size_eq_one_iff, UInt32.le_iff_toNat_le]
  omega

/-- A text has at least as many bytes as characters. -/
theorem length_le_length_encodeUtf8 (cs : List Char) : cs.length ≤ (encodeUtf8 cs).length := by
  induction cs with
  | nil => exact Nat.le_refl _
  | cons c cs ih =>
    have hpos := c.utf8Size_pos
    rw [encodeUtf8_cons, List.length_append, String.length_utf8EncodeChar, List.length_cons]
    omega

/-- A text has as many bytes as characters exactly if all of them are ASCII. -/
theorem length_encodeUtf8_eq_iff :
    (encodeUtf8 cs).length = cs.length ↔ ∀ c ∈ cs, c.toNat < 0x80 := by
  induction cs with
  | nil => simp [encodeUtf8]
  | cons c cs ih =>
    have hpos := c.utf8Size_pos
    have hle := length_le_length_encodeUtf8 cs
    rw [encodeUtf8_cons, List.length_append, String.length_utf8EncodeChar, List.length_cons,
      List.forall_mem_cons, ← ih, ← utf8Size_eq_one_iff]
    omega

/-- As many bytes as characters are those of the same characters exactly if these are ASCII. -/
theorem take_encodeUtf8_eq_iff (hn : n ≤ cs.length) :
    (encodeUtf8 cs).take n = encodeUtf8 (cs.take n) ↔ ∀ c ∈ cs.take n, c.toNat < 0x80 := by
  have hlength : (cs.take n).length = n := by
    rw [List.length_take, Nat.min_eq_left hn]
  have hsplit : encodeUtf8 cs = encodeUtf8 (cs.take n) ++ encodeUtf8 (cs.drop n) := by
    rw [← encodeUtf8_append, List.take_append_drop]
  rw [← length_encodeUtf8_eq_iff, hlength]
  constructor
  · intro h
    have hshort := List.length_take_le n (encodeUtf8 cs)
    have hlong := length_le_length_encodeUtf8 (cs.take n)
    rw [h] at hshort
    omega
  · intro h
    rw [hsplit, List.take_left' h]

end Lengths

end PassTrace.Text

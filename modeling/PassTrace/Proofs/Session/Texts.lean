import PassTrace.Proofs.Codec.Base64
import PassTrace.Proofs.Codec.Stored
import PassTrace.Proofs.Json.RoundTrip
import PassTrace.Proofs.Snapshot.Memory
import PassTrace.Session.Decode
import PassTrace.Session.Encode

/-!
# The table of texts

Saving gives every index the number of its text, whatever reference leads there. The
table of a payload is read back with the same texts under the same numbers.
-/

namespace PassTrace

namespace Interning

/-- The texts of a pipeline up to `k` passes are taken up: each index has a number, and its text is
the meaning of the index. -/
structure Holds (t : Interning) (p : Pipeline) (k : Nat) : Prop where
  length_numbers : t.numbers.length = k + 1
  number_zero : t.numbers[0]? = some 0
  meaning_of_number : ∀ {i n}, t.numbers[i]? = some n → t.texts[n]? = some (p.meaning i)

variable {t : Interning} {p : Pipeline} {k : Nat}

/-- At first only the initial text is there. -/
theorem holds_start (p : Pipeline) : (start p.initial).Holds p 0 where
  length_numbers := rfl
  number_zero := rfl
  meaning_of_number := by
    intro i n h
    cases i with
    | zero =>
      obtain rfl : 0 = n := by simpa [start] using h
      simp [start]
    | succ i => simp [start] at h

/-- A number given to the next index must have the text that the index means, and the texts there
must stay. -/
theorem Holds.push (h : t.Holds p k) {texts : List Lines} {number : Nat} {notices : List Notice}
    (hkeep : ∀ {n : Nat} {lines : Lines}, t.texts[n]? = some lines → texts[n]? = some lines)
    (hnumber : texts[number]? = some (p.meaning (k + 1))) :
    Holds ⟨texts, t.numbers ++ [number], notices⟩ p (k + 1) where
  length_numbers := by simp [h.length_numbers]
  number_zero := by
    rw [List.getElem?_append_left (by rw [h.length_numbers]; omega)]
    exact h.number_zero
  meaning_of_number := by
    intro i n hi
    by_cases hlt : i < t.numbers.length
    · rw [List.getElem?_append_left hlt] at hi
      exact hkeep (h.meaning_of_number hi)
    · have hlength := h.length_numbers
      rw [List.getElem?_append_right (by omega)] at hi
      by_cases heq : i = k + 1
      · subst heq
        have hsub : k + 1 - t.numbers.length = 0 := by omega
        obtain rfl : number = n := by simpa [hsub] using hi
        exact hnumber
      · rw [List.getElem?_eq_none (by simp; omega)] at hi
        cases hi

/-- A text is found where it is, or put behind the others. -/
theorem Holds.addText (h : t.Holds p k) {lines : Lines} (hlines : p.meaning (k + 1) = lines)
    (notices : List Notice) : Holds { t.addText lines with notices } p (k + 1) := by
  unfold Interning.addText
  cases hfind : t.texts.findIdx? (· = lines) with
  | some number =>
    refine h.push (fun htext => htext) ?_
    obtain ⟨hlt, hfound, -⟩ := List.findIdx?_eq_some_iff_getElem.1 hfind
    rw [List.getElem?_eq_getElem hlt, hlines]
    simpa using hfound
  | none =>
    refine h.push (fun htext => ?_) ?_
    · obtain ⟨hlt, -⟩ := List.getElem?_eq_some_iff.1 htext
      rwa [List.getElem?_append_left hlt]
    · simp [hlines]

/-- Taking up a pass takes up the text that it means, or copies a number that has this text. -/
theorem Holds.addPass_cases (h : t.Holds p k) {pass : Pass} (hpass : p.passes[k]? = some pass) :
    (∃ notices, t.addPass pass = { t.addText (p.meaning (k + 1)) with notices }) ∨
      ∃ number, t.texts[number]? = some (p.meaning (k + 1)) ∧
        t.addPass pass = { t with numbers := t.numbers ++ [number] } := by
  have hmeaning := p.meaning_succ k
  rw [hpass] at hmeaning
  have hlength := h.length_numbers
  unfold Interning.addPass
  cases hreference : pass.reference with
  | inline lines =>
    simp only [Option.map_some, hreference] at hmeaning
    rw [hmeaning]
    exact .inl ⟨_, rfl⟩
  | sameAs target =>
    simp only [Option.map_some, hreference] at hmeaning
    dsimp only
    by_cases hback : 0 ≤ target ∧ target < (k : Int) + 1
    · have hlt : target.toNat < t.numbers.length := by omega
      have hnumber : t.numbers[target.toNat]? = some t.numbers[target.toNat] :=
        List.getElem?_eq_getElem hlt
      rw [if_pos hback] at hmeaning
      rw [if_pos hback.1, hnumber, hmeaning]
      exact .inr ⟨_, h.meaning_of_number hnumber, rfl⟩
    · have hnone : (if 0 ≤ target then t.numbers[target.toNat]? else none) = none := by
        split
        · exact List.getElem?_eq_none (by omega)
        · rfl
      rw [if_neg hback] at hmeaning
      rw [hnone, hmeaning]
      exact .inl ⟨_, rfl⟩

/-- The next pass is taken up with the text that its reference means. -/
theorem Holds.addPass (h : t.Holds p k) {pass : Pass} (hpass : p.passes[k]? = some pass) :
    (t.addPass pass).Holds p (k + 1) := by
  rcases h.addPass_cases hpass with ⟨notices, heq⟩ | ⟨number, hnumber, heq⟩
  · rw [heq]
    exact h.addText rfl notices
  · rw [heq]
    exact h.push (fun htext => htext) hnumber

/-- The first `k` passes are taken up. -/
theorem holds_take (p : Pipeline) (hk : k ≤ p.size) :
    ((p.passes.take k).foldl Interning.addPass (start p.initial)).Holds p k := by
  induction k with
  | zero => exact holds_start p
  | succ k ih =>
    have hlt : k < p.passes.length := hk
    rw [List.take_succ_eq_append_getElem hlt, List.foldl_append]
    exact (ih (by omega)).addPass (List.getElem?_eq_getElem hlt)

/-- All passes are taken up. -/
theorem holds_ofPipeline (p : Pipeline) : (ofPipeline p).Holds p p.size := by
  have h := holds_take p (Nat.le_refl p.size)
  rwa [Pipeline.size, List.take_length] at h

end Interning

namespace Packing

/-- A packed text is unpacked. -/
theorem unpack_pack (text : String) : unpack (pack text) = .ok text := by
  unfold unpack pack
  rw [String.toList_ofList, Base64.decode_letters]
  dsimp only
  rw [Zlib.decompress_compress]
  dsimp only
  rw [Text.decodeUtf8_utf8]
  dsimp only
  rw [String.ofList_toList]

end Packing

namespace Json

/-- Strings are written whatever they hold. -/
theorem itemsFault?_strings (levels : Nat) (items : List String) :
    itemsFault? levels (items.map string) = none := by
  induction items with
  | nil => rfl
  | cons item items ih =>
    rw [List.map_cons, itemsFault?]
    exact ih

/-- Strings hold no objects. -/
theorem itemsHaveDistinctNames_strings (items : List String) :
    ItemsHaveDistinctNames (items.map string) := by
  induction items with
  | nil => trivial
  | cons item items ih => exact ⟨trivial, ih⟩

/-- An array of strings is read back from its text. -/
theorem parse_strings (items : List String) : parse (strings items).asciiLine =
    .ok (strings items) :=
  parse_asciiLine (itemsHaveDistinctNames_strings items) (itemsFault?_strings _ items)

/-- The strings of an array of strings. -/
theorem asStrings?_strings (items : List String) : (strings items).asStrings? = some items := by
  unfold strings asStrings?
  induction items with
  | nil => rfl
  | cons item items ih =>
    dsimp only at ih ⊢
    rw [List.map_cons, List.mapM_cons, ih]
    rfl

end Json

/-- Different numbers have different keys. -/
theorem textKey_injective {m n : Nat} (h : textKey m = textKey n) : m = n := by
  unfold textKey at h
  rw [Nat.toString_eq_ofList_toDigits, Nat.toString_eq_ofList_toDigits] at h
  have hdigits : Nat.toDigits 10 m = Nat.toDigits 10 n := String.ofList_injective h
  rw [← Nat.ofDigitChars_ten_toDigits (n := m), hdigits, Nat.ofDigitChars_ten_toDigits]

namespace Session

/-- An entry of the table is read back. -/
theorem readEntry_packLines (key : String) (lines : Lines) :
    readEntry key (.string (Packing.packLines lines)) = pure lines := by
  have hentry : unpackEntry (Packing.packLines lines) = .ok (Json.strings lines) := by
    unfold unpackEntry Packing.packLines
    rw [Packing.unpack_pack]
    dsimp only
    rw [Json.parse_strings]
  unfold readEntry
  simp only [Json.asString?, Reporting.need, pure_bind, hentry, Json.asStrings?_strings]

/-- The table with the texts under their keys. -/
def textTable (texts : List Lines) : TextTable :=
  texts.zipIdx.map fun (lines, number) => (textKey number, lines)

/-- The table of a payload is read back. -/
theorem readTable_tableFields (texts : List Lines) :
    readTable (tableFields texts) = pure (textTable texts) := by
  unfold readTable tableFields textTable
  induction texts.zipIdx with
  | nil => rfl
  | cons entry entries ih =>
    rw [List.map_cons, List.mapM_cons, ih]
    simp only [readEntry_packLines, pure_bind, List.map_cons]

/-- A text is found under the key of its number. -/
theorem get?_textTable (texts : List Lines) (number : Nat) :
    (textTable texts).get? (textKey number) = texts[number]? := by
  have hfrom (start number : Nat) :
      TextTable.get? ((texts.zipIdx start).map fun (lines, number) => (textKey number, lines))
        (textKey (start + number)) = texts[number]? := by
    induction texts generalizing start number with
    | nil => rfl
    | cons lines texts ih =>
      cases number with
      | zero => simp [TextTable.get?]
      | succ number =>
        have hne : textKey start ≠ textKey (start + (number + 1)) := by
          intro h
          have := textKey_injective h
          omega
        have hindex : start + (number + 1) = start + 1 + number := by omega
        have h := ih (start + 1) number
        rw [hindex] at hne ⊢
        simpa [TextTable.get?, hne] using h
  have h := hfrom 0 number
  rwa [Nat.zero_add] at h

end Session
end PassTrace

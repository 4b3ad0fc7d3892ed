import PassTrace.Proofs.Json.RoundTrip
import PassTrace.Text.Line

/-!
# Indented JSON text read back

A value that is written over several lines is read as it was written, also from a file whose line
ends are unified when it is read. Between values there are only blanks, which are skipped, and no
carriage return is written.
-/

namespace PassTrace

namespace Text

/-- Without carriage returns there is nothing to unify. -/
theorem unifyLineFeeds_of_not_mem {cs : List Char} (h : '\r' ∉ cs) : unifyLineFeeds cs = cs := by
  induction cs with
  | nil => rfl
  | cons c cs ih =>
    obtain ⟨hc, hcs⟩ := not_or.mp (List.mem_cons.not.mp h)
    rw [unifyLineFeeds, if_neg (Ne.symm hc), ih hcs]
    exact fun _ heq => absurd heq.symm hc

end Text

namespace Json

/-- The start of a line is skipped. -/
theorem skipBlanks_newLine (level : Nat) (cs : List Char) :
    skipBlanks (newLine level ++ cs) = skipBlanks cs := by
  unfold skipBlanks newLine
  rw [List.cons_append, List.dropWhile_cons_of_pos (by decide),
    List.dropWhile_append_of_pos]
  intro c hc
  rw [(List.mem_replicate.mp hc).2]
  rfl

/-- A number may end where a line starts. -/
theorem isTail_newLine (level : Nat) (cs : List Char) : IsTail (newLine level ++ cs) := by
  exact isTail_cons (by simp)

mutual

-- By recursion on the tree, as for text on one line.
/-- A value that can be written is read as it was written over several lines. -/
theorem value_renderIndented :
    (v : Json) → (level levels : Nat) → (rest : List Char) → IsTail rest → v.HasDistinctNames →
      writeFault? levels v = none → Reads (value levels (renderIndented level v ++ rest)) v rest
  | array [], _, levels, rest, hrest, hnames, hwrite =>
    value_render false (array []) levels rest hrest hnames hwrite
  | array (item :: items), level, levels, rest, _, hnames, hwrite => by
    obtain ⟨hlevels, hwrite⟩ := writeFault?_array_eq_none hwrite
    have hitems := arrayItems_indentedItems (item :: items) (level + 1) level (levels - 1) rest
      (List.cons_ne_nil _ _) hnames hwrite
    have htext : renderIndented level (array (item :: items)) ++ rest =
        '[' :: (indentedItems (level + 1) (item :: items) ++ (newLine level ++ ']' :: rest)) := by
      simp [renderIndented]
    rw [htext]
    exact value_array_behind_blanks hlevels hitems
  | object [], _, levels, rest, hrest, hnames, hwrite =>
    value_render false (object []) levels rest hrest hnames hwrite
  | object (field :: fields), level, levels, rest, _, hnames, hwrite => by
    obtain ⟨hlevels, hwrite⟩ := writeFault?_object_eq_none hwrite
    obtain ⟨cs, hname, hfields⟩ := objectFields_indentedFields (field :: fields) []
      (level + 1) level (levels - 1) rest (List.cons_ne_nil _ _) hnames.1 hnames.2 hwrite
    have htext : renderIndented level (object (field :: fields)) ++ rest =
        '{' :: (indentedFields (level + 1) (field :: fields) ++
          (newLine level ++ '}' :: rest)) := by
      simp [renderIndented]
    rw [htext]
    exact value_object_behind_blanks hlevels hname hfields
  | null, _, levels, rest, hrest, hnames, hwrite =>
    value_render false null levels rest hrest hnames hwrite
  | bool b, _, levels, rest, hrest, hnames, hwrite =>
    value_render false (bool b) levels rest hrest hnames hwrite
  | int n, _, levels, rest, hrest, hnames, hwrite =>
    value_render false (int n) levels rest hrest hnames hwrite
  | float x, _, levels, rest, hrest, hnames, hwrite =>
    value_render false (float x) levels rest hrest hnames hwrite
  | string s, _, levels, rest, hrest, hnames, hwrite =>
    value_render false (string s) levels rest hrest hnames hwrite

/-- The items of an array are read from their lines, up to the closing bracket on a line of its
own. -/
theorem arrayItems_indentedItems :
    (items : List Json) → (level closing levels : Nat) → (rest : List Char) → items ≠ [] →
      ItemsHaveDistinctNames items → itemsFault? levels items = none →
      Reads (arrayItems levels
        (skipBlanks (indentedItems level items ++ (newLine closing ++ ']' :: rest)))) items rest
  | [item], level, closing, levels, rest, _, hnames, hwrite => by
    have hitem := value_renderIndented item level levels (newLine closing ++ ']' :: rest)
      (isTail_newLine closing _) hnames.1 (itemsFault?_cons hwrite).1
    rw [indentedItems, List.append_assoc, skipBlanks_newLine, skipBlanks_of_reads hitem]
    exact arrayItems_last hitem (skipBlanks_newLine closing _)
  | item :: next :: items, level, closing, levels, rest, _, hnames, hwrite => by
    let tail := indentedItems level (next :: items) ++ (newLine closing ++ ']' :: rest)
    have hitems := arrayItems_indentedItems (next :: items) level closing levels rest
      (List.cons_ne_nil _ _) hnames.2 (itemsFault?_cons hwrite).2
    have hitem := value_renderIndented item level levels (',' :: tail) (isTail_cons (by decide))
      hnames.1 (itemsFault?_cons hwrite).1
    have htext : indentedItems level (item :: next :: items) ++ (newLine closing ++ ']' :: rest) =
        newLine level ++ (renderIndented level item ++ ',' :: tail) := by
      simp [indentedItems, tail]
    rw [htext, skipBlanks_newLine, skipBlanks_of_reads hitem]
    exact arrayItems_more hitem rfl hitems

/-- The fields of an object are read from their lines, up to the closing brace on a line of its own,
and put behind those already read. -/
theorem objectFields_indentedFields :
    (fields read : Fields) → (level closing levels : Nat) → (rest : List Char) → fields ≠ [] →
      ((read ++ fields).map (·.1)).Nodup → FieldsHaveDistinctNames fields →
      fieldsFault? levels fields = none →
      ∃ cs, skipBlanks (indentedFields level fields ++ (newLine closing ++ '}' :: rest)) =
        '"' :: cs ∧ Reads (objectFields levels read ('"' :: cs)) (read ++ fields) rest
  | [(name, item)], read, level, closing, levels, rest, _, hnew, hnames, hwrite => by
    let tail := newLine closing ++ '}' :: rest
    have hitem := value_renderIndented item level levels tail (isTail_newLine closing _) hnames.1
      (fieldsFault?_cons hwrite).1
    obtain ⟨cs, hcs, hname⟩ := stringBody_renderString false name
      (':' :: ' ' :: (renderIndented level item ++ tail))
    have htext : indentedFields level [(name, item)] ++ tail =
        newLine level ++ ('"' :: cs) := by
      rw [← hcs]
      simp [indentedFields]
    refine ⟨cs, ?_, ?_⟩
    · rw [htext, skipBlanks_newLine]
      rfl
    · rw [← Fields.set_of_middle hnew]
      exact objectFields_last hname rfl (value_behind_blank hitem) (skipBlanks_newLine closing _)
  | (name, item) :: next :: fields, read, level, closing, levels, rest, _, hnew,
    hnames, hwrite => by
    let tail := indentedFields level (next :: fields) ++ (newLine closing ++ '}' :: rest)
    have hitem := value_renderIndented item level levels (',' :: tail) (isTail_cons (by decide))
      hnames.1 (fieldsFault?_cons hwrite).1
    obtain ⟨cs', hcs', hfields⟩ := objectFields_indentedFields (next :: fields)
      (read ++ [(name, item)]) level closing levels rest (List.cons_ne_nil _ _)
      (by simpa using hnew) hnames.2 (fieldsFault?_cons hwrite).2
    obtain ⟨cs, hcs, hname⟩ := stringBody_renderString false name
      (':' :: ' ' :: (renderIndented level item ++ ',' :: tail))
    have htext : indentedFields level ((name, item) :: next :: fields) ++
        (newLine closing ++ '}' :: rest) = newLine level ++ ('"' :: cs) := by
      rw [← hcs]
      simp [indentedFields, tail]
    refine ⟨cs, ?_, ?_⟩
    · rw [htext, skipBlanks_newLine]
      rfl
    · refine objectFields_more hname rfl (value_behind_blank hitem) rfl ?_
      rw [Fields.set_of_middle hnew, hcs']
      rwa [List.append_assoc] at hfields

end

/-- The indented text of a value denotes the value. -/
theorem parseChars_renderIndented {v : Json} (hnames : v.HasDistinctNames)
    (hwrite : v.writeFault? maxLevels = none) : parseChars (renderIndented 0 v) = .ok v := by
  have hread := value_renderIndented v 0 maxLevels [] isTail_nil hnames hwrite
  rw [List.append_nil] at hread
  exact parseChars_of_reads hread

section CarriageReturns

theorem return_not_mem_toDigits (n : Nat) : '\r' ∉ Nat.toDigits 10 n :=
  fun h => absurd ((isNumeral_toDigits n).2 _ h) (by decide)

theorem return_not_mem_significantDigits (d : Decimal) : '\r' ∉ d.significantDigits.1 := by
  have hkept : '\r' ∉ ((Nat.toDigits 10 d.coefficient).reverse.dropWhile (· = '0')).reverse := by
    intro h
    rw [List.mem_reverse] at h
    have hmem := (List.dropWhile_suffix (· = '0')).subset h
    exact return_not_mem_toDigits d.coefficient (List.mem_reverse.mp hmem)
  unfold Decimal.significantDigits
  dsimp only
  split
  · decide
  · exact hkept

theorem return_not_mem_exponentText (e : Int) : '\r' ∉ Decimal.exponentText e := by
  have hdigits := return_not_mem_toDigits e.natAbs
  unfold Decimal.exponentText
  dsimp only
  split <;> split <;> simpa using hdigits

/-- A decimal numeral has digits, a point and an exponent. -/
theorem return_not_mem_text (d : Decimal) : '\r' ∉ d.text := by
  have hdigits := return_not_mem_significantDigits d
  unfold Decimal.text
  generalize d.significantDigits = significant at hdigits
  rcases significant with ⟨digits, place⟩
  have htake (k : Nat) : '\r' ∉ digits.take k := fun h => hdigits (List.mem_of_mem_take h)
  have hdrop (k : Nat) : '\r' ∉ digits.drop k := fun h => hdigits (List.mem_of_mem_drop h)
  dsimp only at hdigits ⊢
  split
  · split
    · simp [hdigits]
    · split <;> simp [htake, hdrop]
  · have hexponent := return_not_mem_exponentText (place - 1)
    have htail : '\r' ∉ digits.tail := fun h => hdigits (List.mem_of_mem_tail h)
    split <;> simp [htake, htail, hexponent]

theorem return_not_mem_renderFloat (x : Binary64) : '\r' ∉ renderFloat x := by
  cases x with
  | nan => decide
  | infinity negative => cases negative <;> decide
  | finite negative m =>
    have htext := return_not_mem_text (Decimal.shortest m)
    cases negative <;> simpa [renderFloat, Binary64.numeral] using htext

theorem return_not_mem_escapeUnit (n : Nat) : '\r' ∉ escapeUnit n := by
  have hdigit (d : Nat) : '\r' ≠ Text.hexDigit (d % 16) := by
    have hlt : d % 16 < 16 := Nat.mod_lt d (by decide)
    generalize d % 16 = k at hlt
    decide +revert
  have hdigits (width n : Nat) : '\r' ∉ Text.hexDigits width n := by
    induction width generalizing n with
    | zero => exact List.not_mem_nil
    | succ width ih =>
      rw [Text.hexDigits, List.mem_append, List.mem_singleton, not_or]
      exact ⟨ih (n / 16), hdigit n⟩
  simp [escapeUnit, hdigits]

/-- A carriage return in a string is escaped. -/
theorem return_not_mem_renderString (ascii : Bool) (s : String) : '\r' ∉ renderString ascii s := by
  have hletter : ∀ c letter, escapeLetter? c = some letter → letter ≠ '\r' := by
    intro c letter h
    unfold escapeLetter? at h
    grind
  have hchar (c : Char) : '\r' ∉ escapeChar ascii c := by
    unfold escapeChar
    dsimp only
    split
    next letter h => simpa using Ne.symm (hletter c letter h)
    next h =>
      have hc : '\r' ≠ c := by
        rintro rfl
        cases h
      split
      · exact return_not_mem_escapeUnit _
      · split
        · simpa using hc
        · split
          · exact return_not_mem_escapeUnit _
          · simp [return_not_mem_escapeUnit]
  simp [renderString, hchar]

mutual

theorem return_not_mem_renderIndented : (v : Json) → (level : Nat) → '\r' ∉ renderIndented level v
  | null, _ => by simp [renderIndented, render]
  | bool b, _ => by cases b <;> simp [renderIndented, render]
  | int n, _ => by
    have hdigits := return_not_mem_toDigits n.natAbs
    have htext : '\r' ∉ (toString n).toList := by
      rw [toList_toString]
      unfold signText
      split <;> simpa using hdigits
    simpa only [renderIndented, render] using htext
  | float x, level => by
    have hfloat := return_not_mem_renderFloat x
    simpa [renderIndented, render] using hfloat
  | string s, level => by
    have hstring := return_not_mem_renderString false s
    simpa [renderIndented, render] using hstring
  | array [], _ => by simp [renderIndented]
  | array (item :: items), level => by
    have hitems := return_not_mem_indentedItems (item :: items) (level + 1)
    simp [renderIndented, newLine, hitems]
  | object [], _ => by simp [renderIndented]
  | object (field :: fields), level => by
    have hfields := return_not_mem_indentedFields (field :: fields) (level + 1)
    simp [renderIndented, newLine, hfields]

theorem return_not_mem_indentedItems :
    (items : List Json) → (level : Nat) → '\r' ∉ indentedItems level items
  | [], _ => List.not_mem_nil
  | [item], level => by
    have hitem := return_not_mem_renderIndented item level
    simp [indentedItems, newLine, hitem]
  | item :: next :: items, level => by
    have hitem := return_not_mem_renderIndented item level
    have hitems := return_not_mem_indentedItems (next :: items) level
    simp [indentedItems, newLine, hitem, hitems]

theorem return_not_mem_indentedFields :
    (fields : Fields) → (level : Nat) → '\r' ∉ indentedFields level fields
  | [], _ => List.not_mem_nil
  | [(name, item)], level => by
    have hname := return_not_mem_renderString false name
    have hitem := return_not_mem_renderIndented item level
    simp [indentedFields, newLine, hname, hitem]
  | (name, item) :: next :: fields, level => by
    have hname := return_not_mem_renderString false name
    have hitem := return_not_mem_renderIndented item level
    have hfields := return_not_mem_indentedFields (next :: fields) level
    simp [indentedFields, newLine, hname, hitem, hfields]

end

end CarriageReturns

/-- The document of a value denotes the value, read from a file with its line ends unified. -/
theorem parseChars_document {v : Json} (hnames : v.HasDistinctNames)
    (hwrite : v.writeFault? maxLevels = none) :
    parseChars (Text.unifyLineFeeds v.document.toList) = .ok v := by
  rw [document, String.toList_ofList,
    Text.unifyLineFeeds_of_not_mem (return_not_mem_renderIndented v 0)]
  exact parseChars_renderIndented hnames hwrite

end Json
end PassTrace

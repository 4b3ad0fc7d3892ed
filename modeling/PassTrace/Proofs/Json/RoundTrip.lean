import PassTrace.Json.Writable
import PassTrace.Proofs.Json.Numbers
import PassTrace.Proofs.Json.Strings

/-!
# JSON text read back

A value that can be written is read as it was written. The fields of an object must
have different names, or the later one would take the place of the earlier.
-/

namespace PassTrace.Json

/-- A named value is no number. -/
theorem number?_of_named? {cs rest : List Char} {v : Json} (h : named? cs = some (v, rest)) :
    number? cs = none := by
  obtain ⟨⟨name, value⟩, hmem, hv⟩ := List.exists_of_findSome?_eq_some h
  obtain ⟨tail, htail, -⟩ := Option.map_eq_some_iff.1 hv
  rw [Text.behind?_eq_some_iff.1 htail]
  simp only [namedValues, List.mem_cons, List.not_mem_nil, Prod.mk.injEq, or_false] at hmem
  rcases hmem with ⟨rfl, -⟩ | ⟨rfl, -⟩ | ⟨rfl, -⟩ | ⟨rfl, -⟩ | ⟨rfl, -⟩ | ⟨rfl, -⟩ <;>
    simp [number?, integerDigits, spanDigits, isAsciiDigit]

section Readers

variable {levels : Nat} {cs rest tail left : List Char}

/-- A named value is read by its name. -/
theorem simpleValue_of_named? {v : Json} (h : named? cs = some (v, rest)) :
    Reads (simpleValue cs) v rest := by
  refine ⟨length_of_named? h, ?_⟩
  unfold simpleValue
  split
  next heq =>
    obtain ⟨rfl, rfl⟩ : _ = v ∧ _ = rest := by simpa [heq] using h
    rfl
  next heq => simp [heq] at h

/-- A number is read as a number. -/
theorem simpleValue_of_number? {v : Json} (h : number? cs = some (.ok v, rest)) :
    Reads (simpleValue cs) v rest := by
  refine ⟨length_of_number? h, ?_⟩
  unfold simpleValue
  split
  next heq => simp [number?_of_named? heq] at h
  next =>
    split
    next heq => simp [heq] at h
    next heq => simp [heq] at h
    next heq =>
      obtain ⟨rfl, rfl⟩ : _ = v ∧ _ = rest := by simpa [heq] using h
      rfl

/-- Where no string and no value with parts starts, a value without parts is read. -/
theorem value_eq_simpleValue (hstart : ∀ t, cs ≠ '"' :: t ∧ cs ≠ '[' :: t ∧ cs ≠ '{' :: t) :
    value levels cs = simpleValue cs := by
  rw [value]
  · exact fun t => (hstart t).1
  · exact fun t => (hstart t).2.1
  · exact fun t => (hstart t).2.2

/-- A named value is read by its name. -/
theorem value_of_named? {v : Json} (h : named? cs = some (v, rest)) :
    Reads (value levels cs) v rest := by
  have hstart : ∀ t, cs ≠ '"' :: t ∧ cs ≠ '[' :: t ∧ cs ≠ '{' :: t := by
    intro t
    refine ⟨?_, ?_, ?_⟩ <;> rintro rfl <;> simp [named?, namedValues, Text.behind?] at h
  rw [value_eq_simpleValue hstart]
  exact simpleValue_of_named? h

/-- A number is read as a number. -/
theorem value_of_number? {v : Json} (h : number? cs = some (.ok v, rest)) :
    Reads (value levels cs) v rest := by
  have hstart : ∀ t, cs ≠ '"' :: t ∧ cs ≠ '[' :: t ∧ cs ≠ '{' :: t := by
    intro t
    refine ⟨?_, ?_, ?_⟩ <;> rintro rfl <;>
      simp [number?, integerDigits, spanDigits, isAsciiDigit] at h
  rw [value_eq_simpleValue hstart]
  exact simpleValue_of_number? h

/-- No value starts with a blank, a closing bracket or a byte order mark. -/
theorem not_reads_value {c : Char} {v : Json}
    (hc : c = ' ' ∨ c = '\n' ∨ c = '\t' ∨ c = '\r' ∨ c = ']' ∨ c = '\uFEFF') :
    ¬ Reads (value levels (c :: cs)) v rest := by
  rintro ⟨hlt, h⟩
  have hnamed : named? (c :: cs) = none := by
    rcases hc with rfl | rfl | rfl | rfl | rfl | rfl <;> simp [named?, namedValues, Text.behind?]
  have hnumber : number? (c :: cs) = none := by
    rcases hc with rfl | rfl | rfl | rfl | rfl | rfl <;>
      simp [number?, integerDigits, spanDigits, isAsciiDigit]
  have hstart : ∀ t, c :: cs ≠ '"' :: t ∧ c :: cs ≠ '[' :: t ∧ c :: cs ≠ '{' :: t := by
    intro t
    rcases hc with rfl | rfl | rfl | rfl | rfl | rfl <;> simp
  rw [value_eq_simpleValue hstart] at h
  unfold simpleValue at h
  split at h
  next heq => simp [hnamed] at heq
  next =>
    split at h
    next => cases h
    next heq => simp [hnumber] at heq
    next heq => simp [hnumber] at heq

/-- A text whose start is a value has no blanks in front. -/
theorem skipBlanks_of_reads {v : Json} (h : Reads (value levels cs) v rest) :
    skipBlanks cs = cs := by
  unfold skipBlanks
  cases cs with
  | nil => rfl
  | cons c cs =>
    refine List.dropWhile_cons_of_neg fun hblank => not_reads_value ?_ h
    have hblank : ((c = ' ' ∨ c = '\n') ∨ c = '\t') ∨ c = '\r' := by simpa using hblank
    rcases hblank with ((rfl | rfl) | rfl) | rfl <;> simp

/-- A blank in front of a value is skipped. -/
theorem value_behind_blank {v : Json} (h : Reads (value levels cs) v rest) :
    Reads (value levels (skipBlanks (' ' :: cs))) v rest := by
  have hblank : skipBlanks (' ' :: cs) = skipBlanks cs := rfl
  rwa [hblank, skipBlanks_of_reads h]

/-- An array without items. -/
theorem value_emptyArray (hlevels : levels ≠ 0) :
    Reads (value levels ('[' :: ']' :: rest)) (.array []) rest := by
  refine ⟨Nat.lt_add_of_pos_right (k := 2) (by decide), ?_⟩
  have hblank : skipBlanks (']' :: rest) = ']' :: rest := rfl
  rw [value.eq_def]
  simp only [if_neg hlevels]
  split
  next t heq =>
    obtain rfl : rest = t := by simpa [hblank] using heq
    rfl
  next hne => exact absurd hblank (hne rest)

/-- The items of an array start with a value. -/
theorem reads_of_arrayItems {items : List Json} (h : Reads (arrayItems levels cs) items rest) :
    ∃ item rest', Reads (value levels cs) item rest' := by
  obtain ⟨hlt, h⟩ := h
  unfold arrayItems at h
  cases hitem : value levels cs with
  | error trouble => simp [hitem, bind, Except.bind] at h
  | ok read => exact ⟨read.1, read.2.1, read.2.2, rfl⟩

/-- An array whose first item has blanks in front. -/
theorem value_array_behind_blanks {items : List Json} (hlevels : levels ≠ 0)
    (hitems : Reads (arrayItems (levels - 1) (skipBlanks cs)) items rest) :
    Reads (value levels ('[' :: cs)) (.array items) rest := by
  obtain ⟨item, rest', hitem⟩ := reads_of_arrayItems hitems
  have hclose : ∀ t, skipBlanks cs ≠ ']' :: t := by
    intro t ht
    rw [ht] at hitem
    exact not_reads_value (by simp) hitem
  obtain ⟨hlt, hread⟩ := hitems
  have hle := length_skipBlanks_le cs
  refine ⟨by rw [List.length_cons]; omega, ?_⟩
  rw [value]
  simp only [if_neg hlevels, hread]
  rfl

/-- An array with items. -/
theorem value_array {items : List Json} (hlevels : levels ≠ 0)
    (hitems : Reads (arrayItems (levels - 1) cs) items rest) :
    Reads (value levels ('[' :: cs)) (.array items) rest := by
  obtain ⟨item, rest', hitem⟩ := reads_of_arrayItems hitems
  refine value_array_behind_blanks hlevels ?_
  rwa [skipBlanks_of_reads hitem]

/-- The last item of an array. -/
theorem arrayItems_last {item : Json} (hitem : Reads (value levels cs) item rest)
    (hrest : skipBlanks rest = ']' :: tail) : Reads (arrayItems levels cs) [item] tail := by
  obtain ⟨hlt, hitem⟩ := hitem
  have hle := length_skipBlanks_le rest
  rw [hrest, List.length_cons] at hle
  refine ⟨by omega, ?_⟩
  unfold arrayItems
  simp only [hitem, bind, Except.bind]
  split
  next t heq =>
    obtain rfl : tail = t := by simpa [hrest] using heq
    rfl
  next t heq => simp [hrest] at heq
  next hne _ => exact absurd hrest (hne tail)

/-- An item of an array with more behind it. -/
theorem arrayItems_more {item : Json} {items : List Json}
    (hitem : Reads (value levels cs) item rest) (hrest : skipBlanks rest = ',' :: tail)
    (hitems : Reads (arrayItems levels (skipBlanks tail)) items left) :
    Reads (arrayItems levels cs) (item :: items) left := by
  obtain ⟨hlt, hitem⟩ := hitem
  obtain ⟨hlt', hitems⟩ := hitems
  have hle := length_skipBlanks_le rest
  have hle' := length_skipBlanks_le tail
  rw [hrest, List.length_cons] at hle
  refine ⟨by omega, ?_⟩
  unfold arrayItems
  simp only [hitem, bind, Except.bind]
  split
  next t heq => simp [hrest] at heq
  next t heq =>
    obtain rfl : tail = t := by simpa [hrest] using heq
    rw [hitems]
    rfl
  next hne => exact absurd hrest (hne tail)

/-- A string as a value. -/
theorem value_string {text : List Char} (h : Reads (stringBody ('"' :: cs) cs) text rest) :
    Reads (value levels ('"' :: cs)) (.string (String.ofList text)) rest := by
  obtain ⟨hlt, h⟩ := h
  refine ⟨Nat.lt_succ_of_lt hlt, ?_⟩
  rw [value, h]
  rfl

/-- An object without fields. -/
theorem value_emptyObject (hlevels : levels ≠ 0) :
    Reads (value levels ('{' :: '}' :: rest)) (.object []) rest := by
  refine ⟨Nat.lt_add_of_pos_right (k := 2) (by decide), ?_⟩
  have hblank : skipBlanks ('}' :: rest) = '}' :: rest := rfl
  rw [value.eq_def]
  simp only [if_neg hlevels]
  split
  next t heq =>
    obtain rfl : rest = t := by simpa [hblank] using heq
    rfl
  next hne => exact absurd hblank (hne rest)

/-- An object whose first name has blanks in front. -/
theorem value_object_behind_blanks {fields : Fields} (hlevels : levels ≠ 0)
    (hname : skipBlanks cs = '"' :: cs')
    (hfields : Reads (objectFields (levels - 1) [] ('"' :: cs')) fields rest) :
    Reads (value levels ('{' :: cs)) (.object fields) rest := by
  have hclose : ∀ t, skipBlanks cs ≠ '}' :: t := by
    intro t ht
    rw [hname] at ht
    cases ht
  rw [← hname] at hfields
  obtain ⟨hlt, hread⟩ := hfields
  have hle := length_skipBlanks_le cs
  refine ⟨by rw [List.length_cons]; omega, ?_⟩
  rw [value]
  simp only [if_neg hlevels, hread]
  rfl

/-- An object with fields. -/
theorem value_object {fields : Fields} (hlevels : levels ≠ 0)
    (hfields : Reads (objectFields (levels - 1) [] ('"' :: cs)) fields rest) :
    Reads (value levels ('{' :: '"' :: cs)) (.object fields) rest :=
  value_object_behind_blanks hlevels rfl hfields

/-- The last field of an object. -/
theorem objectFields_last {read : Fields} {name middle inner : List Char} {item : Json}
    (hname : Reads (stringBody ('"' :: cs) cs) name rest) (hcolon : skipBlanks rest = ':' :: middle)
    (hitem : Reads (value levels (skipBlanks middle)) item inner)
    (hclose : skipBlanks inner = '}' :: tail) :
    Reads (objectFields levels read ('"' :: cs)) (read.set (String.ofList name) item) tail := by
  obtain ⟨hlt, hname⟩ := hname
  obtain ⟨hlt', hitem⟩ := hitem
  have hle := length_skipBlanks_le rest
  have hle' := length_skipBlanks_le middle
  have hle'' := length_skipBlanks_le inner
  rw [hcolon, List.length_cons] at hle
  rw [hclose, List.length_cons] at hle''
  refine ⟨by rw [List.length_cons]; omega, ?_⟩
  unfold objectFields
  simp only [hname, bind, Except.bind]
  split
  next t heq =>
    obtain rfl : middle = t := by simpa [hcolon] using heq
    simp only [hitem]
    split
    next t heq =>
      obtain rfl : tail = t := by simpa [hclose] using heq
      rfl
    next t heq => simp [hclose] at heq
    next hne _ => exact absurd hclose (hne tail)
  next hne => exact absurd hcolon (hne middle)

/-- A field of an object with more behind it. -/
theorem objectFields_more {read all : Fields} {name middle inner : List Char} {item : Json}
    (hname : Reads (stringBody ('"' :: cs) cs) name rest) (hcolon : skipBlanks rest = ':' :: middle)
    (hitem : Reads (value levels (skipBlanks middle)) item inner)
    (hcomma : skipBlanks inner = ',' :: tail)
    (hall : Reads (objectFields levels (read.set (String.ofList name) item) (skipBlanks tail))
      all left) :
    Reads (objectFields levels read ('"' :: cs)) all left := by
  obtain ⟨hlt, hname⟩ := hname
  obtain ⟨hlt', hitem⟩ := hitem
  obtain ⟨hlt'', hall⟩ := hall
  have hle := length_skipBlanks_le rest
  have hle' := length_skipBlanks_le middle
  have hle'' := length_skipBlanks_le inner
  have hle''' := length_skipBlanks_le tail
  rw [hcolon, List.length_cons] at hle
  rw [hcomma, List.length_cons] at hle''
  refine ⟨by rw [List.length_cons]; omega, ?_⟩
  unfold objectFields
  simp only [hname, bind, Except.bind]
  split
  next t heq =>
    obtain rfl : middle = t := by simpa [hcolon] using heq
    simp only [hitem]
    split
    next t heq => simp [hcomma] at heq
    next t heq =>
      obtain rfl : tail = t := by simpa [hcomma] using heq
      rw [hall]
      rfl
    next hne => exact absurd hcomma (hne tail)
  next hne => exact absurd hcolon (hne middle)

/-- A text denotes the value that is all of it. -/
theorem parseUnmarked_of_reads {v : Json} (h : Reads (value maxLevels cs) v []) :
    parseUnmarked cs = .ok v := by
  rw [← skipBlanks_of_reads h] at h
  obtain ⟨hlt, h⟩ := h
  unfold parseUnmarked
  rw [h]
  rfl

/-- A text that is a value has no byte order mark. -/
theorem parseChars_of_reads {v : Json} (h : Reads (value maxLevels cs) v []) :
    parseChars cs = .ok v := by
  unfold parseChars
  split
  next => exact absurd h (not_reads_value (by simp))
  next => exact parseUnmarked_of_reads h

end Readers

/-- A field with a new name is put at the end. -/
theorem Fields.set_of_new {read : Fields} {name : String} (item : Json)
    (hnew : name ∉ read.map (·.1)) : read.set name item = read ++ [(name, item)] := by
  induction read with
  | nil => rfl
  | cons field read ih =>
    rw [List.map_cons, List.mem_cons, not_or] at hnew
    rw [Fields.set, if_neg (Ne.symm hnew.1), ih hnew.2, List.cons_append]

/-- A field between others of different names is put behind those before it. -/
theorem Fields.set_of_middle {read fields : Fields} {name : String} {item : Json}
    (hnew : ((read ++ (name, item) :: fields).map (·.1)).Nodup) :
    read.set (String.ofList name.toList) item = read ++ [(name, item)] := by
  rw [String.ofList_toList]
  refine Fields.set_of_new item fun hmem => ?_
  rw [List.map_append, List.map_cons, List.nodup_append] at hnew
  exact hnew.2.2 name hmem name List.mem_cons_self rfl

mutual

/-- Whether the fields of every object in a value have different names. -/
def HasDistinctNames : Json → Prop
  | array items => ItemsHaveDistinctNames items
  | object fields => (fields.map (·.1)).Nodup ∧ FieldsHaveDistinctNames fields
  | null | bool _ | int _ | float _ | string _ => True

/-- Whether the fields of every object in the items of an array have different names. -/
def ItemsHaveDistinctNames : List Json → Prop
  | [] => True
  | item :: rest => item.HasDistinctNames ∧ ItemsHaveDistinctNames rest

/-- Whether the fields of every object in the fields of an object have different names. -/
def FieldsHaveDistinctNames : Fields → Prop
  | [] => True
  | (_, item) :: rest => item.HasDistinctNames ∧ FieldsHaveDistinctNames rest

end

/-- The first item of an array that is written, and the others. -/
theorem itemsFault?_cons {levels : Nat} {item : Json} {rest : List Json}
    (h : itemsFault? levels (item :: rest) = none) :
    writeFault? levels item = none ∧ itemsFault? levels rest = none := by
  unfold itemsFault? at h
  split at h
  next => cases h
  next hitem => exact ⟨hitem, h⟩

/-- The first field of an object that is written, and the others. -/
theorem fieldsFault?_cons {levels : Nat} {name : String} {item : Json} {rest : Fields}
    (h : fieldsFault? levels ((name, item) :: rest) = none) :
    writeFault? levels item = none ∧ fieldsFault? levels rest = none := by
  unfold fieldsFault? at h
  split at h
  next => cases h
  next hitem => exact ⟨hitem, h⟩

/-- A floating-point number is read as it was written. -/
theorem value_renderFloat (levels : Nat) (x : Binary64) {rest : List Char} (hrest : IsTail rest) :
    Reads (value levels (renderFloat x ++ rest)) (.float x) rest := by
  cases x with
  | nan => exact value_of_named? rfl
  | infinity negative => cases negative <;> exact value_of_named? rfl
  | finite negative m => exact value_of_number? (number?_numeral negative m hrest)

/-- An integer is read as it was written. -/
theorem value_toString {levels : Nat} {n : Int} {rest : List Char}
    (hn : writeFault? levels (.int n) = none) (hrest : IsTail rest) :
    Reads (value levels ((toString n).toList ++ rest)) (.int n) rest := by
  refine value_of_number? (number?_toString n ?_ hrest)
  unfold writeFault? Numeral.write at hn
  by_contra hlong
  rw [if_pos (by omega)] at hn
  cases hn

/-- A string is read as it was written. -/
theorem stringBody_renderString (ascii : Bool) (s : String) (rest : List Char) :
    ∃ cs, renderString ascii s ++ rest = '"' :: cs ∧
      Reads (stringBody ('"' :: cs) cs) s.toList rest := by
  refine ⟨s.toList.flatMap (escapeChar ascii) ++ '"' :: rest, ?_, ?_⟩
  · simp [renderString]
  · exact stringBody_escape ascii _ s.toList rest

/-- The items of an array are one level further down. -/
theorem writeFault?_array_eq_none {items : List Json}
    (h : writeFault? levels (.array items) = none) :
    levels ≠ 0 ∧ itemsFault? (levels - 1) items = none := by
  rw [writeFault?] at h
  split at h
  · cases h
  · next hlevels => exact ⟨hlevels, h⟩

theorem writeFault?_object_eq_none {fields : Fields}
    (h : writeFault? levels (.object fields) = none) :
    levels ≠ 0 ∧ fieldsFault? (levels - 1) fields = none := by
  rw [writeFault?] at h
  split at h
  · cases h
  · next hlevels => exact ⟨hlevels, h⟩

/-- The fields of an object start with a quote. -/
theorem renderFields_start (ascii : Bool) {fields : Fields} (hfields : fields ≠ [])
    (rest : List Char) : ∃ cs, renderFields ascii fields ++ rest = '"' :: cs := by
  match fields with
  | [(name, item)] => exact ⟨_, rfl⟩
  | (name, item) :: next :: fields => exact ⟨_, rfl⟩

mutual

-- By recursion on the tree. What stands behind a value decides where a number ends, and the names
-- of the fields already read must not come again.
/-- A value that can be written is read as it was written, with what stands behind it. -/
theorem value_render (ascii : Bool) :
    (v : Json) → (levels : Nat) → (rest : List Char) → IsTail rest → v.HasDistinctNames →
      writeFault? levels v = none → Reads (value levels (render ascii v ++ rest)) v rest
  | null, _, _, _, _, _ => value_of_named? rfl
  | bool false, _, _, _, _, _ => value_of_named? rfl
  | bool true, _, _, _, _, _ => value_of_named? rfl
  | int n, _, _, hrest, _, hwrite => by
    rw [render]
    exact value_toString hwrite hrest
  | float x, levels, _, hrest, _, _ => by
    rw [render]
    exact value_renderFloat levels x hrest
  | string s, levels, rest, _, _, _ => by
    obtain ⟨cs, htext, hread⟩ := stringBody_renderString ascii s rest
    have h : Reads (value levels ('"' :: cs)) (.string (String.ofList s.toList)) rest :=
      value_string hread
    rw [String.ofList_toList] at h
    rwa [render, htext]
  | array items, levels, rest, _, hnames, hwrite => by
    obtain ⟨hlevels, hwrite⟩ := writeFault?_array_eq_none hwrite
    rw [HasDistinctNames] at hnames
    rw [render, List.cons_append, List.append_assoc]
    by_cases hempty : items = []
    · rw [hempty]
      exact value_emptyArray hlevels
    have hitems := arrayItems_render ascii items (levels - 1) rest hempty hnames hwrite
    exact value_array hlevels hitems
  | object fields, levels, rest, _, hnames, hwrite => by
    obtain ⟨hlevels, hwrite⟩ := writeFault?_object_eq_none hwrite
    rw [HasDistinctNames] at hnames
    rw [render, List.cons_append, List.append_assoc]
    by_cases hempty : fields = []
    · rw [hempty]
      exact value_emptyObject hlevels
    have hfields := objectFields_render ascii fields [] (levels - 1) rest hempty hnames.1 hnames.2
      hwrite
    obtain ⟨cs, htext⟩ := renderFields_start ascii hempty ('}' :: rest)
    have htail : ['}'] ++ rest = '}' :: rest := rfl
    rw [htail, htext]
    rw [htext] at hfields
    exact value_object hlevels hfields

/-- The items of an array are read as they were written, up to the closing bracket. -/
theorem arrayItems_render (ascii : Bool) :
    (items : List Json) → (levels : Nat) → (rest : List Char) → items ≠ [] →
      ItemsHaveDistinctNames items → itemsFault? levels items = none →
      Reads (arrayItems levels (renderItems ascii items ++ ']' :: rest)) items rest
  | [item], levels, rest, _, hnames, hwrite => by
    have hitem := value_render ascii item levels (']' :: rest) (isTail_cons (by decide)) hnames.1
      (itemsFault?_cons hwrite).1
    rw [renderItems]
    exact arrayItems_last hitem rfl
  | item :: next :: items, levels, rest, _, hnames, hwrite => by
    have hitems := arrayItems_render ascii (next :: items) levels rest (List.cons_ne_nil _ _)
      hnames.2 (itemsFault?_cons hwrite).2
    let tail := renderItems ascii (next :: items) ++ ']' :: rest
    have hitem := value_render ascii item levels (',' :: ' ' :: tail) (isTail_cons (by decide))
      hnames.1 (itemsFault?_cons hwrite).1
    obtain ⟨first, rest', hfirst⟩ := reads_of_arrayItems hitems
    have hblank : skipBlanks (' ' :: tail) = tail := skipBlanks_of_reads hfirst
    have htext : renderItems ascii (item :: next :: items) ++ ']' :: rest =
        render ascii item ++ ',' :: ' ' :: tail := by
      simp [renderItems, tail]
    rw [htext]
    refine arrayItems_more hitem rfl ?_
    rwa [hblank]

/-- The fields of an object are read as they were written, up to the closing brace, and put behind
those already read. -/
theorem objectFields_render (ascii : Bool) :
    (fields read : Fields) → (levels : Nat) → (rest : List Char) → fields ≠ [] →
      ((read ++ fields).map (·.1)).Nodup → FieldsHaveDistinctNames fields →
      fieldsFault? levels fields = none →
      Reads (objectFields levels read (renderFields ascii fields ++ '}' :: rest)) (read ++ fields)
        rest
  | [(name, item)], read, levels, rest, _, hnew, hnames, hwrite => by
    have hitem := value_render ascii item levels ('}' :: rest) (isTail_cons (by decide)) hnames.1
      (fieldsFault?_cons hwrite).1
    have htext : renderFields ascii [(name, item)] ++ '}' :: rest =
        renderString ascii name ++ ':' :: ' ' :: (render ascii item ++ '}' :: rest) := by
      simp [renderFields]
    obtain ⟨cs, hcs, hname⟩ := stringBody_renderString ascii name
      (':' :: ' ' :: (render ascii item ++ '}' :: rest))
    rw [htext, hcs, ← Fields.set_of_middle hnew]
    exact objectFields_last hname rfl (value_behind_blank hitem) rfl
  | (name, item) :: next :: fields, read, levels, rest, _, hnew, hnames, hwrite => by
    let tail := renderFields ascii (next :: fields) ++ '}' :: rest
    have hitem := value_render ascii item levels (',' :: ' ' :: tail) (isTail_cons (by decide))
      hnames.1 (fieldsFault?_cons hwrite).1
    have hfields := objectFields_render ascii (next :: fields) (read ++ [(name, item)]) levels rest
      (List.cons_ne_nil _ _) (by simpa using hnew) hnames.2 (fieldsFault?_cons hwrite).2
    have htext : renderFields ascii ((name, item) :: next :: fields) ++ '}' :: rest =
        renderString ascii name ++ ':' :: ' ' :: (render ascii item ++ ',' :: ' ' :: tail) := by
      simp [renderFields, tail]
    obtain ⟨cs, hcs, hname⟩ := stringBody_renderString ascii name
      (':' :: ' ' :: (render ascii item ++ ',' :: ' ' :: tail))
    have hblank : skipBlanks (' ' :: tail) = tail := by
      obtain ⟨cs, hstart⟩ := renderFields_start ascii (List.cons_ne_nil next fields) ('}' :: rest)
      simp only [tail, hstart]
      rfl
    rw [htext, hcs]
    refine objectFields_more hname rfl (value_behind_blank hitem) rfl ?_
    rw [Fields.set_of_middle hnew, hblank]
    rwa [List.append_assoc] at hfields

end

section Texts

variable {v : Json} (hnames : v.HasDistinctNames) (hwrite : v.writeFault? maxLevels = none)
include hnames hwrite

/-- The text of a value denotes the value. -/
theorem parseUnmarked_render (ascii : Bool) : parseUnmarked (render ascii v) = .ok v := by
  have hread := value_render ascii v maxLevels [] isTail_nil hnames hwrite
  rw [List.append_nil] at hread
  exact parseUnmarked_of_reads hread

/-- The text of a value has no byte order mark. -/
theorem parseChars_render (ascii : Bool) : parseChars (render ascii v) = .ok v := by
  have hread := value_render ascii v maxLevels [] isTail_nil hnames hwrite
  rw [List.append_nil] at hread
  exact parseChars_of_reads hread

/-- The text of a value in ASCII denotes the value. -/
theorem parse_asciiLine : parse v.asciiLine = .ok v := by
  unfold parse asciiLine
  rw [String.toList_ofList]
  exact parseChars_render hnames hwrite true

end Texts

end PassTrace.Json

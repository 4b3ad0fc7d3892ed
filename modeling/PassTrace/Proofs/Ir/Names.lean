import PassTrace.Proofs.Ir.Definitions
import PassTrace.Proofs.Trace.Subjects

/-!
# The names of definitions

A line that defines a function has its name in quotes or plain, with the parameters behind it. For a
name that can stand plain, the functions that are listed by name are those whose definition is
found, and a definition that is found starts with the first line that is listed under the name. No
line is listed under the empty name, although a definition of it is found.
-/

namespace PassTrace.Ir

open Trace (IsIdentifier)

/-- A text that can be a name in quotes. -/
structure IsQuotable (cs : List Char) : Prop where
  ne_nil : cs ≠ []
  quote_not_mem : '"' ∉ cs

variable {p : Char → Bool} {c : Char} {cs front rest tail : List Char} {name line : String}
  {lines block : Lines}

section Spelling

/-- The characters in front that have a property, and what follows them. -/
theorem takeWhile_dropWhile_iff : cs.takeWhile p = front ∧ cs.dropWhile p = rest ↔
    cs = front ++ rest ∧ (∀ c ∈ front, p c = true) ∧ ∀ c ∈ rest.head?, p c = false := by
  constructor
  · rintro ⟨rfl, rfl⟩
    refine ⟨List.takeWhile_append_dropWhile.symm, fun c hc => List.mem_takeWhile_imp hc, ?_⟩
    intro c hc
    have hstop := List.head?_dropWhile_not p cs
    rw [Option.mem_def.mp hc] at hstop
    exact hstop
  · rintro ⟨rfl, hfront, hstop⟩
    have hnone : rest.takeWhile p = [] ∧ rest.dropWhile p = rest := by
      cases rest with
      | nil => exact ⟨rfl, rfl⟩
      | cons c rest => simp [hstop c rfl]
    rw [List.takeWhile_append_of_pos hfront, List.dropWhile_append_of_pos hfront, hnone.1, hnone.2,
      List.append_nil]
    exact ⟨rfl, rfl⟩

/-- Behind a plain name its parameters follow, which go on with no character of a name. -/
theorem isNameChar_of_opensParameters (h : opensParameters rest = true) :
    ∀ c ∈ rest.head?, isNameChar c = false := by
  intro c hc
  obtain ⟨rest, rfl⟩ := List.head?_eq_some_iff.mp hc
  rw [← Bool.not_eq_true]
  intro hname
  have hident : IsIdentifier [c] := ⟨List.cons_ne_nil _ _, by simpa using hname⟩
  have hblank : Text.isBlank c = false := hident.isWord c List.mem_cons_self
  have hopens : c = '(' := by simpa [opensParameters, Text.trimLeft, hblank] using h
  rw [hopens] at hname
  exact absurd hname (by decide)

/-- A line defines the function of a name if the name stands behind its first at sign, in quotes or
plain, with parameters behind it. -/
theorem defines_iff : defines name line = true ↔ ∃ tail, afterDefine? line = some tail ∧
    ∃ rest, opensParameters rest = true ∧
      (tail = '"' :: (name.toList ++ '"' :: rest) ∨ tail = name.toList ++ rest) := by
  have hspelled (spelling tail : List Char) :
      (Text.behind? spelling tail).any opensParameters = true ↔
        ∃ rest, opensParameters rest = true ∧ tail = spelling ++ rest := by
    simp only [Option.any_eq_true, Text.behind?_eq_some_iff]
    exact exists_congr fun rest => and_comm
  unfold defines
  cases afterDefine? line with
  | none => simp
  | some tail =>
    simp only [Bool.or_eq_true, hspelled, Option.some.injEq, exists_eq_left', ← exists_or,
      ← and_or_left, List.cons_append, List.append_assoc, List.nil_append]

/-- A name in quotes ends with the next quote. -/
theorem definedName?_quoted (hafter : afterDefine? line = some ('"' :: tail)) :
    definedName? line = some name ↔ ∃ rest, opensParameters rest = true ∧
      IsQuotable name.toList ∧ tail = name.toList ++ '"' :: rest := by
  constructor
  · intro h
    cases hdrop : tail.dropWhile (· ≠ '"') with
    | nil =>
      simp only [definedName?, hafter, hdrop] at h
      cases h
    | cons quote rest =>
      simp only [definedName?, hafter, hdrop] at h
      split at h
      · next hname =>
        obtain ⟨hne, hopens⟩ := Bool.and_eq_true_iff.mp hname
        obtain rfl := Option.some.inj h
        obtain ⟨htail, hinside, hquote⟩ := takeWhile_dropWhile_iff.mp ⟨rfl, hdrop⟩
        obtain rfl : quote = '"' := by simpa using hquote quote rfl
        rw [String.toList_ofList]
        exact ⟨rest, hopens, ⟨by simpa using hne, fun hmem => by simpa using hinside _ hmem⟩, htail⟩
      · cases h
  · rintro ⟨rest, hopens, hquotable, htail⟩
    have hinside : ∀ c ∈ name.toList, (decide (c ≠ '"')) = true := by
      intro c hc
      exact decide_eq_true fun heq => hquotable.quote_not_mem (heq ▸ hc)
    obtain ⟨htake, hdrop⟩ := takeWhile_dropWhile_iff.mpr ⟨htail, hinside, by simp⟩
    simp only [definedName?, hafter, htake, hdrop]
    simp [hopens, hquotable.ne_nil]

/-- A plain name has as many characters as can be in it. -/
theorem definedName?_plain (hafter : afterDefine? line = some tail) (hhead : '"' ∉ tail.head?) :
    definedName? line = some name ↔ ∃ rest, opensParameters rest = true ∧
      IsIdentifier name.toList ∧ tail = name.toList ++ rest := by
  have hplain : definedName? line = if !(tail.takeWhile isNameChar).isEmpty &&
      opensParameters (tail.dropWhile isNameChar) then some
        (String.ofList (tail.takeWhile isNameChar))
      else none := by
    unfold definedName?
    rw [hafter]
    split
    · cases ‹some tail = none›
    · next heq =>
      obtain rfl := Option.some.inj heq
      exact absurd rfl hhead
    · next heq =>
      obtain rfl := Option.some.inj heq
      rfl
  rw [hplain]
  constructor
  · intro h
    split at h
    · next hname =>
      obtain ⟨hne, hopens⟩ := Bool.and_eq_true_iff.mp hname
      obtain rfl := Option.some.inj h
      rw [String.toList_ofList]
      exact ⟨_, hopens, ⟨by simpa using hne, fun c hc => List.mem_takeWhile_imp hc⟩,
        List.takeWhile_append_dropWhile.symm⟩
    · cases h
  · rintro ⟨rest, hopens, hident, htail⟩
    obtain ⟨htake, hdrop⟩ := takeWhile_dropWhile_iff.mpr
      ⟨htail, hident.isNameChar, isNameChar_of_opensParameters hopens⟩
    rw [htake, hdrop]
    simp [hopens, hident.ne_nil]

/-- A line is listed under a name that can stand plain if it defines the function of that name. -/
theorem definedName?_eq_some_iff_defines (hname : IsIdentifier name.toList) :
    definedName? line = some name ↔ defines name line = true := by
  have hquote : '"' ∉ name.toList := hname.not_mem (by decide)
  rw [defines_iff]
  cases hafter : afterDefine? line with
  | none => simp [definedName?, hafter]
  | some tail =>
    simp only [Option.some.injEq, exists_eq_left']
    by_cases hhead : '"' ∈ tail.head?
    · obtain ⟨tail, rfl⟩ := List.head?_eq_some_iff.mp hhead
      rw [definedName?_quoted hafter]
      refine exists_congr fun rest => and_congr_right fun _ => ?_
      constructor
      · rintro ⟨-, rfl⟩
        exact .inl rfl
      · rintro (heq | heq)
        · exact ⟨⟨hname.ne_nil, hquote⟩, (List.cons.inj heq).2⟩
        · -- The name would start with the quote.
          obtain ⟨first, more, hcons⟩ := List.exists_cons_of_ne_nil hname.ne_nil
          rw [hcons, List.cons_append] at heq
          obtain ⟨rfl, -⟩ := List.cons.inj heq
          exact absurd (hcons ▸ List.mem_cons_self) hquote
    · rw [definedName?_plain hafter hhead]
      refine exists_congr fun rest => and_congr_right fun _ => ?_
      constructor
      · rintro ⟨-, rfl⟩
        exact .inr rfl
      · rintro (rfl | rfl)
        · exact absurd rfl hhead
        · exact ⟨hname, rfl⟩

end Spelling

section Listing

theorem mem_definedNames : name ∈ definedNames lines ↔
    ∃ line ∈ lines, definedName? line = some name :=
  List.mem_filterMap

theorem definedNames_singleton : definedNames [line] = [name] ↔ definedName? line = some name := by
  unfold definedNames
  cases hline : definedName? line <;> simp [hline]

/-- A definition that is found has its line below the comments, and no line above it defines the
function. -/
theorem find?_of_definition? (h : definition? lines name = some block) : ∃ head,
    block.find? (fun line => !isComment line) = some head ∧
      lines.find? (defines name) = some head := by
  obtain ⟨before, after, rfl, hprecedes, hfound⟩ := exists_of_definition? h
  obtain ⟨comments, body, rfl, hcomment, head, hhead, hdefines⟩ :
      ∃ comments body, block = comments ++ body ∧ Starts name comments body := by
    rcases hfound with ⟨comments, body, hblock, hstarts, -⟩ |
      ⟨-, comments, body, hblock, hstarts, -⟩
    · exact ⟨comments, body, hblock, hstarts⟩
    · exact ⟨comments, body, hblock, hstarts⟩
  obtain ⟨inside, rfl⟩ := List.head?_eq_some_iff.mp hhead
  have hnoComment : isComment head = false := by
    rw [← Bool.not_eq_true]
    intro hcomment
    rw [defines_of_comment hcomment] at hdefines
    cases hdefines
  have hcomments : comments.find? (fun line => !isComment line) = none :=
    List.find?_eq_none.mpr fun line hline => by simp [hcomment line hline]
  have habove : (before ++ comments).find? (defines name) = none := by
    refine List.find?_eq_none.mpr fun line hline => ?_
    rcases List.mem_append.mp hline with hline | hline
    · simp [hprecedes.not_defines line hline]
    · simp [defines_of_comment (hcomment line hline)]
  refine ⟨head, ?_, ?_⟩
  · rw [List.find?_append, hcomments, Option.none_or, List.find?_cons_of_pos (by simp [hnoComment])]
  · rw [← List.append_assoc, List.append_assoc, List.find?_append, habove, Option.none_or,
      List.cons_append, List.find?_cons_of_pos hdefines]

end Listing

/-- For a name that can stand plain, a definition is found if the name is listed. Below its comments
it starts with the first line that is listed under this name alone. -/
theorem definition?_definedNames (hname : IsIdentifier name.toList) (lines : Lines) :
    ((definition? lines name).isSome = true ↔ name ∈ definedNames lines) ∧
      ∀ block, definition? lines name = some block → ∃ head,
        block.find? (fun line => !isComment line) = some head ∧
          lines.find? (fun line => definedNames [line] = [name]) = some head := by
  have hlisted (line : String) : definedNames [line] = [name] ↔ defines name line = true :=
    definedNames_singleton.trans (definedName?_eq_some_iff_defines hname)
  constructor
  · rw [mem_definedNames, Option.isSome_iff_ne_none, ne_eq, definition?_eq_none_iff]
    simp only [definedName?_eq_some_iff_defines hname, not_forall, Bool.not_eq_false, exists_prop]
  · intro block hblock
    obtain ⟨head, hbelow, hfirst⟩ := find?_of_definition? hblock
    refine ⟨head, hbelow, ?_⟩
    simpa only [hlisted, Bool.decide_eq_true] using hfirst

/-- A text with a name that is the start of another one's, and stands in quotes. -/
def quotedText : Lines :=
  ["define void @f.10() \x7b", "\x7d", "; cold", "define void @\"f.1\" (ptr %p) \x7b", "\x7d"]

/-- The definition of the name in quotes is found, and starts below its comment. -/
theorem definition?_definedNames_quoted :
    IsIdentifier "f.1".toList ∧ "f.1" ∈ definedNames quotedText ∧ ∃ block,
      definition? quotedText "f.1" = some block ∧
        block.find? (fun line => !isComment line) = some "define void @\"f.1\" (ptr %p) \x7b" := by
  have hname : IsIdentifier "f.1".toList := ⟨by decide, List.all_eq_true.mp (by decide)⟩
  obtain ⟨hlisted, hstarts⟩ := definition?_definedNames hname quotedText
  have hmem : "f.1" ∈ definedNames quotedText := by decide
  obtain ⟨block, hblock⟩ := Option.isSome_iff_exists.mp (hlisted.mpr hmem)
  obtain ⟨head, hbelow, hfirst⟩ := hstarts block hblock
  have hline : quotedText.find? (fun line => definedNames [line] = ["f.1"]) =
      some "define void @\"f.1\" (ptr %p) \x7b" := by decide
  rw [hline] at hfirst
  exact ⟨hname, hmem, block, hblock, hbelow.trans hfirst.symm⟩

/-- Not every text of such characters is a name: the empty one is listed nowhere. -/
theorem definition?_unnamed : ¬ ∀ (name : String) (lines : Lines),
    (∀ c ∈ name.toList, isNameChar c = true) →
      ((definition? lines name).isSome = true ↔ name ∈ definedNames lines) := by
  intro h
  have hlisted := (h "" ["define void @\"\"() \x7b", "\x7d"] nofun).mp (by decide)
  exact absurd hlisted (by decide)

end PassTrace.Ir

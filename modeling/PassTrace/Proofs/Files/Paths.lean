import Mathlib.Data.List.Basic
import PassTrace.Files.Path

/-!
# Texts of paths

A path is read back from its text. A file name that is joined to a path stands at its end.
-/

namespace PassTrace

namespace Path

/-- A name that a path keeps: it has characters, none of which is a slash, and is not one dot. -/
structure IsName (name : String) : Prop where
  ne_empty : name ≠ ""
  ne_dot : name ≠ "."
  not_mem : '/' ∉ name.toList

/-- A name that leads down: it is not two dots either. -/
structure IsPlain (name : String) : Prop extends IsName name where
  ne_dots : name ≠ ".."

/-- All names of a path are such as a text has. -/
def IsClean (p : Path) : Prop :=
  ∀ name ∈ p.parts, IsName name

section Texts

open namesOf

theorem split_of_not_mem {cs : List Char} (h : '/' ∉ cs) : split cs = [cs] := by
  induction cs with
  | nil => rfl
  | cons c cs ih =>
    obtain ⟨hc, hcs⟩ := not_or.mp (List.mem_cons.not.mp h)
    rw [split, if_neg (Ne.symm hc), ih hcs]

theorem split_append_slash {cs : List Char} (h : '/' ∉ cs) (rest : List Char) :
    split (cs ++ '/' :: rest) = cs :: split rest := by
  induction cs with
  | nil => rfl
  | cons c cs ih =>
    obtain ⟨hc, hcs⟩ := not_or.mp (List.mem_cons.not.mp h)
    rw [List.cons_append, split, if_neg (Ne.symm hc), ih hcs]

/-- The names between slashes are read back. -/
theorem namesOf_intercalate {names : List String} (hne : names ≠ [])
    (h : ∀ name ∈ names, '/' ∉ name.toList) : namesOf ("/".intercalate names) = names := by
  unfold namesOf
  induction names with
  | nil => exact absurd rfl hne
  | cons name names ih =>
    obtain ⟨hname, hnames⟩ := List.forall_mem_cons.mp h
    cases names with
    | nil =>
      rw [String.intercalate_singleton, split_of_not_mem hname]
      simp
    | cons next names =>
      rw [String.intercalate_cons_cons, String.toList_append, String.toList_append,
        List.append_assoc]
      have hslash : "/".toList ++ ("/".intercalate (next :: names)).toList =
          '/' :: ("/".intercalate (next :: names)).toList := rfl
      rw [hslash, split_append_slash hname, List.map_cons, ih (List.cons_ne_nil _ _) hnames,
        String.ofList_toList]

/-- A slash in front has an empty name before it. -/
theorem namesOf_slash (text : String) : namesOf ("/" ++ text) = "" :: namesOf text := by
  unfold namesOf
  rw [String.toList_append]
  rfl

/-- No name in a text has a slash. -/
theorem slash_not_mem_of_mem_split {cs name : List Char} (h : name ∈ split cs) : '/' ∉ name := by
  induction cs generalizing name with
  | nil => simp_all [split]
  | cons c cs ih =>
    rw [split] at h
    split at h
    next =>
      rcases List.mem_cons.mp h with rfl | h
      · exact List.not_mem_nil
      · exact ih h
    next hc =>
      split at h
      next heq =>
        obtain rfl := List.mem_singleton.mp h
        simpa using Ne.symm hc
      next first names heq =>
        rcases List.mem_cons.mp h with rfl | h
        · have hfirst := ih (heq ▸ List.mem_cons_self)
          simp [Ne.symm hc, hfirst]
        · exact ih (heq ▸ List.mem_cons_of_mem _ h)

/-- The names in a text have its characters only. -/
theorem mem_of_mem_split {cs name : List Char} (h : name ∈ split cs) {c : Char} (hc : c ∈ name) :
    c ∈ cs := by
  induction cs generalizing name with
  | nil =>
    obtain rfl := List.mem_singleton.mp h
    cases hc
  | cons d cs ih =>
    rw [split] at h
    split at h
    next =>
      rcases List.mem_cons.mp h with rfl | h
      · cases hc
      · exact List.mem_cons_of_mem _ (ih h hc)
    next =>
      split at h
      next =>
        obtain rfl := List.mem_singleton.mp h
        exact List.mem_singleton.mp hc ▸ List.mem_cons_self
      next first names heq =>
        rcases List.mem_cons.mp h with rfl | h
        · rcases List.mem_cons.mp hc with rfl | hc
          · exact List.mem_cons_self
          · exact List.mem_cons_of_mem _ (ih (heq ▸ List.mem_cons_self) hc)
        · exact List.mem_cons_of_mem _ (ih (heq ▸ List.mem_cons_of_mem _ h) hc)

theorem isClean_ofString (text : String) : (ofString text).IsClean := by
  intro name hname
  obtain ⟨hmem, hkept⟩ := List.mem_filter.mp hname
  obtain ⟨cs, hcs, rfl⟩ := List.mem_map.mp hmem
  have hslash := slash_not_mem_of_mem_split hcs
  simp only [Bool.and_eq_true, Bool.not_eq_true', decide_eq_true_eq, ne_eq] at hkept
  refine ⟨?_, hkept.2, by simpa using hslash⟩
  intro hempty
  rw [hempty] at hkept
  exact absurd hkept.1 (by decide)

/-- The names of a path are not dropped when its text is read. -/
theorem filter_parts {p : Path} (h : p.IsClean) :
    p.parts.filter (fun name => !name.isEmpty && name ≠ ".") = p.parts := by
  refine List.filter_eq_self.mpr fun name hname => ?_
  obtain ⟨hempty, hdot, -⟩ := h name hname
  simp [hempty, hdot]

/-- The names in a text that ends with the names of a path, with an empty name for each slash in
front. -/
theorem filter_namesOf_intercalate {p : Path} (h : p.IsClean) :
    (namesOf ("/".intercalate p.parts)).filter (fun name => !name.isEmpty && name ≠ ".") =
      p.parts := by
  cases hparts : p.parts with
  | nil => rfl
  | cons name names =>
    rw [← hparts, namesOf_intercalate (by simp [hparts]) fun name hname => (h name hname).not_mem]
    exact filter_parts h

/-- The names of a path do not start with a slash. -/
theorem head?_intercalate {p : Path} (h : p.IsClean) :
    ("/".intercalate p.parts).toList.head? ≠ some '/' := by
  cases hparts : p.parts with
  | nil => simp
  | cons name names =>
    obtain ⟨hempty, -, hslash⟩ := h name (by simp [hparts])
    have hchars : name.toList ≠ [] := by simpa using hempty
    have hhead : ("/".intercalate (name :: names)).toList.head? = name.toList.head? := by
      cases names with
      | nil => rw [String.intercalate_singleton]
      | cons next names =>
        rw [String.intercalate_cons_cons, String.toList_append, String.toList_append,
          List.append_assoc, List.head?_append_of_ne_nil _ hchars]
    rw [hhead]
    exact fun hstart => hslash (List.mem_of_head? hstart)

section Anchors

variable {text : String}

theorem anchorOf_of_head? (h : text.toList.head? ≠ some '/') : anchorOf text = .work := by
  unfold anchorOf
  split <;> simp_all

theorem anchorOf_slash (h : text.toList.head? ≠ some '/') : anchorOf ("/" ++ text) = .root := by
  rw [anchorOf, String.toList_append]
  cases hchars : text.toList with
  | nil => rfl
  | cons c cs =>
    have hc : c ≠ '/' := by simpa [hchars] using h
    simp [hc]

theorem anchorOf_slash_slash (h : text.toList.head? ≠ some '/') :
    anchorOf ("/" ++ ("/" ++ text)) = .doubleRoot := by
  rw [anchorOf, String.toList_append, String.toList_append]
  cases hchars : text.toList with
  | nil => rfl
  | cons c cs =>
    have hc : c ≠ '/' := by simpa [hchars] using h
    simp [hc]

end Anchors

/-- A path is read back from its text. -/
theorem ofString_toString {p : Path} (h : p.IsClean) : ofString p.toString = p := by
  have hnames := filter_namesOf_intercalate h
  have hhead := head?_intercalate h
  obtain ⟨anchor, parts⟩ := p
  cases anchor with
  | work =>
    cases hparts : parts with
    | nil => rfl
    | cons name names =>
      rw [← hparts]
      have htext : toString ⟨.work, parts⟩ = "/".intercalate parts := by
        simp [toString, hparts]
      rw [htext, ofString, hnames, anchorOf_of_head? hhead]
  | root =>
    have htext : toString ⟨.root, parts⟩ = "/" ++ "/".intercalate parts := rfl
    rw [htext, ofString, namesOf_slash, List.filter_cons_of_neg (by decide), hnames,
      anchorOf_slash hhead]
  | doubleRoot =>
    have htext : toString ⟨.doubleRoot, parts⟩ = "/" ++ ("/" ++ "/".intercalate parts) := by
      rw [← String.append_assoc]
      rfl
    rw [htext, ofString, namesOf_slash, namesOf_slash, List.filter_cons_of_neg (by decide),
      List.filter_cons_of_neg (by decide), hnames, anchorOf_slash_slash hhead]

theorem step_of_mem_stepsOf {text name : String} (h : name ∈ stepsOf text) :
    name ≠ "" ∧ '/' ∉ name.toList := by
  obtain ⟨hmem, hkept⟩ := List.mem_filter.mp h
  obtain ⟨cs, hcs, rfl⟩ := List.mem_map.mp hmem
  refine ⟨?_, ?_⟩
  · intro hempty
    rw [hempty] at hkept
    exact absurd hkept (by decide)
  · rw [String.toList_ofList]
    exact slash_not_mem_of_mem_split hcs

/-- The steps of a path from the root are its names. -/
theorem stepsOf_toString_root {names : List String} (h : ∀ name ∈ names, IsName name) :
    stepsOf (toString ⟨.root, names⟩) = names := by
  have htext : toString ⟨.root, names⟩ = "/" ++ "/".intercalate names := rfl
  rw [stepsOf, htext, namesOf_slash, List.filter_cons_of_neg (by decide)]
  cases names with
  | nil => rfl
  | cons first rest =>
    rw [namesOf_intercalate (List.cons_ne_nil first rest) fun name hname => (h name hname).not_mem]
    exact List.filter_eq_self.mpr fun name hname => by simp [(h name hname).ne_empty]

theorem intercalate_cons {name : String} {names : List String} (hne : names ≠ []) :
    "/".intercalate (name :: names) = name ++ "/" ++ "/".intercalate names := by
  obtain ⟨next, rest, rfl⟩ := List.exists_cons_of_ne_nil hne
  exact String.intercalate_cons_cons

/-- The text of names of one length has one byte less than the names with a slash behind each. -/
theorem utf8ByteSize_intercalate {names : List String} {size : Nat} (hne : names ≠ [])
    (h : ∀ name ∈ names, name.utf8ByteSize = size) :
    ("/".intercalate names).utf8ByteSize + 1 = names.length * (size + 1) := by
  induction names with
  | nil => exact absurd rfl hne
  | cons name names ih =>
    obtain ⟨hname, hnames⟩ := List.forall_mem_cons.mp h
    by_cases hnil : names = []
    · subst hnil
      simp [hname]
    · have hslash : "/".utf8ByteSize = 1 := rfl
      rw [intercalate_cons hnil, String.utf8ByteSize_append, String.utf8ByteSize_append, hslash,
        hname, List.length_cons, Nat.succ_mul, ← ih hnil hnames]
      omega

/-- The text of names ends with the last of them. -/
theorem exists_intercalate_concat (names : List String) (name : String) :
    ∃ front, "/".intercalate (names ++ [name]) = front ++ name := by
  induction names with
  | nil => exact ⟨"", by simp⟩
  | cons first names ih =>
    obtain ⟨front, hfront⟩ := ih
    obtain ⟨next, rest, hrest⟩ :=
      List.exists_cons_of_ne_nil (List.append_ne_nil_of_right_ne_nil names
        (List.cons_ne_nil name []))
    refine ⟨first ++ "/" ++ front, ?_⟩
    rw [hrest] at hfront
    rw [List.cons_append, hrest, String.intercalate_cons_cons, hfront, String.append_assoc,
      String.append_assoc, String.append_assoc]

/-- The text of a path with names ends with the last of them. -/
theorem exists_toString_eq {p : Path} (hparts : p.parts ≠ []) :
    ∃ front, p.toString = front ++ p.name := by
  obtain ⟨anchor, parts⟩ := p
  have hconcat : parts.dropLast ++ [name ⟨anchor, parts⟩] = parts := by
    unfold Path.name
    rw [List.getLast?_eq_some_getLast hparts]
    exact List.dropLast_append_getLast hparts
  obtain ⟨front, hfront⟩ := exists_intercalate_concat parts.dropLast (name ⟨anchor, parts⟩)
  rw [hconcat] at hfront
  have hempty : parts.isEmpty = false := by simpa using hparts
  cases anchor with
  | work => exact ⟨front, by simp [toString, hempty, hfront]⟩
  | root => exact ⟨"/" ++ front, by simp [toString, hfront, String.append_assoc]⟩
  | doubleRoot => exact ⟨"//" ++ front, by simp [toString, hfront, String.append_assoc]⟩

/-- The text of a path whose last name is kept asks for no directory, and is not empty. -/
theorem asksDirectory_toString {p : Path} (h : IsName p.name) :
    asksDirectory p.toString = false ∧ p.toString.isEmpty = false := by
  have hparts : p.parts ≠ [] := by
    intro hnil
    have hname := h.ne_empty
    rw [Path.name, hnil] at hname
    exact hname rfl
  have hchars : p.name.toList ≠ [] := by simpa using h.ne_empty
  obtain ⟨front, htext⟩ := exists_toString_eq hparts
  rw [htext]
  refine ⟨?_, ?_⟩
  · unfold asksDirectory
    rw [String.toList_append, List.getLast?_append_of_ne_nil _ hchars, decide_eq_false_iff_not]
    exact fun hlast => h.not_mem (List.mem_of_getLast? hlast)
  · simp [h.ne_empty]

end Texts

section Joins

/-- A name alone is a path from the work directory. -/
theorem ofString_of_isName {name : String} (h : IsName name) : ofString name = ⟨.work, [name]⟩ := by
  have hclean : IsClean ⟨.work, [name]⟩ := fun other hother => List.mem_singleton.mp hother ▸ h
  have htext : toString ⟨.work, [name]⟩ = name := by
    simp [toString]
  rw [← htext, ofString_toString hclean, htext]

/-- A name that is joined to a path stands behind the others. -/
theorem join_of_isName (p : Path) {name : String} (h : IsName name) :
    p.join name = ⟨p.anchor, p.parts ++ [name]⟩ := by
  rw [join, ofString_of_isName h]
  rfl

theorem IsClean.join {p : Path} (hp : p.IsClean) {name : String} (h : IsName name) :
    (p.join name).IsClean := by
  rw [join_of_isName p h]
  intro other hother
  rcases List.mem_append.mp hother with hother | hother
  · exact hp other hother
  · exact List.mem_singleton.mp hother ▸ h

/-- The text of more names starts with that of the first. -/
theorem exists_intercalate_append (names : List String) (name : String) :
    ∃ rest, "/".intercalate (names ++ [name]) = "/".intercalate names ++ rest := by
  induction names with
  | nil => exact ⟨name, by simp⟩
  | cons first names ih =>
    cases names with
    | nil => exact ⟨"/" ++ name, by
        rw [List.cons_append, List.nil_append, String.intercalate_cons_cons,
          String.intercalate_singleton, String.intercalate_singleton, String.append_assoc]⟩
    | cons next names =>
      obtain ⟨rest, hrest⟩ := ih
      refine ⟨rest, ?_⟩
      rw [List.cons_append] at hrest
      rw [List.cons_append, List.cons_append, String.intercalate_cons_cons, hrest,
        String.intercalate_cons_cons]
      simp only [String.append_assoc]

/-- A path has no longer text than the paths below it. -/
theorem utf8ByteSize_le_join (p : Path) {name : String} (h : IsName name) :
    p.toString.utf8ByteSize ≤ (p.join name).toString.utf8ByteSize := by
  obtain ⟨anchor, parts⟩ := p
  obtain ⟨rest, hrest⟩ := exists_intercalate_append parts name
  have hsize : 1 ≤ name.utf8ByteSize := by
    have hne : name.utf8ByteSize ≠ 0 := by simpa using h.ne_empty
    omega
  rw [join_of_isName _ h]
  cases anchor with
  | work =>
    cases parts with
    | nil =>
      have hdot : ".".utf8ByteSize = 1 := rfl
      simpa [toString, hdot] using hsize
    | cons first parts =>
      simp only [toString, List.isEmpty_cons, List.cons_append, Bool.false_eq_true, if_false]
      rw [← List.cons_append, hrest, String.utf8ByteSize_append]
      exact Nat.le_add_right _ _
  | root =>
    simp only [toString, hrest, String.utf8ByteSize_append]
    omega
  | doubleRoot =>
    simp only [toString, hrest, String.utf8ByteSize_append]
    omega

theorem name_join (p : Path) {name : String} (h : IsName name) : (p.join name).name = name := by
  rw [join_of_isName p h, Path.name, List.getLast?_concat]
  rfl

theorem parent_join (p : Path) {name : String} (h : IsName name) : (p.join name).parent = p := by
  rw [join_of_isName p h, parent, List.dropLast_concat]

theorem holdsNull_join (p : Path) {name : String} (h : IsName name) :
    (p.join name).holdsNull = (p.holdsNull || name.toList.contains '\x00') := by
  rw [join_of_isName p h, holdsNull, List.any_append]
  simp [holdsNull]

theorem holdsNull_ofString {text : String} (h : '\x00' ∉ text.toList) :
    (ofString text).holdsNull = false := by
  refine List.any_eq_false.mpr fun name hname => ?_
  obtain ⟨cs, hcs, rfl⟩ := List.mem_map.mp (List.mem_of_mem_filter hname)
  rw [String.toList_ofList, List.contains_iff_mem]
  exact fun hnull => h (mem_of_mem_split hcs hnull)

/-- Any text can be joined to a path that can be used, if it has no null character. -/
theorem holdsNull_join_of_not_mem {p : Path} {text : String} (hp : p.holdsNull = false)
    (h : '\x00' ∉ text.toList) : (p.join text).holdsNull = false := by
  have htext := holdsNull_ofString h
  unfold join
  dsimp only
  split
  · rw [holdsNull, List.any_append, ← holdsNull, hp, ← holdsNull, htext]
    rfl
  · exact htext

/-- The stem of a path that can be used has no null character. -/
theorem null_not_mem_stem {p : Path} (hp : p.holdsNull = false) : '\x00' ∉ p.stem.toList := by
  have hname : '\x00' ∉ p.name.toList := by
    unfold name
    cases hlast : p.parts.getLast? with
    | none => simp
    | some last =>
      have hnull := List.any_eq_false.mp hp last (List.mem_of_getLast? hlast)
      rwa [List.contains_iff_mem] at hnull
  unfold stem
  split
  · rw [String.toList_ofList]
    exact fun hmem => hname (List.mem_of_mem_take hmem)
  · exact hname

/-- The name of a path that a text denotes is one that paths keep, if there is one. -/
theorem isName_name (text : String) (h : (ofString text).name ≠ "") :
    IsName (ofString text).name := by
  have hclean := isClean_ofString text
  unfold Path.name at h ⊢
  cases hlast : (ofString text).parts.getLast? with
  | none => simp [hlast] at h
  | some name => exact hclean name (List.mem_of_getLast? hlast)

/-- The stem of a name that does not start with a dot leads down. -/
theorem isPlain_stem {p : Path} (h : IsName p.name) (hdot : p.name.toList.head? ≠ some '.') :
    IsPlain p.stem := by
  have hchars : p.name.toList ≠ [] := by simpa using h.ne_empty
  obtain ⟨cs, hstem, hne, hhead, hslash⟩ : ∃ cs, p.stem.toList = cs ∧ cs ≠ [] ∧
      cs.head? ≠ some '.' ∧ '/' ∉ cs := by
    refine ⟨_, rfl, ?_⟩
    unfold stem
    split
    next k hk =>
      have hpos : 0 < k := by
        unfold dot? at hk
        dsimp only at hk
        split at hk
        · next hcond =>
          simp only [Bool.and_eq_true, decide_eq_true_eq] at hcond
          have := Option.some.inj hk
          omega
        · cases hk
      rw [String.toList_ofList]
      refine ⟨?_, ?_, fun hmem => h.not_mem (List.mem_of_mem_take hmem)⟩
      · simp [hchars, Nat.ne_of_gt hpos]
      · rwa [List.head?_take, if_neg (Nat.ne_of_gt hpos)]
    next => exact ⟨hchars, hdot, h.not_mem⟩
  have hnot {text : String} (htext : text.toList.head? = some '.') : p.stem ≠ text := by
    rintro rfl
    rw [hstem] at htext
    exact hhead htext
  refine ⟨⟨?_, hnot rfl, hstem ▸ hslash⟩, hnot rfl⟩
  intro hempty
  rw [hempty] at hstem
  exact hne hstem.symm

end Joins

end Path
end PassTrace

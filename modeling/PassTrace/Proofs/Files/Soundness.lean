import Mathlib.Data.List.Induction
import PassTrace.Proofs.Files.Changes

/-!
# Sound file trees

In a sound tree all entries stand in directories, under names that a system keeps. What is done to a
tree leaves it sound. Every entry of a sound tree is reached from the root by the names of its
location, unless the text of these names is too long for the system.
-/

namespace PassTrace

namespace FileTree

variable {t t' : FileTree} {p : Path} {place other : Location} {bytes : Bytes}

/-- An entry can stand at a location: its name leads down and is not too long, and what is above is
a directory. -/
def Admits (t : FileTree) (place : Location) : Prop :=
  ∀ above name, place = above ++ [name] →
    Path.IsPlain name ∧ name.utf8ByteSize ≤ maxNameBytes ∧ t.at? above = some .directory

/-- All entries stand where entries can stand, and the work directory is there. -/
structure IsSound (t : FileTree) : Prop where
  work : t.at? t.work = some .directory
  admits : ∀ place entry, t.at? place = some entry → t.Admits place

section Keeping

theorem admits_nil (t : FileTree) : t.Admits [] := by
  intro above name h
  simp at h

theorem admits_concat {name : String} (hname : Path.IsPlain name)
    (hsize : name.utf8ByteSize ≤ maxNameBytes) (hplace : t.at? place = some .directory) :
    t.Admits (place ++ [name]) := by
  intro above last heq
  obtain ⟨rfl, hlast⟩ := List.append_inj' heq rfl
  obtain rfl := List.singleton_inj.mp hlast
  exact ⟨hname, hsize, hplace⟩

theorem Admits.keep (h : t.Admits place) (hkeeps : t.KeepsDirectories t') : t'.Admits place := by
  intro above name heq
  obtain ⟨hname, hsize, habove⟩ := h above name heq
  exact ⟨hname, hsize, hkeeps.directory habove⟩

/-- A change that keeps the directories, and after which all entries stand where entries could stand
before. -/
theorem IsSound.change (h : t.IsSound) (hkeeps : t.KeepsDirectories t')
    (hadmits : ∀ place entry, t'.at? place = some entry → t.Admits place) : t'.IsSound where
  work := by
    rw [hkeeps.work_eq]
    exact hkeeps.directory h.work
  admits place entry hplace := (hadmits place entry hplace).keep hkeeps

theorem IsSound.put {entry : Entry} (h : t.IsSound) (hplace : t.Admits place)
    (hkept : t.at? place = some .directory → entry = .directory) : (t.put place entry).IsSound := by
  refine h.change ⟨rfl, fun {other} hother => ?_⟩ fun other entry' hother => ?_
  · by_cases hne : other = place
    · subst hne
      by_cases hnil : other = []
      · rw [hnil, at?_nil]
      · rw [t.at?_put_self hnil, hkept hother]
    · rw [t.at?_put_of_ne hne, hother]
  · by_cases hne : other = place
    · rw [hne]
      exact hplace
    · rw [t.at?_put_of_ne hne] at hother
      exact h.admits other entry' hother

theorem IsSound.erase (h : t.IsSound) (hfile : t.at? place ≠ some .directory) :
    (t.erase place).IsSound := by
  have hplace : place ≠ [] := by
    rintro rfl
    exact hfile t.at?_nil
  have hne {entry : Entry} {other : Location} (hother : (t.erase place).at? other = some entry) :
      other ≠ place := by
    rintro rfl
    rw [t.at?_erase_self hplace] at hother
    cases hother
  refine h.change ⟨rfl, fun {other} hother => ?_⟩ fun other entry hother => ?_
  · have hother' : other ≠ place := by
      rintro rfl
      exact hfile hother
    rw [t.at?_erase_of_ne hother', hother]
  · rw [t.at?_erase_of_ne (hne hother)] at hother
    exact h.admits other entry hother

/-- A name leads from a directory to where an entry can stand. -/
theorem IsSound.admits_enter {name : String} (h : t.IsSound) (hname : name ≠ "" ∧ '/' ∉ name.toList)
    (hsize : name.utf8ByteSize ≤ maxNameBytes) (hplace : t.at? place = some .directory) :
    t.Admits (enter place name) := by
  unfold enter
  split
  · exact h.admits _ _ hplace
  · next hdot =>
    split
    · rcases place.eq_nil_or_concat with rfl | ⟨above, last, rfl⟩
      · exact t.admits_nil
      · rw [List.concat_eq_append] at hplace ⊢
        obtain ⟨-, -, habove⟩ := h.admits _ _ hplace above last rfl
        rw [List.dropLast_concat]
        exact h.admits _ _ habove
    · next hdots => exact admits_concat ⟨⟨hname.1, hdot, hname.2⟩, hdots⟩ hsize hplace

theorem IsSound.admits_of_follow {names : List String} (h : t.IsSound)
    (hnames : ∀ name ∈ names, name ≠ "" ∧ '/' ∉ name.toList) (hplace : t.Admits place)
    (hfollow : t.follow place names = .ok other) : t.Admits other := by
  induction names generalizing place with
  | nil => exact Except.ok.inj hfollow ▸ hplace
  | cons name names ih =>
    obtain ⟨hname, hnames⟩ := List.forall_mem_cons.mp hnames
    unfold follow at hfollow
    split at hfollow
    · cases hfollow
    · cases hfollow
    · next hdirectory =>
      split at hfollow
      · cases hfollow
      · next hsize => exact ih hnames (h.admits_enter hname (by omega) hdirectory) hfollow

theorem IsSound.admits_start (h : t.IsSound) (anchor : Anchor) : t.Admits (t.start anchor) := by
  cases anchor with
  | work => exact h.admits _ _ h.work
  | root => exact t.admits_nil
  | doubleRoot => exact t.admits_nil

/-- A path leads to where an entry can stand, if it leads anywhere. -/
theorem IsSound.admits_of_locate (h : t.IsSound) (hp : p.IsClean)
    (hlocate : t.locate p = .ok place) :
    t.Admits place := by
  unfold locate at hlocate
  split at hlocate
  · cases hlocate
  · exact h.admits_of_follow (fun name hname => ⟨(hp name hname).ne_empty, (hp name hname).not_mem⟩)
      (h.admits_start p.anchor) hlocate

/-- So does a text. -/
theorem IsSound.admits_of_locateText {text : String} (h : t.IsSound)
    (hlocate : t.locateText text = .ok place) : t.Admits place := by
  unfold locateText at hlocate
  split at hlocate
  · cases hlocate
  · split at hlocate
    · cases hlocate
    · exact h.admits_of_follow (fun name hname => Path.step_of_mem_stepsOf hname)
        (h.admits_start (Path.anchorOf text)) hlocate

theorem IsSound.write {now : Binary64} (h : t.IsSound) (hp : p.IsClean)
    (hwrite : t.write p bytes now = .ok t') : t'.IsSound := by
  unfold FileTree.write at hwrite
  split at hwrite
  · cases hwrite
  · next place hlocate =>
    split at hwrite
    · cases hwrite
    · next hfile =>
      obtain rfl := Except.ok.inj hwrite
      exact h.put (h.admits_of_locate hp hlocate) fun hdirectory => absurd hdirectory hfile

/-- What removing leaves, wherever the text leads. -/
theorem IsSound.removeAt {text : String} {result : Except FileCause Location} (h : t.IsSound)
    (hremove : t.removeAt text result = .ok t') : t'.IsSound := by
  unfold FileTree.removeAt at hremove
  split at hremove
  · cases hremove
  · split at hremove
    · cases hremove
    · cases hremove
    · next hfile =>
      split at hremove
      · cases hremove
      · obtain rfl := Except.ok.inj hremove
        exact h.erase (by simp [hfile])

theorem IsSound.makeAt {text : String} {result : Except FileCause Location} (h : t.IsSound)
    (hresult : ∀ place, result = .ok place → t.Admits place)
    (hmake : t.makeAt text result = .ok t') : t'.IsSound := by
  unfold FileTree.makeAt at hmake
  split at hmake
  · cases hmake
  · next place =>
    split at hmake
    · cases hmake
    · obtain rfl := Except.ok.inj hmake
      exact h.put (hresult place rfl) fun _ => rfl

theorem IsSound.makeDirectory (h : t.IsSound) (hp : p.IsClean)
    (hmake : t.makeDirectory p = .ok t') : t'.IsSound :=
  h.makeAt (fun _ => h.admits_of_locate hp) hmake

theorem IsSound.ensureDirectory (h : t.IsSound) (hp : p.IsClean)
    (hensure : t.ensureDirectory p = .ok t') : t'.IsSound := by
  unfold FileTree.ensureDirectory at hensure
  split at hensure
  · next hmake =>
    obtain rfl := Except.ok.inj hensure
    exact h.makeDirectory hp hmake
  · split at hensure
    · obtain rfl := Except.ok.inj hensure
      exact h
    · cases hensure

theorem IsSound.afterStep {step : Except FileFault FileTree} (h : t.IsSound)
    (hstep : ∀ t', step = .ok t' → t'.IsSound) : (t.afterStep step).1.IsSound := by
  cases step with
  | ok t' => exact hstep t' rfl
  | error fault => exact h

/-- Making directories leaves a tree sound, whether it succeeds or not. -/
theorem IsSound.ensureUpward {anchor : Anchor} {names : List String} (h : t.IsSound)
    (hnames : ∀ name ∈ names, Path.IsName name) : (t.ensureUpward anchor names).1.IsSound := by
  induction names generalizing t with
  | nil =>
    have hclean : Path.IsClean ⟨anchor, []⟩ := fun name hname => absurd hname List.not_mem_nil
    exact h.afterStep fun _ => h.ensureDirectory hclean
  | cons name above ih =>
    have hclean : Path.IsClean ⟨anchor, (name :: above).reverse⟩ := fun other hother =>
      hnames other (List.mem_reverse.mp hother)
    have habove := ih h fun other hother => hnames other (List.mem_cons_of_mem name hother)
    unfold FileTree.ensureUpward
    dsimp only
    split
    next hmake => exact h.makeDirectory hclean hmake
    next =>
      split
      next =>
        split
        next heq =>
          rw [heq] at habove
          exact habove.afterStep fun _ => habove.ensureDirectory hclean
        next heq =>
          rw [heq] at habove
          exact habove
      next => exact h.afterStep fun _ => h.ensureDirectory hclean

theorem IsSound.ensureDirectories (h : t.IsSound) (hp : p.IsClean) :
    (t.ensureDirectories p).1.IsSound :=
  h.ensureUpward fun name hname => hp name (List.mem_reverse.mp hname)

theorem at?_empty_self (work : String) : (empty work).at? [work] = some .directory := by
  simp [empty, at?]

theorem at?_empty_of_ne {work : String} (hnil : place ≠ []) (hwork : place ≠ [work]) :
    (empty work).at? place = none := by
  simp [empty, at?, hnil, Ne.symm hwork]

theorem isSound_empty {work : String} (hname : Path.IsPlain work)
    (hsize : work.utf8ByteSize ≤ maxNameBytes) : (empty work).IsSound where
  work := at?_empty_self work
  admits place entry hplace := by
    by_cases hwork : place = [work]
    · subst hwork
      exact admits_concat hname hsize (at?_nil _)
    · by_cases hnil : place = []
      · rw [hnil]
        exact admits_nil _
      · rw [at?_empty_of_ne hnil hwork] at hplace
        cases hplace

end Keeping

section Reaching

/-- The names on the way to an entry are such as an entry can have. -/
theorem IsSound.isPlain {entry : Entry} (h : t.IsSound) (hplace : t.at? place = some entry) :
    ∀ name ∈ place, Path.IsPlain name := by
  induction place using List.reverseRecOn generalizing entry with
  | nil => exact fun name hname => absurd hname List.not_mem_nil
  | append_singleton above last ih =>
    obtain ⟨hlast, -, habove⟩ := h.admits _ _ hplace above last rfl
    intro name hname
    rcases List.mem_append.mp hname with hname | hname
    · exact ih habove name hname
    · exact List.mem_singleton.mp hname ▸ hlast

theorem resolveNames_of_isPlain {names : List String} (h : ∀ name ∈ names, Path.IsPlain name) :
    resolveNames place names = place ++ names := by
  induction names generalizing place with
  | nil => simp [resolveNames]
  | cons name names ih =>
    obtain ⟨hname, hnames⟩ := List.forall_mem_cons.mp h
    have henter : enter place name = place ++ [name] := by
      simp [enter, hname.ne_dot, hname.ne_dots]
    change resolveNames (enter place name) names = _
    rw [henter, ih hnames, List.append_assoc, List.singleton_append]

/-- The names below a location lead from there to an entry. -/
theorem IsSound.follow_eq {names : List String} {entry : Entry} (h : t.IsSound)
    (hentry : t.at? (place ++ names) = some entry) :
    t.follow place names = .ok (place ++ names) := by
  induction names using List.reverseRecOn generalizing entry with
  | nil => rw [follow, List.append_nil]
  | append_singleton above last ih =>
    rw [← List.append_assoc] at hentry ⊢
    obtain ⟨hlast, hsize, habove⟩ := h.admits _ _ hentry (place ++ above) last rfl
    rw [follow_concat_of_directory (ih habove) habove hsize, enter, if_neg hlast.ne_dot,
      if_neg hlast.ne_dots]

/-- A path of plain names leads to the file that stands where they say. -/
theorem IsSound.stores (h : t.IsSound) (hsize : p.toString.utf8ByteSize ≤ maxPathBytes)
    (hcontent : t.content? (t.start p.anchor ++ p.parts) = some bytes) : t.Stores p bytes := by
  obtain ⟨modified, hentry⟩ := exists_at?_of_content? hcontent
  have hplace : t.placeOf p = t.start p.anchor ++ p.parts :=
    resolveNames_of_isPlain fun name hname =>
      h.isPlain hentry name (List.mem_append_right _ hname)
  refine ⟨?_, hplace ▸ hcontent⟩
  rw [hplace, locate, if_neg (by omega)]
  exact h.follow_eq hentry

end Reaching

section Texts

variable {names : List String}

theorem placeOf_root (t : FileTree) (h : ∀ name ∈ names, Path.IsPlain name) :
    t.placeOf ⟨.root, names⟩ = names :=
  resolveNames_of_isPlain h

theorem toString_resolve (t : FileTree) (p : Path) :
    (t.resolve p).toString = "/" ++ "/".intercalate (t.placeOf p) := rfl

/-- The text of a path from the root leads where the path leads. -/
theorem locateText_toString_root (t : FileTree) (h : ∀ name ∈ names, Path.IsName name) :
    t.locateText (Path.toString ⟨.root, names⟩) = t.locate ⟨.root, names⟩ := by
  have hanchor : Path.anchorOf (Path.toString ⟨.root, names⟩) = .root :=
    congrArg Path.anchor (Path.ofString_toString (p := ⟨.root, names⟩) h)
  have hempty : (Path.toString ⟨.root, names⟩).isEmpty = false := by
    simp [Path.toString]
  unfold locateText locate
  rw [hanchor, Path.stepsOf_toString_root h, hempty]
  rfl

/-- The text of a path from the root names a file where the names lead to one. -/
theorem IsSound.isFile_toString_root (h : t.IsSound) (hnames : ∀ name ∈ names, Path.IsPlain name)
    (hsize : (Path.toString ⟨.root, names⟩).utf8ByteSize ≤ maxPathBytes) :
    t.isFile (Path.toString ⟨.root, names⟩) = (t.content? names).isSome := by
  have hlocate := t.locateText_toString_root fun name hname => (hnames name hname).toIsName
  unfold isFile named?
  rw [hlocate]
  cases hcontent : t.content? names with
  | none =>
    cases hplace : t.locate ⟨.root, names⟩ with
    | error cause => rfl
    | ok place =>
      obtain rfl := eq_placeOf_of_locate hplace
      rw [t.placeOf_root hnames]
      unfold content? at hcontent
      dsimp only
      cases hentry : t.at? names with
      | none => rfl
      | some entry =>
        cases entry with
        | directory => rfl
        | file bytes modified => simp [hentry] at hcontent
  | some bytes =>
    have hstores : t.Stores ⟨.root, names⟩ bytes := h.stores hsize hcontent
    have hlast : Path.IsName (Path.name ⟨.root, names⟩) := by
      rcases names.eq_nil_or_concat with rfl | ⟨above, last, rfl⟩
      · cases hcontent
      · have hname : Path.name ⟨.root, above.concat last⟩ = last := by
          simp [Path.name]
        rw [hname]
        exact (hnames last (by simp)).toIsName
    rw [hstores.locate_eq, t.placeOf_root hnames]
    obtain ⟨modified, hentry⟩ := exists_at?_of_content? hcontent
    simp [hentry, Option.filter, (Path.asksDirectory_toString hlast).1]

end Texts

end FileTree

namespace Operation

variable {α β : Type} {p : Path}

/-- A sound file tree stays sound, whether the operation succeeds or not. -/
def KeepsSound (x : Operation α) : Prop :=
  ∀ w, w.files.IsSound → (x.run.run w).2.files.IsSound

theorem KeepsFiles.keepsSound {x : Operation α} (h : KeepsFiles x) : KeepsSound x := by
  intro w hsound
  rw [h w]
  exact hsound

theorem KeepsSound.bind {x : Operation α} {f : α → Operation β} (hx : KeepsSound x)
    (hf : ∀ a, KeepsSound (f a)) : KeepsSound (x >>= f) := by
  intro w hsound
  have hfirst := hx w hsound
  rw [run_bind]
  cases hrun : x.run.run w with
  | mk result w' =>
    rw [hrun] at hfirst
    cases result with
    | ok a => exact hf a w' hfirst
    | error failure => exact hfirst

theorem keepsSound_changeFiles {change : FileTree → Binary64 → Except FileFault FileTree}
    (h : ∀ t now t', t.IsSound → change t now = .ok t' → t'.IsSound) :
    KeepsSound (changeFiles change) := by
  intro w hsound
  rw [run_changeFiles]
  cases hchange : change w.files w.now with
  | ok files => exact h w.files w.now files hsound hchange
  | error fault => exact hsound

theorem keepsSound_writeFile (hp : p.IsClean) (bytes : Bytes) : KeepsSound (writeFile p bytes) :=
  (keepsFiles_usable p).keepsSound.bind fun _ =>
    keepsSound_changeFiles fun _ _ _ hsound hwrite => hsound.write hp hwrite

theorem keepsSound_removeFile (p : Path) : KeepsSound (removeFile p) :=
  (keepsFiles_usable p).keepsSound.bind fun _ =>
    keepsSound_changeFiles fun _ _ _ hsound hremove => hsound.removeAt hremove

/-- A check of a text keeps the files. -/
theorem keepsFiles_usableText (text : String) : KeepsFiles (usableText text) := by
  unfold usableText
  split
  · exact keepsFiles_throw _
  · exact keepsFiles_pure _

theorem keepsSound_removeNamed (text : String) : KeepsSound (removeNamed text) :=
  (keepsFiles_usableText text).keepsSound.bind fun _ =>
    keepsSound_changeFiles fun _ _ _ hsound hremove => hsound.removeAt hremove

theorem keepsSound_makeNamed (text : String) : KeepsSound (makeNamed text) :=
  (keepsFiles_usableText text).keepsSound.bind fun _ =>
    keepsSound_changeFiles fun _ _ _ hsound hmake =>
      hsound.makeAt (fun _ => hsound.admits_of_locateText) hmake

/-- Making directories from a text leaves a tree sound, however many there are. -/
theorem keepsSound_makeUpward (levels : Nat) (text : List Char) :
    KeepsSound (makeUpward levels text) := by
  induction levels generalizing text with
  | zero => exact (keepsFiles_throw _).keepsSound
  | succ levels ih =>
    intro w hsound
    unfold makeUpward
    rw [run_get_bind]
    dsimp only
    split
    · exact keepsSound_makeNamed _ w hsound
    · refine KeepsSound.bind (ih _) (fun result => ?_) w hsound
      have hlast : KeepsSound (if (Path.cutLast text).2 = ['.'] then pure (.ok ())
          else makeNamed (String.ofList text)) := by
        split
        · exact (keepsFiles_pure _).keepsSound
        · exact keepsSound_makeNamed _
      split
      · exact hlast
      · exact hlast
      · exact (keepsFiles_pure _).keepsSound

theorem keepsSound_makeDirectories (hp : p.IsClean) : KeepsSound (makeDirectories p) := by
  intro w hsound
  obtain ⟨result, hrun⟩ := run_changeAt FileTree.ensureDirectories p w
  unfold makeDirectories
  rw [hrun]
  dsimp only
  split
  · exact hsound
  · exact hsound.ensureDirectories hp

theorem keepsSound_writeBelow (hp : p.IsClean) (bytes : Bytes) :
    KeepsSound (writeBelow p bytes) := by
  have hparent : p.parent.IsClean := fun name hname => hp name (List.dropLast_subset _ hname)
  refine (keepsSound_makeDirectories hparent).bind fun result => ?_
  split
  · exact keepsSound_writeFile hp bytes
  · exact (keepsFiles_pure _).keepsSound

end Operation
end PassTrace

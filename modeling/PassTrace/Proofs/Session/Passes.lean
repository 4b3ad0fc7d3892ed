import PassTrace.Proofs.Session.Texts

/-!
# Passes read back

An entry of a payload is read as the pass it was written for, except that its text comes
with the first pass that has it, and that a pass over the whole module keeps no target.
-/

namespace PassTrace

/-- A scope as it is read back: the whole module has no target. -/
def Scope.reread (s : Scope) : Scope :=
  ⟨s.kind, if s.kind = .module then none else s.target⟩

/-- A pass as it is read back, with the reference that is found for it. -/
def Pass.reread (p : Pass) (reference : Reference) : Pass :=
  { p with scope := p.scope.reread, reference }

/-- The fields of an entry. -/
theorem Pass.entry_fields (p : Pass) (number : Nat) : ∃ fields : Json.Fields,
    p.entry number = .object fields ∧ fields.get "name" = .string p.name ∧
      fields.get "scope_type" = .string p.scope.kind.name ∧
      fields.get "scope_target" = Json.ofOption .string p.scope.target ∧
      fields.get "changed" = .bool p.changed ∧ fields.get "ir_ref" = .string (textKey number) ∧
      fields.get "stats" = Json.ofOption (fun c => .object c.toFields) p.counts ∧
      fields.get "diff_stats" = Json.ofOption (fun c => .object c.toFields) p.change ∧
      fields.get "remarks" = Json.ofOption .array p.remarks := by
  refine ⟨_, rfl, ?_⟩
  cases p.counts <;> cases p.change <;> cases p.remarks <;>
    simp [Json.Fields.get, Json.Fields.get?, Json.ofOption]

/-- Counts are read back from their fields. -/
theorem Counts.ofFields?_toFields (c : Counts) : ofFields? c.toFields = some c := by
  rfl

/-- A change is read back from its fields. -/
theorem LineChange.ofFields_toFields (c : LineChange) : ofFields c.toFields = .ok c := by
  rfl

/-- The name of a kind is no empty value. -/
theorem ScopeKind.isVoid_name (kind : ScopeKind) : (Json.string kind.name).isVoid = false := by
  cases kind <;> rfl

namespace Session

/-- What a pass ran on is read back. -/
theorem readScope_eq {fields : Json.Fields} {scope : Scope} (position : Nat)
    (hkind : fields.get "scope_type" = .string scope.kind.name)
    (htarget : fields.get "scope_target" = Json.ofOption .string scope.target) :
    readScope fields position = pure scope.reread := by
  unfold readScope
  rw [hkind, htarget]
  cases hscope : scope.target <;>
    simp [ScopeKind.isVoid_name, Json.asString?, ScopeKind.ofName?_name, Reporting.need,
      Json.ofOption, Scope.reread, hscope]

/-- Counts are read back, or stay missing. -/
theorem readCounts_eq {fields : Json.Fields} {counts : Option Counts} (position : Nat)
    (h : fields.get "stats" = Json.ofOption (fun c => .object c.toFields) counts) :
    readCounts fields position = pure counts := by
  unfold readCounts
  rw [h]
  cases counts with
  | none => rfl
  | some c => simp [Json.ofOption, Json.fieldsOrNone, Counts.ofFields?_toFields]

/-- A change is read back, or stays missing. -/
theorem readChange_eq {fields : Json.Fields} {change : Option LineChange} (position : Nat)
    (h : fields.get "diff_stats" = Json.ofOption (fun c => .object c.toFields) change) :
    readChange fields position = pure change := by
  unfold readChange
  rw [h]
  cases change with
  | none => rfl
  | some c => simp [Json.ofOption, LineChange.ofFields_toFields]

/-- The passes read and the keys met when a pass with a text of some number is read next. -/
def Scan.next (s : Scan) (position number : Nat) (lines : Lines) (pass : Pass) : Scan :=
  match s.firstAt.find? fun first => first.1 = textKey number with
  | some (_, index) => ⟨pass.reread (.sameAs index) :: s.passes, s.firstAt⟩
  | none => ⟨pass.reread (.inline lines) :: s.passes, (textKey number, position) :: s.firstAt⟩

/-- An entry is read as its pass, without a notice. -/
theorem readPass_entry {table : TextTable} {number : Nat} {lines : Lines} (s : Scan)
    (position : Nat) (pass : Pass) (hlines : table.get? (textKey number) = some lines) :
    readPass table s position (pass.entry number) = pure (s.next position number lines pass) := by
  obtain ⟨fields, hentry, hname, hkind, htarget, hchanged, hkey, hcounts, hchange, hremarks⟩ :=
    pass.entry_fields number
  have hremarks' : (fields.get "remarks").asArray? = pass.remarks := by
    rw [hremarks]
    cases pass.remarks <;> rfl
  unfold readPass Scan.next
  simp only [hentry, hname, hchanged, hkey, hlines, Json.asObject?, Json.asString?, Json.asBool?,
    Reporting.need, pure_bind, readScope_eq position hkind htarget, readCounts_eq position hcounts,
    readChange_eq position hchange, hremarks']
  cases s.firstAt.find? fun first => first.1 = textKey number <;> rfl

/-- A reference read for the text at an index: to the text that the index means, or to an earlier
index with the same number. -/
def Leads (p : Pipeline) (numbers : List Nat) (index : Nat) : Reference → Prop
  | .inline lines => lines = p.meaning index
  | .sameAs target => ∃ earlier < index, target = earlier ∧ numbers[earlier]? = numbers[index]?

/-- The first `k` passes of a pipeline were read, and each key met stands for an index read. -/
structure Scan.Follows (s : Scan) (p : Pipeline) (numbers : List Nat) (k : Nat) : Prop where
  length_passes : s.passes.length = k
  reread_of_pass : ∀ {i pass}, i < k → p.passes[i]? = some pass → ∃ reference,
    s.passes.reverse[i]? = some (pass.reread reference) ∧ Leads p numbers (i + 1) reference
  index_of_key : ∀ {key index}, (key, index) ∈ s.firstAt → index ≤ k ∧ ∃ number,
    numbers[index]? = some number ∧ textKey number = key

/-- Reading the next pass keeps what was read, and finds a reference that leads to its text. -/
theorem Scan.Follows.next {s : Scan} {p : Pipeline} {numbers : List Nat} {k number : Nat}
    (h : s.Follows p numbers k) (hnumber : numbers[k + 1]? = some number) {pass : Pass}
    (hpass : p.passes[k]? = some pass) :
    (s.next (k + 1) number (p.meaning (k + 1)) pass).Follows p numbers (k + 1) := by
  -- Whatever reference is found, the passes before keep their places.
  have hkept (reference : Reference) (hleads : Leads p numbers (k + 1) reference) {i : Nat}
      {other : Pass} (hi : i < k + 1) (hother : p.passes[i]? = some other) : ∃ reference',
      (pass.reread reference :: s.passes).reverse[i]? = some (other.reread reference') ∧
        Leads p numbers (i + 1) reference' := by
    have hlength := h.length_passes
    rw [List.reverse_cons]
    by_cases hlt : i < k
    · rw [List.getElem?_append_left (by rw [List.length_reverse]; omega)]
      exact h.reread_of_pass hlt hother
    · obtain rfl : i = k := by omega
      obtain rfl : pass = other := Option.some.inj (hpass.symm.trans hother)
      refine ⟨reference, ?_, hleads⟩
      rw [List.getElem?_append_right (by rw [List.length_reverse]; omega), List.length_reverse,
        hlength, Nat.sub_self]
      rfl
  unfold Scan.next
  cases hfind : s.firstAt.find? fun first => first.1 = textKey number with
  | some first =>
    obtain ⟨key, index⟩ := first
    -- The text was met before, and the reference leads to where.
    obtain ⟨hindex, number', hnumber', hkey⟩ := h.index_of_key (List.mem_of_find?_eq_some hfind)
    have hsame : key = textKey number := by simpa using List.find?_some hfind
    obtain rfl : number' = number := textKey_injective (hkey.trans hsame)
    refine ⟨congrArg (· + 1) h.length_passes, fun hi hother => hkept _ ?_ hi hother, fun hmem => ?_⟩
    · exact ⟨index, by omega, rfl, hnumber'.trans hnumber.symm⟩
    · obtain ⟨hle, hrest⟩ := h.index_of_key hmem
      exact ⟨by omega, hrest⟩
  | none =>
    -- A text that was not met before stands in the pass itself.
    have hinline : Leads p numbers (k + 1) (.inline (p.meaning (k + 1))) := rfl
    refine ⟨congrArg (· + 1) h.length_passes, fun hi hother => hkept _ hinline hi hother,
      fun hmem => ?_⟩
    rcases List.mem_cons.1 hmem with heq | hmem
    · obtain ⟨rfl, rfl⟩ := Prod.mk.inj heq
      exact ⟨Nat.le_refl _, number, hnumber, rfl⟩
    · obtain ⟨hle, hrest⟩ := h.index_of_key hmem
      exact ⟨by omega, hrest⟩

/-- The entry of a pass in a payload. -/
theorem getElem?_passEntries {p : Pipeline} {t : Interning} {k number : Nat} {pass : Pass}
    (hpass : p.passes[k]? = some pass) (hnumber : t.numbers[k + 1]? = some number) :
    (passEntries p t)[k]? = some (pass.entry number) := by
  unfold passEntries
  rw [List.getElem?_zipWith, hpass, List.getElem?_drop, Nat.add_comm 1 k, hnumber]

/-- From the first `k` passes on, the entries of a payload are read to the end. -/
theorem readPasses_drop {p : Pipeline} {t : Interning} (ht : t.Holds p p.size) {k : Nat}
    {s : Scan} (hs : s.Follows p t.numbers k) (hk : k ≤ p.size) :
    ∃ s', readPasses (textTable t.texts) (k + 1) s ((passEntries p t).drop k) = pure s' ∧
      s'.Follows p t.numbers p.size := by
  obtain ⟨left, hleft⟩ : ∃ left, p.size = k + left := ⟨p.size - k, by omega⟩
  induction left generalizing k s with
  | zero =>
    have hlength : (passEntries p t).length = k := by
      have := ht.length_numbers
      unfold passEntries
      rw [List.length_zipWith, List.length_drop]
      change min p.size _ = k
      omega
    obtain rfl : p.size = k := hleft
    refine ⟨s, ?_, hs⟩
    rw [List.drop_of_length_le (Nat.le_of_eq hlength)]
    rfl
  | succ left ih =>
    have hlt : k < p.passes.length := by
      change k < p.size
      omega
    have hpass : p.passes[k]? = some p.passes[k] := List.getElem?_eq_getElem hlt
    have hlt' : k + 1 < t.numbers.length := by
      rw [ht.length_numbers]
      omega
    have hnumber : t.numbers[k + 1]? = some t.numbers[k + 1] := List.getElem?_eq_getElem hlt'
    have hlines : (textTable t.texts).get? (textKey t.numbers[k + 1]) =
        some (p.meaning (k + 1)) := by
      rw [get?_textTable]
      exact ht.meaning_of_number hnumber
    obtain ⟨s', hread, hs'⟩ := ih (hs.next hnumber hpass) (by omega) (by omega)
    refine ⟨s', ?_, hs'⟩
    rw [List.drop_eq_getElem?_toList_append, getElem?_passEntries hpass hnumber]
    change readPasses (textTable t.texts) (k + 1) s
      (p.passes[k].entry t.numbers[k + 1] :: (passEntries p t).drop (k + 1)) = pure s'
    rw [readPasses, readPass_entry s (k + 1) _ hlines, pure_bind]
    exact hread

/-- What was read of all passes leads to the texts that they mean. -/
theorem Scan.Follows.meaning_eq {s : Scan} {p : Pipeline} {t : Interning}
    (h : s.Follows p t.numbers p.size) (ht : t.Holds p p.size) {index : Nat}
    (hindex : index ≤ p.size) :
    Pipeline.meaning ⟨p.initial, s.passes.reverse⟩ index = p.meaning index := by
  induction index using Nat.strongRecOn with
  | _ index ih =>
    cases index with
    | zero => simp
    | succ k =>
      have hpass : p.passes[k]? = some p.passes[k] := List.getElem?_eq_getElem hindex
      obtain ⟨reference, hread, hleads⟩ := h.reread_of_pass hindex hpass
      rw [Pipeline.meaning_succ, hread]
      simp only [Option.map_some, Pass.reread]
      cases reference with
      | inline lines => exact hleads
      | sameAs target =>
        obtain ⟨earlier, hearlier, rfl, hsame⟩ := hleads
        dsimp only
        rw [if_pos (by omega), Int.toNat_natCast, ih earlier hearlier (by omega)]
        have hlt : earlier < t.numbers.length := by
          rw [ht.length_numbers]
          omega
        have hnumber : t.numbers[earlier]? = some t.numbers[earlier] := List.getElem?_eq_getElem hlt
        have hmeaning := ht.meaning_of_number hnumber
        rw [ht.meaning_of_number (hsame ▸ hnumber)] at hmeaning
        exact (Option.some.inj hmeaning).symm

end Session
end PassTrace

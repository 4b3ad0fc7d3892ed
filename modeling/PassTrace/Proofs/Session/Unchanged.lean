import PassTrace.Proofs.Diff.Agreement
import PassTrace.Proofs.Session.Meaning
import PassTrace.Proofs.View

/-!
# Passes of a payload that changed nothing

Whether a pass changed the module, and which text is there after it, a payload states apart from
each other. Behind the first pass nothing is shown of a pass that changed nothing, whatever text it
names. The text before the first pass is always the initial one, so that a first pass that changed
nothing and names another text is shown with a change.
-/

namespace PassTrace

/-- The view of a pass has one text before it and after it, and no diff. -/
def Resolver.ShowsNothing (r : Resolver) (index : Int) : Prop :=
  ∀ (stripDebugInfo : Bool) (notices : List Notice),
    let view := ((View.ofPass stripDebugInfo index).run ⟨r, notices⟩).1
    view.before = view.after ∧ ∀ context : Int, 0 ≤ context → view.diff context = []

namespace Resolver

variable {r : Resolver} {k : Nat} {pass : Pass}

/-- Behind the first pass the text before a pass that changed nothing is looked up as that after
it. -/
theorem before_eq_after (hk : 0 < k) (hpass : r.pipeline.passes[k]? = some pass)
    (hchanged : pass.changed = false) :
    r.before ((k + 1 : Nat) : Int) = r.after ((k + 1 : Nat) : Int) := by
  have hlater : ¬ ((k + 1 : Nat) : Int) ≤ 1 := by omega
  unfold before
  rw [if_neg hlater, Pipeline.pass?_natCast_succ, hpass]
  simp [hchanged]

/-- The text before the first pass is the initial text. -/
theorem before_one (r : Resolver) : r.before 1 = ⟨r.pipeline.initial, r, none⟩ :=
  if_pos (Int.le_refl 1)

/-- A view shows nothing of a pass with the same text before it and after it. -/
theorem Faithful.showsNothing (h : r.Faithful) (hpass : r.pipeline.passes[k]? = some pass)
    (hlines : (r.before ((k + 1 : Nat) : Int)).lines = (r.after ((k + 1 : Nat) : Int)).lines) :
    r.ShowsNothing ((k + 1 : Nat) : Int) := by
  intro stripDebugInfo notices
  have hpass' : r.pipeline.pass? ((k + 1 : Nat) : Int) = some pass := by
    rw [Pipeline.pass?_natCast_succ, hpass]
  -- The look-up of the text before the pass leaves that of the text after it as it was.
  obtain ⟨-, hfaithful, hpipeline⟩ := h.before ((k + 1 : Nat) : Int)
  have hafter : ((r.before ((k + 1 : Nat) : Int)).resolver.after ((k + 1 : Nat) : Int)).lines =
      (r.after ((k + 1 : Nat) : Int)).lines := by
    unfold after
    rw [(hfaithful.resolve _).1, (h.resolve _).1, hpipeline]
  rw [View.run_ofPass stripDebugInfo (d := ⟨r, notices⟩) hpass', hafter, hlines]
  exact ⟨rfl, fun context hcontext => Diff.unified_self _ _ hcontext _⟩

end Resolver

namespace Session

/-- The first pass of a payload names a key with the initial text. -/
def StartsUnchanged (entries : Json.Fields) (passes : List Json) : Prop :=
  ∃ entry key lines, passes[0]? = some entry ∧ NamesText entry key ∧
    TableHolds entries key lines ∧ TableHolds entries initialKey lines

variable {entries : Json.Fields} {passes : List Json} {p : Pipeline} {key key' : String}
  {lines lines' : Lines} {entry : Json} {r : Resolver} {pass : Pass}

/-- A table holds one text under a key. -/
theorem TableHolds.unique (h : TableHolds entries key lines) (h' : TableHolds entries key lines') :
    lines = lines' := by
  obtain ⟨entry, hentry, hholds⟩ := h
  obtain ⟨entry', hentry', hholds'⟩ := h'
  obtain rfl := Option.some.inj (hentry.symm.trans hentry')
  exact hholds.unique hholds'

/-- An entry names one key. -/
theorem NamesText.unique (h : NamesText entry key) (h' : NamesText entry key') : key = key' := by
  obtain ⟨fields, rfl, hkey⟩ := h
  obtain ⟨fields', hfields, hkey'⟩ := h'
  obtain rfl := Json.object.inj hfields
  exact Json.string.inj (hkey.symm.trans hkey')

/-- The first pass has the same text before it and after it if its key has the initial text. -/
theorem Conveys.before_one_eq_after_iff (h : Conveys entries passes p) (hr : r.Serves p)
    (hpass : p.passes[0]? = some pass) :
    (r.before 1).lines = (r.after 1).lines ↔ StartsUnchanged entries passes := by
  have hpipeline := hr.1
  have hbefore : (r.before 1).lines = (r.resolve 0).lines := by
    have hresolve : (r.resolve 0).lines = p.meaning 0 := hr.lines_resolve (Nat.zero_le _)
    rw [Resolver.before_one, hresolve, Pipeline.meaning_zero, hpipeline]
  have hinitial := h.initial hr
  obtain ⟨entry, hentry⟩ : ∃ entry, passes[0]? = some entry := by
    obtain ⟨hlt, -⟩ := List.getElem?_eq_some_iff.1 hpass
    have hsize : p.passes.length = passes.length := h.size_eq
    exact ⟨_, List.getElem?_eq_getElem (by omega)⟩
  obtain ⟨key, hkey, htext⟩ := h.text hr hentry
  rw [hbefore]
  constructor
  · intro hlines
    rw [hlines] at hinitial
    exact ⟨entry, key, _, hentry, hkey, htext, hinitial⟩
  · rintro ⟨entry', key', lines, hentry', hkey', hlines, hlines'⟩
    obtain rfl := Option.some.inj (hentry.symm.trans hentry')
    obtain rfl := hkey.unique hkey'
    exact (hinitial.unique hlines').trans (hlines.unique htext)

/-- A value that is read as a session means what its parts say. -/
theorem conveys_of_ofJson {v : Json} {session : Session} (h : (ofJson v).outcome = .ok session) :
    ∃ entries passes, HasParts v entries passes ∧ Conveys entries passes session.pipeline := by
  obtain ⟨entries, passes, table, initial, s, hparts, htable, hinitial, hread, hpipeline⟩ :=
    outcome_ofJson_cases h
  have hsupplied := (Scan.supplied_start hinitial).readPasses hread
  rw [List.nil_append] at hsupplied
  rw [hpipeline]
  exact ⟨entries, passes, hparts, hsupplied.conveys htable hinitial⟩

/-- Of an accepted payload, a pass that changed nothing has the same text before it and after it,
unless it is the first and names another text than the initial one. Where the texts are the same,
its views are too, and its diff is empty. -/
theorem before_eq_after_iff_of_decode {payload : Payload} {session : Session}
    (h : (decode payload).outcome = .ok session) : ∃ v entries passes,
      payload.Parses (.ok v) ∧ HasParts v entries passes ∧
        ∀ {r : Resolver} {k : Nat} {pass : Pass}, r.Serves session.pipeline →
          session.pipeline.passes[k]? = some pass → pass.changed = false →
            ((r.before ((k + 1 : Nat) : Int)).lines = (r.after ((k + 1 : Nat) : Int)).lines ↔
              (k = 0 → StartsUnchanged entries passes)) ∧
            ((k = 0 → StartsUnchanged entries passes) →
              r.ShowsNothing ((k + 1 : Nat) : Int)) := by
  rw [decode, Reporting.outcome_bind_eq_ok] at h
  obtain ⟨v, hparse, h⟩ := h
  obtain ⟨entries, passes, hparts, hconveys⟩ := conveys_of_ofJson h
  refine ⟨v, entries, passes, outcome_readPayload_eq_ok.1 hparse, hparts, ?_⟩
  intro r k pass hr hpass hchanged
  have hget : r.pipeline.passes[k]? = some pass := by
    rw [hr.1]
    exact hpass
  have hiff : (r.before ((k + 1 : Nat) : Int)).lines = (r.after ((k + 1 : Nat) : Int)).lines ↔
      (k = 0 → StartsUnchanged entries passes) := by
    cases k with
    | zero => simpa using hconveys.before_one_eq_after_iff hr hpass
    | succ k =>
      rw [Resolver.before_eq_after (Nat.succ_pos k) hget hchanged]
      simp
  exact ⟨hiff, fun hcondition => hr.faithful.showsNothing hget (hiff.2 hcondition)⟩

/-- An entry of a pass that changed nothing and names a key. -/
def unchangedEntry (key : String) : Json :=
  .object [("name", .string "gvn"), ("changed", .bool false), ("ir_ref", .string key)]

/-- A payload whose first pass changed nothing and names another text than the initial one. -/
def misstatedPayload : Json :=
  payloadOf [(initialKey, .string (Packing.packLines ["a"])),
    ("1", .string (Packing.packLines ["b"]))] (["1", initialKey].map unchangedEntry)

/-- The session that it is read as. -/
def misstatedSession : Session where
  pipeline.initial := ["a"]
  pipeline.passes := [.inline ["b"], .sameAs 0].map fun reference =>
    { name := "gvn", scope := ⟨.unknown, none⟩, changed := false, reference }
  metadata.statistics := [("changed_count", .null), ("unchanged_count", .null)]

/-- The payload is accepted. -/
theorem decode_misstatedPayload :
    (decode (.text misstatedPayload.asciiLine)).outcome = .ok misstatedSession := by
  have hparse : readPayload (.text misstatedPayload.asciiLine) = pure misstatedPayload := by
    unfold readPayload
    dsimp only
    rw [Json.parse_asciiLine ?_ rfl]
    · rfl
    · simp [misstatedPayload, payloadOf, unchangedEntry, initialKey, Json.HasDistinctNames,
        Json.FieldsHaveDistinctNames, Json.ItemsHaveDistinctNames]
  have hsession : ofJson misstatedPayload = pure misstatedSession := by
    rw [misstatedPayload, ofJson_payloadOf]
    simp only [readTable, List.mapM_cons, List.mapM_nil, readEntry_packLines, pure_bind]
    rfl
  rw [decode, hparse, pure_bind, hsession, Reporting.outcome_pure]

/-- Its first pass is shown with a change, although it changed nothing; its second is not. -/
theorem before_eq_after_iff_of_decode_misstated :
    (decode (.text misstatedPayload.asciiLine)).outcome = .ok misstatedSession ∧
      ∃ v entries passes, (Payload.text misstatedPayload.asciiLine).Parses (.ok v) ∧
        HasParts v entries passes ∧
          ((Resolver.new misstatedSession.pipeline).before 1).lines = ["a"] ∧
          ((Resolver.new misstatedSession.pipeline).after 1).lines = ["b"] ∧
          ¬ StartsUnchanged entries passes ∧
          (Resolver.new misstatedSession.pipeline).ShowsNothing 2 := by
  obtain ⟨v, entries, passes, hparse, hparts, hshown⟩ :=
    before_eq_after_iff_of_decode decode_misstatedPayload
  have hserves := Resolver.new_serves misstatedSession.pipeline
  have hbefore : ((Resolver.new misstatedSession.pipeline).before 1).lines = ["a"] := rfl
  have hafter : ((Resolver.new misstatedSession.pipeline).after 1).lines = ["b"] := by
    decide +kernel
  refine ⟨decode_misstatedPayload, v, entries, passes, hparse, hparts, hbefore, hafter, ?_, ?_⟩
  · intro hstarts
    have hlines : ((Resolver.new misstatedSession.pipeline).before 1).lines =
        ((Resolver.new misstatedSession.pipeline).after 1).lines :=
      (hshown (k := 0) hserves rfl rfl).1.2 fun _ => hstarts
    rw [hbefore, hafter] at hlines
    exact absurd hlines (by decide)
  · exact (hshown (k := 1) hserves rfl rfl).2 (by simp)

end Session
end PassTrace

import PassTrace.Proofs.Codec.Gzip
import PassTrace.Proofs.Files.Changes
import PassTrace.Proofs.Session.Entries
import PassTrace.Proofs.Session.Table

/-!
# Session files read back

A pipeline that was saved in a file is restored by loading the file, for as long as the file has the
bytes that were written. Saving changes that file only.
-/

namespace PassTrace.Session

open Operation

/-- The bytes of the file of a session, if it can be written. -/
def contentAt (p : Path) (now : Binary64) (pipeline : Pipeline) (source compilation : Json.Fields) :
    Except Failure Bytes :=
  match encode now pipeline source compilation with
  | .error failure => .error failure
  | .ok payload => (fileBytes p now payload).mapError (·.2)

variable {p : Path} {now : Binary64} {pipeline : Pipeline} {source compilation : Json.Fields}
  {bytes : Bytes} {w w' : World}

/-- Saving changes the session's file only. -/
theorem altersOnly_saveFile (p : Path) (pipeline : Pipeline) (source compilation : Json.Fields) :
    AltersOnly {p} (saveFile p pipeline source compilation) := by
  have hwrite (bytes : Bytes) : AltersOnly {p}
      (do orFail (.sessionFile p.toString) (← writeBelow p bytes) : Operation Unit) :=
    (altersOnly_writeBelow p bytes).bind fun _ => altersOnly_orFail _ _
  refine (altersOnly_notifyAll _).bind fun _ => altersOnly_clock.bind fun now => ?_
  split
  · exact altersOnly_throw _
  · split
    · exact (hwrite _).bind fun _ => altersOnly_pure _
    · exact (hwrite _).bind fun _ => altersOnly_throw _

/-- What saving comes to: a session is written to its file, or the file is cut short because the
time does not fit into it, or no file is changed. -/
theorem run_saveFile_cases {result : Except Failure Nat}
    (h : (saveFile p pipeline source compilation).run.run w = (result, w')) :
    (∃ failure, result = .error failure ∧ w.AltersOnly ∅ w') ∨
      (∃ payload bytes failure, result = .error failure ∧
        encode w.now pipeline source compilation = .ok payload ∧
        fileBytes p w.now payload = .error (bytes, failure) ∧ w.AltersOnly {p} w' ∧
        w'.files.Stores p bytes) ∨
      ∃ bytes, result = .ok bytes.length ∧
        contentAt p w.now pipeline source compilation = .ok bytes ∧ w.AltersOnly {p} w' ∧
        w'.files.Stores p bytes ∧ p.holdsNull = false := by
  -- The notices come first. They change neither the files nor the time.
  rcases run_bind_cases h with ⟨failure, hfailed, rfl⟩ | ⟨_, w₁, hnotices, h⟩
  · have hquiet : w.AltersOnly ∅ _ := altersOnly_notifyAll (payloadNotices pipeline) w
    rw [hfailed] at hquiet
    exact .inl ⟨failure, rfl, hquiet⟩
  have hquiet : w.AltersOnly ∅ _ := altersOnly_notifyAll (payloadNotices pipeline) w
  rw [hnotices] at hquiet
  dsimp only at hquiet h
  rw [run_clock_bind, hquiet.now_eq] at h
  unfold contentAt
  cases hpayload : encode w.now pipeline source compilation with
  | error failure =>
    rw [hpayload] at h
    obtain ⟨rfl, rfl⟩ := Prod.mk.inj h
    exact .inl ⟨failure, rfl, hquiet⟩
  | ok payload =>
    rw [hpayload] at h
    dsimp only at h ⊢
    cases hbytes : fileBytes p w.now payload with
    | ok bytes =>
      rw [hbytes] at h
      rcases run_bind_cases h with ⟨failure, hfailed, rfl⟩ | ⟨_, w₂, hwrite, hreturn⟩
      · rcases run_orFail_writeBelow_cases hfailed with ⟨failure, -, hnone⟩ | ⟨hok, -⟩
        · exact .inl ⟨_, rfl, hquiet.trans hnone⟩
        · cases hok
      · obtain ⟨rfl, rfl⟩ := Prod.mk.inj hreturn
        rcases run_orFail_writeBelow_cases hwrite with
          ⟨failure, hfailed, -⟩ | ⟨-, halters, hnull, hstores⟩
        · cases hfailed
        · exact .inr (.inr ⟨bytes, rfl, rfl, hquiet.of_empty.trans halters, hstores, hnull⟩)
    | error cut =>
      obtain ⟨bytes, failure⟩ := cut
      rw [hbytes] at h
      rcases run_bind_cases h with ⟨failure, hfailed, rfl⟩ | ⟨_, w₂, hwrite, hthrow⟩
      · rcases run_orFail_writeBelow_cases hfailed with ⟨failure, -, hnone⟩ | ⟨hok, -⟩
        · exact .inl ⟨_, rfl, hquiet.trans hnone⟩
        · cases hok
      · obtain ⟨rfl, rfl⟩ := Prod.mk.inj hthrow
        rcases run_orFail_writeBelow_cases hwrite with ⟨failure, hfailed, -⟩ |
          ⟨-, halters, -, hstores⟩
        · cases hfailed
        · exact .inr (.inl ⟨payload, bytes, failure, rfl, rfl, hbytes,
            hquiet.of_empty.trans halters, hstores⟩)

/-- A session that was saved is in its file. -/
theorem stores_of_saveFile {size : Nat}
    (h : (saveFile p pipeline source compilation).run.run w = (.ok size, w')) :
    ∃ bytes, contentAt p w.now pipeline source compilation = .ok bytes ∧ size = bytes.length ∧
      w'.files.Stores p bytes ∧ p.holdsNull = false := by
  rcases run_saveFile_cases h with ⟨failure, hfailed, -⟩ | ⟨payload, bytes, failure, hfailed, -⟩ |
    ⟨bytes, hsize, hcontent, -, hstores, hnull⟩
  · cases hfailed
  · cases hfailed
  · exact ⟨bytes, hcontent, Except.ok.inj hsize, hstores, hnull⟩

/-- A session that was read has the time stamp of its payload. -/
theorem timestamp_of_ofJson {fields : Json.Fields} {session : Session}
    (h : ofJson (.object fields) = pure session) :
    session.metadata.timestamp = fields.get "timestamp" := by
  have houtcome : (ofJson (.object fields)).outcome = .ok session := by
    rw [h]
    rfl
  simp only [ofJson, bind_pure_comp, Reporting.outcome_bind_eq_ok, Reporting.outcome_map_eq_ok,
    Reporting.outcome_need_eq_ok] at houtcome
  obtain ⟨_, hfields, _, -, part, -, -, -, -, -, -, -, -, -, -, -, -, -, rfl⟩ := houtcome
  obtain rfl := Option.some.inj hfields
  rfl

/-- The bytes of a session's file restore the session. -/
theorem decode_contentAt (hnames : HasDistinctNames pipeline source compilation)
    (h : contentAt p now pipeline source compilation = .ok bytes) :
    ∃ payload session, (if isCompressed p then Gzip.decompress bytes = .ok payload
        else bytes = payload) ∧
      decode (.bytes payload) = pure session ∧ Restores pipeline session.pipeline ∧
      session.metadata.source = source ∧ session.metadata.compilation = compilation ∧
      session.metadata.timestamp = .float now := by
  unfold contentAt at h
  split at h
  · cases h
  · next text htext =>
    have hlimits := isWithinLimits_of_encode htext
    have hline := encode_of_isWithinLimits now pipeline source compilation hlimits
    obtain rfl := Except.ok.inj (hline.symm.trans htext)
    obtain ⟨session, hdecode, hrestores, hsource, hcompilation⟩ :=
      decode_line now pipeline source compilation hnames hlimits
    have htimestamp : session.metadata.timestamp = .float now := by
      have hdecode' := hdecode
      unfold decode at hdecode'
      rw [readPayload_line now pipeline source compilation hnames hlimits, pure_bind] at hdecode'
      exact timestamp_of_ofJson hdecode'
    refine ⟨_, session, ?_, hdecode, hrestores, hsource, hcompilation, htimestamp⟩
    unfold fileBytes at h
    dsimp only at h
    split at h
    · next hcompressed =>
      rw [if_pos hcompressed]
      split at h
      · cases h
      · split at h
        · cases h
        · obtain rfl := Except.ok.inj h
          exact Gzip.decompress_compress p.name _ _
    · next hcompressed =>
      rw [if_neg hcompressed]
      exact (Except.ok.inj h).symm

theorem run_report_pure {α : Type} (a : α) (w : World) :
    (report (pure a)).run.run w = (.ok a, w) := rfl

/-- A file that has the bytes of a session is loaded as that session. -/
theorem run_loadFile (hnames : HasDistinctNames pipeline source compilation)
    (h : contentAt p now pipeline source compilation = .ok bytes) (hstores : w.files.Stores p bytes)
    (hnull : p.holdsNull = false) :
    ∃ session, (loadFile p).run.run w = (.ok session, w) ∧ Restores pipeline session.pipeline ∧
      session.metadata.source = source ∧ session.metadata.compilation = compilation ∧
      session.metadata.timestamp = .float now := by
  obtain ⟨payload, session, hpayload, hdecode, hsession⟩ := decode_contentAt hnames h
  refine ⟨session, ?_, hsession⟩
  have hcontents : (contents p).run.run w = (.ok (.ok bytes), w) := by
    unfold contents
    rw [run_bind, run_usable, hnull]
    exact congrArg (fun result => (Except.ok result, w)) hstores.read
  unfold loadFile
  rw [run_bind, hcontents]
  dsimp only
  split at hpayload
  · next hcompressed =>
    rw [if_pos hcompressed, hpayload]
    dsimp only
    rw [hdecode, run_report_pure]
  · next hcompressed =>
    rw [if_neg hcompressed, hpayload, hdecode, run_report_pure]

end PassTrace.Session

import PassTrace.Proofs.Files.Changes
import PassTrace.Proofs.Inspector.Loading
import PassTrace.Proofs.Text.Utf8

/-!
# Traces in files

The text of a trace file comes with its line ends replaced: each carriage return, and each carriage
return with a line feed behind it, by one line feed. Lines end there all the same, so that a trace
is read from a file in UTF-8 as from its text.
-/

namespace PassTrace

namespace Text

/-- A character that makes no line end together with the next one ends a line alone, or none. -/
theorem linesFrom_cons (line : List Char) {c : Char} {rest : List Char}
    (hpair : ∀ tail, c = '\r' → rest = '\n' :: tail → False) :
    linesFrom line (c :: rest) =
      if isLineEnd c then line.reverse :: linesFrom [] rest else linesFrom (c :: line) rest := by
  rw [linesFrom]
  exact hpair

/-- A text has the same lines when its line ends are replaced by line feeds. -/
theorem linesFrom_unifyLineFeeds (line cs : List Char) :
    linesFrom line (unifyLineFeeds cs) = linesFrom line cs := by
  -- The cases are those of the replacement. No line feed that it makes follows a carriage return.
  induction cs using unifyLineFeeds.induct generalizing line with
  | case1 => rfl
  | case2 rest ih =>
    have hfeed : linesFrom line ('\n' :: unifyLineFeeds rest) =
        line.reverse :: linesFrom [] (unifyLineFeeds rest) := rfl
    have hboth : linesFrom line ('\r' :: '\n' :: rest) = line.reverse :: linesFrom [] rest := rfl
    rw [unifyLineFeeds, hfeed, hboth, ih]
  | case3 c rest hpair ih =>
    have hunified : unifyLineFeeds (c :: rest) =
        (if c = '\r' then '\n' else c) :: unifyLineFeeds rest := by
      rw [unifyLineFeeds]
      exact hpair
    rw [hunified, linesFrom_cons line hpair]
    by_cases hreturn : c = '\r'
    · subst hreturn
      have hfeed : linesFrom line ('\n' :: unifyLineFeeds rest) =
          line.reverse :: linesFrom [] (unifyLineFeeds rest) := rfl
      exact hfeed.trans (congrArg _ (ih []))
    · rw [if_neg hreturn, linesFrom_cons line fun _ h => absurd h hreturn, ih, ih]

theorem lines_unifyLineFeeds (cs : List Char) :
    lines (String.ofList (unifyLineFeeds cs)) = lines (String.ofList cs) := by
  unfold lines
  rw [String.toList_ofList, String.toList_ofList, linesFrom_unifyLineFeeds]

/-- A text is read back from its bytes, with nothing to be replaced. -/
theorem decodeUtf8Lenient_utf8 (s : String) : decodeUtf8Lenient (utf8 s) = s.toList := by
  unfold decodeUtf8Lenient utf8
  rw [utf8Pieces_encodeUtf8, List.map_map]
  exact List.map_id _

end Text

/-- The bytes of a trace file tell the pipeline that their text tells, whatever ends its lines. -/
theorem Trace.read_textOfBytes (bytes : Bytes) :
    read (textOfBytes bytes) = read (String.ofList (Text.decodeUtf8Lenient bytes)) := by
  unfold read textOfBytes
  rw [Text.lines_unifyLineFeeds]

namespace Inspection

/-- A trace file that is read is loaded as the text that its bytes tell. -/
theorem run_loadTraceFile {p : Path} {bytes : Bytes} {w : World} (hnull : p.holdsNull = false)
    (hbytes : w.files.read p = .ok bytes) (i : Inspector) :
    (loadTraceFile p).run.run (i, w) = (loadTrace (Trace.textOfBytes bytes)).run.run (i, w) := by
  have hfile : (do Operation.orFail .file (← Operation.contents p) : Operation Bytes).run.run w =
      (.ok bytes, w) := by
    rw [Operation.run_bind, Operation.run_contents, hnull, hbytes]
    rfl
  have hload : (loadTraceFile p).run.run (i, w) =
      (ofOperation (do Operation.orFail .file (← Operation.contents p)) >>= fun bytes =>
        loadTrace (Trace.textOfBytes bytes)).run.run (i, w) := rfl
  rw [hload, run_ofOperation_bind, hfile]

/-- A trace is read from a file in UTF-8 as from its text: the same pipeline is found, the same is
counted on the way, and the inspector is left the same. -/
theorem loadTraceFile_utf8 (text : String) :
    Trace.read (Trace.textOfBytes (Text.utf8 text)) = Trace.read text ∧
      ∀ (i : Inspector) (w : World) (p : Path), p.holdsNull = false →
        w.files.read p = .ok (Text.utf8 text) →
        (loadTraceFile p).run.run (i, w) = (loadTrace text).run.run (i, w) := by
  have hread : Trace.read (Trace.textOfBytes (Text.utf8 text)) = Trace.read text := by
    rw [Trace.read_textOfBytes, Text.decodeUtf8Lenient_utf8, String.ofList_toList]
  refine ⟨hread, fun i w p hnull hbytes => ?_⟩
  have hload : loadTrace (Trace.textOfBytes (Text.utf8 text)) = loadTrace text := by
    unfold loadTrace
    rw [hread]
  rw [run_loadTraceFile hnull hbytes, hload]

/-- A trace with line ends of several kinds: carriage returns before a line feed, alone, and twice,
and a separator behind one. -/
def mixedTrace : String :=
  "\uFEFF; *** IR Dump At Start ***\r\ndefine void @f() \x7b\r\x7d\r\r\n" ++
    "*** IR Dump After A on f ***\r\u2028ret void\x0b\n\r\x7d\x85"

/-- The trace is loaded from a file as from its text. -/
theorem loadTraceFile_utf8_mixed :
    let w : World :=
      { files := ⟨[(["home"], .directory), (["home", "t"], .file (Text.utf8 mixedTrace) .zero)],
          ["home"]⟩, now := .zero }
    Path.holdsNull ⟨.work, ["t"]⟩ = false ∧
      w.files.read ⟨.work, ["t"]⟩ = .ok (Text.utf8 mixedTrace) ∧
      (loadTraceFile ⟨.work, ["t"]⟩).run.run (.new {}, w) =
        (loadTrace mixedTrace).run.run (.new {}, w) := by
  intro w
  have hnull : Path.holdsNull ⟨.work, ["t"]⟩ = false := by decide
  have hbytes : w.files.read ⟨.work, ["t"]⟩ = .ok (Text.utf8 mixedTrace) := rfl
  exact ⟨hnull, hbytes, (loadTraceFile_utf8 mixedTrace).2 (.new {}) w ⟨.work, ["t"]⟩ hnull hbytes⟩

end Inspection
end PassTrace

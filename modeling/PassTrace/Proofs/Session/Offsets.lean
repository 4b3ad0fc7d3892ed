import PassTrace.Proofs.Session.Parts
import PassTrace.Proofs.Text.Utf8

/-!
# Where a payload is no JSON

A payload of bytes that is no JSON is refused with a position. The position counts characters up to
the fault, so that it is that of a byte only where all characters before the fault are ASCII.
Numbers with too many digits and values that are nested too deeply make a payload fail without a
position.
-/

namespace PassTrace

namespace Json

variable {cs : List Char} {fault : SyntaxFault} {place : Place}

theorem Place.position_before_le (cs : List Char) (remaining : Nat) :
    (Place.before cs remaining).position ≤ cs.length :=
  Nat.sub_le _ _

/-- A syntax fault lies in the text. -/
theorem position_le_of_parseUnmarked (h : parseUnmarked cs = .error (.badSyntax fault place)) :
    place.position ≤ cs.length := by
  unfold parseUnmarked at h
  split at h
  · next trouble _ =>
    cases trouble with
    | badSyntax =>
      obtain ⟨-, rfl⟩ := Fault.badSyntax.inj (Except.error.inj h)
      exact Place.position_before_le _ _
    | badInteger => cases Except.error.inj h
    | tooDeep => cases Except.error.inj h
  · split at h
    · cases h
    · obtain ⟨-, rfl⟩ := Fault.badSyntax.inj (Except.error.inj h)
      exact Place.position_before_le _ _

end Json

namespace Session

variable {cs : List Char}

/-- What a fault of a payload comes to. -/
def failureOf : Json.Fault → Failure
  | .badSyntax fault place => .corrupt (.badJson fault) place.position
  | .badInteger fault => .integer fault
  | .tooDeep kind => .tooDeep kind

/-- A payload that is read as a text which is no JSON fails with the fault of the text. -/
theorem outcome_decode_of_fault {bytes : Bytes} {fault : Json.Fault}
    (hread : Text.decodeAny bytes = .ok cs) (hfault : Json.parseUnmarked cs = .error fault) :
    (decode (.bytes bytes)).outcome = .error (failureOf fault) := by
  have hpayload : readPayload (.bytes bytes) = throw (failureOf fault) := by
    unfold readPayload
    simp only [hread, hfault]
    cases fault <;> rfl
  unfold decode
  rw [hpayload]
  rfl

/-- A payload fails with an offset that marks the place in its bytes where its text stops being
JSON: the bytes before the offset are those of the characters before the fault. -/
def MarksFault (cs : List Char) : Prop :=
  ∃ damage offset fault place,
    (decode (.bytes (Text.encodeUtf8 cs))).outcome = .error (.corrupt damage (some offset)) ∧
      Json.parseUnmarked cs = .error (.badSyntax fault place) ∧
      (Text.encodeUtf8 cs).take offset = Text.encodeUtf8 (cs.take place.position)

/-- A payload in UTF-8 that is taken for such, and is no JSON, fails with the fault of its text. It
is refused with an offset that marks the fault exactly if the fault is one of syntax and all
characters before it are ASCII. -/
theorem marksFault_iff (hread : Text.decodeAny (Text.encodeUtf8 cs) = .ok cs) :
    (∀ fault, Json.parseUnmarked cs = .error fault →
      (decode (.bytes (Text.encodeUtf8 cs))).outcome = .error (failureOf fault)) ∧
    (MarksFault cs ↔ ∃ fault place, Json.parseUnmarked cs = .error (.badSyntax fault place) ∧
      ∀ c ∈ cs.take place.position, c.toNat < 0x80) := by
  refine ⟨fun fault => outcome_decode_of_fault hread, ?_, ?_⟩
  · rintro ⟨damage, offset, fault, place, hrefused, hfault, hoffset⟩
    refine ⟨fault, place, hfault, ?_⟩
    rw [outcome_decode_of_fault hread hfault] at hrefused
    obtain ⟨-, hposition⟩ := Failure.corrupt.inj (Except.error.inj hrefused)
    obtain rfl := Option.some.inj hposition
    exact (Text.take_encodeUtf8_eq_iff (Json.position_le_of_parseUnmarked hfault)).mp hoffset
  · rintro ⟨fault, place, hfault, hascii⟩
    have hle := Json.position_le_of_parseUnmarked hfault
    exact ⟨_, _, fault, place, outcome_decode_of_fault hread hfault, hfault,
      (Text.take_encodeUtf8_eq_iff hle).mpr hascii⟩

/-- A string with an accent, and a letter behind it that belongs to no value. -/
def accentedText : List Char := ['"', 'é', '"', 'x']

/-- The letter is the fourth character and the fifth byte. The payload is refused with the position
of the character, which does not mark the letter. -/
theorem marksFault_iff_accented :
    Text.decodeAny (Text.encodeUtf8 accentedText) = .ok accentedText ∧
      (decode (.bytes (Text.encodeUtf8 accentedText))).outcome =
        .error (.corrupt (.badJson .extraData) (some 3)) ∧
      (Text.encodeUtf8 (accentedText.take 3)).length = 4 ∧ ¬ MarksFault accentedText := by
  have hread : Text.decodeAny (Text.encodeUtf8 accentedText) = .ok accentedText := by decide
  have hfault : Json.parseUnmarked accentedText = .error (.badSyntax .extraData ⟨3, 1, 4⟩) := by cbv
  obtain ⟨hrefused, hmarks⟩ := marksFault_iff hread
  refine ⟨hread, hrefused _ hfault, by decide, fun h => ?_⟩
  obtain ⟨fault, place, hplace, hascii⟩ := hmarks.mp h
  obtain ⟨-, rfl⟩ := Json.Fault.badSyntax.inj (Except.error.inj (hfault.symm.trans hplace))
  exact absurd (hascii 'é' (by decide)) (by decide)

end Session
end PassTrace

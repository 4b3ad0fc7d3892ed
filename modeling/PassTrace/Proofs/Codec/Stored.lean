import Mathlib.Tactic.Ring
import PassTrace.Codec.Zlib
import PassTrace.Proofs.Reads

/-!
# Stored streams read back

The bits of a byte are read as the byte, so that a stream of stored blocks gives back
the bytes that were put in it. A compressed stream is one that gives them back, or such
a stream.
-/

namespace PassTrace

namespace Deflate

/-- The bits of one byte, the lowest first. -/
def byteBits (b : UInt8) : List Bool :=
  (List.range 8).map fun k => b.toNat.testBit k

/-- The bits of bytes are those of the first and those of the others. -/
theorem bitsOf_cons (b : UInt8) (bytes : Bytes) : bitsOf (b :: bytes) =
    byteBits b ++ bitsOf bytes :=
  rfl

/-- The bits of bytes in a row. -/
theorem bitsOf_append (bytes more : Bytes) : bitsOf (bytes ++ more) = bitsOf bytes ++ bitsOf more :=
  List.flatMap_append

/-- The number of the bits of a byte is the byte. -/
theorem ofBits_byteBits (b : UInt8) : ofBits (byteBits b) = b.toNat := by
  have hall : ∀ n < 256, ofBits ((List.range 8).map fun k => n.testBit k) = n := by decide +kernel
  exact hall b.toNat b.toNat_lt

/-- The number of bits in a row. -/
theorem ofBits_append (bits more : List Bool) :
    ofBits (bits ++ more) = ofBits bits + 2 ^ bits.length * ofBits more := by
  induction bits with
  | nil => simp [ofBits]
  | cons bit bits ih =>
    rw [List.cons_append, ofBits, ofBits, ih, List.length_cons, Nat.pow_succ]
    ring

/-- Bits are read as their number. -/
theorem take?_append (bits rest : List Bool) :
    Reads (take? bits.length (bits ++ rest)) (ofBits bits) rest := by
  induction bits with
  | nil => exact ⟨Nat.le_refl _, rfl⟩
  | cons bit bits ih =>
    obtain ⟨h, ih⟩ := ih
    change Reads (take? (bits.length + 1) (bit :: (bits ++ rest))) (ofBits (bit :: bits)) rest
    refine ⟨Nat.le_succ_of_le h, ?_⟩
    rw [take?, ih]
    rfl

/-- Bytes are read back from their bits. -/
theorem bytesOf_bitsOf (bytes : Bytes) : bytesOf (bitsOf bytes) = bytes := by
  induction bytes with
  | nil => rfl
  | cons b bytes ih =>
    have hbyte : bytesOf (bitsOf (b :: bytes)) =
        UInt8.ofNat (ofBits (byteBits b)) :: bytesOf (bitsOf bytes) := rfl
    rw [hbyte, ih, ofBits_byteBits, UInt8.ofNat_toNat]

/-- The bytes of a stored block are read behind those already read. -/
theorem readBytes_bitsOf {limit : Nat} {bytes : Bytes} (out : Array UInt8) {bits rest : List Bool}
    (heq : bits = bitsOf bytes ++ rest) (hbits : bits.length ≤ limit) :
    Reads (readBytes limit bytes.length out bits hbits) (out ++ bytes) rest := by
  subst heq
  induction bytes generalizing out with
  | nil => exact ⟨hbits, by simp [readBytes, bitsOf]⟩
  | cons b bytes ih =>
    have hbyte := take?_append (byteBits b) (bitsOf bytes ++ rest)
    rw [ofBits_byteBits] at hbyte
    obtain ⟨h, hbyte⟩ := hbyte
    change (byteBits b ++ (bitsOf bytes ++ rest)).length ≤ limit at hbits
    change Reads (readBytes limit (bytes.length + 1) out
      (byteBits b ++ (bitsOf bytes ++ rest)) hbits) _ rest
    change take? 8 (byteBits b ++ (bitsOf bytes ++ rest)) = _ at hbyte
    obtain ⟨h', ih⟩ := ih (out.push b) (by omega)
    refine ⟨h', ?_⟩
    rw [readBytes]
    simp only [hbyte, UInt8.ofNat_toNat, ih]
    simp

/-- The bits left of a byte are skipped. -/
theorem alignToByte_append (left : List Bool) (hleft : left.length < 8) (bytes : Bytes) :
    alignToByte (left ++ bitsOf bytes) = bitsOf bytes := by
  have hlength : (left ++ bitsOf bytes).length % 8 = left.length := by
    rw [List.length_append, length_bitsOf]
    omega
  unfold alignToByte
  rw [hlength, List.drop_left]

/-- A number below `2 ^ 16` is that of its two bytes. -/
theorem ofBits_littleEndian16 {n : Nat} (hn : n < 0x10000) :
    ofBits (bitsOf (littleEndian16 n)) = n := by
  have hlow : (UInt8.ofNat n).toNat = n % 0x100 := UInt8.toNat_ofNat'
  have hhigh : (UInt8.ofNat (n / 0x100)).toNat = n / 0x100 := by
    rw [UInt8.toNat_ofNat']
    omega
  have hbits : bitsOf (littleEndian16 n) =
      byteBits (UInt8.ofNat n) ++ byteBits (UInt8.ofNat (n / 0x100)) := rfl
  have hlength : (byteBits (UInt8.ofNat n)).length = 8 := rfl
  rw [hbits, ofBits_append, hlength, ofBits_byteBits, ofBits_byteBits, hlow, hhigh]
  omega

/-- The lengths in front of a stored block: its length, and what that lacks to `2 ^ 16 - 1`. -/
def lengthBytes (length : Nat) : Bytes :=
  littleEndian16 length ++ littleEndian16 (0xffff - length)

/-- The lengths in front of a stored block are read as one number. -/
theorem ofBits_lengthBytes {length : Nat} (hlength : length ≤ 0xffff) :
    ofBits (bitsOf (lengthBytes length)) = length + 0x10000 * (0xffff - length) := by
  have hsize : (bitsOf (littleEndian16 length)).length = 16 := rfl
  rw [lengthBytes, bitsOf_append, ofBits_append, hsize, ofBits_littleEndian16 (by omega),
    ofBits_littleEndian16 (by omega)]
  rfl

/-- The contents of a stored block are read behind the bytes already read, from the bits left of its
first byte on. -/
theorem readStored_append {bytes : Bytes} (hbytes : bytes.length ≤ 0xffff) (out : Array UInt8)
    (left : List Bool) (hleft : left.length < 8) (rest : Bytes) :
    Reads (readStored out (left ++ bitsOf (lengthBytes bytes.length ++ (bytes ++ rest))))
      (out ++ bytes) (bitsOf rest) := by
  have haligned := alignToByte_append left hleft (lengthBytes bytes.length ++ (bytes ++ rest))
  have hlengths := take?_append (bitsOf (lengthBytes bytes.length)) (bitsOf (bytes ++ rest))
  rw [ofBits_lengthBytes hbytes, ← bitsOf_append, ← haligned] at hlengths
  obtain ⟨h, hlengths⟩ := hlengths
  have hsize : (bitsOf (lengthBytes bytes.length)).length = 32 := rfl
  rw [hsize] at hlengths
  have hlength : (bytes.length + 0x10000 * (0xffff - bytes.length)) % 0x10000 = bytes.length := by
    omega
  have hlack : (bytes.length + 0x10000 * (0xffff - bytes.length)) / 0x10000 =
      0xffff - bytes.length := by
    omega
  have hcheck : ¬ bytes.length + (0xffff - bytes.length) ≠ 0xffff := by omega
  unfold readStored
  simp only [hlengths, bind, Except.bind, hlength, hlack, if_neg hcheck]
  exact readBytes_bitsOf out (bitsOf_append bytes rest) _

/-- The bits of a stored block: whether it is the last, two that tell its type, and five that are
not used. -/
theorem bitsOf_storedBlock (last : Bool) (bytes rest : Bytes) :
    bitsOf (storedBlock last bytes ++ rest) =
      last :: ([false, false] ++ (List.replicate 5 false ++
        bitsOf (lengthBytes bytes.length ++ (bytes ++ rest)))) := by
  have hhead : byteBits (if last then 1 else 0) = last :: List.replicate 7 false := by
    cases last <;> rfl
  have hblock : storedBlock last bytes ++ rest =
      (if last then 1 else 0) :: (lengthBytes bytes.length ++ (bytes ++ rest)) := by
    simp [storedBlock, lengthBytes]
  rw [hblock, bitsOf_cons, hhead]
  rfl

section Blocks

variable {limit : Nat} {bytes rest : Bytes} {bits : List Bool} (out : Array UInt8)

/-- The type of a stored block and its contents are read from the bits behind its first. -/
theorem readContents_stored (hbytes : bytes.length ≤ 0xffff) (rest : Bytes) :
    let left := List.replicate 5 false ++ bitsOf (lengthBytes bytes.length ++ (bytes ++ rest))
    Reads (take? 2 ([false, false] ++ left)) 0 left ∧
      Reads (readContents 0 out left) (out ++ bytes) (bitsOf rest) :=
  ⟨take?_append [false, false] _, readStored_append hbytes out (List.replicate 5 false) (by decide)
    rest⟩

/-- The last block of a stream. -/
theorem readBlocks_last (hbytes : bytes.length ≤ 0xffff)
    (heq : bits = bitsOf (storedBlock true bytes ++ rest)) (hbits : bits.length ≤ limit) :
    Reads (readBlocks limit out bits hbits) (out ++ bytes) (bitsOf rest) := by
  have hsize : (bitsOf rest).length ≤ bits.length := by
    rw [heq, bitsOf_append, List.length_append]
    omega
  have haligned : alignToByte (bitsOf rest) = bitsOf rest := alignToByte_append [] (by decide) rest
  rw [bitsOf_storedBlock] at heq
  subst heq
  obtain ⟨⟨htype, htake⟩, hcontents, hread⟩ := readContents_stored out hbytes rest
  refine ⟨by omega, ?_⟩
  rw [readBlocks]
  simp only [htake, hread, bind, Except.bind, if_true, haligned]
  rfl

/-- A block of a stream with more behind it. -/
theorem readBlocks_more (hbytes : bytes.length ≤ 0xffff)
    (heq : bits = bitsOf (storedBlock false bytes ++ rest)) (hbits : bits.length ≤ limit) :
    ∃ hrest, readBlocks limit out bits hbits =
      readBlocks limit (out ++ bytes) (bitsOf rest) hrest := by
  have hsize : (bitsOf rest).length ≤ bits.length := by
    rw [heq, bitsOf_append, List.length_append]
    omega
  rw [bitsOf_storedBlock] at heq
  subst heq
  obtain ⟨⟨htype, htake⟩, hcontents, hread⟩ := readContents_stored out hbytes rest
  refine ⟨by omega, ?_⟩
  rw [readBlocks]
  simp only [htake, hread, bind, Except.bind]
  rfl

end Blocks

/-- A stream of stored blocks is read as the bytes put in it, up to its end. -/
theorem readBlocks_store {limit : Nat} (out : Array UInt8) (bytes rest : Bytes) {bits : List Bool}
    (heq : bits = bitsOf (store bytes ++ rest)) (hbits : bits.length ≤ limit) :
    Reads (readBlocks limit out bits hbits) (out ++ bytes) (bitsOf rest) := by
  fun_induction store bytes generalizing out bits with
  | case1 bytes hsmall => exact readBlocks_last out hsmall heq hbits
  | case2 bytes hlarge ih =>
    rw [List.append_assoc] at heq
    have htake : (bytes.take 0xffff).length ≤ 0xffff := List.length_take_le _ _
    obtain ⟨hrest, hmore⟩ := readBlocks_more out htake heq hbits
    rw [hmore]
    have hjoin : out ++ bytes.take 0xffff ++ bytes.drop 0xffff = out ++ bytes := by
      rw [← Array.toList_inj]
      simp
    rw [← hjoin]
    exact ih (out ++ bytes.take 0xffff) rfl hrest

/-- The output of a stream of stored blocks is the bytes put in it, and what follows is kept. -/
theorem inflate_store (bytes rest : Bytes) : Reads (inflate (store bytes ++ rest)) bytes rest := by
  obtain ⟨h, hread⟩ := readBlocks_store #[] bytes rest rfl (Nat.le_refl _)
  refine ⟨by simp, ?_⟩
  unfold inflate
  simp only [hread, bind, Except.bind, bytesOf_bitsOf]
  simp [pure, Except.pure]

end Deflate

/-- The two sums of Adler-32 with one more byte. -/
def adlerNext (sums : Nat × Nat) (byte : UInt8) : Nat × Nat :=
  ((sums.1 + byte.toNat) % 65521, (sums.2 + (sums.1 + byte.toNat) % 65521) % 65521)

theorem adler32_eq (bytes : Bytes) : adler32 bytes =
    (bytes.foldl adlerNext (1, 0)).2 * 0x10000 + (bytes.foldl adlerNext (1, 0)).1 := rfl

/-- The sums of Adler-32 stay below its prime. -/
theorem adler32_lt (bytes : Bytes) : adler32 bytes < 0x100000000 := by
  have hsums (sums : Nat × Nat) (hsums : sums.1 < 65521 ∧ sums.2 < 65521) :
      (bytes.foldl adlerNext sums).1 < 65521 ∧ (bytes.foldl adlerNext sums).2 < 65521 := by
    induction bytes generalizing sums with
    | nil => exact hsums
    | cons byte bytes ih =>
      exact ih _ ⟨Nat.mod_lt _ (by decide), Nat.mod_lt _ (by decide)⟩
  obtain ⟨hfirst, hsecond⟩ := hsums (1, 0) (by decide)
  rw [adler32_eq]
  omega

namespace Zlib

/-- A number below `2 ^ 32` is that of its four bytes. -/
theorem word_wordBytes {n : Nat} (hn : n < 0x100000000) :
    word (UInt8.ofNat (n / 0x1000000)) (UInt8.ofNat (n / 0x10000)) (UInt8.ofNat (n / 0x100))
      (UInt8.ofNat n) = n := by
  simp only [word, UInt8.toNat_ofNat']
  omega

/-- Bytes are read back from the stream that stores them. -/
theorem decompress_store (bytes : Bytes) : decompress (store bytes) = .ok bytes := by
  obtain ⟨h, hread⟩ := Deflate.inflate_store bytes (wordBytes (adler32 bytes))
  have hhead : ¬ ((0x78 : UInt8).toNat * 0x100 + (0x01 : UInt8).toNat) % 31 ≠ 0 := by decide
  have hmethod : ¬ (0x78 : UInt8).toNat % 16 ≠ 8 := by decide
  have hwindow : ¬ 7 < (0x78 : UInt8).toNat / 16 := by decide
  have hdictionary : ¬ (0x01 : UInt8).toNat.testBit 5 = true := by decide
  unfold decompress store
  dsimp only
  rw [if_neg hhead, if_neg hmethod, if_neg hwindow, if_neg hdictionary, hread]
  exact if_pos (word_wordBytes (adler32_lt bytes))

/-- Bytes are read back from the stream that they are compressed to. -/
theorem decompress_compress (bytes : Bytes) : decompress (compress bytes) = .ok bytes := by
  rcases compress_eq_store_or bytes with hstored | hread
  · rw [hstored]
    exact decompress_store bytes
  · exact hread

end Zlib
end PassTrace

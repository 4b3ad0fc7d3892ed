import PassTrace.Codec.Gzip
import PassTrace.Proofs.Codec.Stored

/-!
# Gzip files read back

A file that is made of some bytes is read as these bytes. Either it was read again when it was made,
or the bytes are stored in it.
-/

namespace PassTrace

/-- A number is that of its four bytes, up to a multiple of `2 ^ 32`. -/
theorem Zlib.word_wordBytes_mod (n : Nat) :
    word (UInt8.ofNat (n / 0x1000000)) (UInt8.ofNat (n / 0x10000)) (UInt8.ofNat (n / 0x100))
      (UInt8.ofNat n) = n % 0x100000000 := by
  simp only [word, UInt8.toNat_ofNat']
  omega

theorem crc32_lt (bytes : Bytes) : crc32 bytes < 0x100000000 := by
  unfold crc32
  exact UInt32.toNat_lt _

namespace Gzip

/-- A name without zero bytes ends at the zero byte behind it. -/
theorem afterZero_append {name : Bytes} (hname : 0 ∉ name) (rest : Bytes) :
    afterZero (name ++ 0 :: rest) = rest := by
  induction name with
  | nil => rfl
  | cons b name ih =>
    obtain ⟨hb, hname⟩ := not_or.mp (List.mem_cons.not.mp hname)
    rw [List.cons_append, afterZero, if_neg (Ne.symm hb), ih hname]

/-- No zero byte stands in the name of a file. -/
theorem zero_not_mem_nameBytes (name : String) : 0 ∉ nameBytes name := by
  unfold nameBytes
  dsimp only
  split
  next hall =>
    intro hzero
    obtain ⟨c, hc, hzero⟩ := List.mem_map.mp hzero
    have hmem : c ∈ name.toList := by
      split at hc
      · exact List.mem_of_mem_take hc
      · exact hc
    have hbounds := List.all_eq_true.mp hall c hmem
    simp only [Bool.and_eq_true, decide_eq_true_eq] at hbounds
    have hbyte := congrArg UInt8.toNat hzero
    rw [UInt8.toNat_ofNat'] at hbyte
    have hvalue : c.toNat % 2 ^ 8 = 0 := hbyte
    omega
  next => exact List.not_mem_nil

/-- The name in a head, if there is one, is skipped. -/
theorem skipOptional_name {name : Bytes} (hname : 0 ∉ name) (rest : Bytes) :
    ∃ h, skipOptional (if name.isEmpty then (0 : UInt8) else 8).toNat
      ((if name.isEmpty then [] else name ++ [0]) ++ rest) = .ok ⟨rest, h⟩ := by
  cases name with
  | nil => exact ⟨Nat.le_refl _, rfl⟩
  | cons b name =>
    have hskip : afterZero ((b :: name) ++ 0 :: rest) = rest := afterZero_append hname rest
    have hbytes : (if (b :: name).isEmpty then [] else (b :: name) ++ [0]) ++ rest =
        (b :: name) ++ 0 :: rest := by
      simp
    have hle : rest.length ≤ ((b :: name) ++ 0 :: rest).length := by
      simp only [List.length_append, List.length_cons]
      omega
    have hflags : (if (b :: name).isEmpty then (0 : UInt8) else 8).toNat = 8 := rfl
    rw [hbytes, hflags]
    refine ⟨hle, ?_⟩
    have hbits : Nat.testBit 8 2 = false ∧ Nat.testBit 8 3 = true ∧ Nat.testBit 8 4 = false ∧
        Nat.testBit 8 1 = false := by decide
    unfold skipOptional
    simp only [hbits, Bool.false_eq_true, if_false, if_true, bind, Except.bind, pure, Except.pure,
      hskip]

/-- Stored bytes are read from the contents of a member with their check sum and length. -/
theorem readContents_store (bytes : Bytes) :
    ∃ h, readContents (Deflate.store bytes ++ ((Zlib.wordBytes (crc32 bytes)).reverse ++
      (Zlib.wordBytes bytes.length).reverse)) = .ok (bytes, ⟨[], h⟩) := by
  obtain ⟨hlt, hread⟩ := Deflate.inflate_store bytes
    ((Zlib.wordBytes (crc32 bytes)).reverse ++ (Zlib.wordBytes bytes.length).reverse)
  have hcheck := Zlib.word_wordBytes (crc32_lt bytes)
  have hlength := Zlib.word_wordBytes_mod bytes.length
  refine ⟨Nat.zero_le _, ?_⟩
  unfold readContents
  rw [hread]
  simp only [Zlib.wordBytes, List.reverse_cons, List.reverse_nil, List.nil_append, List.cons_append]
  rw [if_neg (not_not.mpr hcheck), if_neg (not_not.mpr hlength)]

/-- Bytes are read back from the file that stores them. -/
theorem decompress_store (name : String) (time : UInt32) (bytes : Bytes) :
    decompress (store name time bytes) = .ok bytes := by
  let rest := Deflate.store bytes ++ ((Zlib.wordBytes (crc32 bytes)).reverse ++
    (Zlib.wordBytes bytes.length).reverse)
  obtain ⟨hskip, hname⟩ := skipOptional_name (zero_not_mem_nameBytes name) rest
  obtain ⟨hcontents, hread⟩ : ∃ h, readContents rest = .ok (bytes, ⟨[], h⟩) :=
    readContents_store bytes
  have hfile : store name time bytes =
      [0x1f, 0x8b, 8, if (nameBytes name).isEmpty then 0 else 8] ++
        ((Zlib.wordBytes time.toNat).reverse ++ ([2, 0xff] ++
          ((if (nameBytes name).isEmpty then [] else nameBytes name ++ [0]) ++ rest))) := by
    simp [store, enclose, headStart, rest]
  unfold decompress
  rw [hfile]
  simp only [Zlib.wordBytes, List.reverse_cons, List.reverse_nil, List.nil_append, List.cons_append]
  rw [readMembers]
  simp only [hname, hread, bind, Except.bind, ne_eq, not_true_eq_false, if_false,
    List.dropWhile_nil, readMembers, pure, Except.pure, List.append_nil]

/-- Bytes are read back from the file that they are compressed to. -/
theorem decompress_compress (name : String) (time : UInt32) (bytes : Bytes) :
    decompress (compress name time bytes) = .ok bytes := by
  rcases compress_eq_store_or name time bytes with hstored | hread
  · rw [hstored]
    exact decompress_store name time bytes
  · exact hread

end Gzip
end PassTrace

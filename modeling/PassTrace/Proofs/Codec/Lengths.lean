import PassTrace.Json.Printer
import PassTrace.Proofs.Codec.Stored
import PassTrace.Session.Packing

/-!
# How long texts become

A block of a compressed stream takes no more room than its bytes as they are, up to a few bytes
around them. As there are no more blocks than bytes, a stream is at most a few times as long as what
it holds, and so is a packed text. Characters take a few bytes, or a few characters in a string of
JSON text.
-/

namespace PassTrace

namespace Deflate

/-- A block is not longer than its bytes as they are. -/
theorem length_blockBits_le (last : Bool) (written : Nat) (items : List Item) (bytes : Bytes) :
    (blockBits last written items bytes).length ≤ 8 * bytes.length + 48 := by
  simp only [blockBits]
  split
  · have hpadding : (padding (written + (BlockType.stored.head last).length)).length ≤ 7 := by
      rw [padding, List.length_replicate]
      omega
    have hsixteen (n : Nat) : (littleEndian16 n).length = 2 := rfl
    simp only [storedBits, List.length_append, length_bitsOf, hsixteen]
    have hhead : (BlockType.stored.head last).length = 3 := rfl
    omega
  · unfold bytesFor at *
    split <;> omega

theorem length_blocksBits_le (written : Nat) (bytes : Bytes) (blocks : List (List Item)) :
    (blocksBits written bytes blocks).length ≤ 8 * bytes.length + 48 * blocks.length := by
  induction blocks generalizing written bytes with
  | nil => exact Nat.zero_le _
  | cons items blocks ih =>
    rw [blocksBits]
    generalize items.foldl (fun size item => size + item.size) 0 = size
    have hblock := length_blockBits_le blocks.isEmpty written items (bytes.take size)
    have hblocks := ih (written + (blockBits blocks.isEmpty written items (bytes.take size)).length)
      (bytes.drop size)
    simp only [List.length_append, List.length_cons, List.length_take, List.length_drop] at *
    omega

theorem size_fillBytes_le (out : Array UInt8) (bits : List Bool) :
    (fillBytes out bits).size ≤ out.size + (bits.length + 7) / 8 := by
  fun_induction fillBytes out bits with
  | case1 out a b c d e f g h rest ih =>
    simp only [Array.size_push, List.length_cons] at ih ⊢
    omega
  | case2 out => omega
  | case3 out bits hshort hempty =>
    have hpositive := List.length_pos_iff.mpr hempty
    rw [Array.size_push]
    omega

/-- There are no more items than bytes. -/
theorem size_tellFrom_le (effort : Effort) (bytes : Array UInt8) (told : Array Item)
    (places : Places) (held : Option Repeat) (here : Nat) :
    (tellFrom effort bytes told places held here).size ≤ told.size + (bytes.size - here) + 1 := by
  fun_induction tellFrom effort bytes told places held here with
  | case1 told places here hhere ih => omega
  | case2 told places here hhere places' before item places'' offered hlong ih =>
    simp only [Array.size_push, leastLength] at hlong ih
    omega
  | case3 told places here hhere places' before item offered hshort ih =>
    rw [Array.size_push] at ih
    omega
  | case4 told places here hhere => omega
  | case5 told places here hhere before =>
    rw [Array.size_push]
    omega

theorem length_blocksOf_le (items : List Item) : (blocksOf items).length ≤ items.length + 1 := by
  fun_induction blocksOf items with
  | case1 items h => simp
  | case2 items byte h => simp
  | case3 items item rest hshort h ih =>
    have hlength := congrArg List.length h
    simp only [blockSize, List.length_drop, List.length_cons] at hlength ih ⊢
    omega

/-- A stream is at most seven times as long as what it holds, up to a few bytes. -/
theorem length_deflate_le (effort : Effort) (bytes : Bytes) :
    (deflate effort bytes).length ≤ 7 * bytes.length + 12 := by
  have hitems : (tell effort bytes).length ≤ bytes.length + 1 := by
    simpa [tell] using size_tellFrom_le effort bytes.toArray #[] .empty none 0
  have hblocks := length_blocksOf_le (tell effort bytes)
  have hbits := length_blocksBits_le 0 bytes (blocksOf (tell effort bytes))
  have hbytes := size_fillBytes_le #[] (blocksBits 0 bytes (blocksOf (tell effort bytes)))
  unfold deflate
  rw [Array.length_toList]
  simp only [List.size_toArray, List.length_nil] at hbytes
  omega

theorem length_store_le (bytes : Bytes) : (store bytes).length ≤ 2 * bytes.length + 5 := by
  have hblock (last : Bool) (bytes : Bytes) :
      (storedBlock last bytes).length = bytes.length + 5 := by
    simp [storedBlock, littleEndian16]
  fun_induction store bytes with
  | case1 bytes hsmall =>
    rw [hblock]
    omega
  | case2 bytes hlarge ih =>
    rw [List.length_append, hblock]
    simp only [List.length_take, List.length_drop] at ih ⊢
    omega

end Deflate

theorem Zlib.length_compress_le (bytes : Bytes) :
    (compress bytes).length ≤ 7 * bytes.length + 18 := by
  have hword (n : Nat) : (wordBytes n).length = 4 := rfl
  have hdeflate := Deflate.length_deflate_le .usual bytes
  have hstore := Deflate.length_store_le bytes
  unfold compress
  dsimp only
  split
  · simp only [List.length_cons, List.length_append, hword]
    omega
  · simp only [store, List.length_cons, List.length_append, hword]
    omega

theorem Base64.length_encode (bytes : Bytes) :
    (encode bytes).length = 4 * ((bytes.length + 2) / 3) := by
  fun_induction encode bytes with
  | case1 => simp
  | case2 a => simp
  | case3 a b => simp
  | case4 a b c rest ih =>
    simp only [List.length_cons, ih]
    omega

theorem length_flatMap_le {α β : Type} {f : α → List β} {most : Nat} (h : ∀ a, (f a).length ≤ most)
    (as : List α) : (as.flatMap f).length ≤ most * as.length := by
  induction as with
  | nil => simp
  | cons a as ih =>
    have ha := h a
    rw [List.flatMap_cons, List.length_append, List.length_cons, Nat.mul_succ]
    omega

theorem Text.length_utf8_le (s : String) : (utf8 s).length ≤ 4 * s.toList.length := by
  refine length_flatMap_le (fun c => ?_) s.toList
  rw [String.length_utf8EncodeChar]
  exact c.utf8Size_le_four

theorem Json.length_escapeChar_le (ascii : Bool) (c : Char) : (escapeChar ascii c).length ≤ 12 := by
  have hunit (n : Nat) : (escapeUnit n).length = 6 := by
    simp [escapeUnit, Text.hexDigits]
  unfold escapeChar
  dsimp only
  split
  · simp
  · split_ifs <;> simp [hunit]

theorem Json.length_renderString_le (ascii : Bool) (s : String) :
    (renderString ascii s).length ≤ 12 * s.toList.length + 2 := by
  have hchars := length_flatMap_le (length_escapeChar_le ascii) s.toList
  simp only [renderString, List.length_cons, List.length_append, List.length_nil]
  omega

/-- A packed text is at most ten times as long as the text, up to a few letters. -/
theorem Packing.length_pack_le (text : String) :
    (pack text).toList.length ≤ 10 * (Text.utf8 text).length + 28 := by
  have hcompress := Zlib.length_compress_le (Text.utf8 text)
  rw [pack, String.toList_ofList, Base64.length_encode]
  omega

end PassTrace

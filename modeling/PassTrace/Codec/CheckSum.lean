import PassTrace.Text.Utf8

/-!
# Check sums of compressed streams

CRC-32 and Adler-32 of a sequence of bytes.
-/

namespace PassTrace

/-- CRC-32: the remainder of the message as a polynomial over two elements, lowest coefficient
first. -/
def crc32 (bytes : Bytes) : Nat :=
  let step (r : UInt32) : UInt32 := if r &&& 1 = 1 then (r >>> 1) ^^^ 0xedb88320 else r >>> 1
  let add (r : UInt32) (b : UInt8) : UInt32 :=
    let r := r ^^^ UInt32.ofNat b.toNat
    step (step (step (step (step (step (step (step r)))))))
  ((bytes.foldl add 0xffffffff) ^^^ 0xffffffff).toNat

/-- Adler-32: the sum of the bytes and one, and the sum of those sums, modulo a prime. -/
def adler32 (bytes : Bytes) : Nat :=
  let (a, b) := bytes.foldl
    (fun (a, b) byte =>
      let a := (a + byte.toNat) % 65521
      (a, (b + a) % 65521))
    (1, 0)
  b * 0x10000 + a

end PassTrace

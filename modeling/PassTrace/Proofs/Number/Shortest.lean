import Mathlib.Tactic.Ring
import PassTrace.Number.Decimal

/-!
# Numerals read back

The numeral of a floating-point number is chosen among the decimal fractions that
read back as it, and the exact value stands by if there is none with few digits.
Reading looks at the value of a fraction only, so that zeros put behind its digits
or taken off do not matter.
-/

namespace PassTrace

namespace Magnitude

/-- Rounding looks at the value of a quotient only. -/
theorem roundQuotient_mul_right (num den : Nat) {k : Nat} (hk : 0 < k) :
    roundQuotient (num * k) (den * k) = roundQuotient num den := by
  have hdiv : num * k / (den * k) = num / den := Nat.mul_div_mul_right num den hk
  have hmod : num * k % (den * k) = num % den * k := Nat.mul_mod_mul_right k num den
  have hgt : (2 * (num % den * k) > den * k) ↔ (2 * (num % den) > den) := by
    rw [← Nat.mul_assoc]
    exact Nat.mul_lt_mul_right hk
  have heq : (2 * (num % den * k) = den * k) ↔ (2 * (num % den) = den) := by
    rw [← Nat.mul_assoc]
    exact Nat.mul_left_inj (by omega)
  unfold roundQuotient
  simp only [hdiv, hmod, hgt, beq_eq_decide, heq]

/-- A quotient without a remainder is not changed by rounding. -/
theorem roundQuotient_mul_self (num : Nat) {den : Nat} (hden : 0 < den) :
    roundQuotient (num * den) den = num := by
  have hdiv : num * den / den = num := Nat.mul_div_cancel num hden
  have hmod : num * den % den = 0 := Nat.mul_mod_left num den
  have hne : ((2 * 0 : Nat) == den) = false := by
    rw [beq_eq_false_iff_ne]
    omega
  unfold roundQuotient
  simp only [hdiv, hmod, hne, Bool.false_and, Bool.or_false, decide_eq_true_eq]
  rw [if_neg (by omega)]

/-- The nearest magnitude is that of the value, however the fraction is written. -/
theorem round_mul_right (num den : Nat) {k : Nat} (hk : 0 < k) :
    round (num * k) (den * k) = round num den := by
  have hunits : num * k * unitsPerOne = num * unitsPerOne * k := by ring
  have hscaled (s : Nat) : den * k * s = den * s * k := by ring
  unfold round
  simp only [hunits, Nat.mul_div_mul_right _ _ hk, hscaled, roundQuotient_mul_right _ _ hk]

/-- Fractions of one value have the same nearest magnitude. -/
theorem round_eq_of_cross {num den num' den' : Nat} (hden : 0 < den) (hden' : 0 < den')
    (h : num * den' = num' * den) : round num den = round num' den' := by
  rw [← round_mul_right num den hden', h, Nat.mul_comm den den', round_mul_right num' den' hden]

/-- The size of a magnitude with a bounded shift. -/
theorem scaled_le {m : Magnitude} {k : Nat} (hk : m.shift ≤ k) : m.scaled ≤ 2 ^ 53 * 2 ^ k :=
  Nat.mul_le_mul (Nat.le_of_lt m.significand_lt) (Nat.pow_le_pow_right (by decide) hk)

/-- A magnitude with a significand is not zero. -/
theorem scaled_ne_zero {m : Magnitude} (hm : m.significand ≠ 0) : m.scaled ≠ 0 :=
  Nat.mul_ne_zero hm (Nat.ne_of_gt (Nat.two_pow_pos m.shift))

/-- The significand of a magnitude that is not zero, and its shift, are told by its size. -/
theorem log2_scaled {m : Magnitude} (hm : m.significand ≠ 0) :
    m.scaled.log2 - 52 = m.shift := by
  have hlt : m.significand < 2 ^ 53 := m.significand_lt
  have hpow : 0 < 2 ^ m.shift := Nat.two_pow_pos m.shift
  have hscaled : m.scaled = m.significand * 2 ^ m.shift := rfl
  have hne := scaled_ne_zero hm
  have hupper : m.scaled.log2 < 53 + m.shift := by
    rw [Nat.log2_lt hne, hscaled, Nat.pow_add]
    exact Nat.mul_lt_mul_of_pos_right hlt hpow
  rcases m.normalized with hzero | hnormal
  · omega
  · have hlower : 52 + m.shift ≤ m.scaled.log2 := by
      rw [Nat.le_log2 hne, hscaled, Nat.pow_add]
      exact Nat.mul_le_mul_right _ hnormal
    omega

/-- The unit is a proper part of one. -/
theorem unitsPerOne_pos : 0 < unitsPerOne := by decide +kernel

/-- A magnitude is nearest to its own size. -/
theorem round_scaled {m : Magnitude} (hm : m.significand ≠ 0) :
    round m.scaled unitsPerOne = some m := by
  have hlt : m.significand ≠ Nat.pow 2 53 := Nat.ne_of_lt m.significand_lt
  have hden : 0 < unitsPerOne * Nat.pow 2 m.shift :=
    Nat.mul_pos unitsPerOne_pos (Nat.two_pow_pos m.shift)
  have hnum : m.scaled * unitsPerOne = m.significand * (unitsPerOne * Nat.pow 2 m.shift) := by
    unfold scaled
    ring
  have hsignificand :
      roundQuotient (m.scaled * unitsPerOne) (unitsPerOne * Nat.pow 2 m.shift) = m.significand := by
    rw [hnum, roundQuotient_mul_self _ hden]
  unfold round
  simp only [Nat.mul_div_cancel _ unitsPerOne_pos, log2_scaled hm, hsignificand, if_neg hlt]
  exact dif_pos ⟨m.significand_lt, m.normalized, m.shift_le⟩

end Magnitude

namespace Decimal

/-- A fraction whose first digit stands at a place that is read has the nearest magnitude. -/
theorem toMagnitude_eq_round {d : Decimal} (hd : d.coefficient ≠ 0) (hlow : -400 ≤ d.leadingPlace)
    (hhigh : d.leadingPlace ≤ 400) :
    d.toMagnitude = Magnitude.round d.fraction.1 d.fraction.2 := by
  unfold toMagnitude
  rw [if_neg hd, if_neg (by omega), if_neg (by omega)]

/-- Zeros behind the digits of a number make as many more digits. -/
theorem digitCount_mul_pow {n : Nat} (hn : n ≠ 0) (k : Nat) :
    digitCount (n * 10 ^ k) = digitCount n + k := by
  induction k with
  | zero => simp
  | succ k ih =>
    have hpos : 0 < n * 10 ^ k := Nat.mul_pos (by omega) (Nat.pow_pos (by decide))
    have hdigits : Nat.toDigits 10 (n * 10 ^ (k + 1)) = Nat.toDigits 10 (n * 10 ^ k) ++ ['0'] := by
      have h := Nat.toDigits_append_toDigits (b := 10) (d := 0) (by decide) hpos (by decide)
      rw [Nat.toDigits_zero] at h
      rw [h]
      congr 1
      ring
    unfold digitCount at ih ⊢
    rw [hdigits, List.length_append, ih, List.length_singleton, Nat.add_assoc]

/-- The denominator of a fraction is not zero. -/
theorem fraction_snd_pos (d : Decimal) : 0 < d.fraction.2 := by
  unfold fraction
  split
  · exact Nat.one_pos
  · exact Nat.pow_pos (by decide)

/-- Zeros behind the digits, with the exponent lowered as far, do not change the value. -/
theorem fraction_shift (c : Nat) (e : Int) (k : Nat) :
    (fraction ⟨c * 10 ^ k, e - k⟩).1 * (fraction ⟨c, e⟩).2 =
      (fraction ⟨c, e⟩).1 * (fraction ⟨c * 10 ^ k, e - k⟩).2 := by
  unfold fraction
  simp only [Nat.pow_eq]
  by_cases he : 0 ≤ e
  · rw [if_pos he]
    by_cases hek : 0 ≤ e - k
    · have hsum : e.toNat = k + (e - k).toNat := by omega
      rw [if_pos hek, hsum, Nat.pow_add]
      ring
    · have hsum : k = e.toNat + (-(e - k)).toNat := by omega
      have hpow : 10 ^ k = 10 ^ e.toNat * 10 ^ (-(e - k)).toNat := by
        rw [← Nat.pow_add, ← hsum]
      rw [if_neg hek, hpow]
      ring
  · have hek : ¬0 ≤ e - k := by omega
    have hsum : (-(e - k)).toNat = k + (-e).toNat := by omega
    rw [if_neg he, if_neg hek, hsum, Nat.pow_add]
    ring

/-- Nor do they change what is read. -/
theorem toMagnitude_shift (c : Nat) (e : Int) (k : Nat) :
    toMagnitude ⟨c * 10 ^ k, e - k⟩ = toMagnitude ⟨c, e⟩ := by
  by_cases hc : c = 0
  · subst hc
    simp [toMagnitude]
  · have hpow : 0 < 10 ^ k := Nat.pow_pos (by decide)
    have hck : c * 10 ^ k ≠ 0 := Nat.mul_ne_zero hc (by omega)
    have hplace : leadingPlace ⟨c * 10 ^ k, e - k⟩ = leadingPlace ⟨c, e⟩ := by
      show (digitCount (c * 10 ^ k) : Int) + (e - k) = digitCount c + e
      rw [digitCount_mul_pow hc]
      omega
    have hround := Magnitude.round_eq_of_cross (fraction_snd_pos ⟨c * 10 ^ k, e - k⟩)
      (fraction_snd_pos ⟨c, e⟩) (fraction_shift c e k)
    unfold toMagnitude
    simp only [if_neg hc, if_neg hck, hplace, hround]

/-- A number written with as many decimal places as it has binary ones keeps its value. -/
theorem round_fraction_neg (c : Nat) {k : Nat} (hk : 0 < k) :
    Magnitude.round (fraction ⟨c * Nat.pow 5 k, -(k : Int)⟩).1
      (fraction ⟨c * Nat.pow 5 k, -(k : Int)⟩).2 = Magnitude.round c (Nat.pow 2 k) := by
  apply Magnitude.round_eq_of_cross (fraction_snd_pos _) (Nat.two_pow_pos k)
  have hten : Nat.pow 10 k = Nat.pow 2 k * Nat.pow 5 k := Nat.mul_pow 2 5 k
  have hneg : ¬0 ≤ -(k : Int) := by omega
  have htoNat : (- -(k : Int)).toNat = k := by omega
  unfold fraction
  simp only [if_neg hneg, htoNat, hten, Nat.pow_eq]
  ring

/-- The digits of a number below a power of ten are at most as many as its exponent. -/
theorem digitCount_le {n k : Nat} (hk : 0 < k) (h : n < 10 ^ k) : digitCount n ≤ k :=
  (Nat.length_toDigits_le_iff (by decide) hk).mpr h

/-- The digits of a number from a power of ten on are more than its exponent. -/
theorem lt_digitCount {n k : Nat} (hk : 0 < k) (h : 10 ^ k ≤ n) : k < digitCount n := by
  by_contra hle
  have hlt := (Nat.length_toDigits_le_iff (b := 10) (by decide) hk).mp (Nat.not_lt.mp hle)
  omega

/-- The greatest magnitude is below ten to the four hundredth power. -/
theorem greatest_lt : 2 ^ 53 * 2 ^ 2045 * Nat.pow 5 1074 < 10 ^ 1474 := by decide +kernel

/-- The least magnitude above zero is not below ten to the power of minus four hundred. -/
theorem le_least : 10 ^ 674 ≤ Nat.pow 5 1074 := by decide +kernel

/-- The first digit of a magnitude written in full stands at a place that is read. -/
theorem leadingPlace_exact {m : Magnitude} (hm : m.significand ≠ 0) :
    -400 ≤ (exact m).leadingPlace ∧ (exact m).leadingPlace ≤ 400 := by
  have hpos : 0 < m.scaled := Nat.pos_of_ne_zero (Magnitude.scaled_ne_zero hm)
  have hscaled := Magnitude.scaled_le m.shift_le
  have hupper : m.scaled * Nat.pow 5 1074 < 10 ^ 1474 :=
    Nat.lt_of_le_of_lt (Nat.mul_le_mul_right _ hscaled) greatest_lt
  have hlower : 10 ^ 674 ≤ m.scaled * Nat.pow 5 1074 :=
    Nat.le_trans le_least (Nat.le_mul_of_pos_left _ hpos)
  have hle := digitCount_le (by decide) hupper
  have hlt := lt_digitCount (by decide) hlower
  unfold leadingPlace exact
  dsimp only
  omega

/-- The value of a magnitude written in full reads back as it. -/
theorem toMagnitude_exact {m : Magnitude} (hm : m.significand ≠ 0) :
    (exact m).toMagnitude = some m := by
  obtain ⟨hlow, hhigh⟩ := leadingPlace_exact hm
  have hfive : Nat.pow 5 1074 ≠ 0 := by decide +kernel
  have hcoefficient : (exact m).coefficient ≠ 0 :=
    Nat.mul_ne_zero (Magnitude.scaled_ne_zero hm) hfive
  exact (toMagnitude_eq_round hcoefficient hlow hhigh).trans
    ((round_fraction_neg m.scaled (k := 1074) (by decide)).trans (Magnitude.round_scaled hm))

/-- A magnitude without a significand is zero. -/
theorem eq_zero_of_significand {m : Magnitude} (hm : m.significand = 0) : m = .zero := by
  have hshift : m.shift = 0 := by
    rcases m.normalized with h | h
    · exact h
    · rw [hm] at h
      exact absurd h (by decide)
  cases m
  simp_all [Magnitude.zero]

/-- The shortest decimal fraction of a magnitude reads back as it. -/
theorem toMagnitude_shortest (m : Magnitude) : (shortest m).toMagnitude = some m := by
  unfold shortest
  split
  · next hm =>
    rw [eq_zero_of_significand hm]
    rfl
  · next hm =>
    dsimp only
    cases hfound : (List.range 17).findSome? fun k =>
        nearest? m (placeOf m.scaled Magnitude.unitsPerOne) (k + 1) with
    | none => exact toMagnitude_exact hm
    | some d =>
      obtain ⟨k, _, hnearest⟩ := List.exists_of_findSome?_eq_some hfound
      have hread := List.find?_some hnearest
      simpa using hread

/-- A shortest fraction without digits is zero. -/
theorem shortest_eq_zero {m : Magnitude} (h : (shortest m).coefficient = 0) :
    shortest m = ⟨0, 0⟩ := by
  have hzero : m = .zero := by
    have hread := toMagnitude_shortest m
    unfold toMagnitude at hread
    rw [if_pos h] at hread
    exact (Option.some.inj hread).symm
  rw [hzero]
  rfl

end Decimal
end PassTrace

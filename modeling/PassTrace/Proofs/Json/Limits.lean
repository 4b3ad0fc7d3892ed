import PassTrace.Json.Writable

/-!
# What can be written

A value is written unless it is nested too deeply or holds an integer with too many
digits.
-/

namespace PassTrace.Json

mutual

/-- The number of levels of arrays and objects in a value. -/
def depth : Json → Nat
  | array items => itemsDepth items + 1
  | object fields => fieldsDepth fields + 1
  | null | bool _ | int _ | float _ | string _ => 0

/-- The greatest number of levels in the items of an array. -/
def itemsDepth : List Json → Nat
  | [] => 0
  | item :: rest => max item.depth (itemsDepth rest)

/-- The greatest number of levels in the fields of an object. -/
def fieldsDepth : Fields → Nat
  | [] => 0
  | (_, item) :: rest => max item.depth (fieldsDepth rest)

end

mutual

/-- Whether a value holds an integer with more digits than are written. -/
def HoldsLongInteger : Json → Prop
  | int n => maxDigits < (toString n.natAbs).length
  | array items => ItemsHoldLongInteger items
  | object fields => FieldsHoldLongInteger fields
  | null | bool _ | float _ | string _ => False

/-- Whether an item of an array holds an integer with more digits than are written. -/
def ItemsHoldLongInteger : List Json → Prop
  | [] => False
  | item :: rest => item.HoldsLongInteger ∨ ItemsHoldLongInteger rest

/-- Whether a field of an object holds an integer with more digits than are written. -/
def FieldsHoldLongInteger : Fields → Prop
  | [] => False
  | (_, item) :: rest => item.HoldsLongInteger ∨ FieldsHoldLongInteger rest

end

/-- A first part and the others are written exactly if both are. -/
theorem firstFault_eq_none_iff {first others : Option WriteFault} {depth depth' levels : Nat}
    {long long' : Prop} (hfirst : first = none ↔ depth ≤ levels ∧ ¬ long)
    (hothers : others = none ↔ depth' ≤ levels ∧ ¬ long') :
    (match first with
      | some fault => some fault
      | none => others) = none ↔ max depth depth' ≤ levels ∧ ¬ (long ∨ long') := by
  rw [Nat.max_le, not_or]
  cases first with
  | some fault =>
    simp only [reduceCtorEq, false_iff] at hfirst ⊢
    exact fun h => hfirst ⟨h.1.1, h.2.1⟩
  | none =>
    have hwritten := hfirst.1 rfl
    rw [hothers]
    exact ⟨fun h => ⟨⟨hwritten.1, h.1⟩, hwritten.2, h.2⟩, fun h => ⟨h.1.2, h.2.2⟩⟩

mutual

/-- A value is written exactly if it is not nested too deeply and holds no long integer. -/
theorem writeFault?_eq_none_iff : (v : Json) → (levels : Nat) →
    (writeFault? levels v = none ↔ v.depth ≤ levels ∧ ¬ v.HoldsLongInteger)
  | null, levels | bool _, levels | float _, levels | string _, levels => by
    simp [writeFault?, depth, HoldsLongInteger]
  | int n, levels => by
    simp only [writeFault?, Numeral.write, depth, HoldsLongInteger]
    by_cases hlong : maxDigits < (toString n.natAbs).length
    · rw [if_pos hlong]
      exact ⟨fun h => absurd h (by simp), fun h => absurd hlong h.2⟩
    · rw [if_neg hlong]
      exact ⟨fun _ => ⟨Nat.zero_le _, hlong⟩, fun _ => rfl⟩
  | array items, levels => by
    rw [writeFault?, depth, HoldsLongInteger]
    by_cases hlevels : levels = 0
    · simp [hlevels]
    · rw [if_neg hlevels, itemsFault?_eq_none_iff items (levels - 1)]
      have hdepth : itemsDepth items ≤ levels - 1 ↔ itemsDepth items + 1 ≤ levels := by omega
      rw [hdepth]
  | object fields, levels => by
    rw [writeFault?, depth, HoldsLongInteger]
    by_cases hlevels : levels = 0
    · simp [hlevels]
    · rw [if_neg hlevels, fieldsFault?_eq_none_iff fields (levels - 1)]
      have hdepth : fieldsDepth fields ≤ levels - 1 ↔ fieldsDepth fields + 1 ≤ levels := by omega
      rw [hdepth]

/-- The items of an array are written exactly if each of them is. -/
theorem itemsFault?_eq_none_iff : (items : List Json) → (levels : Nat) →
    (itemsFault? levels items = none ↔ itemsDepth items ≤ levels ∧ ¬ ItemsHoldLongInteger items)
  | [], levels => by simp [itemsFault?, itemsDepth, ItemsHoldLongInteger]
  | item :: rest, levels => by
    rw [itemsFault?, itemsDepth, ItemsHoldLongInteger]
    exact firstFault_eq_none_iff (writeFault?_eq_none_iff item levels)
      (itemsFault?_eq_none_iff rest levels)

/-- The fields of an object are written exactly if each of them is. -/
theorem fieldsFault?_eq_none_iff : (fields : Fields) → (levels : Nat) →
    (fieldsFault? levels fields = none ↔
      fieldsDepth fields ≤ levels ∧ ¬ FieldsHoldLongInteger fields)
  | [], levels => by simp [fieldsFault?, fieldsDepth, FieldsHoldLongInteger]
  | (name, item) :: rest, levels => by
    rw [fieldsFault?, fieldsDepth, FieldsHoldLongInteger]
    exact firstFault_eq_none_iff (writeFault?_eq_none_iff item levels)
      (fieldsFault?_eq_none_iff rest levels)

end

end PassTrace.Json

import RelStore.Proofs.Lookups
/-! The order of values. Equality, the operators, the filters on keys and the ordered maps all go
back to one comparison, so what they say of two values cannot differ. Floats are compared by their
patterns; turned into signed numbers with the other bits of negative ones flipped, patterns are in the
order of those numbers. -/
namespace RelStore

namespace Binary64

/-- The pattern, with all bits but the sign flipped if the sign is set: the sign is spread over the
whole word and shifted off its place. -/
def flipped (x : Binary64) : BitVec 64 :=
  x.bits.toBitVec ^^^ (x.bits.toBitVec.sshiftRight 63 >>> 1)

theorem xor_ones {n k : Nat} (h : n < 2 ^ k) : n ^^^ (2 ^ k - 1) = 2 ^ k - (n + 1) := by
  apply Nat.eq_of_testBit_eq
  intro i
  rw [Nat.testBit_xor, Nat.testBit_two_pow_sub_one, Nat.testBit_two_pow_sub_succ h]
  by_cases hi : i < k
  · simp [hi]
  · have hlow : n.testBit i = false :=
      Nat.testBit_lt_two_pow (h.trans_le (Nat.pow_le_pow_right (by decide) (Nat.not_lt.mp hi)))
    simp [hi, hlow]

theorem toNat_flipped_of_lt {x : Binary64} (h : x.bits.toNat < 2 ^ 63) :
    x.flipped.toNat = x.bits.toNat := by
  have hmsb : x.bits.toBitVec.msb = false := by
    rw [BitVec.msb_eq_decide, decide_eq_false_iff_not, UInt64.toNat_toBitVec]
    omega
  have hmask : (x.bits.toBitVec.sshiftRight 63 >>> 1).toNat = 0 := by
    rw [BitVec.sshiftRight_eq_of_msb_false hmsb]
    simp only [BitVec.toNat_ushiftRight, UInt64.toNat_toBitVec, Nat.shiftRight_eq_div_pow]
    omega
  rw [flipped, BitVec.toNat_xor, hmask, Nat.xor_zero, UInt64.toNat_toBitVec]

theorem toNat_flipped_of_le {x : Binary64} (h : 2 ^ 63 ≤ x.bits.toNat) :
    x.flipped.toNat = 2 ^ 63 + (2 ^ 63 - (x.bits.toNat % 2 ^ 63 + 1)) := by
  have hlt := x.bits.toNat_lt
  have hmsb : x.bits.toBitVec.msb = true := by
    rw [BitVec.msb_eq_decide, decide_eq_true_eq, UInt64.toNat_toBitVec]
    exact h
  have hmask : (x.bits.toBitVec.sshiftRight 63 >>> 1).toNat = 2 ^ 63 - 1 := by
    rw [BitVec.sshiftRight_eq_of_msb_true hmsb]
    simp only [BitVec.toNat_ushiftRight, BitVec.toNat_not, UInt64.toNat_toBitVec,
      Nat.shiftRight_eq_div_pow]
    omega
  have hhigh : x.flipped.toNat / 2 ^ 63 = 1 := by
    rw [flipped, BitVec.toNat_xor, hmask, UInt64.toNat_toBitVec, Nat.xor_div_two_pow,
      (by omega : x.bits.toNat / 2 ^ 63 = 1)]
    rfl
  have hlow : x.flipped.toNat % 2 ^ 63 = 2 ^ 63 - (x.bits.toNat % 2 ^ 63 + 1) := by
    rw [flipped, BitVec.toNat_xor, hmask, UInt64.toNat_toBitVec, Nat.xor_mod_two_pow,
      Nat.mod_eq_of_lt (by decide : 2 ^ 63 - 1 < 2 ^ 63)]
    exact xor_ones (Nat.mod_lt _ (by decide))
  omega

/-- The sign stands for minus two to the sixty-third; what is left of a negative pattern is flipped, so
a larger magnitude lies further down. -/
theorem toInt_flipped (x : Binary64) : x.flipped.toInt = x.orderKey := by
  have hlt := x.bits.toNat_lt
  rw [BitVec.toInt_eq_toNat_cond, orderKey, negative, magnitude]
  by_cases h : 2 ^ 63 ≤ x.bits.toNat
  · rw [toNat_flipped_of_le h]
    simp only [h, decide_true, if_true]
    omega
  · rw [toNat_flipped_of_lt (Nat.not_le.mp h)]
    simp only [h, decide_false, Bool.false_eq_true, if_false]
    omega

theorem compare_eq_flipped (x y : Binary64) :
    compare x y = compare x.flipped.toInt y.flipped.toInt := by
  rw [toInt_flipped, toInt_flipped]
  rfl

end Binary64

namespace Value

theorem compare_of_rank_lt {a b : Value} (h : a.rank < b.rank) : compare a b = .lt := by
  rw [compare_of_rank_ne h.ne, Nat.compare_eq_lt]
  exact h

end Value

/-- What an operator says of two values of a totally ordered type. -/
def Operator.Relates : Operator → Value → Value → Prop
  | .eq, a, b => a = b
  | .ne, a, b => a ≠ b
  | .lt, a, b => compare a b = .lt
  | .gt, a, b => compare b a = .lt
  | .le, a, b => compare a b = .lt ∨ a = b
  | .ge, a, b => compare b a = .lt ∨ a = b

theorem Operator.holds_iff (op : Operator) (a b : Value) : op.holds a b = true ↔ op.Relates a b := by
  have heq : compare a b = .eq ↔ a = b := Std.LawfulEqOrd.compare_eq_iff_eq
  have hswap : compare b a = (compare a b).swap := Std.OrientedOrd.eq_swap
  cases op <;> simp only [holds, Relates, ne_eq, ← heq, hswap] <;> cases compare a b <;> decide

/-- What a filter says of a key; a list of keys is gone through by comparing. -/
def KeyFilter.Matches (key : Value) : KeyFilter → Prop
  | .all => True
  | .compared op v => op.Relates key v
  | .among vs => ∃ v ∈ vs, compare key v = .eq

theorem KeyFilter.admits_iff (key : Value) (f : KeyFilter) :
    f.admits key = true ↔ f.Matches key := by
  cases f with
  | all => exact iff_of_true rfl trivial
  | compared op v => exact op.holds_iff key v
  | among vs =>
    simp only [admits, Matches, decide_eq_true_eq, Std.LawfulEqOrd.compare_eq_iff_eq,
      exists_eq_right']

section Maps

variable {α : Type}

namespace OrdMap

theorem find?_insert (m : OrdMap Value α) (k k' : Value) (a : α) :
    (m.insert k a).find? k' = if compare k' k = .eq then some a else m.find? k' := by
  by_cases h : k' = k
  · rw [h, find?_insert_self, if_pos Std.ReflOrd.compare_self]
  · rw [find?_insert_of_ne h, if_neg (mt Std.LawfulEqOrd.eq_of_compare h)]

theorem find?_erase (m : OrdMap Value α) (k k' : Value) :
    (m.erase k).find? k' = if compare k' k = .eq then none else m.find? k' := by
  by_cases h : k' = k
  · rw [h, find?_erase_self, if_pos Std.ReflOrd.compare_self]
  · rw [find?_erase_of_ne h, if_neg (mt Std.LawfulEqOrd.eq_of_compare h)]

end OrdMap

/-- An ordered map keyed by values: its keys ascend, and what it finds under a key is what is bound
to that very value, also after a value was bound or a key removed. -/
structure OrdMap.KeyedByValue (m : OrdMap Value α) : Prop where
  ascending : m.keys.Pairwise fun a b => Operator.lt.holds a b = true
  found : ∀ k a, m.find? k = some a ↔ ∃ b ∈ m.bindings, Operator.eq.holds b.1 k = true ∧ b.2 = a
  inserted : ∀ k k' a,
    (m.insert k a).find? k' = if Operator.eq.holds k' k then some a else m.find? k'
  erased : ∀ k k', (m.erase k).find? k' = if Operator.eq.holds k' k then none else m.find? k'

theorem OrdMap.keyedByValue (m : OrdMap Value α) : m.KeyedByValue := by
  have heq (a b : Value) : Operator.eq.holds a b = true ↔ compare a b = .eq :=
    Ordering.isEq_iff_eq_eq
  constructor
  · exact m.keys_ascending.imp fun h => Ordering.isLT_iff_eq_lt.mpr h
  · intro k a
    simp only [find?_eq_some_iff, Operator.holds_iff, Operator.Relates]
    constructor
    · intro h
      exact ⟨_, h, rfl, rfl⟩
    · rintro ⟨b, hb, rfl, rfl⟩
      exact hb
  · intro k k' a
    rw [find?_insert]
    simp only [heq]
  · intro k k'
    rw [find?_erase]
    simp only [heq]

end Maps

/-- Values are totally ordered, types before payloads, and two of them compare equal only if they are
the same value, for floats the same pattern. The operators say what that order says, a filter what its
operator says, a lookup gives what its filter admits, and an ordered map tells its keys apart as the
operators do. -/
theorem value_order_lawful :
    (∀ a b c : Value,
      compare a a = .eq ∧ compare b a = (compare a b).swap ∧
      ((compare a b).isLE = true ∨ (compare b a).isLE = true) ∧
      ((compare a b).isLE = true → (compare b a).isLE = true → a = b) ∧
      ((compare a b).isLE = true → (compare b c).isLE = true → (compare a c).isLE = true) ∧
      (compare a b = .eq ↔ a = b) ∧ (a.rank < b.rank → compare a b = .lt)) ∧
    (∀ x y : Binary64,
      compare (Value.float x) (.float y) = compare x.flipped.toInt y.flipped.toInt ∧
      (compare (Value.float x) (.float y) = .eq ↔ x.bits = y.bits)) ∧
    (∀ op a b, Operator.holds op a b = true ↔ op.Relates a b) ∧
    (∀ f key, KeyFilter.admits key f = true ↔ f.Matches key) ∧
    (∀ (c : Collection) f,
      c.scan f = Collection.documents (c.bindings.filter fun b => f.admits b.1)) ∧
    ∀ (α : Type) (m : OrdMap Value α), m.KeyedByValue := by
  refine ⟨fun a b c => ⟨Std.ReflOrd.compare_self, Std.OrientedOrd.eq_swap, ?_, ?_,
    Std.TransOrd.isLE_trans, Std.LawfulEqOrd.compare_eq_iff_eq, Value.compare_of_rank_lt⟩,
    fun x y => ⟨Binary64.compare_eq_flipped x y, ?_⟩, Operator.holds_iff,
    fun f key => f.admits_iff key, Collection.scan_eq_filter, fun α => OrdMap.keyedByValue⟩
  · rw [Std.OrientedOrd.eq_swap (a := b) (b := a)]
    cases compare a b <;> decide
  · intro hab hba
    exact Std.LawfulEqOrd.eq_of_compare (Std.OrientedCmp.isLE_antisymm hab hba)
  · rw [Std.LawfulEqOrd.compare_eq_iff_eq, Value.float.injEq, Binary64.mk.injEq]

/-- A negative pattern that is no number lies before the zeros, which are two values, and every float
before every text. -/
theorem value_order_lawful_zeros :
    let nan : Value := .float ⟨0xFFF8000000000000⟩
    let minus : Value := .float ⟨0x8000000000000000⟩
    let plus : Value := .float ⟨0⟩
    (compare nan plus).isLE = true ∧ ¬ compare minus plus = .eq ∧
      plus = .float Binary64.zero ∧ compare plus (.string "") = .lt ∧
      Operator.ne.holds minus plus = true := by
  intro nan minus plus
  obtain ⟨horder, hfloats, hoperators, -⟩ := value_order_lawful
  have hne : minus ≠ plus := by decide +kernel
  obtain ⟨-, -, -, -, htrans, -⟩ := horder nan minus plus
  obtain ⟨-, -, -, hantisymm, -⟩ := horder plus (.float Binary64.zero) plus
  obtain ⟨-, -, -, -, -, -, hrank⟩ := horder plus (.string "") plus
  refine ⟨htrans (by decide +kernel) (by decide +kernel), fun hzeros => ?_,
    hantisymm (by decide +kernel) (by decide +kernel), hrank (by decide),
    (hoperators .ne minus plus).mpr hne⟩
  exact absurd ((hfloats _ _).2.mp hzeros) (by decide)

end RelStore

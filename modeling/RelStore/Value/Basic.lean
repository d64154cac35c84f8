import RelStore.Binary64.Basic
import RelStore.Calendar.Basic
/-! Typed column values and their order. Values of different types are ordered by type; floats are
ordered by bit pattern, so values that compare equal are the same value. -/
namespace RelStore

inductive Value where
  | bit (b : Bool)
  | int (i : Int64)
  | float (x : Binary64)
  | date (d : Date)
  | dateTime (t : DateTime)
  | string (s : String)
  deriving DecidableEq

namespace Value

def rank : Value → Nat
  | .bit _ => 0
  | .int _ => 1
  | .float _ => 2
  | .date _ => 3
  | .dateTime _ => 4
  | .string _ => 5

instance : Ord Value where
  compare
    | .bit a, .bit b => compare a b
    | .int a, .int b => compare a b
    | .float a, .float b => compare a b
    | .date a, .date b => compare a b
    | .dateTime a, .dateTime b => compare a b
    | .string a, .string b => compare a b
    | a, b => compare a.rank b.rank

theorem compare_float (a b : Binary64) : compare (float a) (float b) = compare a b := rfl

theorem compare_of_rank_ne {a b : Value} (h : a.rank ≠ b.rank) :
    compare a b = compare a.rank b.rank := by
  cases a <;> cases b <;> first | rfl | exact absurd rfl h

theorem rank_le_of_isLE {a b : Value} (h : (compare a b).isLE) : a.rank ≤ b.rank := by
  by_cases hr : a.rank = b.rank
  · omega
  · rw [compare_of_rank_ne hr] at h
    exact Nat.isLE_compare.1 h

instance : Std.OrientedOrd Value where
  eq_swap {a b} := by
    by_cases hr : a.rank = b.rank
    · cases a <;> cases b <;> simp [rank] at hr
      · exact Std.OrientedOrd.eq_swap (α := Bool)
      · exact Std.OrientedOrd.eq_swap (α := Int64)
      · exact Std.OrientedOrd.eq_swap (α := Binary64)
      · exact Std.OrientedOrd.eq_swap (α := Date)
      · exact Std.OrientedOrd.eq_swap (α := DateTime)
      · exact Std.OrientedOrd.eq_swap (α := String)
    · rw [compare_of_rank_ne hr, compare_of_rank_ne (Ne.symm hr)]
      exact Std.OrientedOrd.eq_swap

instance : Std.TransOrd Value where
  isLE_trans {a b c} hab hbc := by
    have h₁ := rank_le_of_isLE hab
    have h₂ := rank_le_of_isLE hbc
    by_cases hr : a.rank = c.rank
    · have hb : b.rank = c.rank := by omega
      cases a <;> cases c <;> simp [rank] at hr <;> cases b <;> simp [rank] at hb
      · exact Std.TransOrd.isLE_trans (α := Bool) hab hbc
      · exact Std.TransOrd.isLE_trans (α := Int64) hab hbc
      · exact Std.TransOrd.isLE_trans (α := Binary64) hab hbc
      · exact Std.TransOrd.isLE_trans (α := Date) hab hbc
      · exact Std.TransOrd.isLE_trans (α := DateTime) hab hbc
      · exact Std.TransOrd.isLE_trans (α := String) hab hbc
    · rw [compare_of_rank_ne hr]
      exact Nat.isLE_compare.2 (by omega)

instance : Std.LawfulEqOrd Value where
  eq_of_compare {a b} h := by
    by_cases hr : a.rank = b.rank
    · cases a <;> cases b <;> simp [rank] at hr
      · exact congrArg bit (Std.LawfulEqOrd.eq_of_compare (α := Bool) h)
      · exact congrArg int (Std.LawfulEqOrd.eq_of_compare (α := Int64) h)
      · exact congrArg float (Std.LawfulEqOrd.eq_of_compare (α := Binary64) h)
      · exact congrArg date (Std.LawfulEqOrd.eq_of_compare (α := Date) h)
      · exact congrArg dateTime (Std.LawfulEqOrd.eq_of_compare (α := DateTime) h)
      · exact congrArg string (Std.LawfulEqOrd.eq_of_compare (α := String) h)
    · rw [compare_of_rank_ne hr] at h
      exact absurd (Std.LawfulEqOrd.eq_of_compare h) hr

end Value

end RelStore

import RelStore.Value.Basic
/-! The six comparison operators on values. -/
namespace RelStore

inductive Operator where
  | eq
  | lt
  | gt
  | le
  | ge
  | ne
  deriving DecidableEq

namespace Operator

def all : List Operator := [.eq, .lt, .gt, .le, .ge, .ne]

def holds (op : Operator) (a b : Value) : Bool :=
  match op with
  | .eq => (compare a b).isEq
  | .lt => (compare a b).isLT
  | .gt => (compare a b).isGT
  | .le => (compare a b).isLE
  | .ge => (compare a b).isGE
  | .ne => (compare a b).isNe

end Operator

def satisfies (v : Value) (conditions : List (Operator × Value)) : Bool :=
  conditions.all fun c => c.1.holds v c.2

end RelStore

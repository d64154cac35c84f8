/-! Finite maps held as key lists in strictly ascending order. The order is part of the type, so
two maps with the same bindings are equal and every listing comes out sorted. -/
namespace RelStore

universe u v w

structure OrdMap (κ : Type u) (α : Type v) [Ord κ] where
  bindings : List (κ × α)
  ascending : bindings.Pairwise fun a b => compare a.1 b.1 = .lt

namespace OrdMap

variable {κ : Type u} {α : Type v} {β : Type w} [Ord κ]

theorem ext_bindings {m n : OrdMap κ α} (h : m.bindings = n.bindings) : m = n := by
  cases m; cases n; cases h; rfl

instance [DecidableEq κ] [DecidableEq α] : DecidableEq (OrdMap κ α) := fun m n =>
  decidable_of_iff (m.bindings = n.bindings) ⟨ext_bindings, fun h => h ▸ rfl⟩

def empty : OrdMap κ α := ⟨[], .nil⟩

instance : EmptyCollection (OrdMap κ α) := ⟨empty⟩

instance : Inhabited (OrdMap κ α) := ⟨empty⟩

def lookup (k : κ) : List (κ × α) → Option α
  | [] => none
  | (k', a) :: rest => if compare k k' = .eq then some a else lookup k rest

/-- A key that is already bound gets the new value. -/
def place (k : κ) (a : α) : List (κ × α) → List (κ × α)
  | [] => [(k, a)]
  | (k', b) :: rest =>
    match compare k k' with
    | .lt => (k, a) :: (k', b) :: rest
    | .eq => (k, a) :: rest
    | .gt => (k', b) :: place k a rest

theorem fst_of_mem_place {k : κ} {a : α} {l : List (κ × α)} {p : κ × α}
    (h : p ∈ place k a l) : p = (k, a) ∨ p ∈ l := by
  induction l with
  | nil => simpa [place] using h
  | cons q rest ih =>
    rw [place] at h
    split at h
    · simpa using h
    · rcases List.mem_cons.1 h with h | h
      · exact .inl h
      · exact .inr (List.mem_cons_of_mem _ h)
    · rcases List.mem_cons.1 h with h | h
      · exact .inr (h ▸ List.mem_cons_self)
      · exact (ih h).imp_right (List.mem_cons_of_mem _)

theorem pairwise_place [Std.TransOrd κ] (k : κ) (a : α) {l : List (κ × α)}
    (h : l.Pairwise fun a b => compare a.1 b.1 = .lt) :
    (place k a l).Pairwise fun a b => compare a.1 b.1 = .lt := by
  induction l with
  | nil => simp [place]
  | cons q rest ih =>
    obtain ⟨k', b⟩ := q
    obtain ⟨hq, hr⟩ := List.pairwise_cons.1 h
    rw [place]
    split
    · next hk =>
      refine List.pairwise_cons.2 ⟨fun p hp => ?_, h⟩
      rcases List.mem_cons.1 hp with rfl | hp
      · exact hk
      · exact Std.TransCmp.lt_trans hk (hq p hp)
    · next hk =>
      exact List.pairwise_cons.2 ⟨fun p hp => Std.TransCmp.lt_of_eq_of_lt hk (hq p hp), hr⟩
    · next hk =>
      refine List.pairwise_cons.2 ⟨fun p hp => ?_, ih hr⟩
      rcases fst_of_mem_place hp with rfl | hp
      · exact Std.OrientedCmp.gt_iff_lt.1 hk
      · exact hq p hp

def find? (m : OrdMap κ α) (k : κ) : Option α := lookup k m.bindings

def contains (m : OrdMap κ α) (k : κ) : Bool := (m.find? k).isSome

def insert [Std.TransOrd κ] (m : OrdMap κ α) (k : κ) (a : α) : OrdMap κ α :=
  ⟨place k a m.bindings, pairwise_place k a m.ascending⟩

def filter (m : OrdMap κ α) (p : κ → Bool) : OrdMap κ α :=
  ⟨m.bindings.filter fun b => p b.1, m.ascending.filter _⟩

def erase (m : OrdMap κ α) (k : κ) : OrdMap κ α := m.filter fun k' => compare k k' != .eq

/-- Of several bindings of one key the last one stays. -/
def ofList [Std.TransOrd κ] (l : List (κ × α)) : OrdMap κ α :=
  l.foldl (fun m b => m.insert b.1 b.2) empty

def keys (m : OrdMap κ α) : List κ := m.bindings.map (·.1)

def isEmpty (m : OrdMap κ α) : Bool := m.bindings.isEmpty

def size (m : OrdMap κ α) : Nat := m.bindings.length

inductive Bound (κ : Type u) where
  | unbounded
  | included (k : κ)
  | excluded (k : κ)
  deriving DecidableEq

def Bound.admitsAbove (k : κ) : Bound κ → Bool
  | .unbounded => true
  | .included b => compare b k != .gt
  | .excluded b => compare b k == .lt

def Bound.admitsBelow (k : κ) : Bound κ → Bool
  | .unbounded => true
  | .included b => compare k b != .gt
  | .excluded b => compare k b == .lt

/-- The bindings from one bound to the other: what precedes the range is skipped and the scan
stops at the first key behind it. -/
def range (m : OrdMap κ α) (lower upper : Bound κ) : List (κ × α) :=
  (m.bindings.dropWhile fun b => !lower.admitsAbove b.1).takeWhile fun b => upper.admitsBelow b.1

end OrdMap

abbrev OrdSet (κ : Type u) [Ord κ] := OrdMap κ Unit

namespace OrdSet

variable {κ : Type u} [Ord κ]

def ofList [Std.TransOrd κ] (l : List κ) : OrdSet κ := OrdMap.ofList (l.map fun k => (k, ()))

def inter (s t : OrdSet κ) : OrdSet κ := OrdMap.filter s t.contains

end OrdSet

end RelStore

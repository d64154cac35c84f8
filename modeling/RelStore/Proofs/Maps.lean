import Mathlib.Data.List.Sort
import RelStore.OrdMap
/-! Laws of ordered maps and sets. A map is determined by what its keys are bound to, so every
operation is described by `find?`, and a listing by the keys it admits. -/
namespace RelStore

universe u v w

namespace OrdMap

variable {κ : Type u} {α : Type v} {β : Type w} [Ord κ]

@[simp]
theorem find?_empty (k : κ) : (∅ : OrdMap κ α).find? k = none := rfl

theorem contains_iff {m : OrdMap κ α} {k : κ} :
    m.contains k = true ↔ ∃ a, m.find? k = some a := Option.isSome_iff_exists

theorem contains_eq_false_iff {m : OrdMap κ α} {k : κ} :
    m.contains k = false ↔ m.find? k = none := by
  rw [contains, Option.isSome_eq_false_iff, Option.isNone_iff_eq_none]

theorem keys_ascending (m : OrdMap κ α) : m.keys.Pairwise fun a b => compare a b = .lt :=
  List.pairwise_map.mpr m.ascending

theorem mem_place_self (k : κ) (a : α) (l : List (κ × α)) : (k, a) ∈ place k a l := by
  induction l with
  | nil => simp [place]
  | cons b rest ih =>
    rw [place]
    split <;> simp [ih]

variable [Std.LawfulEqOrd κ]

theorem ne_of_compare_lt {k k' : κ} (h : compare k k' = .lt) : k ≠ k' := by
  rintro rfl
  rw [Std.ReflOrd.compare_self] at h
  cases h

theorem nodup_keys (m : OrdMap κ α) : m.keys.Nodup := m.keys_ascending.imp ne_of_compare_lt

theorem lookup_eq_some_iff {k : κ} {a : α} {l : List (κ × α)}
    (h : l.Pairwise fun a b => compare a.1 b.1 = .lt) : lookup k l = some a ↔ (k, a) ∈ l := by
  induction l with
  | nil => simp [lookup]
  | cons b rest ih =>
    obtain ⟨k', a'⟩ := b
    obtain ⟨hb, hr⟩ := List.pairwise_cons.mp h
    rw [lookup]
    by_cases hk : compare k k' = .eq
    · have hkk : k = k' := Std.LawfulEqOrd.eq_of_compare hk
      subst hkk
      have habsent : (k, a) ∉ rest := fun hm => ne_of_compare_lt (hb _ hm) rfl
      simp [habsent, eq_comm]
    · have hne : k ≠ k' := fun h => hk (h ▸ Std.ReflOrd.compare_self)
      simp [hk, ih hr, hne]

theorem find?_eq_some_iff {m : OrdMap κ α} {k : κ} {a : α} :
    m.find? k = some a ↔ (k, a) ∈ m.bindings :=
  lookup_eq_some_iff m.ascending

theorem find?_eq_none_iff {m : OrdMap κ α} {k : κ} :
    m.find? k = none ↔ ∀ a, (k, a) ∉ m.bindings := by
  rw [Option.eq_none_iff_forall_not_mem]
  exact forall_congr' fun a => not_congr find?_eq_some_iff

theorem mem_keys {m : OrdMap κ α} {k : κ} : k ∈ m.keys ↔ m.contains k = true := by
  simp [keys, contains_iff, find?_eq_some_iff]

theorem isEmpty_iff {m : OrdMap κ α} : m.isEmpty = true ↔ ∀ k, m.find? k = none := by
  simp only [isEmpty, List.isEmpty_iff, find?_eq_none_iff, List.eq_nil_iff_forall_not_mem,
    Prod.forall]

theorem isEmpty_eq_false {m : OrdMap κ α} {k : κ} {a : α} (h : m.find? k = some a) :
    m.isEmpty = false := by
  apply Bool.eq_false_iff.mpr
  intro he
  rw [isEmpty_iff.mp he k] at h
  cases h

theorem find?_filter (m : OrdMap κ α) (p : κ → Bool) (k : κ) :
    (m.filter p).find? k = if p k then m.find? k else none := by
  apply Option.ext
  intro a
  rw [find?_eq_some_iff]
  by_cases h : p k <;> simp [filter, h, find?_eq_some_iff]

@[simp]
theorem find?_erase_self (m : OrdMap κ α) (k : κ) : (m.erase k).find? k = none := by
  simp [erase, find?_filter]

theorem find?_erase_of_ne {m : OrdMap κ α} {k k' : κ} (h : k' ≠ k) :
    (m.erase k).find? k' = m.find? k' := by
  have hc : compare k k' ≠ .eq := fun hc => h (Std.LawfulEqOrd.eq_of_compare hc).symm
  simp [erase, find?_filter, hc]

variable [Std.TransOrd κ]

/-- Two ascending lists with the same members are the same list. -/
theorem eq_of_mem_iff {f : α → κ} {l₁ l₂ : List α}
    (h₁ : l₁.Pairwise fun a b => compare (f a) (f b) = .lt)
    (h₂ : l₂.Pairwise fun a b => compare (f a) (f b) = .lt)
    (h : ∀ a, a ∈ l₁ ↔ a ∈ l₂) : l₁ = l₂ := by
  have : Std.Irrefl fun a b : α => compare (f a) (f b) = .lt :=
    ⟨fun a => by simp [Std.ReflOrd.compare_self]⟩
  have : Std.Antisymm fun a b : α => compare (f a) (f b) = .lt :=
    ⟨fun a b hab hba => absurd hba (Std.OrientedCmp.not_lt_of_lt hab)⟩
  exact h₁.eq_of_mem_iff h₂ fun a => h a

theorem keys_eq {m : OrdMap κ α} {n : OrdMap κ β} (h : ∀ k, m.contains k = n.contains k) :
    m.keys = n.keys :=
  eq_of_mem_iff (f := id) m.keys_ascending n.keys_ascending fun k => by rw [mem_keys, mem_keys, h]

/-- Keys that are bound in one map are those bound in the other. -/
theorem keys_eq_of_find? {m : OrdMap κ α} {n : OrdMap κ β}
    (hnone : ∀ k, n.find? k = none → m.find? k = none)
    (hsome : ∀ k b, n.find? k = some b → ∃ a, m.find? k = some a) : m.keys = n.keys := by
  apply keys_eq
  intro k
  rw [contains, contains]
  cases hk : n.find? k with
  | none =>
    rw [hnone k hk]
    rfl
  | some b =>
    obtain ⟨a, ha⟩ := hsome k b hk
    rw [ha]
    rfl

@[ext]
theorem ext_find? {m n : OrdMap κ α} (h : ∀ k, m.find? k = n.find? k) : m = n := by
  refine ext_bindings (eq_of_mem_iff m.ascending n.ascending fun b => ?_)
  rw [← find?_eq_some_iff, ← find?_eq_some_iff, h]

omit [Std.TransOrd κ] in
theorem mem_place_of_ne {k k' : κ} {a a' : α} {l : List (κ × α)} (hk : k' ≠ k) :
    (k', a') ∈ place k a l ↔ (k', a') ∈ l := by
  induction l with
  | nil => simp [place, hk]
  | cons b rest ih =>
    rw [place]
    split
    · simp [hk]
    · next he =>
      have : k' ≠ b.1 := fun h => hk (h.trans (Std.LawfulEqOrd.eq_of_compare he).symm)
      rcases b with ⟨kb, vb⟩
      simp_all
    · simp [ih]

@[simp]
theorem find?_insert_self (m : OrdMap κ α) (k : κ) (a : α) : (m.insert k a).find? k = some a :=
  find?_eq_some_iff.mpr (mem_place_self k a m.bindings)

theorem find?_insert_of_ne {m : OrdMap κ α} {k k' : κ} {a : α} (h : k' ≠ k) :
    (m.insert k a).find? k' = m.find? k' := by
  apply Option.ext
  intro a'
  exact find?_eq_some_iff.trans ((mem_place_of_ne h).trans find?_eq_some_iff.symm)

theorem isEmpty_insert (m : OrdMap κ α) (k : κ) (a : α) : (m.insert k a).isEmpty = false :=
  isEmpty_eq_false (find?_insert_self m k a)

theorem insert_insert (m : OrdMap κ α) (k : κ) (a b : α) :
    (m.insert k a).insert k b = m.insert k b := by
  ext k'
  by_cases h : k' = k
  · subst h; simp
  · simp [find?_insert_of_ne h]

theorem insert_comm {k k' : κ} (h : k ≠ k') (m : OrdMap κ α) (a b : α) :
    (m.insert k a).insert k' b = (m.insert k' b).insert k a := by
  ext j : 1
  by_cases hk' : j = k'
  · subst hk'
    rw [find?_insert_self, find?_insert_of_ne h.symm, find?_insert_self]
  · rw [find?_insert_of_ne hk']
    by_cases hk : j = k
    · subst hk
      rw [find?_insert_self, find?_insert_self]
    · rw [find?_insert_of_ne hk, find?_insert_of_ne hk, find?_insert_of_ne hk']

theorem insert_eq_self {m : OrdMap κ α} {k : κ} {a : α} (h : m.find? k = some a) :
    m.insert k a = m := by
  ext k'
  by_cases hk : k' = k
  · subst hk; simp [h]
  · simp [find?_insert_of_ne hk]

theorem erase_eq_self {m : OrdMap κ α} {k : κ} (h : m.find? k = none) : m.erase k = m := by
  ext k'
  by_cases hk : k' = k
  · subst hk; simp [h]
  · rw [find?_erase_of_ne hk]

theorem erase_insert {m : OrdMap κ α} {k : κ} {a : α} (h : m.find? k = none) :
    (m.insert k a).erase k = m := by
  ext k'
  by_cases hk : k' = k
  · subst hk; simp [h]
  · rw [find?_erase_of_ne hk, find?_insert_of_ne hk]

/-- A key that is not bound stays so. -/
def update (m : OrdMap κ α) (k : κ) (f : α → α) : OrdMap κ α :=
  match m.find? k with
  | some a => m.insert k (f a)
  | none => m

theorem find?_update_self (m : OrdMap κ α) (k : κ) (f : α → α) :
    (m.update k f).find? k = (m.find? k).map f := by
  rw [update]
  split
  · next a h => rw [find?_insert_self, h, Option.map_some]
  · next h => rw [h, Option.map_none]

theorem find?_update_of_some {m : OrdMap κ α} {k : κ} {f : α → α} {a : α} (h : m.find? k = some a) :
    (m.update k f).find? k = some (f a) := by
  rw [find?_update_self, h, Option.map_some]

theorem find?_update_of_ne {m : OrdMap κ α} {k k' : κ} (f : α → α) (h : k' ≠ k) :
    (m.update k f).find? k' = m.find? k' := by
  rw [update]
  split
  · exact find?_insert_of_ne h
  · rfl

theorem update_comm {k k' : κ} {f g : α → α} (h : k ≠ k' ∨ ∀ a, f (g a) = g (f a)) (m : OrdMap κ α) :
    (m.update k f).update k' g = (m.update k' g).update k f := by
  ext j : 1
  by_cases hk' : j = k'
  · subst hk'
    rw [find?_update_self]
    by_cases hk : j = k
    · subst hk
      have hfg := h.resolve_left (not_not_intro rfl)
      rw [find?_update_self, find?_update_self, find?_update_self, Option.map_map, Option.map_map]
      exact congrArg (Option.map · (m.find? j)) (funext fun a => (hfg a).symm)
    · rw [find?_update_of_ne f hk, find?_update_of_ne f hk, find?_update_self]
  · rw [find?_update_of_ne g hk']
    by_cases hk : j = k
    · subst hk
      rw [find?_update_self, find?_update_self, find?_update_of_ne g hk']
    · rw [find?_update_of_ne f hk, find?_update_of_ne f hk, find?_update_of_ne g hk']

section MapValues

omit [Std.LawfulEqOrd κ] [Std.TransOrd κ]

def mapValues (m : OrdMap κ α) (f : κ → α → β) : OrdMap κ β :=
  ⟨m.bindings.map fun b => (b.1, f b.1 b.2), List.pairwise_map.mpr m.ascending⟩

theorem find?_mapValues [Std.LawfulEqOrd κ] (m : OrdMap κ α) (f : κ → α → β) (k : κ) :
    (m.mapValues f).find? k = (m.find? k).map (f k) := by
  apply Option.ext
  intro b
  rw [find?_eq_some_iff, Option.map_eq_some_iff]
  constructor
  · intro hb
    obtain ⟨⟨k', a⟩, ha, he⟩ := List.mem_map.mp hb
    cases he
    exact ⟨a, find?_eq_some_iff.mpr ha, rfl⟩
  · rintro ⟨a, ha, rfl⟩
    exact List.mem_map.mpr ⟨(k, a), find?_eq_some_iff.mp ha, rfl⟩

end MapValues

theorem insert_mapValues (m : OrdMap κ α) (f : κ → α → β) (k : κ) (a : α) :
    (m.insert k a).mapValues f = (m.mapValues f).insert k (f k a) := by
  ext k'
  rw [find?_mapValues]
  by_cases h : k' = k
  · subst h; simp
  · rw [find?_insert_of_ne h, find?_insert_of_ne h, find?_mapValues]

theorem erase_mapValues (m : OrdMap κ α) (f : κ → α → β) (k : κ) :
    (m.erase k).mapValues f = (m.mapValues f).erase k := by
  ext k'
  rw [find?_mapValues]
  by_cases h : k' = k
  · subst h; simp
  · rw [find?_erase_of_ne h, find?_erase_of_ne h, find?_mapValues]

end OrdMap

namespace OrdSet

variable {κ : Type u} [Ord κ] [Std.TransOrd κ] [Std.LawfulEqOrd κ]

open OrdMap (contains_iff)

theorem contains_foldl_insert (l : List κ) (s : OrdSet κ) (k : κ) :
    OrdMap.contains ((l.map fun k => (k, ())).foldl (fun m b => m.insert b.1 b.2) s) k = true ↔
      k ∈ l ∨ s.contains k = true := by
  induction l generalizing s with
  | nil => simp
  | cons a rest ih =>
    rw [List.map_cons, List.foldl_cons, ih]
    by_cases h : k = a
    · subst h; simp [OrdMap.contains]
    · simp [OrdMap.contains, OrdMap.find?_insert_of_ne h, h]

@[simp]
theorem contains_ofList {l : List κ} {k : κ} : (ofList l).contains k = true ↔ k ∈ l := by
  rw [ofList, OrdMap.ofList, contains_foldl_insert]
  exact or_iff_left fun h => Bool.false_ne_true h

theorem mem_keys_ofList {l : List κ} {k : κ} : k ∈ (ofList l).keys ↔ k ∈ l := by
  rw [OrdMap.mem_keys, contains_ofList]

theorem ext_keys {s t : OrdSet κ} (h : ∀ k, k ∈ s.keys ↔ k ∈ t.keys) : s = t := by
  refine OrdMap.ext_find? fun k => ?_
  have hk := h k
  rw [OrdMap.mem_keys, OrdMap.mem_keys, OrdMap.contains, OrdMap.contains] at hk
  cases hs : s.find? k <;> cases ht : t.find? k <;> simp [hs, ht] at hk ⊢

omit [Std.TransOrd κ] in
theorem contains_inter (s t : OrdSet κ) (k : κ) :
    (inter s t).contains k = (s.contains k && t.contains k) := by
  rw [inter, OrdMap.contains, OrdMap.find?_filter]
  cases h : t.contains k <;> simp [OrdMap.contains]

end OrdSet

end RelStore

import RelStore.Proofs.Maps
import RelStore.Store.Basic
/-! A lookup in a collection is the listing of its documents, filtered by key. The ways in which a
collection answers (a range, two ranges, key by key) all come down to this, and no range that is asked
for is one that an ordered map refuses. -/
namespace RelStore

universe u v

namespace OrdMap

theorem dropWhile_eq_filter {α : Type u} {p : α → Bool} {l : List α}
    (h : l.Pairwise fun a b => p a = true → p b = true) :
    (l.dropWhile fun a => !p a) = l.filter p := by
  induction l with
  | nil => rfl
  | cons a rest ih =>
    obtain ⟨ha, hr⟩ := List.pairwise_cons.mp h
    by_cases hp : p a
    · have hall : ∀ b ∈ rest, p b = true := fun b hb => ha b hb hp
      simp [hp, List.filter_eq_self.mpr hall]
    · simp [hp, ih hr]

theorem takeWhile_eq_filter {α : Type u} {p : α → Bool} {l : List α}
    (h : l.Pairwise fun a b => p b = true → p a = true) : l.takeWhile p = l.filter p := by
  induction l with
  | nil => rfl
  | cons a rest ih =>
    obtain ⟨ha, hr⟩ := List.pairwise_cons.mp h
    by_cases hp : p a
    · simp [hp, ih hr]
    · have hnone : rest.filter p = [] :=
        List.filter_eq_nil_iff.mpr fun b hb hb' => hp (ha b hb hb')
      simp [hp, hnone]

variable {κ : Type u} {α : Type v} [Ord κ] [Std.TransOrd κ]

theorem admitsAbove_mono {b : Bound κ} {k k' : κ} (h : compare k k' = .lt)
    (hk : b.admitsAbove k = true) : b.admitsAbove k' = true := by
  cases b with
  | unbounded => rfl
  | included v =>
    simp only [Bound.admitsAbove, bne_iff_ne, ne_eq] at hk ⊢
    have hle : (compare v k).isLE := by cases hc : compare v k <;> simp_all
    simp [Std.TransCmp.lt_of_isLE_of_lt hle h]
  | excluded v =>
    simp only [Bound.admitsAbove, beq_iff_eq] at hk ⊢
    exact Std.TransCmp.lt_trans hk h

theorem admitsBelow_mono {b : Bound κ} {k k' : κ} (h : compare k k' = .lt)
    (hk : b.admitsBelow k' = true) : b.admitsBelow k = true := by
  cases b with
  | unbounded => rfl
  | included v =>
    simp only [Bound.admitsBelow, bne_iff_ne, ne_eq] at hk ⊢
    have hle : (compare k' v).isLE := by cases hc : compare k' v <;> simp_all
    simp [Std.TransCmp.lt_of_lt_of_isLE h hle]
  | excluded v =>
    simp only [Bound.admitsBelow, beq_iff_eq] at hk ⊢
    exact Std.TransCmp.lt_trans h hk

theorem range_eq_filter (m : OrdMap κ α) (lower upper : Bound κ) :
    m.range lower upper =
      m.bindings.filter fun b => lower.admitsAbove b.1 && upper.admitsBelow b.1 := by
  have hdrop := dropWhile_eq_filter (p := fun b : κ × α => lower.admitsAbove b.1)
    (m.ascending.imp fun h => admitsAbove_mono h)
  have htake := takeWhile_eq_filter (p := fun b : κ × α => upper.admitsBelow b.1)
    ((m.ascending.filter fun b => lower.admitsAbove b.1).imp fun h => admitsBelow_mono h)
  rw [range, hdrop, htake, List.filter_filter]
  exact List.filter_congr fun b _ => Bool.and_comm _ _

/-- An ordered map refuses a range that starts behind its end, and one that excludes a single key at
both ends. -/
def Bound.InOrder : Bound κ → Bound κ → Prop
  | .excluded a, .excluded b => compare a b = .lt
  | .included a, .included b => compare a b ≠ .gt
  | .included a, .excluded b => compare a b ≠ .gt
  | .excluded a, .included b => compare a b ≠ .gt
  | .unbounded, _ => True
  | _, .unbounded => True

end OrdMap

/-- The ranges that a lookup goes through, one after the other; a list of keys is looked up key by
key. -/
def KeyFilter.ranges : KeyFilter → List (OrdMap.Bound Value × OrdMap.Bound Value)
  | .among _ => []
  | .compared .ne v => [(.unbounded, .excluded v), (.excluded v, .unbounded)]
  | f => f.bounds.toList

theorem KeyFilter.ranges_inOrder (f : KeyFilter) : ∀ r ∈ f.ranges, r.1.InOrder r.2 := by
  cases f with
  | all => simp [ranges, bounds, OrdMap.Bound.InOrder]
  | among ks => simp [ranges]
  | compared op v =>
    cases op <;> simp [ranges, bounds, OrdMap.Bound.InOrder, Std.ReflOrd.compare_self]

namespace Collection

open OrdMap (range_eq_filter)

theorem compare_ne_gt_eq {k v : Value} : (compare v k != .gt) = (compare k v).isGE := by
  rw [Std.OrientedOrd.eq_swap (a := v) (b := k)]
  cases compare k v <;> rfl

theorem compare_eq_lt_eq {k v : Value} : (compare v k == .lt) = (compare k v).isGT := by
  rw [Std.OrientedOrd.eq_swap (a := v) (b := k)]
  cases compare k v <;> rfl

/-- Everything but one key: what lies before it and then what lies behind it. -/
theorem range_around (c : Collection) (v : Value) :
    c.range .unbounded (.excluded v) ++ c.range (.excluded v) .unbounded =
      c.bindings.filter fun b => (compare b.1 v).isNe := by
  rw [range_eq_filter, range_eq_filter]
  apply OrdMap.eq_of_mem_iff (f := Prod.fst)
  · refine List.pairwise_append.mpr ⟨c.ascending.filter _, c.ascending.filter _, ?_⟩
    intro a ha b hb
    have hav : compare a.1 v = .lt := by
      simpa [OrdMap.Bound.admitsAbove, OrdMap.Bound.admitsBelow] using (List.mem_filter.mp ha).2
    have hvb : compare v b.1 = .lt := by
      simpa [OrdMap.Bound.admitsAbove, OrdMap.Bound.admitsBelow] using (List.mem_filter.mp hb).2
    exact Std.TransCmp.lt_trans hav hvb
  · exact c.ascending.filter _
  · intro b
    simp only [OrdMap.Bound.admitsAbove, OrdMap.Bound.admitsBelow, List.mem_append,
      List.mem_filter, compare_eq_lt_eq (k := b.1) (v := v), Bool.true_and, Bool.and_true]
    cases compare b.1 v <;> simp

theorem key_by_key (c : Collection) (ks : List Value) :
    ((OrdSet.ofList ks).keys.filterMap fun k => (c.find? k).map fun p => (k, p)) =
      c.bindings.filter fun b => decide (b.1 ∈ ks) := by
  apply OrdMap.eq_of_mem_iff (f := Prod.fst)
  · refine List.pairwise_filterMap.mpr ((OrdMap.keys_ascending _).imp fun h => ?_)
    intro a ha b hb
    obtain ⟨p, hp, rfl⟩ := Option.map_eq_some_iff.mp ha
    obtain ⟨q, hq, rfl⟩ := Option.map_eq_some_iff.mp hb
    exact h
  · exact c.ascending.filter _
  · rintro ⟨k, p⟩
    simp only [List.mem_filterMap, OrdSet.mem_keys_ofList, Option.map_eq_some_iff,
      List.mem_filter, decide_eq_true_eq]
    constructor
    · rintro ⟨k', hk, q, hq, he⟩
      cases he
      exact ⟨OrdMap.find?_eq_some_iff.mp hq, hk⟩
    · rintro ⟨hm, hk⟩
      exact ⟨k, hk, p, OrdMap.find?_eq_some_iff.mpr hm, rfl⟩

theorem scan_eq_filter (c : Collection) (f : KeyFilter) :
    c.scan f = documents (c.bindings.filter fun b => f.admits b.1) := by
  cases f with
  | all =>
    rw [scan.eq_def]
    simp only [KeyFilter.bounds, range_eq_filter]
    rfl
  | among ks => rw [scan, key_by_key]; rfl
  | compared op v =>
    cases op with
    | ne => rw [scan, range_around]; rfl
    | eq | lt | gt | le | ge =>
      rw [scan.eq_def]
      simp only [KeyFilter.bounds, range_eq_filter]
      congr 1
      apply List.filter_congr
      intro b _
      simp only [OrdMap.Bound.admitsAbove, OrdMap.Bound.admitsBelow, KeyFilter.admits,
        Operator.holds, compare_ne_gt_eq (k := b.1) (v := v), compare_eq_lt_eq (k := b.1) (v := v)]
      cases compare b.1 v <;> rfl

theorem scan_eq_ranges (c : Collection) {f : KeyFilter} (hf : ∀ ks, f ≠ .among ks) :
    c.scan f = documents (f.ranges.flatMap fun r => c.range r.1 r.2) := by
  cases f with
  | all => simp [scan, KeyFilter.ranges, KeyFilter.bounds]
  | among ks => exact absurd rfl (hf ks)
  | compared op v => cases op <;> simp [scan, KeyFilter.ranges, KeyFilter.bounds]

theorem ids_scan_ascending (c : Collection) (f : KeyFilter) :
    (c.scan f).Pairwise fun a b => compare a.id b.id = .lt := by
  rw [scan_eq_filter, documents]
  exact List.pairwise_map.mpr (c.ascending.filter _)

theorem mem_scan {c : Collection} {f : KeyFilter} {d : Document} :
    d ∈ c.scan f ↔ c.find? d.id = some d.payload ∧ f.admits d.id = true := by
  rw [scan_eq_filter, documents, List.mem_map]
  constructor
  · rintro ⟨b, hb, rfl⟩
    obtain ⟨hm, ha⟩ := List.mem_filter.mp hb
    exact ⟨OrdMap.find?_eq_some_iff.mpr hm, ha⟩
  · rintro ⟨hf, ha⟩
    exact ⟨(d.id, d.payload), List.mem_filter.mpr ⟨OrdMap.find?_eq_some_iff.mp hf, ha⟩, rfl⟩

end Collection

namespace Content

variable (c : Content) (db name : String)

theorem collection?_eq_getD : c.collection? db name = ((c.find? db).getD ∅).find? name := by
  rw [collection?]
  cases c.find? db <;> rfl

theorem findOne_eq_getD (id : Value) : c.findOne db name id =
    (((c.collection? db name).getD ∅).find? id).map fun p => ⟨id, p⟩ := by
  rw [findOne]
  cases c.collection? db name <;> rfl

theorem find_eq_getD (f : KeyFilter) :
    c.find db name f = ((c.collection? db name).getD ∅).scan f := by
  rw [find]
  cases c.collection? db name with
  | none => exact (Collection.scan_eq_filter ∅ f).symm
  | some coll => rfl

theorem mem_find {f : KeyFilter} {d : Document} : d ∈ c.find db name f ↔
    ∃ coll, c.collection? db name = some coll ∧ coll.find? d.id = some d.payload ∧
      f.admits d.id = true := by
  rw [find]
  split
  · next coll hcoll => simp [hcoll, Collection.mem_scan]
  · next hnone => simp [hnone]

theorem ids_find_ascending (f : KeyFilter) :
    (c.find db name f).Pairwise fun a b => compare a.id b.id = .lt := by
  rw [find]
  split
  · exact Collection.ids_scan_ascending _ f
  · exact .nil

theorem findOne_eq_some {id : Value} {d : Document} : c.findOne db name id = some d ↔
    ∃ coll, c.collection? db name = some coll ∧ coll.find? d.id = some d.payload ∧ d.id = id := by
  rw [findOne, Option.bind_eq_some_iff]
  refine exists_congr fun coll => and_congr_right fun _ => ?_
  rw [Option.map_eq_some_iff]
  constructor
  · rintro ⟨p, hp, rfl⟩
    exact ⟨hp, rfl⟩
  · rintro ⟨hp, rfl⟩
    exact ⟨d.payload, hp, rfl⟩

theorem mem_find_all {d : Document} :
    d ∈ c.find db name .all ↔ c.findOne db name d.id = some d := by
  simp [mem_find, findOne_eq_some, KeyFilter.admits]

theorem find_eq_toList_findOne (id : Value) :
    c.find db name (.compared .eq id) = (c.findOne db name id).toList := by
  apply OrdMap.eq_of_mem_iff (f := Document.id) (c.ids_find_ascending db name _)
  · cases c.findOne db name id with
    | none => exact .nil
    | some d => exact List.pairwise_singleton _ _
  · intro d
    rw [mem_find, Option.mem_toList, findOne_eq_some]
    simp only [KeyFilter.admits, Operator.holds, Ordering.isEq_iff_eq_eq, Std.LawfulEqOrd.compare_eq_iff_eq]

end Content

/-- A lookup gives the documents whose keys the filter admits and no others, in the order of their
keys, and none of a missing collection. The ranges it goes through are none that an ordered map
refuses. To look up a single key is to filter by equality with it. -/
theorem lookup_exact (c : Content) (db name : String) (f : KeyFilter) :
    (∀ d, d ∈ c.find db name f ↔ ∃ coll, c.collection? db name = some coll ∧
      coll.find? d.id = some d.payload ∧ f.admits d.id = true) ∧
    ((c.find db name f).Pairwise fun a b => compare a.id b.id = .lt) ∧
    (∀ r ∈ f.ranges, r.1.InOrder r.2) ∧
    (∀ coll : Collection, (∀ ks, f ≠ .among ks) →
      coll.scan f = Collection.documents (f.ranges.flatMap fun r => coll.range r.1 r.2)) ∧
    ∀ id, c.find db name (.compared .eq id) = (c.findOne db name id).toList :=
  ⟨fun _ => c.mem_find db name, c.ids_find_ascending db name f, f.ranges_inOrder,
    fun coll hf => coll.scan_eq_ranges hf, c.find_eq_toList_findOne db name⟩

/-- Keys of different types in one collection. -/
def mixedKeys : Content :=
  .ofList [("d", .ofList [("c", .ofList [(.string "x", .blob "s"), (.int 2, .blob "b"),
    (.bit true, .blob "t"), (.int 1, .rowIds [])])])]

/-- Around a key that is there, by a list with a key twice and one that is not there, and by one
key. -/
theorem lookup_exact_mixedKeys :
    ⟨.string "x", .blob "s"⟩ ∈ mixedKeys.find "d" "c" (.compared .ne (.int 2)) ∧
    (∀ r ∈ (KeyFilter.compared .ne (.int 2)).ranges, r.1.InOrder r.2) ∧
    ⟨.int 1, .rowIds []⟩ ∈ mixedKeys.find "d" "c" (.among [.int 1, .int 3, .int 1]) ∧
    ((mixedKeys.find "d" "c" (.among [.int 1, .int 3, .int 1])).Pairwise fun a b =>
      compare a.id b.id = .lt) ∧
    mixedKeys.find "d" "c" (.compared .eq (.bit true)) = [⟨.bit true, .blob "t"⟩] := by
  obtain ⟨haround, -, hranges, -, hone⟩ := lookup_exact mixedKeys "d" "c" (.compared .ne (.int 2))
  obtain ⟨hlisted, hascending, -⟩ :=
    lookup_exact mixedKeys "d" "c" (.among [.int 1, .int 3, .int 1])
  refine ⟨(haround _).mpr ⟨_, rfl, by decide +kernel, by decide +kernel⟩, hranges,
    (hlisted _).mpr ⟨_, rfl, by decide +kernel, by decide +kernel⟩, hascending, ?_⟩
  rw [hone]
  decide +kernel

end RelStore

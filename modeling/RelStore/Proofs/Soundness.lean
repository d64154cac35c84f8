import RelStore.Proofs.Relations
import RelStore.Proofs.RowText
/-! Sound relations: the definition is well formed, rows fit it and unique columns hold distinct
values. What the checks before a change let pass keeps this. -/
namespace RelStore

theorem Row.Fits.congr {t t' : Table} {r : Row} (h : r.Fits t) (hk : t'.keyRefs = t.keyRefs) :
    r.Fits t' := by
  have hkeys (t : Table) : r.Fits t ↔
      List.Forall₂ (fun k v => k.type.Holds v) t.keyRefs r.values := by
    rw [Table.keyRefs, List.forall₂_map_left_iff]
    rfl
  rw [hkeys] at h ⊢
  rwa [hk]

theorem Row.get?_of_forall₂ {p : Column → Value → Prop} {t : Table} {r : Row}
    (h : List.Forall₂ p t.columns r.values) (hs : t.Shaped) {c : Column} (hc : c ∈ t.columns) :
    ∃ v, r.get? c.position = some v ∧ p c v := by
  obtain ⟨hlt, hget⟩ := List.getElem?_eq_some_iff.mp (hs.getElem?_position hc)
  have hlen := h.length_eq
  refine ⟨r.values.get ⟨c.position, hlen ▸ hlt⟩, List.getElem?_eq_getElem _, ?_⟩
  have := h.get hlt (hlen ▸ hlt)
  simpa [hget] using this

theorem Row.Fits.get? {t : Table} {r : Row} (h : r.Fits t) (hs : t.Shaped) {c : Column}
    (hc : c ∈ t.columns) : ∃ v, r.get? c.position = some v ∧ c.type.Holds v :=
  get?_of_forall₂ h hs hc

namespace Relation

variable {R : Relation} {r s : Row} {c : Column} {v : Value} {i : Nat}

theorem mem_list : r ∈ R.list ↔ R.rows.find? r.id = some r.fields := by
  rw [OrdMap.find?_eq_some_iff, list, List.mem_map]
  constructor
  · rintro ⟨b, hb, rfl⟩
    exact hb
  · exact fun h => ⟨(r.id, r.fields), h, rfl⟩

theorem ids_ascending : (R.list.map (·.id)).Pairwise fun a b => compare a b = .lt := by
  rw [list, List.map_map]
  exact R.rows.keys_ascending

theorem nodup_ids : (R.list.map (·.id)).Nodup := ids_ascending.imp OrdMap.ne_of_compare_lt

theorem nodup_list : R.list.Nodup := List.Nodup.of_map _ nodup_ids

theorem eq_of_id (hr : r ∈ R.list) (hs : s ∈ R.list) (h : r.id = s.id) : r = s := by
  rw [mem_list] at hr hs
  rw [h, hs] at hr
  cases r; cases s
  cases h
  cases hr
  rfl

/-- Whether the column at a place holds a value. -/
def Has (R : Relation) (i : Nat) (v : Value) : Prop := ∃ r ∈ R.list, r.get? i = some v

def Distinct (R : Relation) (i : Nat) : Prop :=
  ∀ r ∈ R.list, ∀ s ∈ R.list, ∀ v, r.get? i = some v → s.get? i = some v → r = s

theorem holds_iff : R.holds c v = true ↔ R.Has c.position v := by simp [holds, Has]

theorem holds_eq_false : R.holds c v = false ↔ ¬ R.Has c.position v := by
  rw [← holds_iff, Bool.not_eq_true]

theorem get?_zero : r.get? 0 = some r.id := rfl

theorem has_zero : R.Has 0 v ↔ R.rows.contains v = true := by
  rw [OrdMap.contains_iff]
  constructor
  · rintro ⟨r, hr, hv⟩
    cases hv
    exact ⟨r.fields, mem_list.mp hr⟩
  · rintro ⟨fields, h⟩
    exact ⟨⟨v, fields⟩, mem_list.mpr h, rfl⟩

theorem mem_insertRow (hnew : R.rows.find? r.id = none) :
    s ∈ (R.insertRow r).list ↔ s = r ∨ s ∈ R.list := by
  rw [mem_list, mem_list, insertRow]
  by_cases h : s.id = r.id
  · rw [h, OrdMap.find?_insert_self, hnew]
    refine ⟨fun he => .inl ?_, fun he => ?_⟩
    · cases r; cases s
      cases h
      cases he
      rfl
    · rcases he with rfl | he
      · rfl
      · cases he
  · rw [OrdMap.find?_insert_of_ne h]
    refine ⟨.inr, fun he => he.resolve_left ?_⟩
    rintro rfl
    exact h rfl

theorem mem_deleteRow {id : Value} : s ∈ (R.deleteRow id).list ↔ s ∈ R.list ∧ s.id ≠ id := by
  rw [mem_list, mem_list, deleteRow]
  by_cases h : s.id = id
  · simp [h]
  · simp [OrdMap.find?_erase_of_ne h, h]

theorem has_insertRow (hnew : R.rows.find? r.id = none) :
    (R.insertRow r).Has i v ↔ R.Has i v ∨ r.get? i = some v := by
  simp only [Has, mem_insertRow hnew]
  constructor
  · rintro ⟨s, rfl | hs, hv⟩
    · exact .inr hv
    · exact .inl ⟨s, hs, hv⟩
  · rintro (⟨s, hs, hv⟩ | hv)
    · exact ⟨s, .inr hs, hv⟩
    · exact ⟨r, .inl rfl, hv⟩

theorem Has.of_deleteRow {id : Value} (h : (R.deleteRow id).Has i v) : R.Has i v := by
  obtain ⟨s, hs, hv⟩ := h
  exact ⟨s, (mem_deleteRow.mp hs).1, hv⟩

/-- A value stays, unless it was the deleted row's. -/
theorem Has.deleteRow (h : R.Has i v) (hr : r ∈ R.list) (hne : r.get? i ≠ some v) :
    (R.deleteRow r.id).Has i v := by
  obtain ⟨s, hs, hv⟩ := h
  refine ⟨s, mem_deleteRow.mpr ⟨hs, fun hid => hne ?_⟩, hv⟩
  rwa [eq_of_id hr hs hid.symm]

structure Sound (R : Relation) : Prop where
  table : R.table.WellFormed
  rows : ∀ r ∈ R.list, r.Fits R.table
  unique : ∀ c ∈ R.table.columns, c.unique = true → R.Distinct c.position

end Relation

section Checks

variable {R : Relation} {t : Table} {r : Row} {c : Column} {values : List String}

theorem Column.read_eq_ok {literal : String} {v : Value} :
    c.read literal = .ok v ↔ c.type.read? literal = some v := by
  rw [Column.read]
  cases c.type.read? literal <;> simp

/-- The values of a row are what its literals stand for, column by column. -/
theorem Constraint.forall₂_of_readFields {p : ColumnType → Value → Prop} {cs : List Column}
    {vs : List Value} (h : (cs.zip values).mapM (fun p => p.1.read p.2) = .ok vs)
    (hlen : cs.length = values.length)
    (hp : ∀ s ∈ values, ∀ type v, ColumnType.read? type s = some v → p type v) :
    List.Forall₂ (fun c v => p c.type v) cs vs := by
  induction cs generalizing values vs with
  | nil =>
    cases h
    exact .nil
  | cons c cs ih =>
    cases values with
    | nil => cases hlen
    | cons s values =>
      rw [mapM_eq_ok_iff, List.zip_cons_cons, List.forall₂_cons_left_iff] at h
      obtain ⟨v, vs, hv, hvs, rfl⟩ := h
      obtain ⟨hs, hp⟩ := List.forall_mem_cons.mp hp
      exact .cons (hs c.type v (Column.read_eq_ok.mp hv))
        (ih (mapM_eq_ok_iff.mpr hvs) (Nat.succ.inj hlen) hp)

theorem Constraint.forall₂_of_readRow {p : ColumnType → Value → Prop}
    (h : readRow t values = .ok r)
    (hp : ∀ s ∈ values, ∀ type v, ColumnType.read? type s = some v → p type v) :
    List.Forall₂ (fun c v => p c.type v) t.columns r.values := by
  cases values with
  | nil => cases h
  | cons id fields =>
    rw [readRow] at h
    by_cases hlen : (id :: fields).length = t.width
    · rw [if_neg (not_not_intro hlen)] at h
      obtain ⟨v, hv, h⟩ := Except.bind_eq_ok.mp h
      obtain ⟨vs, hvs, he⟩ := Except.bind_eq_ok.mp h
      cases he
      obtain ⟨hs, hp⟩ := List.forall_mem_cons.mp hp
      rw [Row.columns_eq t]
      refine .cons (hs _ v (Column.read_eq_ok.mp hv)) (forall₂_of_readFields hvs ?_ hp)
      rw [List.length_tail, ← Table.width, ← hlen, List.length_cons, Nat.add_sub_cancel]
    · rw [if_pos hlen] at h
      cases h

theorem Constraint.denotes_of_readRow (h : readRow t values = .ok r) :
    List.Forall₂ (fun c v => c.type.Denotes v) t.columns r.values :=
  forall₂_of_readRow h fun _ _ _ _ hv => ColumnType.denotes_of_read? hv

theorem Constraint.of_readRow (h : readRow t values = .ok r)
    (hd : ∀ s ∈ values, fieldDelimiter ∉ s.toList) : r.Fits t :=
  forall₂_of_readRow h fun s hs _ _ hv => ColumnType.holds_of_read? hv (hd s hs)

theorem Relation.of_checkUnique (ht : t = R.table) (hs : t.Shaped)
    (h : R.checkUnique r = .ok ()) :
    R.rows.find? r.id = none ∧
      ∀ c ∈ t.columns, c.unique = true → ∀ v, r.get? c.position = some v →
        ¬ R.Has c.position v := by
  subst ht
  rw [checkUnique] at h
  by_cases hid : R.rows.contains r.id = true
  · rw [if_pos hid] at h
    cases h
  · rw [if_neg hid] at h
    have hnone : R.rows.find? r.id = none := OrdMap.contains_eq_false_iff.mp (by simpa using hid)
    refine ⟨hnone, fun c hc hu v hv => ?_⟩
    by_cases hrow : c.isRowId = true
    · rw [(hs.isRowId_iff hc).mp hrow, hs.rowId_position] at hv ⊢
      rw [has_zero]
      cases hv
      exact hid
    · have hcheck := forM_eq_ok_iff.mp h c (List.mem_filter.mpr ⟨hc, by simp [hu, hrow]⟩)
      rw [← holds_eq_false]
      simpa [checkUniqueColumn, hv] using hcheck

theorem Constraint.checkDistinct_eq_ok {seen : OrdSet Value} {rows : List Row} :
    checkDistinct t c seen rows = .ok () ↔
      (rows.filterMap fun r => r.get? c.position).Nodup ∧
        ∀ v ∈ rows.filterMap fun r => r.get? c.position, seen.contains v = false := by
  induction rows generalizing seen with
  | nil => simp [checkDistinct]
  | cons r rows ih =>
    rw [checkDistinct]
    cases hr : r.get? c.position with
    | none =>
      rw [List.filterMap_cons_none (f := fun r : Row => r.get? c.position) hr]
      exact ih
    | some v =>
      rw [List.filterMap_cons_some (f := fun r : Row => r.get? c.position) hr, List.nodup_cons,
        List.forall_mem_cons]
      by_cases hseen : seen.contains v = true
      · simp [hseen]
      · have hinsert (w : Value) : OrdMap.contains (seen.insert v ()) w = false ↔
            w ≠ v ∧ seen.contains w = false := by
          rw [OrdMap.contains_eq_false_iff, OrdMap.contains_eq_false_iff]
          by_cases hw : w = v
          · simp [hw, OrdMap.find?_insert_self]
          · simp [hw, OrdMap.find?_insert_of_ne hw]
        rw [Bool.not_eq_true] at hseen
        simp only [hseen, Bool.false_eq_true, if_false, ih, hinsert]
        constructor
        · rintro ⟨hnodup, hnew⟩
          exact ⟨⟨fun hv => (hnew v hv).1 rfl, hnodup⟩, trivial, fun w hw => (hnew w hw).2⟩
        · rintro ⟨⟨hfresh, hnodup⟩, -, hnew⟩
          exact ⟨hnodup, fun w hw => ⟨fun he => hfresh (he ▸ hw), hnew w hw⟩⟩

/-- The check passes exactly if no two rows hold equal values. -/
theorem Constraint.checkDistinct_empty {rows : List Row} :
    checkDistinct t c ∅ rows = .ok () ↔ rows.Pairwise fun q r =>
      ∀ v, q.get? c.position = some v → r.get? c.position ≠ some v := by
  have hnone (v : Value) : OrdMap.contains (∅ : OrdSet Value) v = false := rfl
  rw [checkDistinct_eq_ok, List.Nodup, List.pairwise_filterMap, and_iff_left fun v _ => hnone v]
  refine List.Pairwise.iff fun q r => ?_
  constructor
  · intro h v hq hr
    exact h v hq v hr rfl
  · rintro h v hq w hr rfl
    exact h v hq hr

theorem Relation.distinct_iff {i : Nat} : R.Distinct i ↔
    R.list.Pairwise fun q r => ∀ v, q.get? i = some v → r.get? i ≠ some v := by
  constructor
  · intro h
    exact nodup_list.imp_of_mem fun hq hr hne v hqv hrv => hne (h _ hq _ hr v hqv hrv)
  · intro h q hq r hr v hqv hrv
    have : Std.Symm fun q r : Row => ∀ v, q.get? i = some v → r.get? i ≠ some v :=
      ⟨fun _ _ h v hr hq => h v hq hr⟩
    by_contra hne
    exact h.forall hq hr hne v hqv hrv

theorem Relation.distinct_of_check (h : Constraint.checkDistinct t c ∅ R.list = .ok ()) :
    R.Distinct c.position := distinct_iff.mpr (Constraint.checkDistinct_empty.mp h)

end Checks

namespace Relation

variable {R : Relation} {r : Row} {c : Column}

theorem Sound.insertRow (h : R.Sound) (hfits : r.Fits R.table)
    (hnew : R.checkUnique r = .ok ()) : (R.insertRow r).Sound where
  table := h.table
  rows := by
    obtain ⟨hid, -⟩ := of_checkUnique rfl h.table.shaped hnew
    intro s hs
    rcases (mem_insertRow hid).mp hs with rfl | hs
    · exact hfits
    · exact h.rows s hs
  unique := by
    obtain ⟨hid, hunique⟩ := of_checkUnique rfl h.table.shaped hnew
    intro c hc hu a ha b hb v hav hbv
    rcases (mem_insertRow hid).mp ha with rfl | ha' <;>
      rcases (mem_insertRow hid).mp hb with rfl | hb'
    · rfl
    · exact (hunique c hc hu v hav ⟨b, hb', hbv⟩).elim
    · exact (hunique c hc hu v hbv ⟨a, ha', hav⟩).elim
    · exact h.unique c hc hu a ha' b hb' v hav hbv

theorem Sound.deleteRow (h : R.Sound) (id : Value) : (R.deleteRow id).Sound where
  table := h.table
  rows := fun s hs => h.rows s (mem_deleteRow.mp hs).1
  unique := fun c hc hu a ha b hb =>
    h.unique c hc hu a (mem_deleteRow.mp ha).1 b (mem_deleteRow.mp hb).1

/-- A definition may change, if columns that become unique hold distinct values. -/
theorem Sound.withTable (h : R.Sound) {f : Table → Table} (ht : (f R.table).WellFormed)
    (hk : (f R.table).keyRefs = R.table.keyRefs)
    (hu : ∀ c ∈ (f R.table).columns, c.unique = true → R.Distinct c.position) :
    (R.withTable f).Sound where
  table := ht
  rows := fun r hr => (h.rows r hr).congr hk
  unique := hu

end Relation

end RelStore

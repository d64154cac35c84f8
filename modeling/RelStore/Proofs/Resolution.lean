import RelStore.Proofs.Representation
/-! Resolution of conditions by index. Where each index lists what a scan finds, the ids that are left
after meeting those of one condition after another are the ids of the rows that satisfy all of them,
whatever the order of the conditions and however often one is given. -/
namespace RelStore

theorem Relation.meets_iff {r : Row} {column : Column} {op : Operator} {v : Value} :
    Relation.meets r (column, op, v) = true ↔
      ∃ x, r.get? column.position = some x ∧ op.holds x v = true := by
  simp only [meets, Option.any_eq_true]

/-- Whether the row meets the conditions of a group. -/
def SelectPlan.Meets (t : Table) (r : Row) (g : String × Conditions) : Prop :=
  ∀ x ∈ g.2, ∀ column, t.column g.1 = .ok column → Relation.meets r (column, x) = true

namespace Row

variable {c : Content} {db : String} {t : Table} {f : KeyFilter} {rows : List Row} {r s : Row}
  {d : Document}

theorem id_of_ofDocument (h : ofDocument t d = .ok r) : r.id = d.id := by
  obtain ⟨id, payload⟩ := d
  cases payload with
  | rowIds ids => cases h
  | blob blob =>
    simp only [ofDocument] at h
    by_cases hwidth : (splitBlob t blob).length + 1 = t.width
    · simp only [hwidth, ne_eq, not_true_eq_false, if_false] at h
      obtain ⟨values, -, he⟩ := Except.bind_eq_ok.mp h
      cases he
      rfl
    · simp only [hwidth, ne_eq, not_false_eq_true, if_true] at h
      cases h

/-- The rows of a scan have the ids of the documents they are read from. -/
theorem ids_of_scan (h : scan c db t f = .ok rows) :
    rows.map (·.id) = (c.find db t.name f).map (·.id) := by
  rw [scan, mapM_eq_ok_iff] at h
  generalize c.find db t.name f = documents at h ⊢
  induction h with
  | nil => rfl
  | cons hr _ ih => rw [List.map_cons, List.map_cons, id_of_ofDocument hr, ih]

theorem eq_of_id_of_scan (h : scan c db t f = .ok rows) (hr : r ∈ rows) (hs : s ∈ rows)
    (he : r.id = s.id) : r = s := by
  have hnodup : (rows.map (·.id)).Nodup := by
    rw [ids_of_scan h]
    exact (List.pairwise_map.mpr (c.ids_find_ascending db t.name f)).imp OrdMap.ne_of_compare_lt
  exact List.inj_on_of_nodup_map hnodup hr hs he

/-- To look up ids is to look at those of the rows. -/
theorem mem_ids_find (h : scan c db t .all = .ok rows) {id : Value} :
    id ∈ (c.find db t.name f).map (·.id) ↔ ∃ r ∈ rows, r.id = id ∧ f.admits id = true := by
  have hids : id ∈ rows.map (·.id) ↔ id ∈ (c.find db t.name .all).map (·.id) := by
    rw [ids_of_scan h]
  simp only [List.mem_map, Content.mem_find, KeyFilter.admits, and_true] at hids ⊢
  constructor
  · rintro ⟨d, ⟨coll, hcoll, hd, ha⟩, rfl⟩
    obtain ⟨r, hr, hid⟩ := hids.mpr ⟨d, ⟨coll, hcoll, hd⟩, rfl⟩
    exact ⟨r, hr, hid, ha⟩
  · rintro ⟨r, hr, hid, ha⟩
    obtain ⟨d, ⟨coll, hcoll, hd⟩, rfl⟩ := hids.mp ⟨r, hr, hid⟩
    exact ⟨d, ⟨coll, hcoll, hd, ha⟩, rfl⟩

end Row

namespace Index

variable {c : Content} {db : String} {t : Table} {rows : List Row} {column : Column}
  {left : Option IdSet} {id : Value} {groups groups' : List (String × Conditions)}

/-- The entries are those of the values in the column, and each lists the rows that hold its value,
once each. -/
structure Exact (rows : List Row) (column : Column) (coll : Collection) : Prop where
  entry : ∀ v, (∃ p, coll.find? v = some p) ↔ ∃ r ∈ rows, r.get? column.position = some v
  ids : ∀ v p, coll.find? v = some p → ∃ ids, p = .rowIds ids ∧ ids ≠ [] ∧ ids.Nodup ∧
    ∀ id, id ∈ ids ↔ ∃ r ∈ rows, r.id = id ∧ r.get? column.position = some v

/-- What is stored for the indexes of a table is what a scan of it gives; an index without a collection
has no entries. The row ids have no other index than the rows themselves. -/
def Agrees (c : Content) (db : String) (t : Table) (rows : List Row) : Prop :=
  ∀ column ∈ t.secondaryIndexes,
    Exact rows column ((c.collection? db (indexCollection t.name column.name)).getD ∅)

theorem Exact.mem_iff {coll : Collection} (h : Exact rows column coll) (v id : Value) :
    id ∈ ((coll.find? v).bind Payload.rowIds?).getD [] ↔
      ∃ r ∈ rows, r.id = id ∧ r.get? column.position = some v := by
  cases hfind : coll.find? v with
  | none =>
    refine iff_of_false List.not_mem_nil ?_
    rintro ⟨r, hr, -, hv⟩
    obtain ⟨p, hp⟩ := (h.entry v).mpr ⟨r, hr, hv⟩
    rw [hfind] at hp
    cases hp
  | some p =>
    obtain ⟨ids, rfl, -, -, hids⟩ := h.ids v p hfind
    exact hids id

/-- A lookup finds the ids of the rows that compare so with the value. -/
theorem mem_lookup (hrows : Row.scan c db t .all = .ok rows) (h : Agrees c db t rows)
    (hc : column ∈ t.columns) (hi : column.indexed = true) {op : Operator} {v : Value} :
    id ∈ (lookup c db t column op v).keys ↔
      ∃ r ∈ rows, r.id = id ∧ Relation.meets r (column, op, v) = true := by
  rw [lookup]
  by_cases hrow : column.isRowId = true
  · have hposition : column.position = 0 := of_decide_eq_true hrow
    rw [if_pos hrow, OrdSet.mem_keys_ofList, Row.mem_ids_find hrows]
    refine exists_congr fun r => and_congr_right fun _ => and_congr_right fun hid => ?_
    rw [Relation.meets, hposition, ← hid]
    rfl
  · have hexact := h column (mem_secondaryIndexes.mpr ⟨hc, hi, by simpa using hrow⟩)
    rw [if_neg hrow, OrdSet.mem_keys_ofList, List.mem_flatMap, Content.find_eq_getD]
    generalize (c.collection? db (indexCollection t.name column.name)).getD ∅ = coll at hexact ⊢
    constructor
    · rintro ⟨d, hd, hid⟩
      obtain ⟨hentry, ha⟩ := Collection.mem_scan.mp hd
      have hids := hexact.mem_iff d.id id
      rw [hentry, Option.bind_some] at hids
      obtain ⟨r, hr, hrid, hv⟩ := hids.mp hid
      exact ⟨r, hr, hrid, Relation.meets_iff.mpr ⟨d.id, hv, ha⟩⟩
    · rintro ⟨r, hr, hrid, hm⟩
      obtain ⟨x, hx, ha⟩ := Relation.meets_iff.mp hm
      obtain ⟨p, hp⟩ := (hexact.entry x).mpr ⟨r, hr, hx⟩
      have hids := (hexact.mem_iff x id).mpr ⟨r, hr, hrid, hx⟩
      rw [hp, Option.bind_some] at hids
      exact ⟨⟨x, p⟩, Collection.mem_scan.mpr ⟨hp, ha⟩, hids⟩

theorem lookup_contains (hrows : Row.scan c db t .all = .ok rows) (h : Agrees c db t rows)
    (hc : column ∈ t.columns) (hi : column.indexed = true) {op : Operator} {v : Value} {r : Row}
    (hr : r ∈ rows) :
    (lookup c db t column op v).contains r.id = Relation.meets r (column, op, v) := by
  rw [Bool.eq_iff_iff, ← OrdMap.mem_keys, mem_lookup hrows h hc hi]
  constructor
  · rintro ⟨r', hr', he, hm⟩
    rwa [Row.eq_of_id_of_scan hrows hr' hr he] at hm
  · exact fun hm => ⟨r, hr, rfl, hm⟩

/-- Whether an id is among those left, which are all of them at first. -/
def remains (left : Option IdSet) (id : Value) : Bool := left.all fun ids => ids.contains id

theorem contains_meet (ids : IdSet) :
    (meet left ids).contains id = (remains left id && ids.contains id) := by
  cases left with
  | none => rfl
  | some acc => exact OrdSet.contains_inter acc ids id

theorem contains_of_isEmpty {ids : IdSet} (h : ids.isEmpty = true) (id : Value) :
    ids.contains id = false := by
  rw [OrdMap.contains, OrdMap.isEmpty_iff.mp h id]
  rfl

/-- Of several conditions, the last ones are not looked up once nothing is left. -/
theorem remains_lookupAllFrom (conditions : List (Operator × Value)) :
    remains (lookupAllFrom c db t column left conditions) id =
      (remains left id && conditions.all fun p => (lookup c db t column p.1 p.2).contains id) := by
  induction conditions generalizing left with
  | nil => simp [lookupAllFrom]
  | cons p conditions ih =>
    obtain ⟨op, v⟩ := p
    rw [lookupAllFrom, List.all_cons, ← Bool.and_assoc, ← contains_meet]
    split
    · next hempty =>
      rw [contains_of_isEmpty hempty]
      rfl
    · rw [ih]
      rfl

theorem lookupAllFrom_isSome (ids : IdSet) (conditions : List (Operator × Value)) :
    (lookupAllFrom c db t column (some ids) conditions).isSome = true := by
  induction conditions generalizing ids with
  | nil => rfl
  | cons p conditions ih =>
    rw [lookupAllFrom]
    split
    · rfl
    · exact ih _

theorem contains_lookupAll {conditions : List (Operator × Value)} (hne : conditions ≠ []) :
    (lookupAll c db t column conditions).contains id =
      conditions.all fun p => (lookup c db t column p.1 p.2).contains id := by
  have hremains : remains (lookupAllFrom c db t column none conditions) id =
      (remains none id && conditions.all fun p => (lookup c db t column p.1 p.2).contains id) :=
    remains_lookupAllFrom conditions
  obtain ⟨ids, hids⟩ : ∃ ids, lookupAllFrom c db t column none conditions = some ids := by
    obtain ⟨p, rest, rfl⟩ := List.exists_cons_of_ne_nil hne
    rw [lookupAllFrom]
    split
    · exact ⟨_, rfl⟩
    · exact Option.isSome_iff_exists.mp (lookupAllFrom_isSome _ rest)
  rw [hids] at hremains
  rw [lookupAll, hids]
  exact hremains

/-- Whether the indexes of every column list the id for every condition on the column. -/
def Lists (c : Content) (db : String) (t : Table) (groups : List (String × Conditions))
    (id : Value) : Prop :=
  ∀ g ∈ groups, ∀ column, t.column g.1 = .ok column →
    ∀ p ∈ g.2, (lookup c db t column p.1 p.2).contains id = true

theorem resolveFrom_eq_ok (c : Content) (db : String) {groups : List (String × Conditions)}
    (left : Option IdSet) (h : ∀ g ∈ groups, (∃ column, t.column g.1 = .ok column) ∧ g.2 ≠ []) :
    ∃ left', resolveFrom c db t left groups = .ok left' ∧
      ∀ id, remains left' id = true ↔ remains left id = true ∧ Lists c db t groups id := by
  induction groups generalizing left with
  | nil => exact ⟨left, rfl, fun id => ⟨fun hl => ⟨hl, fun g hg => (nomatch hg)⟩, And.left⟩⟩
  | cons g groups ih =>
    obtain ⟨name, conditions⟩ := g
    obtain ⟨⟨⟨column, hcolumn⟩, hne⟩, hrest⟩ := List.forall_mem_cons.mp h
    have hmeet (id : Value) : (meet left (lookupAll c db t column conditions)).contains id = true ↔
        remains left id = true ∧
          ∀ p ∈ conditions, (lookup c db t column p.1 p.2).contains id = true := by
      rw [contains_meet, contains_lookupAll hne, Bool.and_eq_true, List.all_eq_true]
    have hcons (id : Value) : Lists c db t ((name, conditions) :: groups) id ↔
        (∀ p ∈ conditions, (lookup c db t column p.1 p.2).contains id = true) ∧
          Lists c db t groups id := by
      rw [Lists, List.forall_mem_cons, hcolumn]
      simp only [Except.ok.injEq, forall_eq', Lists]
    rw [resolveFrom, hcolumn, Except.ok_bind]
    by_cases hempty : (meet left (lookupAll c db t column conditions)).isEmpty = true
    · refine ⟨some ∅, by rw [if_pos hempty]; rfl, fun id => ?_⟩
      have hnot := contains_of_isEmpty hempty id
      rw [hcons, ← and_assoc, ← hmeet, hnot]
      constructor
      · intro hh
        cases hh
      · rintro ⟨hh, -⟩
        cases hh
    · obtain ⟨left', hresolve, hspec⟩ := ih (some _) hrest
      refine ⟨left', by rw [if_neg hempty]; exact hresolve, fun id => ?_⟩
      rw [hspec, hcons, ← and_assoc, ← hmeet]
      rfl

/-- With a column there is a set of ids at the end, however early it is empty. -/
theorem isSome_of_resolveFrom {left' : Option IdSet} (hne : groups ≠ [] ∨ left.isSome = true)
    (h : resolveFrom c db t left groups = .ok left') : left'.isSome = true := by
  induction groups generalizing left with
  | nil =>
    cases h
    exact hne.resolve_left fun hne => hne rfl
  | cons g groups ih =>
    obtain ⟨name, conditions⟩ := g
    obtain ⟨column, -, h⟩ := Except.bind_eq_ok.mp h
    dsimp only at h
    split at h
    · cases h
      rfl
    · exact ih (.inr rfl) h

/-- An indexed column with conditions on it. -/
def Resolvable (t : Table) (g : String × Conditions) : Prop :=
  (∃ column, t.column g.1 = .ok column ∧ column.indexed = true) ∧ g.2 ≠ []

/-- A row is listed by the indexes of its columns when it meets the conditions. -/
theorem lists_iff_meets (hrows : Row.scan c db t .all = .ok rows) (h : Agrees c db t rows)
    (hgroups : ∀ g ∈ groups, Resolvable t g) {r : Row} (hr : r ∈ rows) :
    Lists c db t groups r.id ↔ ∀ g ∈ groups, SelectPlan.Meets t r g := by
  apply forall₂_congr
  intro g hg
  obtain ⟨⟨column, hcolumn, hi⟩, -⟩ := hgroups g hg
  have hmem := (Table.of_column hcolumn).1
  rw [SelectPlan.Meets, hcolumn]
  simp only [Except.ok.injEq, forall_eq', lookup_contains hrows h hmem hi hr]

/-- An id that every lookup lists is that of a row. -/
theorem exists_of_lists (hrows : Row.scan c db t .all = .ok rows) (h : Agrees c db t rows)
    (hgroups : ∀ g ∈ groups, Resolvable t g) (hne : groups ≠ []) (hlists : Lists c db t groups id) :
    ∃ r ∈ rows, r.id = id := by
  obtain ⟨g, hg⟩ := List.exists_mem_of_ne_nil _ hne
  obtain ⟨⟨column, hcolumn, hi⟩, hconditions⟩ := hgroups g hg
  obtain ⟨p, hp⟩ := List.exists_mem_of_ne_nil _ hconditions
  have hlisted := hlists g hg column hcolumn p hp
  rw [← OrdMap.mem_keys, mem_lookup hrows h (Table.of_column hcolumn).1 hi] at hlisted
  obtain ⟨r, hr, hid, -⟩ := hlisted
  exact ⟨r, hr, hid⟩

theorem resolve_cases (hrows : Row.scan c db t .all = .ok rows) (h : Agrees c db t rows)
    (hgroups : ∀ g ∈ groups, Resolvable t g) :
    (groups = [] ∧ resolve c db t groups = .ok none) ∨
      groups ≠ [] ∧ ∃ ids, resolve c db t groups = .ok (some ids) ∧
        ∀ id, id ∈ ids.keys ↔
          ∃ r ∈ rows, r.id = id ∧ ∀ g ∈ groups, SelectPlan.Meets t r g := by
  by_cases hne : groups = []
  · subst hne
    exact .inl ⟨rfl, rfl⟩
  obtain ⟨left, hresolve, hleft⟩ := resolveFrom_eq_ok c db none fun g hg =>
    ⟨(hgroups g hg).1.imp fun _ hcolumn => hcolumn.1, (hgroups g hg).2⟩
  obtain ⟨ids, rfl⟩ := Option.isSome_iff_exists.mp (isSome_of_resolveFrom (.inl hne) hresolve)
  refine .inr ⟨hne, ids, hresolve, fun id => ?_⟩
  have hlists : id ∈ ids.keys ↔ Lists c db t groups id := by
    rw [OrdMap.mem_keys]
    exact (hleft id).trans (and_iff_right rfl)
  rw [hlists]
  constructor
  · intro hl
    obtain ⟨r, hr, rfl⟩ := exists_of_lists hrows h hgroups hne hl
    exact ⟨r, hr, rfl, (lists_iff_meets hrows h hgroups hr).mp hl⟩
  · rintro ⟨r, hr, rfl, hmeets⟩
    exact (lists_iff_meets hrows h hgroups hr).mpr hmeets

/-- The same conditions on the same columns, in whatever order and number. -/
def Alike (groups groups' : List (String × Conditions)) : Prop :=
  ∀ name p, (∃ g ∈ groups, g.1 = name ∧ p ∈ g.2) ↔ ∃ g ∈ groups', g.1 = name ∧ p ∈ g.2

theorem Alike.meets {r : Row} (h : Alike groups groups')
    (hr : ∀ g ∈ groups, SelectPlan.Meets t r g) : ∀ g ∈ groups', SelectPlan.Meets t r g := by
  intro g' hg' p hp column hcolumn
  obtain ⟨g, hg, hname, hp⟩ := (h g'.1 p).mpr ⟨g', hg', rfl, hp⟩
  exact hr g hg p hp column (hname ▸ hcolumn)

theorem Alike.symm (h : Alike groups groups') : Alike groups' groups := fun name p => (h name p).symm

theorem Alike.eq_nil (h : Alike groups groups') (hgroups' : ∀ g ∈ groups', Resolvable t g)
    (hnil : groups = []) : groups' = [] := by
  subst hnil
  refine List.eq_nil_iff_forall_not_mem.mpr fun g hg => ?_
  obtain ⟨p, hp⟩ := List.exists_mem_of_ne_nil _ (hgroups' g hg).2
  obtain ⟨g', hg', -⟩ := (h g.1 p).mpr ⟨g, hg, rfl, hp⟩
  cases hg'

end Index

theorem IndexOf.exact {R : Relation} {column : Column} {coll : Collection}
    (h : IndexOf R column.position coll) : Index.Exact R.list column coll := by
  refine ⟨fun v => ?_, fun v p hp => ?_⟩
  · rw [← Option.isSome_iff_exists, h.find?_isSome]
    rfl
  · have hentry := h v
    rw [hp] at hentry
    obtain ⟨ids, rfl, hne, hperm⟩ := hentry.eq_rowIds
    refine ⟨ids, rfl, hne, hperm.nodup_iff.mpr Relation.nodup_idsAt, fun id => ?_⟩
    rw [hperm.mem_iff, Relation.mem_idsAt]

end RelStore

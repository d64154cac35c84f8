import RelStore.Proofs.Reachability
/-! Indexes list what a scan finds, and conditions resolved through them select what a scan would. -/
namespace RelStore

/-- Whatever was asked for, the collection of an index has exactly the entries of the scanned rows,
and a lookup by any operator finds exactly the rows that a scan compares so. -/
theorem index_eq_scan {S : System} {db T : String} (h : S.Reachable)
    (hT : S.backend.catalog.tableExists db T = true) :
    ∃ t rows, S.backend.catalog.table db T = .ok t ∧
      Row.scan S.backend.store.content db t .all = .ok rows ∧
      ∀ column ∈ t.columns, column.indexed = true →
        (column.isRowId = false → ∃ coll,
          S.backend.store.content.collection? db (indexCollection T column.name) = some coll ∧
            Index.Exact rows column coll) ∧
        ∀ op v id, id ∈ (Index.lookup S.backend.store.content db t column op v).keys ↔
          ∃ r ∈ rows, r.id = id ∧ ∃ x, r.get? column.position = some x ∧ op.holds x v = true := by
  obtain ⟨D, R, es, cs, hstores, hD, hdb, hR⟩ := h.of_tableExists hT
  have hcs := hstores.content
  refine ⟨R.table, R.list, hstores.table_eq hD hdb hR, hstores.collections.scanAll hD hcs hR,
    fun column hc hi => ⟨fun hrow => ?_, fun op v id => ?_⟩⟩
  · obtain ⟨coll, hcoll, hindex⟩ := hstores.collections.index T R hR column
      (mem_secondaryIndexes.mpr ⟨hc, hi, hrow⟩)
    exact ⟨coll, by rw [Content.collection?_eq hcs, hcoll], hindex.exact⟩
  · rw [hstores.collections.mem_lookup hD hcs hR hc hi]
    simp only [Relation.meets_iff]

/-- Two sessions fill a table before and after one of its columns is indexed. -/
def backfilled : List (Nat × String) :=
  [(0, "2 4 d"), (0, "7 d"), (0, "2 5 t 29 id 29 a"), (1, "7 d"), (1, "8 t 1#5"), (0, "8 t 2#7"),
    (1, "10 6 t a"), (0, "8 t 3#5"), (0, "9 16 t 17 2")]

theorem index_eq_scan_backfilled :
    ∃ t rows column coll,
      (System.asked .inMemory backfilled).backend.catalog.table "d" "t" = .ok t ∧
      Row.scan (System.asked .inMemory backfilled).backend.store.content "d" t .all = .ok rows ∧
      rows = [⟨.int 1, [.int 5]⟩, ⟨.int 3, [.int 5]⟩] ∧ column ∈ t.columns ∧ column.name = "a" ∧
      (System.asked .inMemory backfilled).backend.store.content.collection? "d" "index_t.a" =
        some coll ∧ Index.Exact rows column coll := by
  obtain ⟨hreach, hholds⟩ := System.asked_inMemory_holds backfilled (by decide)
  obtain ⟨t, rows, ht, hrows, hcolumns⟩ := @index_eq_scan _ "d" "t" hreach
    (hholds.tableExists_eq.trans (by decide +kernel))
  obtain ⟨D, R, hD, hR, rfl, hlist⟩ := hholds.of_table ht
  have hworld : ((World.asked backfilled).databases.find? "d").any (fun D => (D.find? "t").any
      fun R => R.list = [⟨.int 1, [.int 5]⟩, ⟨.int 3, [.int 5]⟩] ∧
        R.table.columns.any fun c => c.name = "a" ∧ c.indexed ∧ c.isRowId = false) = true := by
    decide +kernel
  simp only [hD, hR, Option.any_some, List.any_eq_true, decide_eq_true_eq] at hworld
  obtain ⟨hrowsEq, column, hc, hname, hi, hrow⟩ := hworld
  rw [hrows] at hlist
  cases hlist
  obtain ⟨coll, hcoll, hexact⟩ := (hcolumns column hc hi).1 hrow
  rw [hname] at hcoll
  exact ⟨R.table, R.list, column, coll, ht, hrows, hrowsEq, hc, hname, hcoll, hexact⟩

/-- Where every index lists what a scan finds, the conditions on a list of indexed columns are resolved
to no restriction just if no column is listed, and otherwise to exactly the ids of the rows that
satisfy all of them. Neither the order nor the repetition of columns and conditions changes that. -/
theorem resolution_exact {c : Content} {db : String} {t : Table} {rows : List Row}
    (hrows : Row.scan c db t .all = .ok rows) (hindexes : Index.Agrees c db t rows) :
    (∀ groups, (∀ g ∈ groups, Index.Resolvable t g) →
      (Index.resolve c db t groups = .ok none ↔ groups = []) ∧
      (groups ≠ [] → ∃ ids, Index.resolve c db t groups = .ok (some ids) ∧
        ∀ id, id ∈ ids.keys ↔
          ∃ r ∈ rows, r.id = id ∧ ∀ g ∈ groups, SelectPlan.Meets t r g)) ∧
    ∀ groups groups', (∀ g ∈ groups, Index.Resolvable t g) →
      (∀ g ∈ groups', Index.Resolvable t g) → Index.Alike groups groups' →
      Index.resolve c db t groups = Index.resolve c db t groups' := by
  refine ⟨fun groups hgroups => ?_, fun groups groups' hgroups hgroups' halike => ?_⟩
  · rcases Index.resolve_cases hrows hindexes hgroups with ⟨hnil, hnone⟩ | ⟨hne, ids, hsome, hids⟩
    · exact ⟨iff_of_true hnone hnil, fun hne => absurd hnil hne⟩
    · refine ⟨iff_of_false (fun hnone => ?_) hne, fun _ => ⟨ids, hsome, hids⟩⟩
      rw [hsome] at hnone
      cases hnone
  · rcases Index.resolve_cases hrows hindexes hgroups with ⟨hnil, hnone⟩ | ⟨hne, ids, hsome, hids⟩
    · rw [hnil, halike.eq_nil hgroups' hnil]
    · rcases Index.resolve_cases hrows hindexes hgroups' with ⟨hnil', -⟩ | ⟨-, ids', hsome', hids'⟩
      · exact absurd (halike.symm.eq_nil hgroups hnil') hne
      · have hkeys (id : Value) : id ∈ ids.keys ↔ id ∈ ids'.keys := by
          rw [hids, hids']
          exact exists_congr fun r => and_congr_right fun _ => and_congr_right fun _ =>
            ⟨halike.meets, halike.symm.meets⟩
        rw [hsome, hsome', OrdSet.ext_keys hkeys]

/-- Conditions on two columns, and the same ones in another order, two of them repeated and one column
in two places. -/
def conditions : List (String × Conditions) :=
  [("a", [(.ge, .int 5), (.ne, .int 7)]), ("id", [(.gt, .int 1)])]

def reordered : List (String × Conditions) :=
  [("a", [(.ne, .int 7)]), ("id", [(.gt, .int 1), (.gt, .int 1)]),
    ("a", [(.ge, .int 5), (.ne, .int 7)])]

theorem alike_reordered : Index.Alike conditions reordered := by
  intro name p
  simp only [conditions, reordered, List.mem_cons, List.not_mem_nil, or_false, or_and_right, exists_or,
    exists_eq_left]
  tauto

theorem resolution_exact_reordered : ∃ t rows ids,
    (System.asked .inMemory backfilled).backend.catalog.table "d" "t" = .ok t ∧
    Row.scan (System.asked .inMemory backfilled).backend.store.content "d" t .all = .ok rows ∧
    rows.length = 2 ∧
    Index.resolve (System.asked .inMemory backfilled).backend.store.content "d" t conditions =
      .ok (some ids) ∧
    (∀ id, id ∈ ids.keys ↔ ∃ r ∈ rows, r.id = id ∧ ∀ g ∈ conditions, SelectPlan.Meets t r g) ∧
    Index.resolve (System.asked .inMemory backfilled).backend.store.content "d" t reordered =
      .ok (some ids) := by
  obtain ⟨-, hholds⟩ := System.asked_inMemory_holds backfilled (by decide)
  have hworld : ((World.asked backfilled).databases.find? "d").any (fun D => (D.find? "t").any
      fun R => R.list.length = 2 ∧ ∀ n ∈ ["a", "id"],
        (R.table.column n).toOption.any fun column => column.indexed) = true := by
    decide +kernel
  simp only [Option.any_eq_true, decide_eq_true_eq] at hworld
  obtain ⟨D, hD, R, hR, hlength, hcolumns⟩ := hworld
  obtain ⟨ht, hrows⟩ := hholds.table_and_rows hD hR
  obtain ⟨es, cs, hstores⟩ := hholds.backend.stores hD
  have hagrees := hstores.collections.agrees (hholds.sound.databases _ D hD) hstores.content hR
  have hresolvable (groups : List (String × Conditions))
      (hgroups : ∀ g ∈ groups, g.1 ∈ ["a", "id"] ∧ g.2 ≠ []) :
      ∀ g ∈ groups, Index.Resolvable R.table g := by
    intro g hg
    obtain ⟨column, hcolumn, hi⟩ := hcolumns g.1 (hgroups g hg).1
    exact ⟨⟨column, Except.toOption_eq_some.mp hcolumn, hi⟩, (hgroups g hg).2⟩
  have hconditions := hresolvable conditions (by decide)
  obtain ⟨hexact, hsame⟩ := resolution_exact hrows hagrees
  obtain ⟨ids, hids, hmem⟩ := (hexact conditions hconditions).2 (by decide)
  exact ⟨R.table, R.list, ids, ht, hrows, hlength, hids, hmem,
    (hsame _ _ hconditions (hresolvable reordered (by decide)) alike_reordered).symm.trans hids⟩

end RelStore

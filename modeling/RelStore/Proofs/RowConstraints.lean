import RelStore.Proofs.Reachability
/-! What the rows of every reachable state keep: values that refer to another table are found there,
and unique columns hold no value twice. -/
namespace RelStore

/-- Every foreign key refers to a column of the same type in a table that is there, and every row has
its value in some row of that table. -/
theorem references_hold {S : System} {db T : String} (h : S.Reachable)
    (hT : S.backend.catalog.tableExists db T = true) :
    ∃ t rows, S.backend.catalog.table db T = .ok t ∧
      Row.scan S.backend.store.content db t .all = .ok rows ∧
      ∀ fk ∈ t.foreignKeys, ∃ own ∈ t.columns, own.keyRef = fk.key ∧
        ∃ parent parentRows, S.backend.catalog.table db fk.table = .ok parent ∧
          Row.scan S.backend.store.content db parent .all = .ok parentRows ∧
          ∃ target ∈ parent.columns, target.keyRef = fk.column ∧ target.type = own.type ∧
            ∀ r ∈ rows, ∃ v, r.get? own.position = some v ∧
              ∃ q ∈ parentRows, q.get? target.position = some v := by
  obtain ⟨D, R, es, cs, hstores, hD, hdb, hR⟩ := h.of_tableExists hT
  have hscan {X : String} {P : Relation} (hP : D.find? X = some P) :=
    hstores.collections.scanAll hD hstores.content hP
  have hs := hD.relations T R hR
  refine ⟨R.table, R.list, hstores.table_eq hD hdb hR, hscan hR, fun fk hfk => ?_⟩
  obtain ⟨own, hown, hkey⟩ := Table.mem_keyRefs.mp (hs.table.linked.keys fk hfk)
  obtain ⟨P, hP, -⟩ := hD.parent hR hfk
  obtain ⟨target, htarget, hcolumn⟩ := Table.mem_keyRefs.mp (hD.parentColumn hR hfk hP)
  have htypes := hD.linked.types T _ _ (Database.links_of_find? hR) fk hfk
  refine ⟨own, hown, hkey, P.table, P.list, hstores.table_eq hD hdb hP, hscan hP, target, htarget,
    hcolumn, ?_, fun r hr => ?_⟩
  · rw [← hkey, ← hcolumn] at htypes
    exact htypes.symm
  · obtain ⟨v, hv, -⟩ := (hs.rows r hr).get? hs.table.shaped hown
    have hfound := hD.references T R hR fk hfk P hP v
    rw [← hkey, ← hcolumn] at hfound
    exact ⟨v, hv, hfound ⟨r, hr, hv⟩⟩

/-- A filled table refers twice to another, once to a plain column, and to itself. -/
def referring : List (Nat × String) :=
  [(0, "2 4 d"), (0, "7 d"), (0, "2 5 p 29 id 29 a"), (0, "2 5 c 29 id 29 x 29 y 29 z"),
    (0, "8 p 1#10"), (0, "8 p 2#20"), (0, "8 c 1#10#2#1"), (0, "10 12 c x p a"), (1, "7 d"),
    (1, "10 12 c y p id"), (1, "10 12 c z c id"), (1, "8 c 2#20#2#1"), (0, "9 16 p 17 2")]

theorem references_hold_referring :
    ∃ t rows, (System.asked .inMemory referring).backend.catalog.table "d" "c" = .ok t ∧
      Row.scan (System.asked .inMemory referring).backend.store.content "d" t .all = .ok rows ∧
      t.foreignKeys.map (fun fk => (fk.key.column, fk.table, fk.column.column)) =
        [("x", "p", "a"), ("y", "p", "id"), ("z", "c", "id")] ∧ rows.length = 2 ∧
      ∀ fk ∈ t.foreignKeys, ∃ own ∈ t.columns, own.keyRef = fk.key ∧ ∃ parent parentRows,
        (System.asked .inMemory referring).backend.catalog.table "d" fk.table = .ok parent ∧
        Row.scan (System.asked .inMemory referring).backend.store.content "d" parent .all =
          .ok parentRows ∧
        ∃ target ∈ parent.columns, target.keyRef = fk.column ∧ target.type = own.type ∧
          ∀ r ∈ rows, ∃ v, r.get? own.position = some v ∧
            ∃ q ∈ parentRows, q.get? target.position = some v := by
  obtain ⟨hreach, hholds⟩ := System.asked_inMemory_holds referring (by decide)
  obtain ⟨t, rows, ht, hrows, hkeys⟩ := @references_hold _ "d" "c" hreach
    (hholds.tableExists_eq.trans (by decide +kernel))
  obtain ⟨D, R, hD, hR, rfl, hlist⟩ := hholds.of_table ht
  have hworld : ((World.asked referring).databases.find? "d").any (fun D => (D.find? "c").any
      fun R => R.table.foreignKeys.map (fun fk => (fk.key.column, fk.table, fk.column.column)) =
        [("x", "p", "a"), ("y", "p", "id"), ("z", "c", "id")] ∧ R.list.length = 2) = true := by
    decide +kernel
  simp only [hD, hR, Option.any_some, decide_eq_true_eq] at hworld
  rw [hrows] at hlist
  cases hlist
  exact ⟨R.table, R.list, ht, hrows, hworld.1, hworld.2, hkeys⟩

/-- A primary key is unique, and no two rows of a scan hold one value in a unique column. -/
theorem unique_columns_distinct {S : System} {db T : String} (h : S.Reachable)
    (hT : S.backend.catalog.tableExists db T = true) :
    ∃ t rows, S.backend.catalog.table db T = .ok t ∧
      Row.scan S.backend.store.content db t .all = .ok rows ∧
      (∀ c ∈ t.columns, c.primaryKey = true → c.unique = true) ∧
      ∀ c ∈ t.columns, c.unique = true →
        (∀ r ∈ rows, ∃ v, r.get? c.position = some v) ∧
          rows.Pairwise fun r s => r.get? c.position ≠ s.get? c.position := by
  obtain ⟨D, R, es, cs, hstores, hD, hdb, hR⟩ := h.of_tableExists hT
  have hs := hD.relations T R hR
  refine ⟨R.table, R.list, hstores.table_eq hD hdb hR,
    hstores.collections.scanAll hD hstores.content hR,
    fun c hc => (hs.table.flagged.ordered c hc).unique, fun c hc hu => ?_⟩
  have hvalue : ∀ r ∈ R.list, ∃ v, r.get? c.position = some v := by
    intro r hr
    obtain ⟨v, hv, -⟩ := (hs.rows r hr).get? hs.table.shaped hc
    exact ⟨v, hv⟩
  refine ⟨hvalue, Relation.nodup_list.imp_of_mem fun {r s} hr hs' hne he => ?_⟩
  obtain ⟨v, hv⟩ := hvalue r hr
  exact hne (hs.unique c hc hu r hr s hs' v hv (he ▸ hv))

/-- Columns of a filled table become unique and a key; what is then refused is a value taken. -/
def distinguished : List (Nat × String) :=
  [(0, "2 4 d"), (0, "7 d"), (0, "2 5 t 29 id 29 a 29 b"), (0, "8 t 1#5#7"), (0, "8 t 2#6#8"),
    (0, "10 13 t a"), (0, "10 11 t b"), (1, "7 d"), (1, "8 t 3#5#9"), (1, "8 t 3#9#7"),
    (1, "8 t 3#9#9")]

theorem unique_columns_distinct_distinguished :
    ∃ t rows, (System.asked .inMemory distinguished).backend.catalog.table "d" "t" = .ok t ∧
      Row.scan (System.asked .inMemory distinguished).backend.store.content "d" t .all = .ok rows ∧
      rows.length = 3 ∧ (t.columns.map fun c => (c.name, c.primaryKey, c.unique)) =
        [("id", true, true), ("a", false, true), ("b", true, true)] ∧
      ∀ c ∈ t.columns, c.unique = true →
        rows.Pairwise fun r s => r.get? c.position ≠ s.get? c.position := by
  obtain ⟨hreach, hholds⟩ := System.asked_inMemory_holds distinguished (by decide)
  obtain ⟨t, rows, ht, hrows, -, hdistinct⟩ := @unique_columns_distinct _ "d" "t" hreach
    (hholds.tableExists_eq.trans (by decide +kernel))
  obtain ⟨D, R, hD, hR, rfl, hlist⟩ := hholds.of_table ht
  have hworld : ((World.asked distinguished).databases.find? "d").any (fun D => (D.find? "t").any
      fun R => R.list.length = 3 ∧ (R.table.columns.map fun c => (c.name, c.primaryKey, c.unique)) =
        [("id", true, true), ("a", false, true), ("b", true, true)]) = true := by
    decide +kernel
  simp only [hD, hR, Option.any_some, decide_eq_true_eq] at hworld
  rw [hrows] at hlist
  cases hlist
  exact ⟨R.table, R.list, ht, hrows, hworld.1, hworld.2, fun c hc hu => (hdistinct c hc hu).2⟩

end RelStore

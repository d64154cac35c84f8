import RelStore.Proofs.Reachability
/-! What the files of a catalog say: of the columns of their own table, and of references, which both
tables record. -/
namespace RelStore

/-- Names, places and flags of the columns agree with each other and with the lists of keys. -/
structure Table.Coherent (t : Table) : Prop where
  names : ∀ c ∈ t.columns, isValidName c.name = true
  distinct : (t.columns.map (·.name)).Nodup
  positions : t.columns.map (·.position) = List.range t.width
  rowId : t.rowId.primaryKey = true
  unique : ∀ c ∈ t.columns, c.primaryKey = true → c.unique = true
  indexed : ∀ c ∈ t.columns, c.unique = true → c.indexed = true
  primaryKeys : t.primaryKeys.Perm
    ((t.columns.filter fun c => c.primaryKey).map fun c => (c.name, c.position))
  foreignKey : ∀ c ∈ t.columns, (t.foreignKeys.countP fun fk => fk.key.column = c.name) =
    if c.foreignKey then 1 else 0
  parentTable : ∀ c ∈ t.columns, c.parentTable = true ↔ ∃ r ∈ t.childTables, r.key.column = c.name

theorem Table.Flagged.primaryKeys_perm {t : Table} (h : t.Flagged) (hs : t.Shaped) :
    t.primaryKeys.Perm
      ((t.columns.filter fun c => c.primaryKey).map fun c => (c.name, c.position)) := by
  have hnames : (t.columns.map (·.name)).Nodup := by
    rw [← names_eq]
    exact hs.distinct
  have honce : ((t.columns.filter fun c => c.primaryKey).map fun c => (c.name, c.position)).Nodup := by
    apply List.Nodup.of_map Prod.fst
    rw [List.map_map]
    exact hnames.sublist (List.filter_sublist.map _)
  apply (List.perm_ext_iff_of_nodup h.once honce).mpr
  intro p
  rw [h.primaryKeys, List.mem_map]
  constructor
  · rintro ⟨c, hc, hp, rfl⟩
    exact ⟨c, List.mem_filter.mpr ⟨hc, hp⟩, rfl⟩
  · rintro ⟨c, hc, rfl⟩
    obtain ⟨hc, hp⟩ := List.mem_filter.mp hc
    exact ⟨c, hc, hp, rfl⟩

/-- A column is the own one of as many references as its flag says. -/
theorem Table.Linked.countP_foreignKeys {t : Table} (h : t.Linked) {c : Column} (hc : c ∈ t.columns) :
    (t.foreignKeys.countP fun fk => fk.key.column = c.name) = if c.foreignKey then 1 else 0 := by
  have hcount : (t.foreignKeys.countP fun fk => fk.key.column = c.name) =
      (t.foreignKeys.map (·.key.column)).count c.name := by
    rw [List.count, List.countP_map]
    rfl
  rw [hcount, h.once.count]
  simp only [h.foreignKey c hc]

theorem Table.WellFormed.coherent {t : Table} (h : t.WellFormed) : t.Coherent where
  names := by
    intro c hc
    exact h.shaped.names _ (keyRef_mem hc)
  distinct := by
    rw [← names_eq]
    exact h.shaped.distinct
  positions := by
    rw [← positions_eq, ← length_keyRefs]
    exact h.shaped.ordinals
  rowId := h.flagged.rowId
  unique := fun c hc => (h.flagged.ordered c hc).unique
  indexed := fun c hc => (h.flagged.ordered c hc).indexed
  primaryKeys := h.flagged.primaryKeys_perm h.shaped
  foreignKey := fun _ => h.linked.countP_foreignKeys
  parentTable := by
    intro c hc
    rw [h.linked.parentTable c hc, List.mem_map]

namespace Database.Sound

variable {D : Database} {T P : String} {R S : Relation}

theorem mem_foreignKeys_iff (h : D.Sound) (hR : D.find? T = some R) (hS : D.find? P = some S)
    (key column : KeyRef) :
    ⟨key, P, column⟩ ∈ R.table.foreignKeys ↔ ⟨column, T, key⟩ ∈ S.table.childTables := by
  constructor
  · intro hfk
    obtain ⟨S', hS', hm⟩ := h.parent hR hfk
    rw [hS] at hS'
    cases hS'
    exact hm
  · intro hr
    obtain ⟨R', hR', hm⟩ := h.child hS hr
    rw [hR] at hR'
    cases hR'
    exact hm

/-- Neither side lists a reference twice, so both list it equally often. -/
theorem count_foreignKeys (h : D.Sound) (hR : D.find? T = some R) (hS : D.find? P = some S)
    (key column : KeyRef) :
    R.table.foreignKeys.count ⟨key, P, column⟩ = S.table.childTables.count ⟨column, T, key⟩ := by
  have hown := (h.relations T R hR).table.linked
  have hother := (h.relations P S hS).table.linked
  have honce : R.table.foreignKeys.Nodup := .of_map _ hown.once
  rw [honce.count, hother.childOnce.count]
  simp only [h.mem_foreignKeys_iff hR hS]

end Database.Sound

/-- A file that stands for a table is one of a sound database that the backend holds. -/
theorem System.Reachable.of_fileText? {S : System} {db T text : String} (h : S.Reachable)
    (hT : S.backend.catalog.fileText? db (Catalog.tableFile T) = some text) :
    ∃ D R es cs, S.backend.Stores S.backend.catalog S.backend.store.content db D es cs ∧ D.Sound ∧
      isValidName db = true ∧ D.find? T = some R := by
  obtain ⟨W, hW⟩ := h.holds
  cases hD : W.databases.find? db with
  | none =>
    rw [Catalog.fileText?, Catalog.entries?, hW.backend.noFolder db hD] at hT
    cases hT
  | some D =>
    obtain ⟨es, cs, hstores⟩ := hW.backend.stores hD
    rw [hstores.folder.fileText? hstores.entries] at hT
    obtain ⟨R, hR, -⟩ := Option.map_eq_some_iff.mp hT
    exact ⟨D, R, es, cs, hstores, hW.sound.databases db D hD, hW.sound.names db D hD, hR⟩

/-- Every file of a table reads back as a coherent definition. What its references name is there and
as they say, and a reference is listed as often by the table it starts from as by the other. -/
theorem catalog_coherent {S : System} {db T text : String} (h : S.Reachable)
    (hT : S.backend.catalog.fileText? db (Catalog.tableFile T) = some text) :
    ∃ t, S.backend.catalog.table db T = .ok t ∧ t.name = T ∧ t.Coherent ∧
      (∀ r ∈ t.foreignKeys ++ t.childTables, (∃ own ∈ t.columns, own.keyRef = r.key) ∧
        ∃ other, S.backend.catalog.table db r.table = .ok other ∧
          ∃ column ∈ other.columns, column.keyRef = r.column) ∧
      ∀ P parent, S.backend.catalog.table db P = .ok parent → ∀ key column,
        t.foreignKeys.count ⟨key, P, column⟩ = parent.childTables.count ⟨column, T, key⟩ := by
  obtain ⟨D, R, es, cs, hstores, hD, hdb, hR⟩ := h.of_fileText? hT
  have hwell := (hD.relations T R hR).table
  refine ⟨R.table, hstores.table_eq hD hdb hR, hD.named T R hR, hwell.coherent, ?_, ?_⟩
  · intro r hr
    rcases List.mem_append.mp hr with hr | hr
    · obtain ⟨P, hP, -⟩ := hD.parent hR hr
      exact ⟨Table.mem_keyRefs.mp (hwell.linked.keys r hr), P.table, hstores.table_eq hD hdb hP,
        Table.mem_keyRefs.mp (hD.parentColumn hR hr hP)⟩
    · obtain ⟨C, hC, -⟩ := hD.child hR hr
      exact ⟨Table.mem_keyRefs.mp (hwell.linked.childKeys r hr), C.table, hstores.table_eq hD hdb hC,
        Table.mem_keyRefs.mp (hD.childColumn hR hr hC)⟩
  · intro P parent hparent key column
    rw [hstores.table hD hdb] at hparent
    obtain ⟨Q, hQ, rfl⟩ := Except.map_eq_ok.mp hparent
    exact hD.count_foreignKeys hR (Database.of_relation hQ).2 key column

/-- Two tables refer to a third, one of them twice and to itself; the other is dropped, and comes back
with one reference and another key. -/
def referenced : List (Nat × String) :=
  [(0, "2 4 d"), (0, "7 d"), (0, "2 5 p 29 id 29 a"), (0, "2 5 c 29 id 29 x 29 y 29 z"),
    (0, "2 5 e 29 id 29 x"), (0, "10 12 c x p a"), (1, "7 d"), (1, "10 12 c y p a"),
    (1, "10 12 c z c id"), (0, "10 12 e x p id"), (0, "3 5 e"), (1, "2 5 e 29 id 29 x"),
    (1, "10 11 e x"), (1, "10 12 e x p a")]

theorem catalog_coherent_referenced :
    ∃ t c, (System.asked .inMemory referenced).backend.catalog.table "d" "p" = .ok t ∧
      (System.asked .inMemory referenced).backend.catalog.table "d" "c" = .ok c ∧ t.Coherent ∧
      t.childTables.map (fun r => (r.key.column, r.table, r.column.column)) =
        [("a", "c", "x"), ("a", "c", "y"), ("a", "e", "x")] ∧
      t.columns.map (·.parentTable) = [false, true] ∧
      ∀ key column,
        t.foreignKeys.count ⟨key, "c", column⟩ = c.childTables.count ⟨column, "p", key⟩ := by
  obtain ⟨hreach, hholds⟩ := System.asked_inMemory_holds referenced (by decide)
  have hp : (System.asked .inMemory referenced).backend.catalog.tableExists "d" "p" = true :=
    hholds.tableExists_eq.trans (by decide +kernel)
  obtain ⟨text, htext⟩ := Option.isSome_iff_exists.mp (Bool.and_eq_true_iff.mp hp).2
  obtain ⟨t, ht, -, hcoherent, hrefs, hmirror⟩ := catalog_coherent hreach htext
  obtain ⟨D, R, hD, hR, rfl, -⟩ := hholds.of_table ht
  have hworld : ((World.asked referenced).databases.find? "d").any (fun D => (D.find? "p").any
      fun R => R.table.childTables.map (fun r => (r.key.column, r.table, r.column.column)) =
        [("a", "c", "x"), ("a", "c", "y"), ("a", "e", "x")] ∧
      R.table.columns.map (·.parentTable) = [false, true] ∧
      R.table.childTables.any fun r => r.table = "c") = true := by
    decide +kernel
  simp only [hD, hR, Option.any_some, decide_eq_true_eq, List.any_eq_true] at hworld
  obtain ⟨hchildren, hparents, r, hr, hrc⟩ := hworld
  obtain ⟨-, c, hc, -⟩ := hrefs r (List.mem_append_right _ hr)
  rw [hrc] at hc
  exact ⟨R.table, c, ht, hc, hcoherent, hchildren, hparents, hmirror "c" c hc⟩

end RelStore

import RelStore.Proofs.Reachability
/-! Which rows are taken in and which may go, and what changes with them. Both are told by the rows
that scans read, whatever is looked up by key, in an index or in a scan. -/
namespace RelStore

/-- What the literals of a row say: one for each column, and each of the type of its column. -/
structure Row.ReadFrom (t : Table) (literals : List String) (r : Row) : Prop where
  arity : literals.length = t.width
  values : List.zipWith (fun c s => c.type.read? s) t.columns literals = r.values.map some

namespace Backend

/-- A table is defined so and has these rows. -/
structure Reads (b : Backend) (db T : String) (t : Table) (rows : List Row) : Prop where
  definition : b.catalog.table db T = .ok t
  scan : Row.scan b.store.content db t .all = .ok rows

/-- The column that a reference of the table goes out from, and on its other side the rows and the
column there. -/
structure Joins (b : Backend) (db : String) (t : Table) (fk : ForeignKey) (own : Column)
    (rows : List Row) (column : Column) : Prop where
  mem : own ∈ t.columns
  key : own.keyRef = fk.key
  other : ∃ other, b.Reads db fk.table other rows ∧ column ∈ other.columns
  target : column.keyRef = fk.column

/-- The id is new, and so are the values in unique columns; what refers to a table is in a row there
already. -/
structure Admits (b : Backend) (db : String) (t : Table) (rows : List Row) (r : Row) : Prop where
  id : ∀ q ∈ rows, q.id ≠ r.id
  unique : ∀ c ∈ t.columns, c.unique = true → ∀ v, r.get? c.position = some v →
    ∀ q ∈ rows, q.get? c.position ≠ some v
  parents : ∀ fk ∈ t.foreignKeys, ∃ own parents column, b.Joins db t fk own parents column ∧
    ∃ v, r.get? own.position = some v ∧ ∃ q ∈ parents, q.get? column.position = some v

/-- No row refers to this one. -/
def Frees (b : Backend) (db : String) (t : Table) (r : Row) : Prop :=
  ∀ ref ∈ t.childTables, ∃ own children column, b.Joins db t ref own children column ∧
    ∃ v, r.get? own.position = some v ∧ ∀ q ∈ children, q.get? column.position ≠ some v

/-- No definition changes, and of no table but one the rows. -/
structure ChangesRowsOf (db T : String) (b b' : Backend) : Prop where
  catalog : b'.catalog = b.catalog
  others : ∀ db' X t, db' ≠ db ∨ X ≠ T → b.catalog.table db' X = .ok t →
    Row.scan b'.store.content db' t .all = Row.scan b.store.content db' t .all

end Backend

section Literals

variable {t : Table} {literals : List String} {r : Row}

theorem Constraint.readFields_eq_ok {cs : List Column} {vs : List Value} :
    (cs.zip literals).mapM (fun p => p.1.read p.2) = .ok vs ↔
      List.zipWith (fun c s => c.type.read? s) cs literals = vs.map some := by
  rw [mapM_eq_ok_iff, ← List.map_uncurry_zip_eq_zipWith, ← List.forall₂_eq_eq_eq,
    List.forall₂_map_left_iff, List.forall₂_map_right_iff]
  simp only [Column.read_eq_ok, Function.uncurry_def]

theorem Constraint.readRow_eq_ok : readRow t literals = .ok r ↔ r.ReadFrom t literals := by
  cases literals with
  | nil =>
    constructor
    · intro h
      cases h
    · intro h
      exact absurd h.arity.symm (List.length_pos_iff.mpr t.columns_ne).ne'
  | cons id fields =>
    rw [readRow]
    by_cases hlen : (id :: fields).length = t.width
    · have hiff : r.ReadFrom t (id :: fields) ↔ t.rowId.read id = .ok r.id ∧
          (t.columns.tail.zip fields).mapM (fun p => p.1.read p.2) = .ok r.fields := by
        rw [Column.read_eq_ok, readFields_eq_ok]
        refine ⟨fun h => ?_, fun h => ⟨hlen, ?_⟩⟩
        · have hvalues := h.values
          rw [Row.columns_eq t, List.zipWith_cons_cons, Row.values, List.map_cons] at hvalues
          exact List.cons.inj hvalues
        · rw [Row.columns_eq t, List.zipWith_cons_cons, Row.values, List.map_cons, h.1, h.2]
      rw [if_neg (not_not_intro hlen), hiff, Except.bind_eq_ok]
      constructor
      · rintro ⟨v, hv, h⟩
        obtain ⟨vs, hvs, he⟩ := Except.bind_eq_ok.mp h
        cases he
        exact ⟨hv, hvs⟩
      · rintro ⟨hv, hvs⟩
        exact ⟨r.id, hv, Except.bind_eq_ok.mpr ⟨r.fields, hvs, rfl⟩⟩
    · rw [if_pos hlen]
      constructor
      · intro h
        cases h
      · intro h
        exact absurd h.arity hlen

end Literals

namespace Relation

variable {R : Relation} {r : Row}

theorem deleteRow_insertRow (hnew : R.rows.find? r.id = none) :
    (R.insertRow r).deleteRow r.id = R := by
  rw [insertRow, deleteRow, OrdMap.erase_insert hnew]

/-- A row stands between those with lesser ids and those with greater ones. -/
theorem split_of_mem (hr : r ∈ R.list) :
    ∃ before after, R.list = before ++ r :: after ∧ (R.deleteRow r.id).list = before ++ after ∧
      (∀ q ∈ before, compare q.id r.id = .lt) ∧ ∀ q ∈ after, compare r.id q.id = .lt := by
  obtain ⟨before, after, hlist⟩ := List.append_of_mem hr
  have hsorted : R.list.Pairwise fun a b => compare a.id b.id = .lt :=
    List.pairwise_map.mp ids_ascending
  rw [hlist, List.pairwise_append, List.pairwise_cons] at hsorted
  obtain ⟨-, ⟨hafter, -⟩, hcross⟩ := hsorted
  have hbefore : ∀ q ∈ before, compare q.id r.id = .lt :=
    fun q hq => hcross q hq r List.mem_cons_self
  refine ⟨before, after, hlist, ?_, hbefore, hafter⟩
  have hkept (l : List Row) (hl : ∀ q ∈ l, q.id ≠ r.id) : l.filter (fun q => q.id ≠ r.id) = l :=
    List.filter_eq_self.mpr fun q hq => decide_eq_true (hl q hq)
  rw [list_deleteRow, hlist, List.filter_append, List.filter_cons_of_neg (by simp),
    hkept before fun q hq => OrdMap.ne_of_compare_lt (hbefore q hq),
    hkept after fun q hq => (OrdMap.ne_of_compare_lt (hafter q hq)).symm]

/-- A new row comes to stand so. -/
theorem split_insertRow (hnew : R.rows.find? r.id = none) :
    ∃ before after, R.list = before ++ after ∧ (R.insertRow r).list = before ++ r :: after ∧
      (∀ q ∈ before, compare q.id r.id = .lt) ∧ ∀ q ∈ after, compare r.id q.id = .lt := by
  have hr : r ∈ (R.insertRow r).list := (mem_insertRow hnew).mpr (.inl rfl)
  obtain ⟨before, after, hlist, hrest, hbefore, hafter⟩ := split_of_mem hr
  rw [deleteRow_insertRow hnew] at hrest
  exact ⟨before, after, hrest, hlist, hbefore, hafter⟩

theorem checkUnique_eq_ok (hs : R.table.Shaped) : R.checkUnique r = .ok () ↔
    R.rows.find? r.id = none ∧ ∀ c ∈ R.table.columns, c.unique = true →
      ∀ v, r.get? c.position = some v → ¬ R.Has c.position v := by
  refine ⟨of_checkUnique rfl hs, fun ⟨hid, hunique⟩ => ?_⟩
  rw [checkUnique, OrdMap.contains_eq_false_iff.mpr hid, if_neg Bool.false_ne_true]
  refine forM_eq_ok_iff.mpr fun c hc => ?_
  obtain ⟨hmem, hflags⟩ := List.mem_filter.mp hc
  have hu : c.unique = true := (Bool.and_eq_true _ _ ▸ hflags).1
  rw [checkUniqueColumn]
  cases hv : r.get? c.position with
  | none => rfl
  | some v => simp only [holds_eq_false.mpr (hunique c hmem hu v hv), Bool.false_eq_true, if_false]

end Relation

namespace Database

variable {D : Database} {T : String} {R P : Relation} {r : Row} {fk : ForeignKey}

/-- What the check of a recorded reference says of a row that has its value. -/
theorem checkReference_of_fits (h : D.Sound) (hR : D.find? T = some R) (hfits : r.Fits R.table)
    (hkey : fk.key ∈ R.table.keyRefs) (hP : D.find? fk.table = some P)
    (hcolumn : fk.column ∈ P.table.keyRefs) {wanted : Bool}
    {failure : String → String → String → Error} :
    D.checkReference R.table r.values wanted failure fk = .ok () ↔
      ∃ v, r.get? fk.key.ordinal = some v ∧ (P.Has fk.column.ordinal v ↔ wanted = true) := by
  obtain ⟨own, hown, hkeyRef⟩ := Table.mem_keyRefs.mp hkey
  obtain ⟨v, hv, -⟩ := hfits.get? (h.shaped hR) hown
  rw [show own.position = fk.key.ordinal from congrArg KeyRef.ordinal hkeyRef] at hv
  rw [checkReference_eq_ok h (h.shaped hR) hkey hP hcolumn]
  constructor
  · exact fun hcheck => ⟨v, hv, hcheck v hv⟩
  · rintro ⟨w, hw, hhas⟩ u hu
    cases hw.symm.trans hu
    exact hhas

end Database

/-- Every entry of an index of the table lists rows that are there. -/
theorem CollectionsOf.entry {D : Database} {cs : Collections} {T x : String} {R : Relation}
    {coll : Collection} {v : Value} {p : Payload} (h : CollectionsOf D cs) (hD : D.Sound)
    (hR : D.find? T = some R) (hcoll : cs.find? (indexCollection T x) = some coll)
    (hp : coll.find? v = some p) :
    ∃ ids, p = .rowIds ids ∧ ids ≠ [] ∧ ∀ id ∈ ids, ∃ r ∈ R.list, r.id = id := by
  have hT := hD.valid hR
  rcases h.own hD hR hcoll (.inr ⟨x, rfl⟩) with he | ⟨c, hc, he⟩
  · exact absurd he (indexCollection_ne hT)
  · obtain ⟨coll', hcoll', hindex⟩ := h.index T R hR c hc
    rw [← he, hcoll] at hcoll'
    cases hcoll'
    have hentry := hindex v
    rw [hp] at hentry
    obtain ⟨ids, rfl, hne, hperm⟩ := hentry.eq_rowIds
    refine ⟨ids, rfl, hne, fun id hid => ?_⟩
    obtain ⟨r, hr, hrid, -⟩ := Relation.mem_idsAt.mp (hperm.mem_iff.mp hid)
    exact ⟨r, hr, hrid⟩

namespace Engine

variable {b b' : Backend} {o : Outcome} {db T literal : String} {values : List String}

/-- An insertion that succeeds has written the row and its index entries, and nothing else. -/
theorem of_insert (h : insert db T values b = (.ok o, b')) :
    ∃ t r, b.catalog.table db T = .ok t ∧ Constraint.readRow t values = .ok r ∧
      b'.catalog = b.catalog ∧
      Store.apply db (.insert t.name r.document :: Index.insertWrites b.store.content db t r)
        b.store = (.ok (), b'.store) := by
  obtain ⟨⟨⟩, -, h⟩ := (Step.bind_eq_ok_of_read (Backend.requireDatabase_run b db)).mp h
  obtain ⟨t, ht, h⟩ := (Step.bind_eq_ok_of_read (Backend.getTable_run b db T)).mp h
  obtain ⟨_, ⟨⟩, h⟩ := (Step.bind_eq_ok_of_read Backend.getContent_run).mp h
  obtain ⟨r, hr, h⟩ := (Step.bind_eq_ok_of_read (Step.lift_run _ b)).mp h
  obtain ⟨⟨⟩, -, h⟩ := (Step.bind_eq_ok_of_read (Step.lift_run _ b)).mp h
  obtain ⟨_, ⟨⟩, h⟩ := (Step.bind_eq_ok_of_read (Step.get_run b)).mp h
  obtain ⟨⟨⟩, -, h⟩ := (Step.bind_eq_ok_of_read (Step.lift_run _ b)).mp h
  obtain ⟨⟨⟩, b₁, happly, h⟩ := Step.bind_eq_ok.mp h
  obtain ⟨happly, hcatalog⟩ := Backend.onStore_eq_ok.mp happly
  cases h
  exact ⟨t, r, ht, hr, hcatalog, happly⟩

theorem catalog_of_insert (h : insert db T values b = (.ok o, b')) : b'.catalog = b.catalog := by
  obtain ⟨-, -, -, -, hcatalog, -⟩ := of_insert h
  exact hcatalog

/-- A deletion that succeeds has deleted the row and its index entries, and nothing else. -/
theorem of_delete (h : delete db T literal b = (.ok o, b')) :
    ∃ t id d r, b.catalog.table db T = .ok t ∧ t.rowId.read literal = .ok id ∧
      b.store.content.findOne db t.name id = some d ∧ Row.ofDocument t d = .ok r ∧
      b'.catalog = b.catalog ∧
      Store.apply db (.delete t.name id :: Index.deleteWrites b.store.content db t r)
        b.store = (.ok (), b'.store) := by
  obtain ⟨⟨⟩, -, h⟩ := (Step.bind_eq_ok_of_read (Backend.requireDatabase_run b db)).mp h
  obtain ⟨t, ht, h⟩ := (Step.bind_eq_ok_of_read (Backend.getTable_run b db T)).mp h
  obtain ⟨_, ⟨⟩, h⟩ := (Step.bind_eq_ok_of_read Backend.getContent_run).mp h
  obtain ⟨id, hid, h⟩ := (Step.bind_eq_ok_of_read (Step.lift_run _ b)).mp h
  cases hd : b.store.content.findOne db t.name id with
  | none =>
    simp only [hd] at h
    cases h
  | some d =>
    simp only [hd] at h
    obtain ⟨r, hr, h⟩ := (Step.bind_eq_ok_of_read (Step.lift_run _ b)).mp h
    obtain ⟨_, ⟨⟩, h⟩ := (Step.bind_eq_ok_of_read (Step.get_run b)).mp h
    obtain ⟨⟨⟩, -, h⟩ := (Step.bind_eq_ok_of_read (Step.lift_run _ b)).mp h
    obtain ⟨⟨⟩, b₁, happly, h⟩ := Step.bind_eq_ok.mp h
    obtain ⟨happly, hcatalog⟩ := Backend.onStore_eq_ok.mp happly
    cases h
    exact ⟨t, id, d, r, ht, hid, hd, hr, hcatalog, happly⟩

theorem catalog_of_delete (h : delete db T literal b = (.ok o, b')) : b'.catalog = b.catalog := by
  obtain ⟨-, -, -, -, -, -, -, -, hcatalog, -⟩ := of_delete h
  exact hcatalog

end Engine

namespace System.Holds

variable {S : System} {W : World} {db T : String} {D D' : Database} {R P : Relation} {r : Row}
  {fk : ForeignKey} {t : Table} {rows : List Row} {b : Backend}

theorem reads (h : S.Holds W) (hD : W.databases.find? db = some D) (hR : D.find? T = some R) :
    S.backend.Reads db T R.table R.list :=
  ⟨(h.table_and_rows hD hR).1, (h.table_and_rows hD hR).2⟩

theorem of_reads (h : S.Holds W) (hD : W.databases.find? db = some D)
    (ht : S.backend.Reads db T t rows) : ∃ R, D.find? T = some R ∧ R.table = t ∧ R.list = rows := by
  obtain ⟨D₀, R, hD₀, hR, rfl, hrows⟩ := h.of_table ht.definition
  rw [hD] at hD₀
  cases hD₀
  rw [ht.scan] at hrows
  cases hrows
  exact ⟨R, hR, rfl, rfl⟩

theorem index_entry {x : String} {coll : Collection} {v : Value} {p : Payload} (h : S.Holds W)
    (hD : W.databases.find? db = some D) (hR : D.find? T = some R)
    (hcoll : S.backend.store.content.collection? db (indexCollection T x) = some coll)
    (hp : coll.find? v = some p) :
    ∃ ids, p = .rowIds ids ∧ ids ≠ [] ∧ ∀ id ∈ ids, ∃ q ∈ R.list, q.id = id := by
  obtain ⟨cs, hcs, hcollections⟩ := h.backend.collections db D hD
  rw [Content.collection?_eq hcs] at hcoll
  exact hcollections.entry (h.sound.databases db D hD) hR hcoll hp

/-- Both sides of a recorded reference are there. -/
theorem joins_iff (h : S.Holds W) (hD : W.databases.find? db = some D)
    (hkey : fk.key ∈ R.table.keyRefs) (hP : D.find? fk.table = some P)
    (hcolumn : fk.column ∈ P.table.keyRefs) (p : Nat → List Row → Nat → Prop) :
    (∃ own rows column, S.backend.Joins db R.table fk own rows column ∧
        p own.position rows column.position) ↔
      p fk.key.ordinal P.list fk.column.ordinal := by
  have hplace {c : Column} {k : KeyRef} (hc : c.keyRef = k) : c.position = k.ordinal :=
    congrArg KeyRef.ordinal hc
  constructor
  · rintro ⟨own, rows, column, hjoins, hp⟩
    obtain ⟨other, hother, -⟩ := hjoins.other
    obtain ⟨P', hP', -, rfl⟩ := h.of_reads hD hother
    rw [hP] at hP'
    cases hP'
    rwa [hplace hjoins.key, hplace hjoins.target] at hp
  · intro hp
    obtain ⟨own, hown, hownRef⟩ := Table.mem_keyRefs.mp hkey
    obtain ⟨column, hmem, hcolumnRef⟩ := Table.mem_keyRefs.mp hcolumn
    refine ⟨own, P.list, column,
      ⟨hown, hownRef, ⟨P.table, h.reads hD hP, hmem⟩, hcolumnRef⟩, ?_⟩
    rwa [hplace hownRef, hplace hcolumnRef]

theorem admits_iff (h : S.Holds W) (hD : W.databases.find? db = some D) (hR : D.find? T = some R)
    (hfits : r.Fits R.table) : S.backend.Admits db R.table R.list r ↔
      R.checkUnique r = .ok () ∧ ∀ fk ∈ R.table.foreignKeys,
        D.checkReference R.table r.values true .missingParent fk = .ok () := by
  have hsound := h.sound.databases db D hD
  have hs := hsound.relations T R hR
  have hparents (fk : ForeignKey) (hfk : fk ∈ R.table.foreignKeys) :
      (∃ own parents column, S.backend.Joins db R.table fk own parents column ∧
        ∃ v, r.get? own.position = some v ∧ ∃ q ∈ parents, q.get? column.position = some v) ↔
      D.checkReference R.table r.values true .missingParent fk = .ok () := by
    obtain ⟨P, hP, -⟩ := hsound.parent hR hfk
    have hkey := hs.table.linked.keys fk hfk
    have hcolumn := hsound.parentColumn hR hfk hP
    rw [Database.checkReference_of_fits hsound hR hfits hkey hP hcolumn,
      h.joins_iff hD hkey hP hcolumn fun i parents j =>
        ∃ v, r.get? i = some v ∧ ∃ q ∈ parents, q.get? j = some v]
    simp only [iff_true, Relation.Has]
  have hid : (∀ q ∈ R.list, q.id ≠ r.id) ↔ R.rows.find? r.id = none := by
    rw [← OrdMap.contains_eq_false_iff, ← Bool.not_eq_true, ← Relation.has_zero]
    simp [Relation.Has, Relation.get?_zero]
  rw [Relation.checkUnique_eq_ok hs.table.shaped, ← hid]
  constructor
  · intro ha
    refine ⟨⟨ha.id, fun c hc hu v hv => ?_⟩, fun fk hfk => (hparents fk hfk).mp (ha.parents fk hfk)⟩
    rintro ⟨q, hq, hqv⟩
    exact ha.unique c hc hu v hv q hq hqv
  · rintro ⟨⟨hnew, hunique⟩, hrefs⟩
    refine ⟨hnew, fun c hc hu v hv q hq hqv => ?_, fun fk hfk => (hparents fk hfk).mpr (hrefs fk hfk)⟩
    exact hunique c hc hu v hv ⟨q, hq, hqv⟩

theorem frees_iff (h : S.Holds W) (hD : W.databases.find? db = some D) (hR : D.find? T = some R)
    (hr : r ∈ R.list) : S.backend.Frees db R.table r ↔ ∀ ref ∈ R.table.childTables,
      D.checkReference R.table r.values false .dependentRows ref = .ok () := by
  have hsound := h.sound.databases db D hD
  have hs := hsound.relations T R hR
  refine forall₂_congr fun ref href => ?_
  obtain ⟨C, hC, -⟩ := hsound.child hR href
  have hkey := hs.table.linked.childKeys ref href
  have hcolumn := hsound.childColumn hR href hC
  rw [Database.checkReference_of_fits hsound hR (hs.rows r hr) hkey hC hcolumn,
    h.joins_iff hD hkey hC hcolumn fun i children j =>
      ∃ v, r.get? i = some v ∧ ∀ q ∈ children, q.get? j ≠ some v]
  simp [Relation.Has]

theorem deletes_iff {literal : String} (h : S.Holds W) (hD : W.databases.find? db = some D) :
    (∃ o, (Engine.delete db T literal S.backend).1 = .ok o) ↔
      ∃ D', D.deleteRow T literal = .ok D' := by
  obtain ⟨es, cs, hstores⟩ := h.backend.stores hD
  exact (Engine.delete_refines hstores (h.sound.databases db D hD)
    (h.sound.names db D hD)).exists_ok_iff

/-- After a change of one database the backend holds the others as before. -/
theorem changed (h : S.Holds W) (hD : W.databases.find? db = some D) (hD' : D'.Sound)
    (hb : Backend.Shows S.backend.catalog S.backend.store.content db D' b) :
    Holds ⟨b, S.sessions⟩ ⟨W.databases.insert db D', W.sessions⟩ :=
  ⟨h.backend.of_shows hb, h.sessions, h.sound.insert (h.sound.names db D hD) hD'⟩

/-- An insertion is one in the database that is held. -/
theorem inserted {values : List String} {o : Outcome} (h : S.Holds W)
    (hD : W.databases.find? db = some D) (hd : ∀ s ∈ values, fieldDelimiter ∉ s.toList)
    (hrun : Engine.insert db T values S.backend = (.ok o, b)) :
    ∃ D', D.insertRow T values = .ok D' ∧
      Holds ⟨b, S.sessions⟩ ⟨W.databases.insert db D', W.sessions⟩ := by
  have hsound := h.sound.databases db D hD
  obtain ⟨es, cs, hstores⟩ := h.backend.stores hD
  obtain ⟨D', hD', -, hshows⟩ :=
    (Engine.insert_refines hstores hsound (h.sound.names db D hD)).of_ok hrun
  exact ⟨D', hD', h.changed hD (hsound.insertRow hd hD') hshows⟩

/-- Whatever the values are, it succeeds when the one in the database does. -/
theorem insert_ok {values : List String} (h : S.Holds W) (hD : W.databases.find? db = some D)
    (hD' : D.insertRow T values = .ok D') :
    ∃ o, (Engine.insert db T values S.backend).1 = .ok o := by
  obtain ⟨es, cs, hstores⟩ := h.backend.stores hD
  exact (Engine.insert_refines hstores (h.sound.databases db D hD)
    (h.sound.names db D hD)).exists_ok_iff.mpr ⟨D', hD'⟩

theorem inserts_iff {values : List String} (h : S.Holds W) (hD : W.databases.find? db = some D)
    (hd : ∀ s ∈ values, fieldDelimiter ∉ s.toList) :
    (∃ o, (Engine.insert db T values S.backend).1 = .ok o) ↔ ∃ D', D.insertRow T values = .ok D' := by
  constructor
  · rintro ⟨o, ho⟩
    obtain ⟨D', hD', -⟩ := h.inserted hD hd (Prod.ext ho rfl)
    exact ⟨D', hD'⟩
  · rintro ⟨D', hD'⟩
    exact h.insert_ok hD hD'

theorem deleted {literal : String} {o : Outcome} (h : S.Holds W)
    (hD : W.databases.find? db = some D)
    (hrun : Engine.delete db T literal S.backend = (.ok o, b)) :
    ∃ D', D.deleteRow T literal = .ok D' ∧
      Holds ⟨b, S.sessions⟩ ⟨W.databases.insert db D', W.sessions⟩ := by
  have hsound := h.sound.databases db D hD
  obtain ⟨es, cs, hstores⟩ := h.backend.stores hD
  obtain ⟨D', hD', -, hshows⟩ :=
    (Engine.delete_refines hstores hsound (h.sound.names db D hD)).of_ok hrun
  exact ⟨D', hD', h.changed hD (hsound.deleteRow hD') hshows⟩

/-- The rows of one relation have changed. -/
theorem changesRowsOf (h : S.Holds W) (hD : W.databases.find? db = some D)
    {f : Relation → Relation}
    (h' : Holds ⟨b, S.sessions⟩ ⟨W.databases.insert db (D.update T f), W.sessions⟩)
    (hcatalog : b.catalog = S.backend.catalog) : Backend.ChangesRowsOf db T S.backend b := by
  refine ⟨hcatalog, fun db' X t hother ht => ?_⟩
  obtain ⟨D₀, R, hD₀, hR, rfl, hrows⟩ := h.of_table ht
  by_cases hdb : db' = db
  · have hX : X ≠ T := hother.resolve_left (not_not_intro hdb)
    subst hdb
    rw [hD] at hD₀
    cases hD₀
    have hR' : (D.update T f).find? X = some R := by rw [OrdMap.find?_update_of_ne f hX, hR]
    rw [hrows]
    exact (h'.reads (OrdMap.find?_insert_self _ _ _) hR').scan
  · have hD₀' : (W.databases.insert db (D.update T f)).find? db' = some D₀ := by
      rw [OrdMap.find?_insert_of_ne hdb, hD₀]
    rw [hrows]
    exact (h'.reads hD₀' hR).scan

end System.Holds

/-- A row is inserted exactly if there is one literal for each column, each of the column's type, the
id and the values in unique columns are new, and what refers to a table is in a row there already.
Then the scan of the table gains the row, in the order of the ids, and nothing else changes. -/
theorem insertion_exact {S : System} {db T : String} {values : List String} (h : S.Reachable)
    (hdb : S.backend.catalog.databaseExists db = true)
    (hd : ∀ s ∈ values, fieldDelimiter ∉ s.toList) :
    ((∃ o, (Engine.insert db T values S.backend).1 = .ok o) ↔
      S.backend.catalog.tableExists db T = true ∧
        ∃ t rows r, S.backend.Reads db T t rows ∧ r.ReadFrom t values ∧
          S.backend.Admits db t rows r) ∧
    ∀ o b, Engine.insert db T values S.backend = (.ok o, b) →
      S.backend.ChangesRowsOf db T b ∧
        ∃ t before after r, S.backend.Reads db T t (before ++ after) ∧ r.ReadFrom t values ∧
          (∀ q ∈ before, compare q.id r.id = .lt) ∧ (∀ q ∈ after, compare r.id q.id = .lt) ∧
          b.Reads db T t (before ++ r :: after) := by
  obtain ⟨W, hW⟩ := h.holds
  obtain ⟨D, hD⟩ := hW.databaseExists_iff.mp hdb
  have hsound := hW.sound.databases db D hD
  have hfits {t : Table} {r : Row} (hr : r.ReadFrom t values) : r.Fits t :=
    Constraint.of_readRow (Constraint.readRow_eq_ok.mpr hr) hd
  constructor
  · simp only [hW.inserts_iff hD hd, Database.insertRow_eq_ok hsound, Constraint.readRow_eq_ok]
    constructor
    · rintro ⟨D', R, r, hR, hr, hunique, hparents, -⟩
      have hreads := hW.reads hD hR
      exact ⟨System.tableExists_of_table hreads.definition, R.table, R.list, r, hreads, hr,
        (hW.admits_iff hD hR (hfits hr)).mpr ⟨hunique, hparents⟩⟩
    · rintro ⟨-, t, rows, r, hreads, hr, hadmits⟩
      obtain ⟨R, hR, rfl, rfl⟩ := hW.of_reads hD hreads
      obtain ⟨hunique, hparents⟩ := (hW.admits_iff hD hR (hfits hr)).mp hadmits
      exact ⟨_, R, r, hR, hr, hunique, hparents, rfl⟩
  · intro o b hrun
    obtain ⟨D', hinsert, hholds⟩ := hW.inserted hD hd hrun
    obtain ⟨R, r, hR, hr, hunique, -, rfl⟩ := (Database.insertRow_eq_ok hsound).mp hinsert
    refine ⟨hW.changesRowsOf hD hholds (Engine.catalog_of_insert hrun), ?_⟩
    obtain ⟨hnew, -⟩ := (Relation.checkUnique_eq_ok (hsound.shaped hR)).mp hunique
    obtain ⟨before, after, hlist, hlist', hbefore, hafter⟩ := Relation.split_insertRow hnew
    have hR' : (D.update T (·.insertRow r)).find? T = some (R.insertRow r) :=
      OrdMap.find?_update_of_some hR
    refine ⟨R.table, before, after, r, ?_, Constraint.readRow_eq_ok.mp hr, hbefore, hafter, ?_⟩
    · rw [← hlist]
      exact hW.reads hD hR
    · rw [← hlist']
      exact hholds.reads (OrdMap.find?_insert_self _ _ _) hR'

/-- One table refers to another and to itself. Of the two rows there it refers to one. -/
def referred : List (Nat × String) :=
  [(0, "2 4 d"), (0, "7 d"), (0, "2 5 p 29 id 29 a"), (0, "2 5 c 29 id 29 x 29 z"),
    (0, "8 p 1#10"), (0, "8 p 2#20"), (0, "8 c 1#10#1"), (0, "10 13 p a"), (0, "10 12 c x p a"),
    (0, "10 12 c z c id")]

/-- First both references of the new row find their values, then one does not. -/
theorem insertion_exact_referred :
    (∃ o b, Engine.insert "d" "c" ["2", "20", "1"] (System.asked .inMemory referred).backend =
        (.ok o, b) ∧ (System.asked .inMemory referred).backend.ChangesRowsOf "d" "c" b) ∧
      ¬ ∃ t rows r, (System.asked .inMemory referred).backend.Reads "d" "c" t rows ∧
        r.ReadFrom t ["2", "30", "1"] ∧
        (System.asked .inMemory referred).backend.Admits "d" t rows r := by
  obtain ⟨hreach, hholds⟩ := System.asked_inMemory_holds referred (by decide)
  generalize System.asked .inMemory referred = S at hreach hholds ⊢
  have hworld : ((World.asked referred).databases.find? "d").any (fun D =>
      (D.insertRow "c" ["2", "20", "1"]).isOk ∧
        ¬ (D.insertRow "c" ["2", "30", "1"]).isOk) = true := by
    decide +kernel
  simp only [Option.any_eq_true, decide_eq_true_eq, Except.isOk_iff] at hworld
  obtain ⟨D, hD, haccepted, hrefused⟩ := hworld
  have hdb := hholds.databaseExists_iff.mpr ⟨D, hD⟩
  obtain ⟨hlegal, heffect⟩ := @insertion_exact S "d" "c" ["2", "20", "1"] hreach hdb (by decide)
  obtain ⟨hlegal', -⟩ := @insertion_exact S "d" "c" ["2", "30", "1"] hreach hdb (by decide)
  have hok := (hholds.inserts_iff (T := "c") hD (by decide)).mpr haccepted
  obtain ⟨hT, -⟩ := hlegal.mp hok
  constructor
  · obtain ⟨o, ho⟩ := hok
    exact ⟨o, _, Prod.ext ho rfl, (heffect o _ (Prod.ext ho rfl)).1⟩
  · intro hrow
    exact hrefused ((hholds.inserts_iff hD (by decide)).mp (hlegal'.mpr ⟨hT, hrow⟩))

/-- A row is deleted exactly if the literal is its id and no row refers to it. Then the scan of the
table loses the row and the indexes of the table every mention of it, without an empty entry left,
and nothing else changes. -/
theorem deletion_exact {S : System} {db T : String} {literal : String} (h : S.Reachable)
    (hdb : S.backend.catalog.databaseExists db = true) :
    ((∃ o, (Engine.delete db T literal S.backend).1 = .ok o) ↔
      S.backend.catalog.tableExists db T = true ∧
        ∃ t rows r, S.backend.Reads db T t rows ∧ t.rowId.type.read? literal = some r.id ∧
          r ∈ rows ∧ S.backend.Frees db t r) ∧
    ∀ o b, Engine.delete db T literal S.backend = (.ok o, b) →
      S.backend.ChangesRowsOf db T b ∧
        ∃ t before after r, S.backend.Reads db T t (before ++ r :: after) ∧
          t.rowId.type.read? literal = some r.id ∧ b.Reads db T t (before ++ after) ∧
          ∀ x coll, b.store.content.collection? db (indexCollection T x) = some coll →
            ∀ v p, coll.find? v = some p → ∃ ids, p = .rowIds ids ∧ ids ≠ [] ∧ r.id ∉ ids := by
  obtain ⟨W, hW⟩ := h.holds
  obtain ⟨D, hD⟩ := hW.databaseExists_iff.mp hdb
  have hsound := hW.sound.databases db D hD
  constructor
  · simp only [hW.deletes_iff hD, Database.deleteRow_eq_ok hsound, Column.read_eq_ok]
    constructor
    · rintro ⟨D', R, r, hR, hid, hr, hchildren, -⟩
      have hreads := hW.reads hD hR
      exact ⟨System.tableExists_of_table hreads.definition, R.table, R.list, r, hreads, hid, hr,
        (hW.frees_iff hD hR hr).mpr hchildren⟩
    · rintro ⟨-, t, rows, r, hreads, hid, hr, hfrees⟩
      obtain ⟨R, hR, rfl, rfl⟩ := hW.of_reads hD hreads
      exact ⟨_, R, r, hR, hid, hr, (hW.frees_iff hD hR hr).mp hfrees, rfl⟩
  · intro o b hrun
    obtain ⟨D', hdelete, hholds⟩ := hW.deleted hD hrun
    obtain ⟨R, r, hR, hid, hr, -, rfl⟩ := (Database.deleteRow_eq_ok hsound).mp hdelete
    refine ⟨hW.changesRowsOf hD hholds (Engine.catalog_of_delete hrun), ?_⟩
    obtain ⟨before, after, hlist, hlist', -, -⟩ := Relation.split_of_mem hr
    have hR' : (D.update T (·.deleteRow r.id)).find? T = some (R.deleteRow r.id) :=
      OrdMap.find?_update_of_some hR
    refine ⟨R.table, before, after, r, ?_, Column.read_eq_ok.mp hid, ?_, ?_⟩
    · rw [← hlist]
      exact hW.reads hD hR
    · rw [← hlist']
      exact hholds.reads (OrdMap.find?_insert_self _ _ _) hR'
    · intro x coll hcoll v p hp
      obtain ⟨ids, rfl, hne, hrows⟩ :=
        hholds.index_entry (OrdMap.find?_insert_self _ _ _) hR' hcoll hp
      refine ⟨ids, rfl, hne, fun hmem => ?_⟩
      obtain ⟨q, hq, hqid⟩ := hrows r.id hmem
      exact (Relation.mem_deleteRow.mp hq).2 hqid

/-- The row that is referred to stays, and the other goes. -/
theorem deletion_exact_referred :
    (∃ o b, Engine.delete "d" "p" "2" (System.asked .inMemory referred).backend = (.ok o, b) ∧
        (System.asked .inMemory referred).backend.ChangesRowsOf "d" "p" b) ∧
      ¬ ∃ t rows r, (System.asked .inMemory referred).backend.Reads "d" "p" t rows ∧
        t.rowId.type.read? "1" = some r.id ∧ r ∈ rows ∧
        (System.asked .inMemory referred).backend.Frees "d" t r := by
  obtain ⟨hreach, hholds⟩ := System.asked_inMemory_holds referred (by decide)
  generalize System.asked .inMemory referred = S at hreach hholds ⊢
  have hworld : ((World.asked referred).databases.find? "d").any (fun D =>
      (D.deleteRow "p" "2").isOk ∧ ¬ (D.deleteRow "p" "1").isOk) = true := by
    decide +kernel
  simp only [Option.any_eq_true, decide_eq_true_eq, Except.isOk_iff] at hworld
  obtain ⟨D, hD, haccepted, hrefused⟩ := hworld
  have hdb := hholds.databaseExists_iff.mpr ⟨D, hD⟩
  obtain ⟨hlegal, heffect⟩ := @deletion_exact S "d" "p" "2" hreach hdb
  obtain ⟨hlegal', -⟩ := @deletion_exact S "d" "p" "1" hreach hdb
  have hok := (hholds.deletes_iff (T := "p") hD).mpr haccepted
  obtain ⟨hT, -⟩ := hlegal.mp hok
  constructor
  · obtain ⟨o, ho⟩ := hok
    exact ⟨o, _, Prod.ext ho rfl, (heffect o _ (Prod.ext ho rfl)).1⟩
  · intro hrow
    exact hrefused ((hholds.deletes_iff hD).mp (hlegal'.mpr ⟨hT, hrow⟩))

end RelStore

import RelStore.Proofs.Batches
import RelStore.Proofs.Reachability
/-! Constraints that put an index on a column, when a save of the snapshot fails on the way. The
definition is written before the index is built, and is not taken back. -/
namespace RelStore

open Backend (requireDatabase_run getTable_run getContent_run onCatalog_run onStore_run)

/-- The ways in which a column comes to have an index. -/
inductive Indexing where
  | primaryKey
  | unique
  | plain
  deriving DecidableEq

namespace Indexing

def add : Indexing → String → String → String → Step Backend Outcome
  | .primaryKey => Engine.addPrimaryKey
  | .unique => Engine.addUnique
  | .plain => Engine.addIndex

/-- The definition with the flags of the column set. -/
def flag (t : Table) (c : Column) : Indexing → Table
  | .primaryKey => t.withPrimaryKey c.name c.position
  | .unique => t.withUnique c.name
  | .plain => t.withIndex c.name

def label : Indexing → String
  | .primaryKey => "Primary key added on "
  | .unique => "Unique constraint added on "
  | .plain => "Index created on "

/-- What is checked of the column. -/
def check (content : Content) (db : String) (t : Table) (c : Column) : Indexing → Except Error Unit
  | .primaryKey =>
    if c.primaryKey then .error (.alreadyPrimaryKey c.name)
    else Constraint.checkExistingUnique content db t c
  | .unique => Constraint.checkExistingUnique content db t c
  | .plain => if c.indexed then .error (.alreadyIndexed c.name t.name) else .ok ()

/-- The table and the column that are named. -/
def target (b : Backend) (db T n : String) : Except Error (Table × Column) :=
  if b.catalog.databaseExists db then do
    let t ← b.catalog.table db T
    let c ← t.column n
    return (t, c)
  else .error (.databaseNotFound db)

/-- Everything that is checked before anything is written. -/
def accept (b : Backend) (db T n : String) (i : Indexing) : Except Error (Table × Column) := do
  let (t, c) ← target b db T n
  i.check b.store.content db t c
  return (t, c)

/-- What is done once the checks are passed: first the definition is written, then the index. -/
def carryOut (db T : String) (t : Table) (c : Column) (i : Indexing) : Step Backend Outcome := do
  Backend.onCatalog (Catalog.writeTable db (i.flag t c))
  if !c.indexed then Backend.onStore (Index.build db (i.flag t c) (← (i.flag t c).column c.name))
  return .done 0 (i.label ++ T ++ "." ++ c.name)

/-- A definition that is written and handed on. -/
theorem onCatalog_write_bind {α : Type} {b : Backend} {db : String} {t : Table}
    {x : Step Catalog Table}
    (hx : x b.catalog = (do Catalog.writeTable db t; return t : Step Catalog Table) b.catalog)
    (k : Table → Step Backend α) :
    (Backend.onCatalog x >>= k) b =
      (Backend.onCatalog (Catalog.writeTable db t) >>= fun _ => k t) b := by
  rw [Step.bind_run, Step.bind_run, Backend.onCatalog, Backend.onCatalog, hx, Step.bind_run]
  rcases Catalog.writeTable db t b.catalog with ⟨_ | _, cat⟩ <;> rfl

theorem of_target {b : Backend} {db T n : String} {t : Table} {c : Column}
    (h : target b db T n = .ok (t, c)) :
    b.catalog.databaseExists db = true ∧ b.catalog.table db T = .ok t ∧ t.column n = .ok c := by
  rw [target] at h
  split at h
  · next hdb =>
    obtain ⟨t', ht, h⟩ := Except.bind_eq_ok.mp h
    obtain ⟨c', hc, h⟩ := Except.bind_eq_ok.mp h
    cases h
    exact ⟨hdb, ht, hc⟩
  · cases h

theorem target_bind {α : Type} (b : Backend) (db T n : String)
    (k : Table → Column → Step Backend α) :
    (do
      Engine.requireDatabase db
      let t ← Engine.getTable db T
      let c ← t.column n
      k t c : Step Backend α) b =
    match target b db T n with
    | .error e => (.error e, b)
    | .ok (t, c) => k t c b := by
  rw [target, Step.bind_run, requireDatabase_run]
  cases b.catalog.databaseExists db with
  | false => rfl
  | true =>
    simp only [if_true, Step.bind_run, getTable_run]
    cases b.catalog.table db T with
    | error e => rfl
    | ok t =>
      simp only [Step.lift_run, Except.ok_bind]
      cases t.column n <;> rfl

theorem addIndex_target_error {b : Backend} {db T n : String} {e : Error}
    (h : target b db T n = .error e) :
    Engine.addIndex db T n b = (.error e, b) := by
  rw [Engine.addIndex, Step.bind_run, requireDatabase_run]
  rw [target] at h
  split at h
  · next hdb =>
    rw [if_pos hdb]
    refine Step.bind_run_error (onCatalog_run (Catalog.updateTable_error ?_))
    cases ht : b.catalog.table db T with
    | error e' =>
      rw [ht] at h
      cases h
      rfl
    | ok t =>
      rw [ht, Except.ok_bind] at h
      rw [Except.ok_bind]
      cases hc : t.column n with
      | error e' =>
        rw [hc] at h
        cases h
        rfl
      | ok c =>
        rw [hc] at h
        cases h
  · next hdb =>
    cases h
    rw [if_neg hdb]

section Runs

variable {b : Backend} {db T : String} {t : Table} {c : Column}

theorem addPrimaryKey_run (htarget : target b db T c.name = .ok (t, c)) :
    Engine.addPrimaryKey db T c.name b =
      match primaryKey.check b.store.content db t c with
      | .error e => (.error e, b)
      | .ok _ => primaryKey.carryOut db T t c b := by
  obtain ⟨-, ht, hc⟩ := of_target htarget
  refine (target_bind b db T c.name _).trans ?_
  rw [htarget]
  cases hp : c.primaryKey with
  | true =>
    simp only [check, hp]
    rfl
  | false =>
    simp only [check, hp, Bool.false_eq_true, if_false, Step.bind_run_ok getContent_run]
    cases Constraint.checkExistingUnique b.store.content db t c with
    | error e => rfl
    | ok _ =>
      refine onCatalog_write_bind (Catalog.updateTable_ok ht ?_) _
      rw [hc, Except.ok_bind, hp]
      rfl

theorem addUnique_run (htarget : target b db T c.name = .ok (t, c)) :
    Engine.addUnique db T c.name b =
      match unique.check b.store.content db t c with
      | .error e => (.error e, b)
      | .ok _ => unique.carryOut db T t c b := by
  obtain ⟨-, ht, hc⟩ := of_target htarget
  refine (target_bind b db T c.name _).trans ?_
  rw [htarget]
  simp only [check, Step.bind_run_ok getContent_run]
  cases Constraint.checkExistingUnique b.store.content db t c with
  | error e => rfl
  | ok _ =>
    refine onCatalog_write_bind (Catalog.updateTable_ok ht ?_) _
    rw [hc]
    rfl

/-- Here the check is made by the catalog, as it sets the flag. -/
theorem addIndex_run (htarget : target b db T c.name = .ok (t, c)) :
    Engine.addIndex db T c.name b =
      match plain.check b.store.content db t c with
      | .error e => (.error e, b)
      | .ok _ => plain.carryOut db T t c b := by
  obtain ⟨hdb, ht, hc⟩ := of_target htarget
  have hrequire := requireDatabase_run b db
  rw [if_pos hdb] at hrequire
  refine (Step.bind_run_ok hrequire).trans ?_
  cases hi : c.indexed with
  | true =>
    simp only [check, hi]
    refine Step.bind_run_error (onCatalog_run (Catalog.updateTable_error ?_))
    rw [ht, Except.ok_bind, hc, Except.ok_bind, if_pos hi]
    rfl
  | false =>
    simp only [check, hi, Bool.false_eq_true, if_false]
    refine (onCatalog_write_bind (t := plain.flag t c) (Catalog.updateTable_ok ht ?_) _).trans ?_
    · rw [hc, Except.ok_bind, hi]
      rfl
    · show _ = carryOut _ _ _ _ _ _
      rw [carryOut, hi]
      rfl

end Runs

/-- The three operations do the same, but for the check and the flags. -/
theorem add_run (i : Indexing) (b : Backend) (db T n : String) :
    i.add db T n b =
      match i.accept b db T n with
      | .error e => (.error e, b)
      | .ok (t, c) => i.carryOut db T t c b := by
  cases htarget : target b db T n with
  | error e =>
    rw [accept, htarget]
    cases i with
    | primaryKey => exact (target_bind b db T n _).trans (by rw [htarget]; rfl)
    | unique => exact (target_bind b db T n _).trans (by rw [htarget]; rfl)
    | plain => exact addIndex_target_error htarget
  | ok p =>
    obtain ⟨t, c⟩ := p
    obtain ⟨-, -, hc⟩ := of_target htarget
    obtain ⟨-, rfl⟩ := Table.of_column hc
    have hchecked : i.add db T c.name b =
        match i.check b.store.content db t c with
        | .error e => (.error e, b)
        | .ok _ => i.carryOut db T t c b := by
      cases i with
      | primaryKey => exact addPrimaryKey_run htarget
      | unique => exact addUnique_run htarget
      | plain => exact addIndex_run htarget
    rw [accept, htarget, Except.ok_bind, hchecked]
    dsimp only
    cases i.check b.store.content db t c <;> rfl

end Indexing

namespace Index

/-- A save fails while an index of the table is built: that of its collection, or that of its
entries, of which there are some unless the table is empty. -/
def BuildFails (s : Store) (db T : String) : Prop :=
  s.SaveFails ∨ s.content.find db T .all ≠ [] ∧ s.saved.SaveFails

instance (s : Store) (db T : String) : Decidable (BuildFails s db T) := by
  unfold BuildFails; infer_instance

theorem saveFails_saved (s : Store) (content : Content) :
    (Store.saved { s with content }).SaveFails ↔ s.saved.SaveFails := by
  obtain ⟨c, _ | m⟩ := s <;> simp [Store.SaveFails, Store.saved, Medium.SaveFails]

variable {s : Store} {db : String} {cs : Collections} {t : Table} {column : Column}
  {rows : List Row}

theorem group_eq_nil (hscan : Row.scan s.content db t .all = .ok rows)
    (hvalues : ∀ r ∈ rows, ∃ v, r.get? column.position = some v) :
    (group rows column.position).bindings = [] ↔ s.content.find db t.name .all = [] := by
  have hlength := (mapM_eq_ok_iff.mp hscan).length_eq
  have hdocuments : s.content.find db t.name .all = [] ↔ rows = [] := by
    rw [← List.length_eq_zero_iff, hlength, List.length_eq_zero_iff]
  rw [hdocuments]
  constructor
  · intro hnil
    by_contra hne
    obtain ⟨r, hr⟩ := List.exists_mem_of_ne_nil rows hne
    obtain ⟨v, hv⟩ := hvalues r hr
    have hsome := find?_group rows column.position v
    have hnot : (rows.filter fun r => r.get? column.position = some v) ≠ [] :=
      List.ne_nil_of_mem (List.mem_filter.mpr ⟨hr, by simpa using hv⟩)
    rw [if_neg hnot, OrdMap.find?_eq_some_iff, hnil] at hsome
    cases hsome
  · rintro rfl
    rfl

/-- The entries of a new index can all be written. -/
theorem writes_entries {c : Content} {idx : String} (hfind : c.find? db = some cs)
    (hnew : cs.find? idx = some ∅) (rows : List Row) (position : Nat) :
    ∃ c', c.writes db ((group rows position).bindings.map fun e =>
      .insert idx ⟨e.1, .rowIds e.2⟩) = some c' := by
  obtain ⟨coll, hsteps, -⟩ := WriteOp.steps_inserts hnew (nodup_group rows position)
    fun e _ => OrdMap.find?_empty e.1
  rw [List.map_map] at hsteps
  have hwrites := Content.writes_insert c db cs
    ((group rows position).bindings.map fun e => .insert idx ⟨e.1, .rowIds e.2⟩)
  rw [OrdMap.insert_eq_self hfind] at hwrites
  exact ⟨_, hwrites.trans (congrArg (fun r => r.toOption.map (c.insert db)) hsteps)⟩

/-- How the building of a new index goes, whatever saves fail. -/
theorem build_cases (hfind : s.content.find? db = some cs)
    (hscan : Row.scan s.content db t .all = .ok rows)
    (hvalues : ∀ r ∈ rows, ∃ v, r.get? column.position = some v) (hrow : column.isRowId = false)
    (hnone : cs.find? (indexCollection t.name column.name) = none) :
    (BuildFails s db t.name ∧ ∃ e s', build db t column s = (.error e, s') ∧
      s'.content = s.content.insert db (cs.insert (indexCollection t.name column.name) ∅)) ∨
    (¬ BuildFails s db t.name ∧ ∃ s', build db t column s = (.ok (), s')) := by
  generalize hidx : indexCollection t.name column.name = idx at hnone ⊢
  have hcreate := Store.createCollection_run s db idx
  rw [Store.within, hfind, Option.getD_some, OrdMap.contains_eq_false_iff.mpr hnone,
    if_neg Bool.false_ne_true] at hcreate
  generalize hmade : s.content.insert db (cs.insert idx ∅) = made at hcreate ⊢
  have hrun : build db t column s = (do
      Store.createCollection db idx
      Store.apply db ((group rows column.position).bindings.map fun e =>
        .insert idx ⟨e.1, .rowIds e.2⟩) : Step Store Unit) s := by
    simp only [build, hrow, Bool.false_eq_true, if_false, Store.getContent, Step.bind_run,
      Step.get_run, Step.pure_run, hscan, Step.lift_run, hidx]
  by_cases hfirst : s.SaveFails
  · obtain ⟨e, he⟩ := Store.save_of_fails (s := { s with content := made }) hfirst
    refine .inl ⟨.inl hfirst, e, Store.unsaved { s with content := made }, ?_, rfl⟩
    rw [hrun, Step.bind_run_error (hcreate.trans he)]
  · have hsave := Store.save_of_not_fails (s := { s with content := made }) hfirst
    rw [Step.bind_run_ok (hcreate.trans hsave)] at hrun
    have hrows := group_eq_nil hscan hvalues
    have hplace : (Store.saved { s with content := made }).content.find? db =
        some (cs.insert idx ∅) := by
      show made.find? db = _
      rw [← hmade, OrdMap.find?_insert_self]
    obtain ⟨c, hwrites⟩ := writes_entries hplace (OrdMap.find?_insert_self cs idx ∅) rows
      column.position
    rcases Store.apply_cases (Store.saved { s with content := made }) db
        ((group rows column.position).bindings.map fun e => .insert idx ⟨e.1, .rowIds e.2⟩) with
      ⟨hnil, happly⟩ | ⟨e, hnone, -⟩ | ⟨e, -, hne, hsecond, -, happly⟩ |
      ⟨c, hne, hsecond, -, happly⟩
    · refine .inr ⟨?_, _, hrun.trans happly⟩
      rintro (hfails | ⟨hdocuments, -⟩)
      · exact hfirst hfails
      · exact hdocuments (hrows.mp (List.map_eq_nil_iff.mp hnil))
    · rw [hwrites] at hnone
      cases hnone
    · refine .inl ⟨.inr ⟨?_, (saveFails_saved s made).mp hsecond⟩, e, _, hrun.trans happly, rfl⟩
      exact fun hdocuments => hne (List.map_eq_nil_iff.mpr (hrows.mpr hdocuments))
    · refine .inr ⟨?_, _, hrun.trans happly⟩
      rintro (hfails | ⟨-, hfails⟩)
      · exact hfirst hfails
      · exact hsecond ((saveFails_saved s made).mpr hfails)

end Index

/-- The backend with a snapshot in place of the one it has, so that other saves fail. -/
def Backend.withMedium (b : Backend) (m : Option Medium) : Backend :=
  { b with store := { b.store with medium := m } }

namespace Indexing

/-- What is left where the building of an index has failed: the definition has the flags, and the
index is there without entries. -/
structure Unbuilt (b : Backend) (db T n : String) (i : Indexing) (b' : Backend) : Prop where
  flagged : ∃ t c c', b.catalog.table db T = .ok t ∧ t.column n = .ok c ∧ c.indexed = false ∧
    b'.catalog.table db T = .ok (i.flag t c) ∧ (i.flag t c).column n = .ok c' ∧ c'.indexed = true
  empty : b'.store.content =
    b.store.content.insert db ((b.store.within db).insert (indexCollection T n) ∅)

variable {b : Backend} {cat : Catalog} {content : Content} {db T : String} {D : Database}
  {es : OrdMap String Entry} {cs : Collections} {R : Relation} {c : Column} {i : Indexing}

theorem indexes_flag (i : Indexing) (t : Table) (c : Column) : Table.Indexes c t (i.flag t c) := by
  cases i with
  | primaryKey => exact .withPrimaryKey
  | unique => exact .withUnique
  | plain => exact .withIndex

theorem wellFormed_flag {t : Table} (h : t.WellFormed) (hc : c ∈ t.columns)
    (hnew : i = primaryKey → c.primaryKey = false) : (i.flag t c).WellFormed := by
  cases i with
  | primaryKey => exact h.withPrimaryKey hc (hnew rfl)
  | unique => exact h.withUnique c.name
  | plain => exact h.withIndex c.name

theorem recordable_flag (hD : D.Sound) (hR : D.find? T = some R)
    (hw : (i.flag R.table c).WellFormed) : (i.flag R.table c).Recordable where
  distinct := by
    rw [← Table.names_eq]
    exact hw.shaped.distinct
  positions := by
    rw [← Table.positions_eq, ← Table.length_keyRefs]
    exact hw.shaped.ordinals
  primaryKeys := fun p hp => hw.flagged.primaryKey_position hw.shaped hp
  foreignKeys := by cases i <;> exact (hD.recordable hR).foreignKeys
  childTables := by cases i <;> exact (hD.recordable hR).childTables

theorem column_flag {t : Table} (hs : (i.flag t c).Shaped) (hc : c ∈ t.columns) :
    ∃ c', (i.flag t c).column c.name = .ok c' ∧ c'.keyRef = c.keyRef ∧ c'.indexed = true := by
  obtain ⟨g, hk, hi, hcolumns⟩ := (indexes_flag i t c).columns
  have hmem : g c ∈ (i.flag t c).columns := by
    rw [hcolumns]
    exact List.mem_map.mpr ⟨c, hc, if_pos rfl⟩
  refine ⟨g c, ?_, hk c, hi c⟩
  have hcol := hs.column_name hmem
  rwa [(Column.place_of_keyRef (hk c)).1] at hcol

theorem of_accept {n : String} {t : Table} (h : i.accept b db T n = .ok (t, c)) :
    target b db T n = .ok (t, c) ∧ (i = primaryKey → c.primaryKey = false) := by
  obtain ⟨⟨t', c'⟩, htarget, h⟩ := Except.bind_eq_ok.mp h
  obtain ⟨⟨⟩, hcheck, h⟩ := Except.bind_eq_ok.mp h
  cases h
  refine ⟨htarget, ?_⟩
  rintro rfl
  by_contra hp
  rw [Bool.not_eq_false] at hp
  rw [check, if_pos hp] at hcheck
  cases hcheck

/-- The definition with the flags set is read back from the folder. -/
theorem recorded_flag (hD : D.Sound) (hR : D.find? T = some R)
    (hw : (i.flag R.table c).WellFormed) :
    Recorded (Function.update D.tables T (some (i.flag R.table c))) := by
  intro X t ht
  by_cases hX : X = T
  · subst hX
    rw [Function.update_self] at ht
    cases ht
    have hname := (indexes_flag i R.table c).name.trans (hD.named X R hR)
    exact ⟨hname, hD.valid hR, hD.fileFits hR, recordable_flag hD hR hw⟩
  · rw [Function.update_of_ne hX] at ht
    exact hD.recorded X t ht

/-- Under the definition with the flags set a scan reads the same rows. -/
theorem scan_flag (h : CollectionsOf D cs) (hcs : content.find? db = some cs) (hD : D.Sound)
    (hR : D.find? T = some R) : Row.scan content db (i.flag R.table c) .all = .ok R.list := by
  have hflag := indexes_flag i R.table c
  have hfits : ∀ r ∈ R.list, r.Fits (i.flag R.table c) := fun r hr =>
    ((hD.relations T R hR).rows r hr).congr hflag.keyRefs
  have hname : D.find? (i.flag R.table c).name = some R := by
    rw [hflag.name, hD.named T R hR]
    exact hR
  rw [h.scan hcs hname hfits]
  simp [KeyFilter.admits]

/-- What comes after the checks, whatever saves fail: only the building of the index can fail. -/
theorem carryOut_cases (h : b.Stores cat content db D es cs) (hD : D.Sound)
    (hdb : isValidName db = true) (hR : D.find? T = some R) (hc : c ∈ R.table.columns)
    (hnew : i = primaryKey → c.primaryKey = false) (m : Option Medium) :
    (c.indexed = false ∧ Index.BuildFails (b.withMedium m).store db T ∧
      ∃ e b', i.carryOut db T R.table c (b.withMedium m) = (.error e, b') ∧
        b'.catalog.table db T = .ok (i.flag R.table c) ∧
        b'.store.content = b.store.content.insert db (cs.insert (indexCollection T c.name) ∅)) ∨
    (¬ (c.indexed = false ∧ Index.BuildFails (b.withMedium m).store db T) ∧
      ∃ o b', i.carryOut db T R.table c (b.withMedium m) = (.ok o, b')) := by
  have hsound := hD.relations T R hR
  have hw := wellFormed_flag hsound.table hc hnew
  have hname : (i.flag R.table c).name = T :=
    (indexes_flag i R.table c).name.trans (hD.named T R hR)
  obtain ⟨hwrite, hfolder⟩ := Catalog.writeTable_filed (c := cat) h.folder hname (hD.valid hR) hdb
    (hD.fileFits hR)
  have hread := hfolder.read (c := cat) (recorded_flag hD hR hw) hdb (Function.update_self T _ _)
  rw [← h.catalog] at hwrite
  rw [carryOut, Step.bind_run_ok (onCatalog_run (b := b.withMedium m) hwrite)]
  cases hi : c.indexed with
  | true => exact .inr ⟨fun hn => Bool.noConfusion hn.1, _, _, rfl⟩
  | false =>
    obtain ⟨c', hc', hk, -⟩ := column_flag (i := i) hw.shaped hc
    obtain ⟨hkn, hkp⟩ := Column.place_of_keyRef hk
    have hvalues : ∀ r ∈ R.list, ∃ v, r.get? c'.position = some v := by
      intro r hr
      obtain ⟨v, hv, -⟩ := (hsound.rows r hr).get? hsound.table.shaped hc
      exact ⟨v, hkp ▸ hv⟩
    have hrow : c'.isRowId = false := by
      rw [Column.isRowId, hkp]
      exact hsound.table.isRowId_eq_false hc hi
    have hnone : cs.find? (indexCollection (i.flag R.table c).name c'.name) = none := by
      rw [hname, hkn]
      exact Engine.index_unused h.collections hD hR hc hi
    have hbuild :=
      Index.build_cases (s := (b.withMedium m).store) h.content
        (scan_flag h.collections h.content hD hR) hvalues hrow hnone
    rw [hname, hkn] at hbuild
    simp only [Bool.not_false, if_true, hc', Step.bind_run_ok (Step.lift_run _ _)]
    rcases hbuild with ⟨hfails, e, s', hrun, hleft⟩ | ⟨hsaves, s', hrun⟩
    · refine .inl ⟨trivial, hfails, e, _, Step.bind_run_error (onStore_run hrun), hread, hleft⟩
    · exact .inr ⟨fun hn => hsaves hn.2, _, _, Step.bind_run_ok (onStore_run hrun)⟩

theorem Unbuilt.table_ne {n : String} {b' : Backend} (h : i.Unbuilt b db T n b') :
    b'.catalog.table db T ≠ b.catalog.table db T := by
  obtain ⟨t, c, c', ht, hc, hi, ht', hc', hi'⟩ := h.flagged
  intro hsame
  rw [ht, ht'] at hsame
  rw [Except.ok.inj hsame, hc] at hc'
  cases hc'
  rw [hi] at hi'
  cases hi'

/-- How the operation goes: refused by a check, stopped while the index is built, or done. -/
theorem add_cases {S : System} (h : S.Reachable) (m : Option Medium) (i : Indexing)
    (db T n : String) :
    let b := S.backend.withMedium m
    (∃ e, i.accept b db T n = .error e ∧ i.add db T n b = (.error e, b)) ∨
    (∃ t c, i.accept b db T n = .ok (t, c) ∧ c.indexed = false ∧ Index.BuildFails b.store db T ∧
      ∃ e b', i.add db T n b = (.error e, b') ∧ i.Unbuilt b db T n b') ∨
    (∃ t c, i.accept b db T n = .ok (t, c) ∧ ¬ (c.indexed = false ∧ Index.BuildFails b.store db T) ∧
      ∃ o b', i.add db T n b = (.ok o, b')) := by
  intro b
  have hrun := add_run i b db T n
  cases haccept : i.accept b db T n with
  | error e =>
    rw [haccept] at hrun
    exact .inl ⟨e, rfl, hrun⟩
  | ok p =>
    obtain ⟨t, c⟩ := p
    rw [haccept] at hrun
    obtain ⟨htarget, hnew⟩ := of_accept haccept
    obtain ⟨-, ht, hcolumn⟩ := of_target htarget
    obtain ⟨hc, rfl⟩ := Table.of_column hcolumn
    obtain ⟨W, hW⟩ := h.holds
    obtain ⟨D, R, hdb, hR, rfl, -⟩ := hW.of_table ht
    obtain ⟨es, cs, hstores⟩ := hW.backend.stores hdb
    have hD := hW.sound.databases db D hdb
    refine .inr ?_
    rcases carryOut_cases hstores hD (hW.sound.names db D hdb) hR hc hnew m with
      ⟨hi, hfails, e, b', hleft, hflagged, hempty⟩ | ⟨hsaves, o, b', hdone⟩
    · have hwithin : b.store.within db = cs := by
        show (S.backend.store.content.find? db).getD ∅ = cs
        rw [hstores.content, Option.getD_some]
      obtain ⟨c', hc', -, hi'⟩ := column_flag (i := i)
        (wellFormed_flag (hD.relations T R hR).table hc hnew).shaped hc
      refine .inl ⟨R.table, c, rfl, hi, hfails, e, b', hrun.trans hleft, ?_, ?_⟩
      · exact ⟨R.table, c, c', ht, hcolumn, hi, hflagged, hc', hi'⟩
      · rw [hwithin]
        exact hempty
    · exact .inr ⟨R.table, c, rfl, hsaves, o, b', hrun.trans hdone⟩

end Indexing

/-- An operation that puts an index on a column and fails has left everything as it was, or the
definition with its flags and the index empty. The latter is left exactly when the column is
admitted, has no index yet, and a save fails while the index is built. -/
theorem indexing_failure {S : System} (h : S.Reachable) (m : Option Medium) (i : Indexing)
    (db T n : String) :
    let b := S.backend.withMedium m
    (∀ e b', i.add db T n b = (.error e, b') → b' = b ∨ i.Unbuilt b db T n b') ∧
    ((∃ e b', i.add db T n b = (.error e, b') ∧ i.Unbuilt b db T n b') ↔
      ∃ t c, i.accept b db T n = .ok (t, c) ∧ c.indexed = false ∧
        Index.BuildFails b.store db T) := by
  intro b
  rcases Indexing.add_cases h m i db T n with
    ⟨e, haccept, hrun⟩ | ⟨t, c, haccept, hi, hfails, e, b', hrun, hunbuilt⟩ |
    ⟨t, c, haccept, hsaves, o, b', hrun⟩
  · refine ⟨?_, ?_, ?_⟩
    · intro e' b' hb'
      rw [hrun] at hb'
      cases hb'
      exact .inl rfl
    · rintro ⟨e', b', hb', hunbuilt⟩
      rw [hrun] at hb'
      cases hb'
      exact absurd rfl hunbuilt.table_ne
    · rintro ⟨t, c, hok, -⟩
      rw [haccept] at hok
      cases hok
  · refine ⟨?_, ?_, ?_⟩
    · intro e' b'' hb''
      rw [hrun] at hb''
      cases hb''
      exact .inr hunbuilt
    · intro _
      exact ⟨t, c, haccept, hi, hfails⟩
    · intro _
      exact ⟨e, b', hrun, hunbuilt⟩
  · refine ⟨?_, ?_, ?_⟩
    · intro e' b'' hb''
      rw [hrun] at hb''
      cases hb''
    · rintro ⟨e', b'', hb'', -⟩
      rw [hrun] at hb''
      cases hb''
    · rintro ⟨t', c', hok, hi, hfails⟩
      rw [haccept] at hok
      cases hok
      exact absurd ⟨hi, hfails⟩ hsaves

section Example

variable {S : System} {W : World} {db T n : String} {D : Database} {R : Relation} {c : Column}

theorem Indexing.accept_plain (h : S.Holds W) (hD : W.databases.find? db = some D)
    (hR : D.find? T = some R) (hc : R.table.column n = .ok c) (hi : c.indexed = false)
    (m : Option Medium) : plain.accept (S.backend.withMedium m) db T n = .ok (R.table, c) := by
  have hexists : (S.backend.withMedium m).catalog.databaseExists db = true :=
    h.databaseExists_iff.mpr ⟨D, hD⟩
  have htable : (S.backend.withMedium m).catalog.table db T = .ok R.table :=
    (h.table_and_rows hD hR).1
  have htarget : target (S.backend.withMedium m) db T n = .ok (R.table, c) := by
    rw [target, if_pos hexists, htable, Except.ok_bind, hc]
    rfl
  rw [accept, htarget, Except.ok_bind]
  simp only [check, hi]
  rfl

theorem System.Holds.documents_ne (h : S.Holds W) (hD : W.databases.find? db = some D)
    (hR : D.find? T = some R) (hlist : R.list ≠ []) :
    S.backend.store.content.find db T .all ≠ [] := by
  have hlength := (mapM_eq_ok_iff.mp (h.table_and_rows hD hR).2).length_eq
  rw [(h.sound.databases db D hD).named T R hR] at hlength
  intro hnil
  rw [hnil] at hlength
  exact hlist (List.length_eq_zero_iff.mp hlength.symm)

end Example

/-- A table with one row, which can be given an index. -/
def oneRow : List (Nat × String) :=
  [(0, "2 4 d"), (0, "7 d"), (0, "2 5 t 29 id 29 a"), (0, "8 t 1#5")]

theorem oneRow_accepted :
    ∃ S : System, S.Reachable ∧ S.backend.store.content.find "d" "t" .all ≠ [] ∧
      ∀ m, ∃ t c, Indexing.plain.accept (S.backend.withMedium m) "d" "t" "a" = .ok (t, c) ∧
        c.indexed = false := by
  obtain ⟨hreach, hholds⟩ := System.asked_inMemory_holds oneRow (by decide)
  have hworld : ((World.asked oneRow).databases.find? "d").any (fun D => (D.find? "t").any
      fun R => R.list ≠ [] ∧ (R.table.column "a").toOption.any fun c => !c.indexed) = true := by
    decide +kernel
  generalize System.asked .inMemory oneRow = S at hreach hholds ⊢
  generalize World.asked oneRow = W at hholds hworld
  obtain ⟨D, hD, hworld⟩ := (Option.any_eq_true _ _).mp hworld
  obtain ⟨R, hR, hworld⟩ := (Option.any_eq_true _ _).mp hworld
  obtain ⟨hrows, hcolumn⟩ := of_decide_eq_true hworld
  obtain ⟨c, hc, hi⟩ := (Option.any_eq_true _ _).mp hcolumn
  rw [Bool.not_eq_true'] at hi
  refine ⟨S, hreach, hholds.documents_ne hD hR hrows, fun m => ⟨R.table, c, ?_, hi⟩⟩
  refine Indexing.accept_plain hholds hD hR ?_ hi m
  cases hread : R.table.column "a" with
  | error e =>
    rw [hread] at hc
    cases hc
  | ok c' =>
    rw [hread] at hc
    cases hc
    rfl

/-- The collection of the index is saved, and its entries are not. -/
theorem indexing_failure_second_save :
    ∃ (S : System) (e : Error) (b' : Backend), S.Reachable ∧
      Indexing.plain.add "d" "t" "a" (S.backend.withMedium (some ⟨.vacant, [false, true]⟩)) =
        (.error e, b') ∧
      Indexing.plain.Unbuilt (S.backend.withMedium (some ⟨.vacant, [false, true]⟩)) "d" "t" "a"
        b' := by
  obtain ⟨S, hreach, hrows, haccepted⟩ := oneRow_accepted
  obtain ⟨t, c, haccept, hi⟩ := haccepted (some ⟨.vacant, [false, true]⟩)
  have hsecond : (S.backend.withMedium (some ⟨.vacant, [false, true]⟩)).store.saved.SaveFails :=
    ⟨_, rfl, .inl rfl⟩
  obtain ⟨e, b', hrun, hunbuilt⟩ := (indexing_failure hreach (some ⟨.vacant, [false, true]⟩) .plain
    "d" "t" "a").2.mpr ⟨t, c, haccept, hi, .inr ⟨hrows, hsecond⟩⟩
  exact ⟨S, e, b', hreach, hrun, hunbuilt⟩

/-- A failure does not always leave the definition as it was: here no save succeeds. -/
theorem not_indexing_failure_unchanged :
    ¬ ∀ S : System, S.Reachable → ∀ (m : Option Medium) (i : Indexing) (db T n : String) (e : Error)
        (b' : Backend), i.add db T n (S.backend.withMedium m) = (.error e, b') →
      b'.catalog.table db T = S.backend.catalog.table db T := by
  intro h
  obtain ⟨S, hreach, -, haccepted⟩ := oneRow_accepted
  obtain ⟨t, c, haccept, hi⟩ := haccepted (some ⟨.folder, []⟩)
  have hfails : Index.BuildFails (S.backend.withMedium (some ⟨.folder, []⟩)).store "d" "t" :=
    .inl ⟨_, rfl, .inr rfl⟩
  rcases Indexing.add_cases hreach (some ⟨.folder, []⟩) .plain "d" "t" "a" with
    ⟨e, hrefused, -⟩ | ⟨-, -, -, -, -, e, b', hrun, hunbuilt⟩ | ⟨t', c', haccept', hsaves, -⟩
  · rw [haccept] at hrefused
    cases hrefused
  · exact hunbuilt.table_ne (h S hreach _ _ _ _ _ e b' hrun)
  · rw [haccept] at haccept'
    cases haccept'
    exact hsaves ⟨hi, hfails⟩

end RelStore

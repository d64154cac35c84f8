import RelStore.Proofs.CatalogSteps
import RelStore.Proofs.Durability
import RelStore.Proofs.StoreSteps
import RelStore.Session
/-! Operations work in one database. They read nothing of the others, so that they do the same where
there is only the one, and they change nothing of the others. -/
namespace RelStore

universe u v

namespace OrdMap

variable {κ : Type u} {α : Type v} [Ord κ] [DecidableEq κ]

/-- The map with one key only. -/
def only (m : OrdMap κ α) (k : κ) : OrdMap κ α := m.filter fun k' => decide (k' = k)

variable [Std.LawfulEqOrd κ] {m : OrdMap κ α} {k k' : κ}

@[simp]
theorem find?_only_self (m : OrdMap κ α) (k : κ) : (m.only k).find? k = m.find? k := by
  rw [only, find?_filter, decide_eq_true rfl, if_pos rfl]

theorem find?_only_of_ne (h : k' ≠ k) : (m.only k).find? k' = none := by
  rw [only, find?_filter, decide_eq_false h, if_neg Bool.false_ne_true]

variable [Std.TransOrd κ]

/-- Maps that bind one key alike. -/
theorem only_eq_iff {n : OrdMap κ α} : m.only k = n.only k ↔ m.find? k = n.find? k := by
  constructor
  · intro h
    rw [← find?_only_self m, h, find?_only_self]
  · intro h
    ext k' : 1
    by_cases hk : k' = k
    · rw [hk, find?_only_self, find?_only_self, h]
    · rw [find?_only_of_ne hk, find?_only_of_ne hk]

end OrdMap

section Readers

variable (c : Content) (cat : Catalog) (db : String)

namespace Catalog

@[simp]
theorem entries?_only : entries? (cat.only db) db = cat.entries? db := by
  rw [entries?, OrdMap.find?_only_self, entries?]

@[simp]
theorem fileText?_only (file : String) :
    fileText? (cat.only db) db file = cat.fileText? db file := by
  rw [fileText?, entries?_only, fileText?]

@[simp]
theorem contains_only : OrdMap.contains (cat.only db) db = OrdMap.contains cat db := by
  rw [OrdMap.contains, OrdMap.find?_only_self, OrdMap.contains]

@[simp]
theorem databaseExists_only : databaseExists (cat.only db) db = cat.databaseExists db := by
  rw [databaseExists, entries?_only, databaseExists]

@[simp]
theorem tableExists_only (T : String) : tableExists (cat.only db) db T = cat.tableExists db T := by
  rw [tableExists, fileText?_only, tableExists]

@[simp]
theorem table_only (T : String) : table (cat.only db) db T = cat.table db T := by
  rw [table, fileText?_only, table]

@[simp]
theorem listTables_only : listTables (cat.only db) db = cat.listTables db := by
  rw [listTables, entries?_only, listTables]

end Catalog

namespace Content

theorem mem_databases :
    db ∈ c.databases ↔ ∃ cs, c.find? db = some cs ∧ cs.isEmpty = false := by
  simp [databases, OrdMap.find?_eq_some_iff]

@[simp]
theorem mem_databases_only : db ∈ databases (c.only db) ↔ db ∈ c.databases := by
  rw [mem_databases, mem_databases, OrdMap.find?_only_self]

@[simp]
theorem collection?_only (n : String) : collection? (c.only db) db n = c.collection? db n := by
  rw [collection?, OrdMap.find?_only_self, collection?]

@[simp]
theorem find_only (n : String) (f : KeyFilter) : find (c.only db) db n f = c.find db n f := by
  rw [find, collection?_only, find]

@[simp]
theorem findOne_only (n : String) (id : Value) :
    findOne (c.only db) db n id = c.findOne db n id := by
  rw [findOne, collection?_only, findOne]

end Content

@[simp]
theorem Row.scan_only (t : Table) (f : KeyFilter) : scan (c.only db) db t f = scan c db t f := by
  rw [scan, Content.find_only, scan]

namespace Index

@[simp]
theorem insertWrites_only (t : Table) (r : Row) :
    insertWrites (c.only db) db t r = insertWrites c db t r := by
  simp only [insertWrites, Content.findOne_only]

@[simp]
theorem deleteWrites_only (t : Table) (r : Row) :
    deleteWrites (c.only db) db t r = deleteWrites c db t r := by
  simp only [deleteWrites, Content.findOne_only]

@[simp]
theorem lookup_only (t : Table) (column : Column) (op : Operator) (v : Value) :
    lookup (c.only db) db t column op v = lookup c db t column op v := by
  simp only [lookup, Content.find_only]

@[simp]
theorem contains_only (t : Table) (column : Column) (v : Value) :
    contains (c.only db) db t column v = contains c db t column v := by
  simp only [contains, Content.findOne_only]

theorem lookupAllFrom_only (t : Table) (column : Column) (left : Option IdSet)
    (conditions : List (Operator × Value)) :
    lookupAllFrom (c.only db) db t column left conditions =
      lookupAllFrom c db t column left conditions := by
  induction conditions generalizing left with
  | nil => rfl
  | cons condition rest ih => simp only [lookupAllFrom, lookup_only, ih]

@[simp]
theorem lookupAll_only (t : Table) (column : Column) (conditions : List (Operator × Value)) :
    lookupAll (c.only db) db t column conditions = lookupAll c db t column conditions := by
  rw [lookupAll, lookupAllFrom_only, lookupAll]

theorem resolveFrom_only (t : Table) (left : Option IdSet)
    (columns : List (String × List (Operator × Value))) :
    resolveFrom (c.only db) db t left columns = resolveFrom c db t left columns := by
  induction columns generalizing left with
  | nil => rfl
  | cons column rest ih => simp only [resolveFrom, lookupAll_only, ih]

@[simp]
theorem resolve_only (t : Table) (columns : List (String × List (Operator × Value))) :
    resolve (c.only db) db t columns = resolve c db t columns := by
  rw [resolve, resolveFrom_only, resolve]

end Index

namespace Constraint

@[simp]
theorem valueExists_only (t : Table) (column : Column) (v : Value) :
    valueExists (c.only db) db t column v = valueExists c db t column v := by
  simp only [valueExists, Index.contains_only, Row.scan_only]

@[simp]
theorem checkUnique_only (t : Table) (r : Row) :
    checkUnique (c.only db) db t r = checkUnique c db t r := by
  have hcolumns (columns : List Column) :
      checkUniqueColumns (c.only db) db t r columns = checkUniqueColumns c db t r columns := by
    induction columns with
    | nil => rfl
    | cons column rest ih => simp only [checkUniqueColumns, valueExists_only, ih]
  simp only [checkUnique, Content.findOne_only, hcolumns]

theorem checkReference_content_only (t : Table) (values : List Value) (wanted : Bool)
    (failure : String → String → String → Error) (fk : ForeignKey) :
    checkReference cat (c.only db) db t values wanted failure fk =
      checkReference cat c db t values wanted failure fk := by
  simp only [checkReference, valueExists_only]

theorem checkReference_catalog_only (t : Table) (values : List Value) (wanted : Bool)
    (failure : String → String → String → Error) (fk : ForeignKey) :
    checkReference (cat.only db) c db t values wanted failure fk =
      checkReference cat c db t values wanted failure fk := by
  simp only [checkReference, Catalog.table_only]

@[simp]
theorem checkParents_content_only (t : Table) (values : List Value) :
    checkParents cat (c.only db) db t values = checkParents cat c db t values :=
  congrArg t.foreignKeys.forM (funext fun _ => checkReference_content_only c cat db ..)

@[simp]
theorem checkParents_catalog_only (t : Table) (values : List Value) :
    checkParents (cat.only db) c db t values = checkParents cat c db t values :=
  congrArg t.foreignKeys.forM (funext fun _ => checkReference_catalog_only c cat db ..)

@[simp]
theorem checkNoChildren_content_only (t : Table) (values : List Value) :
    checkNoChildren cat (c.only db) db t values = checkNoChildren cat c db t values :=
  congrArg t.childTables.forM (funext fun _ => checkReference_content_only c cat db ..)

@[simp]
theorem checkNoChildren_catalog_only (t : Table) (values : List Value) :
    checkNoChildren (cat.only db) c db t values = checkNoChildren cat c db t values :=
  congrArg t.childTables.forM (funext fun _ => checkReference_catalog_only c cat db ..)

@[simp]
theorem checkExistingUnique_only (t : Table) (column : Column) :
    checkExistingUnique (c.only db) db t column = checkExistingUnique c db t column := by
  rw [checkExistingUnique, Row.scan_only, checkExistingUnique]

@[simp]
theorem checkExistingReferences_only (child : Table) (column : Column) (parent : Table)
    (parentColumn : Column) :
    checkExistingReferences (c.only db) db child column parent parentColumn =
      checkExistingReferences c db child column parent parentColumn := by
  simp only [checkExistingReferences, Row.scan_only, valueExists_only]

end Constraint

@[simp]
theorem SelectPlan.make_only (T : String) (projection : Projection) (predicates : List Predicate) :
    make (cat.only db) db T projection predicates = make cat db T projection predicates := by
  rw [make, Catalog.table_only, make]

@[simp]
theorem Engine.runPlan_only (plan : SelectPlan) :
    runPlan (c.only db) db plan = runPlan c db plan := by
  simp only [runPlan, Index.resolve_only, Row.scan_only]

end Readers

/-- What the catalog and the store hold of one database. -/
def Backend.only (b : Backend) (db : String) : Backend :=
  ⟨b.catalog.only db, ⟨b.store.content.only db, none⟩⟩

open Backend (onCatalog onStore)

/-- Steps that read and write in one database. Whatever they look at, they go on as if there were
only that one. `drops` allows them to remove its folder. -/
inductive WorksIn (db : String) (drops : Bool) : {α : Type} → Step Backend α → Prop where
  | lift {α : Type} (r : Except Error α) : WorksIn db drops (liftM r : Step Backend α)
  | read {α : Type} {f : Backend → Step Backend α} (only : ∀ b, f (b.only db) = f b)
    (h : ∀ b, WorksIn db drops (f b)) : WorksIn db drops (get >>= f)
  | bind {α β : Type} {x : Step Backend α} {f : α → Step Backend β} (hx : WorksIn db drops x)
    (hf : ∀ a, WorksIn db drops (f a)) : WorksIn db drops (x >>= f)
  | setFolder (es : OrdMap String Entry) :
    WorksIn db drops (onCatalog (modify fun c => c.insert db (.folder es)))
  | dropFolder (h : drops = true) : WorksIn db drops (onCatalog (modify fun c => c.erase db))
  | createCollection (n : String) : WorksIn db drops (onStore (Store.createCollection db n))
  | dropCollection (n : String) : WorksIn db drops (onStore (Store.dropCollection db n))
  | dropDatabase : WorksIn db drops (onStore (Store.dropDatabase db))
  | apply (ops : List WriteOp) : WorksIn db drops (onStore (Store.apply db ops))

namespace WorksIn

section Rules

variable {db : String} {drops : Bool} {α β : Type}

theorem pure (a : α) : WorksIn db drops (pure a : Step Backend α) := .lift (.ok a)

theorem fail (e : Error) : WorksIn db drops (throw e : Step Backend α) := .lift (.error e)

theorem onCatalog_bind (x : Step Catalog α) (f : α → Step Catalog β) :
    onCatalog (x >>= f) = onCatalog x >>= fun a => onCatalog (f a) := by
  funext b
  rw [Step.bind_run, onCatalog, Step.bind_run, onCatalog]
  rcases x b.catalog with ⟨_ | _, cat⟩ <;> rfl

theorem onStore_bind (x : Step Store α) (f : α → Step Store β) :
    onStore (x >>= f) = onStore x >>= fun a => onStore (f a) := by
  funext b
  rw [Step.bind_run, onStore, Step.bind_run, onStore]
  rcases x b.store with ⟨_ | _, s⟩ <;> rfl

theorem catalogBind {x : Step Catalog α} {f : α → Step Catalog β}
    (hx : WorksIn db drops (onCatalog x))
    (hf : ∀ a, WorksIn db drops (onCatalog (f a))) : WorksIn db drops (onCatalog (x >>= f)) := by
  rw [onCatalog_bind]
  exact .bind hx hf

theorem catalogRead {f : Catalog → Step Catalog α} (only : ∀ c : Catalog, f (c.only db) = f c)
    (h : ∀ c, WorksIn db drops (onCatalog (f c))) : WorksIn db drops (onCatalog (get >>= f)) :=
  .read (f := fun b => onCatalog (f b.catalog)) (fun b => congrArg onCatalog (only b.catalog))
    fun b => h b.catalog

theorem catalogLift (r : Except Error α) : WorksIn db drops (onCatalog (liftM r)) := .lift r

theorem storeBind {x : Step Store α} {f : α → Step Store β} (hx : WorksIn db drops (onStore x))
    (hf : ∀ a, WorksIn db drops (onStore (f a))) : WorksIn db drops (onStore (x >>= f)) := by
  rw [onStore_bind]
  exact .bind hx hf

theorem content {f : Content → Step Backend α} (only : ∀ c : Content, f (c.only db) = f c)
    (h : ∀ c, WorksIn db drops (f c)) : WorksIn db drops (Engine.getContent >>= f) :=
  .read (f := fun b => f b.store.content) (fun b => only b.store.content) fun b => h b.store.content

theorem forM {f : β → Step Backend PUnit} (l : List β) (h : ∀ a, WorksIn db drops (f a)) :
    WorksIn db drops (l.forM f) := by
  induction l with
  | nil => exact .pure PUnit.unit
  | cons a l ih => exact .bind (h a) fun _ => ih

end Rules

section Operations

variable {db : String} {drops : Bool}

theorem writeFile (file text : String) :
    WorksIn db drops (onCatalog (Catalog.writeFile db file text)) := by
  refine catalogRead (fun c => by rw [Catalog.entries?_only]) fun c => ?_
  cases c.entries? db with
  | none => exact .fail _
  | some es =>
    dsimp only
    split
    · exact .fail _
    · split
      · exact .fail _
      · exact .setFolder _

theorem renameFile (source target : String) :
    WorksIn db drops (onCatalog (Catalog.renameFile db source target)) := by
  refine catalogRead (fun c => by rw [Catalog.entries?_only]) fun c => ?_
  cases c.entries? db with
  | none => exact .fail _
  | some es =>
    dsimp only
    split
    · exact .fail _
    · split
      · exact .fail _
      · split
        · exact .fail _
        · exact .setFolder _

theorem removeFile (file : String) : WorksIn db drops (onCatalog (Catalog.removeFile db file)) := by
  refine catalogRead (fun c => by rw [Catalog.entries?_only]) fun c => ?_
  cases c.entries? db with
  | none => exact .fail _
  | some es => exact .setFolder _

theorem writeTable (t : Table) : WorksIn db drops (onCatalog (Catalog.writeTable db t)) :=
  catalogBind (catalogLift _) fun _ => catalogBind (catalogLift _) fun _ =>
    catalogBind (writeFile _ _) fun _ => renameFile _ _

theorem updateTable (T : String) (f : Table → Except Error Table) :
    WorksIn db drops (onCatalog (Catalog.updateTable db T f)) :=
  catalogRead (fun c => by rw [Catalog.table_only]) fun c => catalogBind (catalogLift _) fun _ =>
    catalogBind (catalogLift _) fun t => catalogBind (writeTable t) fun _ => catalogLift (.ok t)

theorem createFolder : WorksIn db drops (onCatalog (Catalog.createDatabase db)) := by
  refine catalogBind (catalogLift _) fun _ => ?_
  refine catalogRead (fun c => by rw [Catalog.contains_only]) fun c => ?_
  split
  · exact .fail _
  · rw [Catalog.makeFolder]
    split
    · exact .setFolder ∅
    · exact .fail _

theorem removeFolder : WorksIn db true (onCatalog (Catalog.dropDatabase db)) := by
  refine catalogBind (catalogLift _) fun _ => ?_
  refine catalogRead (fun c => by rw [Catalog.entries?_only]) fun c => ?_
  split
  · exact .fail _
  · exact .dropFolder rfl

theorem createFile (T : String) (columns : List (String × ColumnType)) :
    WorksIn db drops (onCatalog (Catalog.createTable db T columns)) := by
  refine catalogRead (fun c => ?_) fun c => ?_
  · simp only [Catalog.databaseExists_only, Catalog.tableExists_only]
  · dsimp only
    split
    · exact .fail _
    · split
      · exact .fail _
      · exact catalogBind (catalogLift _) fun t => catalogBind (writeTable t) fun _ =>
          catalogLift (.ok t)

theorem dropFile (T : String) : WorksIn db drops (onCatalog (Catalog.dropTable db T)) :=
  catalogRead (fun c => by rw [Catalog.table_only]) fun c => catalogBind (catalogLift _) fun t =>
    catalogBind (removeFile _) fun _ => catalogLift (.ok t)

theorem linkFiles (child column parent parentColumn : String) :
    WorksIn db drops (onCatalog (Catalog.addForeignKey db child column parent parentColumn)) := by
  refine catalogRead (fun c => by simp only [Catalog.table_only]) fun c => ?_
  refine catalogBind (catalogLift _) fun childTable => ?_
  dsimp only
  split
  · refine catalogBind (catalogLift (.ok childTable)) fun parentTable => ?_
    refine catalogBind (catalogLift _) fun source => ?_
    split
    · exact .fail _
    · refine catalogBind (catalogLift _) fun target => ?_
      split
      · exact .fail _
      · exact catalogBind (writeTable _) fun _ => catalogLift (.ok _)
  · refine catalogBind (catalogLift _) fun parentTable => ?_
    refine catalogBind (catalogLift _) fun source => ?_
    split
    · exact .fail _
    · refine catalogBind (catalogLift _) fun target => ?_
      split
      · exact .fail _
      · exact catalogBind (writeTable _) fun _ => catalogBind (writeTable _) fun _ =>
          catalogLift (.ok _)

theorem buildIndex (t : Table) (column : Column) :
    WorksIn db drops (onStore (Index.build db t column)) := by
  rw [Index.build]
  split
  · exact .pure ()
  · dsimp only
    rw [onStore_bind]
    refine .content (fun c => by simp) fun c => ?_
    exact storeBind (.lift _) fun rows => storeBind (.createCollection _) fun _ => .apply _

theorem dropIndexes (t : Table) : WorksIn db drops (onStore (Index.dropAll db t)) := by
  rw [Index.dropAll]
  induction t.secondaryIndexes with
  | nil => exact .pure PUnit.unit
  | cons column rest ih =>
    exact storeBind (storeBind (.dropCollection _) fun _ => .pure _) fun _ => ih

theorem requireDatabase : WorksIn db drops (Engine.requireDatabase db) := by
  refine .read (fun b => ?_) fun b => ?_
  · rw [show (b.only db).catalog = b.catalog.only db from rfl, Catalog.databaseExists_only]
  · split
    · exact .fail _
    · exact .pure ()

theorem getTable (T : String) : WorksIn db drops (Engine.getTable db T) :=
  .read (fun b => congrArg _ (Catalog.table_only b.catalog db T)) fun _ => .lift _

theorem createDatabase : WorksIn db drops (Engine.createDatabase db) := by
  refine .content (fun c => by simp only [Content.mem_databases_only]) fun c => ?_
  split
  · exact .fail _
  · exact .bind createFolder fun _ => .bind (.createCollection _) fun _ => .pure _

theorem eraseDatabase : WorksIn db true (Engine.dropDatabase db) :=
  .bind removeFolder fun _ => .bind .dropDatabase fun _ => .pure _

theorem useDatabase : WorksIn db drops (Engine.useDatabase db) :=
  .bind requireDatabase fun _ => .pure _

theorem createTable (T : String) (columns : List (String × ColumnType)) :
    WorksIn db drops (Engine.createTable db T columns) :=
  .bind requireDatabase fun _ => .bind (createFile _ _) fun _ =>
    .bind (.createCollection _) fun _ => .bind (.dropCollection _) fun _ => .pure _

theorem dropTable (T : String) : WorksIn db drops (Engine.dropTable db T) := by
  refine .bind requireDatabase fun _ => .bind (getTable T) fun t => ?_
  dsimp only
  split
  · exact .fail _
  · refine .bind (.forM _ fun fk => .bind (updateTable _ _) fun _ => .pure _) fun _ => ?_
    refine .bind (dropIndexes t) fun _ => .bind (.dropCollection _) fun _ => ?_
    refine .bind (dropFile _) fun _ => ?_
    refine .read (fun b => by simp only [Backend.only, Catalog.listTables_only]) fun _ => ?_
    refine .bind (.lift _) fun tables => ?_
    split
    · exact .bind (.createCollection _) fun _ => .pure _
    · exact .pure _

theorem insert (T : String) (values : List String) :
    WorksIn db drops (Engine.insert db T values) := by
  refine .bind requireDatabase fun _ => .bind (getTable T) fun t => ?_
  refine .content (fun c => by simp) fun c => ?_
  refine .bind (.lift _) fun r => .bind (.lift _) fun _ => ?_
  refine .read (fun b => by simp [Backend.only]) fun b => ?_
  exact .bind (.lift _) fun _ => .bind (.apply _) fun _ => .pure _

theorem delete (T id : String) : WorksIn db drops (Engine.delete db T id) := by
  refine .bind requireDatabase fun _ => .bind (getTable T) fun t => ?_
  refine .content (fun c => by simp) fun c => ?_
  refine .bind (.lift _) fun id => ?_
  split
  · exact .fail _
  · refine .bind (.lift _) fun r => .read (fun b => by simp [Backend.only]) fun b => ?_
    exact .bind (.lift _) fun _ => .bind (.apply _) fun _ => .pure _

/-- The rest of an operation that has flagged a column. -/
theorem addIndexed (t : Table) (c : Column) (message : String) (n : String) : WorksIn db drops
    (do if !c.indexed then onStore (Index.build db t (← t.column n))
        return .done 0 message : Step Backend Outcome) := by
  dsimp only
  split
  · exact .bind (.lift _) fun c => .bind (buildIndex t c) fun _ => .pure _
  · exact .pure _

theorem addPrimaryKey (T n : String) : WorksIn db drops (Engine.addPrimaryKey db T n) := by
  refine .bind requireDatabase fun _ => .bind (getTable T) fun t => .bind (.lift _) fun c => ?_
  dsimp only
  split
  · exact .fail _
  · refine .content (fun c => by simp) fun content => ?_
    exact .bind (.lift _) fun _ => .bind (updateTable _ _) fun t => addIndexed t c _ n

theorem addUnique (T n : String) : WorksIn db drops (Engine.addUnique db T n) := by
  refine .bind requireDatabase fun _ => .bind (getTable T) fun t => .bind (.lift _) fun c => ?_
  refine .content (fun c => by simp) fun content => ?_
  exact .bind (.lift _) fun _ => .bind (updateTable _ _) fun t => addIndexed t c _ n

theorem addIndex (T n : String) : WorksIn db drops (Engine.addIndex db T n) :=
  .bind requireDatabase fun _ => .bind (updateTable _ _) fun t => .bind (.lift _) fun c =>
    .bind (buildIndex t c) fun _ => .pure _

theorem addForeignKey (child column parent parentColumn : String) :
    WorksIn db drops (Engine.addForeignKey db child column parent parentColumn) := by
  refine .bind requireDatabase fun _ => .bind (getTable _) fun childTable => ?_
  refine .bind (getTable _) fun parentTable => .bind (.lift _) fun own => ?_
  refine .bind (.lift _) fun target => ?_
  dsimp only
  split
  · exact .fail _
  · split
    · exact .fail _
    · refine .content (fun c => by simp) fun c => ?_
      exact .bind (.lift _) fun _ => .bind (linkFiles _ _ _ _) fun _ => .pure _

theorem select (T : String) (projection : Projection) (predicates : List Predicate) :
    WorksIn db drops (Engine.select db T projection predicates) := by
  refine .bind requireDatabase fun _ => .read (fun b => by simp [Backend.only]) fun b => ?_
  refine .bind (.lift _) fun plan => .content (fun c => by simp) fun c => ?_
  exact .bind (.lift _) fun rows => .pure _

end Operations

end WorksIn

/-- The database in which a command works, named by it or selected; none, if none is selected. -/
def Command.place (s : Session) : Command → Option String
  | .createDatabase n | .dropDatabase n | .useDatabase n => some n
  | _ => s.database

/-- Whether a command can remove a database. -/
def Command.drops : Command → Bool
  | .dropDatabase _ => true
  | _ => false

section Commands

variable {s : Session} {c : Command} {db : String} {drops : Bool}

theorem WorksIn.selected {α : Type} {f : String → Step Backend α}
    (h : ∀ n, s.database = some n → n = db) (hf : WorksIn db drops (f db)) :
    WorksIn db drops (do f (← s.selected)) := by
  cases hs : s.database with
  | none =>
    rw [Session.selected, hs]
    exact .fail _
  | some n =>
    obtain rfl := h n hs
    rw [Session.selected, hs]
    exact hf

theorem Session.run_worksIn (h : ∀ n, c.place s = some n → n = db) :
    WorksIn db c.drops (s.run c) := by
  cases c with
  | createDatabase n =>
    cases h n rfl
    exact .createDatabase
  | dropDatabase n =>
    cases h n rfl
    exact .eraseDatabase
  | useDatabase n =>
    cases h n rfl
    exact .useDatabase
  | createTable T columns => exact .selected h (.createTable T columns)
  | dropTable T => exact .selected h (.dropTable T)
  | insert T values => exact .selected h (.insert T values)
  | delete T id => exact .selected h (.delete T id)
  | addPrimaryKey T n => exact .selected h (.addPrimaryKey T n)
  | addForeignKey T n P p => exact .selected h (.addForeignKey T n P p)
  | addUnique T n => exact .selected h (.addUnique T n)
  | addIndex T n => exact .selected h (.addIndex T n)
  | select T projection predicates => exact .selected h (.select T projection predicates)

end Commands

namespace Store

theorem save_content (s : Store) : (save s).2.content = s.content := by
  by_cases hfails : s.SaveFails
  · obtain ⟨e, he⟩ := save_of_fails hfails
    rw [he]
    rfl
  · rw [save_of_not_fails hfails]
    rfl

theorem dropCollection_content {s : Store} {db n : String} {cs : Collections}
    (h : s.content.find? db = some cs) :
    (dropCollection db n s).2.content = s.content.set db (cs.erase n) := by
  rw [dropCollection_run_some s db n h]
  split
  · have hcontent := save_content { s with content := s.content.set db (cs.erase n) }
    rw [Step.bind_run]
    generalize save { s with content := s.content.set db (cs.erase n) } = p at hcontent
    obtain ⟨_ | _, t⟩ := p <;> exact hcontent
  · rfl

namespace Call

def database : Call → String
  | .createCollection db _ | .dropCollection db _ | .dropDatabase db | .apply db _ => db

theorem dropCollection_state (db n : String) (s : Store) :
    ((dropCollection db n).run s).2 = (Store.dropCollection db n s).2 := by
  rw [run, Step.bind_run]
  rcases Store.dropCollection db n s with ⟨_ | _, _⟩ <;> rfl

/-- A call leaves the content as it was, or gives its database other collections, or none. -/
theorem content_cases (call : Call) (s : Store) :
    (call.run s).2.content = s.content ∨
    (∃ cs : Collections, cs.isEmpty = false ∧
      (call.run s).2.content = s.content.insert call.database cs) ∨
    (call.run s).2.content = s.content.erase call.database := by
  cases call with
  | createCollection db n =>
    rw [run, createCollection_run]
    split
    · exact .inl rfl
    · rw [save_content]
      exact .inr (.inl ⟨_, OrdMap.isEmpty_insert _ _ _, rfl⟩)
  | dropCollection db n =>
    rw [dropCollection_state]
    cases hdb : s.content.find? db with
    | none =>
      rw [dropCollection_run_none s db n hdb]
      exact .inl rfl
    | some cs =>
      rw [dropCollection_content hdb, Content.set]
      split
      · exact .inr (.inr rfl)
      · next hempty => exact .inr (.inl ⟨_, by simpa using hempty, rfl⟩)
  | dropDatabase db =>
    rw [run, dropDatabase_run]
    split
    · rw [save_content]
      exact .inr (.inr rfl)
    · exact .inl rfl
  | apply db ops =>
    rw [run]
    rcases apply_cases s db ops with
      ⟨-, hrun⟩ | ⟨e, -, hrun⟩ | ⟨e, c, -, -, -, hrun⟩ | ⟨c, hops, -, hwrites, hrun⟩
    all_goals rw [hrun]
    · exact .inl rfl
    · exact .inl rfl
    · exact .inl rfl
    · obtain ⟨cs, hsteps, rfl⟩ := (Content.writes_eq_some hops).mp hwrites
      exact .inr (.inl ⟨cs, WriteOp.isEmpty_steps (.inl hops) hsteps, rfl⟩)

/-- A call changes the collections of its database only. -/
theorem elsewhere (call : Call) (s : Store) {other : String} (hne : other ≠ call.database) :
    (call.run s).2.content.find? other = s.content.find? other := by
  rcases call.content_cases s with hsame | ⟨cs, -, hset⟩ | hgone
  · rw [hsame]
  · rw [hset, OrdMap.find?_insert_of_ne hne]
  · rw [hgone, OrdMap.find?_erase_of_ne hne]

end Call

end Store

namespace WorksIn

variable {db : String} {drops : Bool} {α : Type} {x : Step Backend α}

/-- What the changes of the folder and the calls in the database keep is kept by the step. -/
theorem kept {P : Backend → Prop} (h : WorksIn db drops x)
    (hset : ∀ es b, P b → P { b with catalog := b.catalog.insert db (.folder es) })
    (herase : drops = true → ∀ b, P b → P { b with catalog := b.catalog.erase db })
    (hcall : ∀ (call : Store.Call) b, call.database = db → P b →
      P { b with store := (call.run b.store).2 }) {b : Backend} (hb : P b) : P (x b).2 := by
  induction h generalizing b with
  | lift r => exact hb
  | read _ _ ih => exact ih b hb
  | @bind _ _ x f _ _ ihx ihf =>
    have hx := ihx hb
    rw [Step.bind_run]
    generalize x b = p at hx
    obtain ⟨r, b'⟩ := p
    cases r with
    | error e => exact hx
    | ok a => exact ihf a hx
  | setFolder es => exact hset es b hb
  | dropFolder hd => exact herase hd b hb
  | createCollection n => exact hcall (.createCollection db n) b rfl hb
  | dropCollection n =>
    have hdrop := hcall (.dropCollection db n) b rfl hb
    rw [Store.Call.dropCollection_state] at hdrop
    exact hdrop
  | dropDatabase => exact hcall (.dropDatabase db) b rfl hb
  | apply ops => exact hcall (.apply db ops) b rfl hb

/-- Other databases are not touched. -/
theorem elsewhere (h : WorksIn db drops x) (b : Backend) {other : String} (hne : other ≠ db) :
    (x b).2.catalog.find? other = b.catalog.find? other ∧
      (x b).2.store.content.find? other = b.store.content.find? other := by
  refine h.kept (P := fun b' => b'.catalog.find? other = b.catalog.find? other ∧
    b'.store.content.find? other = b.store.content.find? other) ?_ ?_ ?_ ⟨rfl, rfl⟩
  · rintro es b' ⟨hcatalog, hcontent⟩
    exact ⟨(OrdMap.find?_insert_of_ne hne).trans hcatalog, hcontent⟩
  · rintro - b' ⟨hcatalog, hcontent⟩
    exact ⟨(OrdMap.find?_erase_of_ne hne).trans hcatalog, hcontent⟩
  · rintro call b' rfl ⟨hcatalog, hcontent⟩
    exact ⟨hcatalog, (call.elsewhere b'.store hne).trans hcontent⟩

/-- Every folder stays, unless that of the database may be removed. -/
theorem folder_stays (h : WorksIn db false x) (b : Backend) {d : String}
    (hd : b.catalog.databaseExists d = true) : (x b).2.catalog.databaseExists d = true := by
  refine h.kept (P := fun b' => b'.catalog.databaseExists d = true) ?_ (fun h => nomatch h)
    (fun _ _ _ h => h) hd
  intro es b' hb'
  rw [Catalog.databaseExists, Bool.and_eq_true] at hb' ⊢
  refine ⟨hb'.1, ?_⟩
  by_cases hne : d = db
  · subst hne
    rw [Catalog.entries?_insert]
    rfl
  · rw [Catalog.entries?, OrdMap.find?_insert_of_ne hne]
    exact hb'.2

end WorksIn

end RelStore

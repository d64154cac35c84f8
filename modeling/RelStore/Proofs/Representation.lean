import RelStore.Proofs.CatalogText
import RelStore.Proofs.Integrity
import RelStore.Proofs.Lookups
import RelStore.Proofs.Names
/-! How databases are held. The folder of a database has one file a table; its collections are
those of the tables, one for each column with an index of its own, and a placeholder while there
is no table. Files of drafts may be left over. -/
namespace RelStore

namespace Relation

variable {R : Relation} {i : Nat} {v id : Value}

/-- The collection of the rows. -/
def collection (R : Relation) : Collection :=
  R.rows.mapValues fun id fields => (Row.document ⟨id, fields⟩).payload

/-- The ids of the rows that hold a value at a place. -/
def idsAt (R : Relation) (i : Nat) (v : Value) : List Value :=
  (R.list.filter fun r => r.get? i = some v).map (·.id)

theorem mem_idsAt : id ∈ R.idsAt i v ↔ ∃ r ∈ R.list, r.id = id ∧ r.get? i = some v := by
  simp only [idsAt, List.mem_map, List.mem_filter, decide_eq_true_eq]
  exact exists_congr fun r => ⟨fun ⟨⟨h, hv⟩, hid⟩ => ⟨h, hid, hv⟩, fun ⟨h, hid, hv⟩ => ⟨⟨h, hv⟩, hid⟩⟩

theorem idsAt_eq_nil : R.idsAt i v = [] ↔ ¬ R.Has i v := by
  simp [idsAt, Has]

theorem nodup_idsAt : (R.idsAt i v).Nodup := nodup_ids.sublist (List.filter_sublist.map _)

theorem find?_collection :
    R.collection.find? id = (R.rows.find? id).map fun fields => (Row.document ⟨id, fields⟩).payload :=
  OrdMap.find?_mapValues _ _ _

theorem find?_collection_eq_none : R.collection.find? id = none ↔ R.rows.find? id = none := by
  rw [find?_collection, Option.map_eq_none_iff]

theorem scan_collection (f : KeyFilter) :
    R.collection.scan f = (R.list.filter fun r => f.admits r.id).map Row.document := by
  rw [Collection.scan_eq_filter, Collection.documents, collection, OrdMap.mapValues, list,
    List.filter_map, List.filter_map, List.map_map, List.map_map]
  rfl

end Relation

/-- The entry of a value lists the ids of the rows that hold it; there is none for no row. -/
inductive IndexEntry : Option Payload → List Value → Prop where
  | absent : IndexEntry none []
  | present {entry ids : List Value} (ne : entry ≠ []) (perm : entry.Perm ids) :
    IndexEntry (some (.rowIds entry)) ids

def IndexOf (R : Relation) (i : Nat) (coll : Collection) : Prop :=
  ∀ v, IndexEntry (coll.find? v) (R.idsAt i v)

structure CollectionsOf (D : Database) (cs : Collections) : Prop where
  placeholder : cs.find? Engine.placeholder = if D.isEmpty then some ∅ else none
  base : ∀ T R, D.find? T = some R → cs.find? T = some R.collection
  index : ∀ T R, D.find? T = some R → ∀ c ∈ R.table.secondaryIndexes,
    ∃ coll, cs.find? (indexCollection T c.name) = some coll ∧ IndexOf R c.position coll
  only : ∀ n coll, cs.find? n = some coll → n = Engine.placeholder ∨ (∃ R, D.find? n = some R) ∨
    ∃ T R, D.find? T = some R ∧ ∃ c ∈ R.table.secondaryIndexes, n = indexCollection T c.name

def Database.tables (D : Database) : String → Option Table := fun T => (D.find? T).map (·.table)

structure FolderOf (tables : String → Option Table) (es : OrdMap String Entry) : Prop where
  files : ∀ T, es.find? (Catalog.tableFile T) = (tables T).map fun t => .file t.fileText
  drafts : ∀ T, es.find? (Catalog.draftFile T) ≠ some .folder

/-- No save fails. -/
def Store.Reliable (s : Store) : Prop :=
  ∀ m, s.medium = some m → m.slot ≠ .folder ∧ m.outages = []

structure Backend.Models (b : Backend) (w : Databases) : Prop where
  noFolder : ∀ db, w.find? db = none → b.catalog.find? db = none
  noCollections : ∀ db, w.find? db = none → b.store.content.find? db = none
  folder : ∀ db D, w.find? db = some D →
    ∃ es, b.catalog.find? db = some (.folder es) ∧ FolderOf D.tables es
  collections : ∀ db D, w.find? db = some D →
    ∃ cs, b.store.content.find? db = some cs ∧ CollectionsOf D cs
  reliable : b.store.Reliable

section Indexes

variable {R : Relation} {i : Nat} {coll : Collection}

theorem IndexEntry.mem_iff {p : Option Payload} {all : List Value} (h : IndexEntry p all) (id : Value) :
    id ∈ (p.bind Payload.rowIds?).getD [] ↔ id ∈ all := by
  cases h with
  | absent => rfl
  | present _ perm => exact perm.mem_iff

theorem IndexEntry.isSome_iff {p : Option Payload} {all : List Value} (h : IndexEntry p all) :
    p.isSome = true ↔ all ≠ [] := by
  cases h with
  | absent => simp
  | present ne perm => simpa using fun he => ne (he ▸ perm).eq_nil

theorem IndexEntry.eq_rowIds {p : Payload} {all : List Value} (h : IndexEntry (some p) all) :
    ∃ entry, p = .rowIds entry ∧ entry ≠ [] ∧ entry.Perm all := by
  cases h with
  | present ne perm => exact ⟨_, rfl, ne, perm⟩

theorem IndexOf.find?_isSome (h : IndexOf R i coll) (v : Value) :
    (coll.find? v).isSome = true ↔ R.Has i v := by
  rw [(h v).isSome_iff, Ne, Relation.idsAt_eq_nil, not_not]

end Indexes

section Reading

variable {c : Content} {db T : String} {cs : Collections} {D : Database} {R : Relation}
  {t : Table} {column : Column} {v : Value}

theorem Content.collection?_eq (hcs : c.find? db = some cs) (n : String) :
    c.collection? db n = cs.find? n := by rw [collection?, hcs, Option.bind_some]

theorem CollectionsOf.find (h : CollectionsOf D cs) (hcs : c.find? db = some cs)
    (hR : D.find? T = some R) (f : KeyFilter) :
    c.find db T f = (R.list.filter fun r => f.admits r.id).map Row.document := by
  rw [Content.find, Content.collection?_eq hcs, h.base T R hR]
  exact R.scan_collection f

theorem Content.findOne_eq (hcs : c.find? db = some cs) (n : String) (v : Value) :
    c.findOne db n v = ((cs.find? n).bind (·.find? v)).map fun p => ⟨v, p⟩ := by
  rw [findOne, collection?_eq hcs]
  cases cs.find? n <;> rfl

theorem CollectionsOf.findOne (h : CollectionsOf D cs) (hcs : c.find? db = some cs)
    (hR : D.find? T = some R) (id : Value) :
    c.findOne db T id = (R.rows.find? id).map fun fields => Row.document ⟨id, fields⟩ := by
  rw [Content.findOne_eq hcs, h.base T R hR, Option.bind_some, Relation.find?_collection,
    Option.map_map]
  rfl

theorem CollectionsOf.scan (h : CollectionsOf D cs) (hcs : c.find? db = some cs)
    (hR : D.find? t.name = some R) (hfits : ∀ r ∈ R.list, r.Fits t) (f : KeyFilter) :
    Row.scan c db t f = .ok (R.list.filter fun r => f.admits r.id) := by
  rw [Row.scan, h.find hcs hR, mapM_eq_ok_iff, List.forall₂_map_left_iff, List.forall₂_same]
  exact fun r hr => Row.ofDocument_document (hfits r (List.mem_filter.mp hr).1)

theorem CollectionsOf.scanAll (h : CollectionsOf D cs) (hD : D.Sound) (hcs : c.find? db = some cs)
    (hR : D.find? T = some R) : Row.scan c db R.table .all = .ok R.list := by
  rw [h.scan hcs (by rwa [hD.named T R hR]) (hD.relations T R hR).rows]
  simp [KeyFilter.admits]

theorem CollectionsOf.nonempty (h : CollectionsOf D cs) : cs.isEmpty = false := by
  by_cases hD : D.isEmpty = true
  · refine OrdMap.isEmpty_eq_false (k := Engine.placeholder) (a := ∅) ?_
    rw [h.placeholder, if_pos hD]
  · rw [OrdMap.isEmpty_iff, not_forall] at hD
    obtain ⟨T, hT⟩ := hD
    obtain ⟨R, hR⟩ := Option.ne_none_iff_exists'.mp hT
    exact OrdMap.isEmpty_eq_false (h.base T R hR)

theorem mem_secondaryIndexes {t : Table} : column ∈ t.secondaryIndexes ↔
    column ∈ t.columns ∧ column.indexed = true ∧ column.isRowId = false := by
  simp [Table.secondaryIndexes]

theorem CollectionsOf.contains (h : CollectionsOf D cs) (hD : D.Sound) (hcs : c.find? db = some cs)
    (hR : D.find? T = some R) (hc : column ∈ R.table.columns) (hi : column.indexed = true) :
    Index.contains c db R.table column v = R.holds column v := by
  have hs := hD.shaped hR
  rw [Index.contains, hD.named T R hR]
  by_cases hrow : column.isRowId = true
  · have hp : column.position = 0 := by
      rw [(hs.isRowId_iff hc).mp hrow]
      exact hs.rowId_position
    rw [if_pos hrow, h.findOne hcs hR, Option.isSome_map, Bool.eq_iff_iff, Relation.holds_iff, hp,
      Relation.has_zero]
    rfl
  · rw [if_neg hrow]
    obtain ⟨coll, hcoll, hindex⟩ := h.index T R hR column
      (mem_secondaryIndexes.mpr ⟨hc, hi, by simpa using hrow⟩)
    rw [Content.findOne_eq hcs, hcoll, Option.bind_some]
    have hentry := hindex v
    have hsome := hindex.find?_isSome v
    cases hv : coll.find? v with
    | none =>
      rw [hv] at hsome
      rw [Option.map_none]
      exact (Relation.holds_eq_false.mpr fun hh => by cases hsome.mpr hh).symm
    | some p =>
      rw [hv] at hsome hentry
      obtain ⟨entry, rfl, hne, -⟩ := hentry.eq_rowIds
      rw [Relation.holds_iff.mpr (hsome.mp rfl)]
      simpa using hne

theorem CollectionsOf.valueExists (h : CollectionsOf D cs) (hD : D.Sound)
    (hcs : c.find? db = some cs) (hR : D.find? T = some R) (hc : column ∈ R.table.columns) :
    Constraint.valueExists c db R.table column v = .ok (R.holds column v) := by
  rw [Constraint.valueExists]
  split
  · next hi => rw [h.contains hD hcs hR hc hi]
  · rw [h.scanAll hD hcs hR]
    rfl

end Reading

section Definitions

variable {c : Catalog} {db T : String} {es : OrdMap String Entry} {D : Database} {R : Relation}

theorem Database.Sound.recordable (h : D.Sound) (hR : D.find? T = some R) : R.table.Recordable := by
  have hw := (h.relations T R hR).table
  have hown {k : KeyRef} (hk : k ∈ R.table.keyRefs) : CatalogRecord.KeyRefFits k :=
    hw.shaped.ordinal_lt hk
  refine ⟨?_, ?_, fun p hp => hw.flagged.primaryKey_position hw.shaped hp, ?_, ?_⟩
  · rw [← Table.names_eq]
    exact hw.shaped.distinct
  · rw [← Table.positions_eq, ← Table.length_keyRefs]
    exact hw.shaped.ordinals
  · intro fk hfk
    obtain ⟨P, hP, -⟩ := h.parent hR hfk
    exact ⟨hown (hw.linked.keys fk hfk), (h.shaped hP).ordinal_lt (h.parentColumn hR hfk hP)⟩
  · intro r hr
    obtain ⟨C, hC, -⟩ := h.child hR hr
    exact ⟨hown (hw.linked.childKeys r hr), (h.shaped hC).ordinal_lt (h.childColumn hR hr hC)⟩

/-- Flags do not matter to the file. -/
theorem Table.Recordable.congr {t t' : Table} (h : t.Recordable) (hk : t'.keyRefs = t.keyRefs)
    (primaryKeys : ∀ p ∈ t'.primaryKeys, p.2 < 2 ^ 64)
    (foreignKeys : ∀ fk ∈ t'.foreignKeys, CatalogRecord.ForeignKeyFits fk)
    (childTables : ∀ fk ∈ t'.childTables, CatalogRecord.ForeignKeyFits fk) : t'.Recordable where
  distinct := by
    rw [← names_eq, hk, names_eq]
    exact h.distinct
  positions := by
    rw [← positions_eq, ← length_keyRefs, hk, positions_eq, length_keyRefs]
    exact h.positions
  primaryKeys := primaryKeys
  foreignKeys := foreignKeys
  childTables := childTables

theorem Table.Recordable.forget {t : Table} (h : t.Recordable) (child : String) :
    (t.forget child).Recordable :=
  h.congr (Table.keyRefs_forget child t) h.primaryKeys h.foreignKeys
    fun r hr => h.childTables r (List.mem_filter.mp hr).1

theorem Catalog.entries?_eq (hes : c.find? db = some (.folder es)) : c.entries? db = some es := by
  rw [entries?, hes]

theorem FolderOf.fileText? (h : FolderOf D.tables es) (hes : c.find? db = some (.folder es)) :
    c.fileText? db (Catalog.tableFile T) = (D.find? T).map fun R => R.table.fileText := by
  rw [Catalog.fileText?, Catalog.entries?_eq hes, Option.bind_some, h.files, Database.tables]
  cases D.find? T <;> rfl

theorem FolderOf.table (h : FolderOf D.tables es) (hD : D.Sound) (hes : c.find? db = some (.folder es))
    (hdb : isValidName db = true) : c.table db T = (D.relation T).map (·.table) := by
  rw [Catalog.table, Database.relation, Table.checkName_eq_ok.mpr hdb, h.fileText? hes]
  cases checkName T with
  | error e => rfl
  | ok _ =>
    simp only [Except.ok_bind]
    cases hR : D.find? T with
    | none => rfl
    | some R =>
      have hfile := Table.ofFileText_fileText (hD.recordable hR)
      rw [hD.named T R hR] at hfile
      exact hfile

theorem FolderOf.tableExists (h : FolderOf D.tables es) (hD : D.Sound)
    (hes : c.find? db = some (.folder es)) (hdb : isValidName db = true) :
    c.tableExists db T = D.contains T := by
  rw [Catalog.tableExists, hdb, h.fileText? hes, Option.isSome_map, Bool.and_true, OrdMap.contains]
  cases hR : D.find? T with
  | none => simp
  | some R => simp [hD.valid hR]

end Definitions

end RelStore

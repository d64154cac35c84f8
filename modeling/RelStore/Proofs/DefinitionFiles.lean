import RelStore.Proofs.CatalogSteps
/-! The files of definitions. Whatever is changed in a catalog, and wherever a change stops, each file
is the text of a definition that came about by such changes, and such a text gives the definition
back. Of the records in a file only the name that the first goes by is free. -/
namespace RelStore

open Catalog (tableFile draftFile withForeignKey withChildReference)

namespace Table

/-- The definitions that come about: what is declared, and what is made of it. There is room for
2^64 columns in memory, and not for more. -/
inductive Arises : Table → Prop where
  | declare {name : String} {columns : List (String × ColumnType)} {t : Table}
    (h : Table.declare name columns = .ok t) (size : columns.length ≤ 2 ^ 64) : Arises t
  | primaryKey {t : Table} {c : Column} (h : Arises t) (hc : c ∈ t.columns) :
    Arises (t.withPrimaryKey c.name c.position)
  | unique {t : Table} (h : Arises t) (column : String) : Arises (t.withUnique column)
  | index {t : Table} (h : Arises t) (column : String) : Arises (t.withIndex column)
  | foreignKey {t other : Table} {fk : ForeignKey} (h : Arises t) (ho : Arises other)
    (key : fk.key ∈ t.keyRefs) (column : fk.column ∈ other.keyRefs) :
    Arises (withForeignKey t fk)
  | childReference {t other : Table} {r : ForeignKey} (h : Arises t) (ho : Arises other)
    (key : r.key ∈ t.keyRefs) (column : r.column ∈ other.keyRefs) :
    Arises (withChildReference t r)
  | forget {t : Table} (h : Arises t) (child : String) : Arises (t.forget child)

theorem Recordable.ordinal_lt {t : Table} (h : t.Recordable) (hwidth : t.width ≤ 2 ^ 64)
    {k : KeyRef} (hk : k ∈ t.keyRefs) : CatalogRecord.KeyRefFits k := by
  have hmem : k.ordinal ∈ List.range t.width := by
    rw [← h.positions, ← positions_eq]
    exact List.mem_map_of_mem hk
  exact lt_of_lt_of_le (List.mem_range.mp hmem) hwidth

theorem Fresh.recordable {t : Table} {name : String} {width : Nat} (h : t.Fresh name width) :
    t.Recordable where
  distinct := h.distinct
  positions := by
    rw [Table.width, h.length_columns]
    exact h.positions
  primaryKeys := by
    rw [h.primaryKeys]
    simp
  foreignKeys := by simp [h.foreignKeys]
  childTables := by simp [h.childTables]

/-- Where the keys of the columns stay as they are there is room for them as before. -/
theorem recordable_congr {t t' : Table} (h : t.Recordable ∧ t.width ≤ 2 ^ 64)
    (hk : t'.keyRefs = t.keyRefs) (primaryKeys : ∀ p ∈ t'.primaryKeys, p.2 < 2 ^ 64)
    (foreignKeys : ∀ fk ∈ t'.foreignKeys, CatalogRecord.ForeignKeyFits fk)
    (childTables : ∀ r ∈ t'.childTables, CatalogRecord.ForeignKeyFits r) :
    t'.Recordable ∧ t'.width ≤ 2 ^ 64 := by
  refine ⟨h.1.congr hk primaryKeys foreignKeys childTables, ?_⟩
  rw [← length_keyRefs, hk, length_keyRefs]
  exact h.2

theorem fits_of_recordable {t other : Table} {fk : ForeignKey}
    (h : t.Recordable ∧ t.width ≤ 2 ^ 64) (ho : other.Recordable ∧ other.width ≤ 2 ^ 64)
    (key : fk.key ∈ t.keyRefs) (column : fk.column ∈ other.keyRefs) :
    CatalogRecord.ForeignKeyFits fk :=
  ⟨h.1.ordinal_lt h.2 key, ho.1.ordinal_lt ho.2 column⟩

/-- A file can tell everything of a definition that comes about. -/
theorem Arises.recordable {t : Table} (h : t.Arises) : t.Recordable ∧ t.width ≤ 2 ^ 64 := by
  induction h with
  | declare h size =>
    have hfresh := fresh_of_declare h
    exact ⟨hfresh.recordable, by rwa [width, hfresh.length_columns]⟩
  | @primaryKey t c _ hc ih =>
    have hposition : c.position < 2 ^ 64 := ih.1.ordinal_lt ih.2 (keyRef_mem hc)
    refine recordable_congr ih (keyRefs_withPrimaryKey t c.name c.position) ?_ ih.1.foreignKeys
      ih.1.childTables
    exact List.forall_mem_append.mpr ⟨ih.1.primaryKeys, by simpa using hposition⟩
  | unique _ _ ih | index _ _ ih =>
    exact recordable_congr ih (keyRefs_mapColumns (onColumn_congr fun _ => rfl)) ih.1.primaryKeys
      ih.1.foreignKeys ih.1.childTables
  | @foreignKey t other fk _ _ key column ih iho =>
    have hfits := fits_of_recordable ih iho key column
    refine recordable_congr ih (keyRefs_withForeignKey t fk) ih.1.primaryKeys ?_ ih.1.childTables
    exact List.forall_mem_append.mpr ⟨ih.1.foreignKeys, by simpa using hfits⟩
  | @childReference t other r _ _ key column ih iho =>
    have hfits := fits_of_recordable ih iho key column
    refine recordable_congr ih (keyRefs_withChildReference t r) ih.1.primaryKeys
      ih.1.foreignKeys ?_
    exact List.forall_mem_append.mpr ⟨ih.1.childTables, by simpa using hfits⟩
  | @forget t _ child ih =>
    have hforget := ih.1.forget child
    exact recordable_congr ih (keyRefs_forget child t) hforget.primaryKeys hforget.foreignKeys
      hforget.childTables

end Table

/-- A step keeps an invariant, also where it fails, and what it gives has a property. -/
def Step.Keeps {σ α : Type} (inv : σ → Prop) (x : Step σ α) (post : α → Prop) : Prop :=
  ∀ s, inv s → inv (x s).2 ∧ ∀ a, (x s).1 = .ok a → post a

namespace Step.Keeps

variable {σ α β : Type} {inv : σ → Prop} {post : α → Prop} {x : Step σ α}

theorem lift {r : Except Error α} (h : ∀ a, r = .ok a → post a) :
    Keeps inv (liftM r : Step σ α) post := fun _ hs => ⟨hs, h⟩

theorem pure {a : α} (h : post a) : Keeps inv (pure a : Step σ α) post := by
  refine lift (r := .ok a) fun b hb => ?_
  cases hb
  exact h

theorem fail (e : Error) : Keeps inv (throw e : Step σ α) post :=
  lift (r := .error e) fun _ h => (nomatch h)

theorem get : Keeps inv (MonadState.get : Step σ σ) inv := by
  intro s hs
  refine ⟨hs, fun a ha => ?_⟩
  cases ha
  exact hs

theorem modify {f : σ → σ} (h : ∀ s, inv s → inv (f s)) :
    Keeps inv (modify f : Step σ PUnit) fun _ => True :=
  fun s hs => ⟨h s hs, fun _ _ => trivial⟩

theorem bind {f : α → Step σ β} {q : β → Prop} (hx : Keeps inv x post)
    (hf : ∀ a, post a → Keeps inv (f a) q) : Keeps inv (x >>= f) q := by
  intro s hs
  obtain ⟨hs', hpost⟩ := hx s hs
  rw [Step.bind_run]
  rcases hrun : x s with ⟨e | a, s'⟩
  · rw [hrun] at hs'
    exact ⟨hs', fun _ h => (nomatch h)⟩
  · rw [hrun] at hs' hpost
    exact hf a (hpost a rfl) s' hs'

theorem guard {c : Prop} [Decidable c] {e : Error} (h : ¬ c → Keeps inv x post) :
    Keeps inv (if c then throw e else x) post := by
  split
  · exact fail e
  · next hc => exact h hc

end Step.Keeps

namespace Catalog

/-- What is in a file under the name that the file or the draft of a table has. -/
def Describes (file text : String) : Prop :=
  ∀ T, file = tableFile T ∨ file = draftFile T → ∃ t : Table, t.name = T ∧ t.Arises ∧
    text = t.fileText

def FolderDescribes (es : OrdMap String Entry) : Prop :=
  ∀ file text, es.find? file = some (.file text) → Describes file text

/-- All files are such. -/
def Genuine (c : Catalog) : Prop := ∀ db es, c.entries? db = some es → FolderDescribes es

variable {c : Catalog} {db T file text : String} {es : OrdMap String Entry} {t : Table}

theorem describes_fileText (h : t.Arises) (hfile : file = tableFile t.name ∨ file = draftFile t.name) :
    Describes file t.fileText := by
  intro T hT
  refine ⟨t, ?_, h, rfl⟩
  rcases hfile with rfl | rfl
  · rcases hT with hT | hT
    · exact tableFile_inj hT
    · exact absurd hT tableFile_ne_draftFile
  · rcases hT with hT | hT
    · exact absurd hT.symm tableFile_ne_draftFile
    · exact draftFile_inj hT

/-- A draft becomes the file of its table. -/
theorem Describes.moved (h : Describes (draftFile T) text) : Describes (tableFile T) text := by
  obtain ⟨t, rfl, ht, rfl⟩ := h T (.inr rfl)
  exact describes_fileText ht (.inl rfl)

theorem FolderDescribes.erase (h : FolderDescribes es) (file : String) :
    FolderDescribes (es.erase file) := by
  intro file' text hfile'
  by_cases hf : file' = file
  · rw [hf, OrdMap.find?_erase_self] at hfile'
    cases hfile'
  · rw [OrdMap.find?_erase_of_ne hf] at hfile'
    exact h file' text hfile'

theorem FolderDescribes.insert {e : Entry} (h : FolderDescribes es)
    (he : ∀ text, e = .file text → Describes file text) : FolderDescribes (es.insert file e) := by
  intro file' text hfile'
  by_cases hf : file' = file
  · rw [hf, OrdMap.find?_insert_self] at hfile'
    rw [hf]
    exact he text (Option.some.inj hfile')
  · rw [OrdMap.find?_insert_of_ne hf] at hfile'
    exact h file' text hfile'

theorem Genuine.insert (h : c.Genuine) (hes : FolderDescribes es) :
    Genuine (c.insert db (.folder es)) := by
  intro db' es' hes'
  by_cases hdb : db' = db
  · rw [hdb, entries?_insert] at hes'
    cases hes'
    exact hes
  · rw [entries?, OrdMap.find?_insert_of_ne hdb] at hes'
    exact h db' es' hes'

theorem Genuine.erase (h : c.Genuine) (db : String) : Genuine (c.erase db) := by
  intro db' es' hes'
  by_cases hdb : db' = db
  · rw [hdb, entries?, OrdMap.find?_erase_self] at hes'
    cases hes'
  · rw [entries?, OrdMap.find?_erase_of_ne hdb] at hes'
    exact h db' es' hes'

/-- A table that is there can be read, and its file is the text of what is read. -/
theorem Genuine.of_tableExists (h : c.Genuine) (hT : c.tableExists db T = true) :
    ∃ t : Table, c.table db T = .ok t ∧ t.name = T ∧ t.Arises ∧
      c.fileText? db (tableFile T) = some t.fileText := by
  rw [tableExists, Bool.and_eq_true, Bool.and_eq_true] at hT
  obtain ⟨⟨hvalid, hdb⟩, hfile⟩ := hT
  obtain ⟨text, htext⟩ := Option.isSome_iff_exists.mp hfile
  obtain ⟨t, rfl, ht, rfl⟩ : ∃ t : Table, t.name = T ∧ t.Arises ∧ text = t.fileText := by
    have hentry := htext
    rw [fileText?] at hentry
    cases hes : c.entries? db with
    | none =>
      rw [hes] at hentry
      cases hentry
    | some es =>
      simp only [hes, Option.bind_some] at hentry
      split at hentry
      · next he =>
        cases hentry
        exact h db es hes _ _ he T (.inl rfl)
      · cases hentry
  refine ⟨t, ?_, rfl, ht, htext⟩
  simp only [table, Table.checkName_eq_ok.mpr hvalid, Table.checkName_eq_ok.mpr hdb,
    Except.ok_bind, htext, Table.ofFileText_fileText ht.recordable.1]

theorem Genuine.arises (h : c.Genuine) (ht : c.table db T = .ok t) : t.Arises := by
  obtain ⟨t', ht', -, harises, -⟩ := h.of_tableExists (tableExists_of_table ht)
  cases ht.symm.trans ht'
  exact harises

open Step (Keeps)

theorem makeFolder_keeps : Keeps Genuine (makeFolder db) fun _ => True := by
  rw [makeFolder]
  split
  · refine .modify fun c hc => hc.insert ?_
    intro file text hfile
    cases hfile
  · exact .fail _

theorem writeFile_keeps (h : Describes file text) :
    Keeps Genuine (writeFile db file text) fun _ => True := by
  refine .bind .get fun c hc => ?_
  cases hes : c.entries? db with
  | none => exact .fail _
  | some es =>
    refine .guard fun _ => .guard fun _ => .modify fun c' hc' => ?_
    refine hc'.insert ((hc db es hes).insert fun text' he => ?_)
    cases he
    exact h

theorem renameFile_keeps {source target : String}
    (h : ∀ text, Describes source text → Describes target text) :
    Keeps Genuine (renameFile db source target) fun _ => True := by
  refine .bind .get fun c hc => ?_
  cases hes : c.entries? db with
  | none => exact .fail _
  | some es =>
    refine .guard fun _ => .guard fun _ => ?_
    cases he : es.find? source with
    | none => exact .fail _
    | some e =>
      refine .modify fun c' hc' => hc'.insert (((hc db es hes).erase source).insert ?_)
      intro text htext
      rw [htext] at he
      exact h text (hc db es hes source text he)

theorem removeFile_keeps : Keeps Genuine (removeFile db file) fun _ => True := by
  refine .bind .get fun c hc => ?_
  cases hes : c.entries? db with
  | none => exact .fail _
  | some es => exact .modify fun c' hc' => hc'.insert ((hc db es hes).erase file)

theorem writeTable_keeps (h : t.Arises) : Keeps Genuine (writeTable db t) fun _ => True :=
  .bind (.lift fun _ _ => trivial) fun _ _ => .bind (.lift fun _ _ => trivial) fun _ _ =>
    .bind (writeFile_keeps (describes_fileText h (.inr rfl))) fun _ _ =>
      renameFile_keeps fun _ => Describes.moved

theorem updateTable_keeps {f : Table → Except Error Table}
    (hf : ∀ t t', t.Arises → f t = .ok t' → t'.Arises) :
    Keeps Genuine (updateTable db T f) Table.Arises :=
  .bind .get fun _ hc => .bind (.lift fun _ ht => hc.arises ht) fun t ht =>
    .bind (.lift fun t' ht' => hf t t' ht ht') fun _ ht' =>
      .bind (writeTable_keeps ht') fun _ _ => .pure ht'

theorem createDatabase_keeps : Keeps Genuine (createDatabase db) fun _ => True :=
  .bind (.lift fun _ _ => trivial) fun _ _ => .bind .get fun _ _ => .guard fun _ => makeFolder_keeps

theorem dropDatabase_keeps : Keeps Genuine (dropDatabase db) fun _ => True :=
  .bind (.lift fun _ _ => trivial) fun _ _ => .bind .get fun _ _ => .guard fun _ =>
    .modify fun _ hc => hc.erase db

theorem createTable_keeps {columns : List (String × ColumnType)} (size : columns.length ≤ 2 ^ 64) :
    Keeps Genuine (createTable db T columns) Table.Arises :=
  .bind .get fun _ _ => .guard fun _ => .guard fun _ =>
    .bind (.lift fun _ ht => .declare ht size) fun _ ht =>
      .bind (writeTable_keeps ht) fun _ _ => .pure ht

theorem dropTable_keeps : Keeps Genuine (dropTable db T) Table.Arises :=
  .bind .get fun _ hc => .bind (.lift fun _ ht => hc.arises ht) fun _ ht =>
    .bind removeFile_keeps fun _ _ => .pure ht

theorem addPrimaryKey_keeps {column : String} :
    Keeps Genuine (addPrimaryKey db T column) Table.Arises := by
  refine updateTable_keeps fun t t' ht hf => ?_
  obtain ⟨col, hcol, hf⟩ := Except.bind_eq_ok.mp hf
  obtain ⟨hmem, rfl⟩ := Table.of_column hcol
  split at hf
  · cases hf
  · cases hf
    exact ht.primaryKey hmem

theorem addUnique_keeps {column : String} : Keeps Genuine (addUnique db T column) Table.Arises := by
  refine updateTable_keeps fun t t' ht hf => ?_
  obtain ⟨-, -, hf⟩ := Except.bind_eq_ok.mp hf
  cases hf
  exact ht.unique column

theorem addIndex_keeps {column : String} : Keeps Genuine (addIndex db T column) Table.Arises := by
  refine updateTable_keeps fun t t' ht hf => ?_
  obtain ⟨col, -, hf⟩ := Except.bind_eq_ok.mp hf
  split at hf
  · cases hf
  · cases hf
    exact ht.index column

theorem removeChildReferences_keeps {child : String} :
    Keeps Genuine (removeChildReferences db T child) Table.Arises := by
  refine updateTable_keeps fun t t' ht hf => ?_
  cases hf
  exact ht.forget child

/-- The second of two files may not be written; the first is a definition for itself. -/
theorem addForeignKey_keeps {child column parent parentColumn : String} :
    Keeps Genuine (addForeignKey db child column parent parentColumn) fun _ => True := by
  refine .bind .get fun c hc => .bind (.lift fun t ht => hc.arises ht) fun t ht => ?_
  dsimp only
  split
  · have hself : Keeps Genuine (pure t : Step Catalog Table) (· = t) := .pure rfl
    refine .bind hself fun p hp => .bind (.lift fun own hown => (Table.of_column hown).1) ?_
    subst hp
    intro own hown
    refine .guard fun _ => .bind (.lift fun target h => (Table.of_column h).1) ?_
    intro target htarget
    have hkey := Table.keyRef_mem hown
    have hcolumn := Table.keyRef_mem htarget
    refine .guard fun _ => .bind (writeTable_keeps ?_) fun _ _ => .pure trivial
    refine (ht.foreignKey ht hkey hcolumn).childReference ht ?_ hkey
    rwa [Table.keyRefs_withForeignKey]
  · refine .bind (.lift fun p hp => hc.arises hp) fun p hp => ?_
    refine .bind (.lift fun own hown => (Table.of_column hown).1) fun own hown => .guard fun _ => ?_
    refine .bind (.lift fun target h => (Table.of_column h).1) fun target htarget => ?_
    have hkey := Table.keyRef_mem hown
    have hcolumn := Table.keyRef_mem htarget
    refine .guard fun _ => .bind (writeTable_keeps (ht.foreignKey hp hkey hcolumn)) fun _ _ => ?_
    exact .bind (writeTable_keeps (hp.childReference ht hcolumn hkey)) fun _ _ => .pure trivial

/-- What is done to a catalog. -/
inductive Change where
  | createDatabase (db : String)
  | dropDatabase (db : String)
  | createTable (db name : String) (columns : List (String × ColumnType))
  | dropTable (db name : String)
  | addPrimaryKey (db table column : String)
  | addUnique (db table column : String)
  | addIndex (db table column : String)
  | addForeignKey (db child column parent parentColumn : String)
  | removeChildReferences (db parent child : String)

namespace Change

def run : Change → Step Catalog Unit
  | .createDatabase db => Catalog.createDatabase db
  | .dropDatabase db => Catalog.dropDatabase db
  | .createTable db name columns => do let _ ← Catalog.createTable db name columns
  | .dropTable db name => do let _ ← Catalog.dropTable db name
  | .addPrimaryKey db table column => do let _ ← Catalog.addPrimaryKey db table column
  | .addUnique db table column => do let _ ← Catalog.addUnique db table column
  | .addIndex db table column => do let _ ← Catalog.addIndex db table column
  | .addForeignKey db child column parent parentColumn => do
    let _ ← Catalog.addForeignKey db child column parent parentColumn
  | .removeChildReferences db parent child => do
    let _ ← Catalog.removeChildReferences db parent child

/-- A list of columns is one that memory holds. -/
def Feasible : Change → Prop
  | .createTable _ _ columns => columns.length ≤ 2 ^ 64
  | _ => True

theorem keeps {change : Change} (h : change.Feasible) :
    Keeps Genuine change.run fun _ => True := by
  cases change with
  | createDatabase db => exact createDatabase_keeps
  | dropDatabase db => exact dropDatabase_keeps
  | createTable db name columns => exact .bind (createTable_keeps h) fun _ _ => .pure trivial
  | dropTable db name => exact .bind dropTable_keeps fun _ _ => .pure trivial
  | addPrimaryKey db table column => exact .bind addPrimaryKey_keeps fun _ _ => .pure trivial
  | addUnique db table column => exact .bind addUnique_keeps fun _ _ => .pure trivial
  | addIndex db table column => exact .bind addIndex_keeps fun _ _ => .pure trivial
  | addForeignKey db child column parent parentColumn =>
    exact .bind addForeignKey_keeps fun _ _ => .pure trivial
  | removeChildReferences db parent child =>
    exact .bind removeChildReferences_keeps fun _ _ => .pure trivial

end Change

/-- From the empty catalog by changes, each of which may fail, also half-way. -/
inductive Reached : Catalog → Prop where
  | empty : Reached ∅
  | change {c : Catalog} (h : Reached c) (change : Change) (feasible : change.Feasible) :
    Reached (change.run c).2

theorem Reached.genuine (h : c.Reached) : c.Genuine := by
  induction h with
  | empty =>
    intro db es hes
    cases hes
  | change _ change feasible ih => exact (change.keeps feasible _ ih).1

end Catalog

/-- A table that is there in a catalog can be read, and its file is the text of what is read. The text
of a definition that comes about gives the records of the definition, and these the definition, by
whatever names its columns go. Records that give a definition are its own but for the name in front. -/
theorem definition_file_round_trip :
    (∀ c : Catalog, c.Reached → ∀ db T, c.tableExists db T = true →
      ∃ t : Table, c.table db T = .ok t ∧ t.name = T ∧ t.Arises ∧
        c.fileText? db (tableFile T) = some t.fileText) ∧
    (∀ t : Table, t.Arises → CatalogRecord.read? t.fileText = some t.records ∧
      Table.ofRecords t.name t.records = .ok t) ∧
    ∀ name records t, Table.ofRecords name records = .ok t → t.name = name ∧
      ∃ n k rest, records = .keys n k :: rest ∧ t.records = .keys "keys" k :: rest := by
  refine ⟨fun c hc db T hT => hc.genuine.of_tableExists hT, fun t ht => ?_,
    fun name records t h => Table.of_ofRecords h⟩
  obtain ⟨hrec, -⟩ := ht.recordable
  exact ⟨CatalogRecord.read?_write (Table.fits_records hrec), Table.ofRecords_records hrec⟩

/-- A catalog with a table whose columns go by names of the file format. -/
def namedAlike : Catalog :=
  (Catalog.Change.run (.createTable "d" "t" [("keys", .int), ("column_name", .string)])
    (Catalog.Change.run (.createDatabase "d") ∅).2).2

/-- The table, with a reference of its first column to itself, and records under another name. -/
theorem definition_file_round_trip_namedAlike :
    (∃ t : Table, namedAlike.table "d" "t" = .ok t ∧ ∃ t' : Table,
      t' = withForeignKey t ⟨t.rowId.keyRef, t.name, t.rowId.keyRef⟩ ∧
        CatalogRecord.read? t'.fileText = some t'.records ∧
        Table.ofRecords t'.name t'.records = .ok t') ∧
    ∃ t : Table, Table.ofRecords "t" [.keys "names" ⟨[], [], []⟩,
        .column ⟨"keys", .int, true, true, true, false, false⟩] = .ok t ∧
      t.records = [.keys "keys" ⟨[], [], []⟩,
        .column ⟨"keys", .int, true, true, true, false, false⟩] := by
  obtain ⟨hfiles, hreads, hrecords⟩ := definition_file_round_trip
  constructor
  · have hreached : namedAlike.Reached :=
      .change (.change .empty (.createDatabase "d") trivial) (.createTable "d" "t" _)
        (show 2 ≤ 2 ^ 64 by decide)
    obtain ⟨t, ht, -, harises, -⟩ := hfiles namedAlike hreached "d" "t" (by decide +kernel)
    have hkey := Table.keyRef_mem (Table.rowId_mem t)
    exact ⟨t, ht, _, rfl, hreads _ (harises.foreignKey harises hkey hkey)⟩
  · obtain ⟨t, ht⟩ : ∃ t : Table, Table.ofRecords "t" [.keys "names" ⟨[], [], []⟩,
        .column ⟨"keys", .int, true, true, true, false, false⟩] = .ok t := ⟨_, rfl⟩
    obtain ⟨-, n, k, rest, hsplit, hrest⟩ := hrecords _ _ t ht
    cases hsplit
    exact ⟨t, ht, hrest⟩

end RelStore

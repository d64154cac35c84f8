import RelStore.Proofs.IndexFailures
import RelStore.Proofs.RowChanges
/-! Which constraints, indexes and references a column takes on, and what changes with them. What is
asked of the rows is told by a scan, and what is left alone by equations with what was there before. -/
namespace RelStore

open Backend (Stores onCatalog_run onStore_run)

/-- No two rows hold equal values in the column. -/
def Column.Distinguishes (c : Column) (rows : List Row) : Prop :=
  rows.Pairwise fun q r => ∀ v, q.get? c.position = some v → r.get? c.position ≠ some v

namespace Indexing

/-- What is asked of a column, and of the rows in it. -/
def Admits (rows : List Row) (c : Column) : Indexing → Prop
  | .primaryKey => c.primaryKey = false ∧ c.Distinguishes rows
  | .unique => c.Distinguishes rows
  | .plain => c.indexed = false

/-- The column has its new flags and an index: the one it had, or one built from the rows. -/
structure Adds (i : Indexing) (db T n : String) (b b' : Backend) : Prop where
  within : b.ChangesWithin db b'
  others : ∀ X, X ≠ T → b'.catalog.table db X = b.catalog.table db X
  column : ∃ t rows c, b.Reads db T t rows ∧ c ∈ t.columns ∧ c.name = n ∧
    b'.Reads db T (i.flag t c) rows ∧
    (c.indexed = true → b'.store = b.store) ∧
    (c.indexed = false →
      b.store.content.collection? db (indexCollection T n) = none ∧
      ∃ coll, Index.Groups rows c.position coll ∧ b'.store.content =
        b.store.content.insert db ((b.store.within db).insert (indexCollection T n) coll))

section Steps

variable {b b' : Backend} {cat : Catalog} {content : Content} {db T n : String} {D : Database}
  {es : OrdMap String Entry} {cs : Collections} {R : Relation} {t : Table} {c : Column}
  {i : Indexing} {o : Outcome}

theorem check_eq_ok {rows : List Row} (hscan : Row.scan content db t .all = .ok rows) :
    i.check content db t c = .ok () ↔ i.Admits rows c := by
  have hunique : Constraint.checkExistingUnique content db t c = .ok () ↔ c.Distinguishes rows := by
    rw [Constraint.checkExistingUnique, hscan, Except.ok_bind, Constraint.checkDistinct_empty,
      Column.Distinguishes]
  cases i with
  | primaryKey =>
    rw [check, Admits, ← hunique]
    cases c.primaryKey <;> simp
  | unique => exact hunique
  | plain =>
    rw [check, Admits]
    cases c.indexed <;> simp

theorem Admits.primaryKey_eq_false {rows : List Row} (h : i.Admits rows c) :
    i = primaryKey → c.primaryKey = false := by
  rintro rfl
  exact h.1

theorem accept_iff (h : b.Stores cat content db D es cs) (hD : D.Sound)
    (hdb : isValidName db = true) : i.accept b db T n = .ok (t, c) ↔
      ∃ R, D.find? T = some R ∧ R.table = t ∧ c ∈ t.columns ∧ c.name = n ∧ i.Admits R.list c := by
  constructor
  · intro haccept
    obtain ⟨⟨t', c'⟩, htarget, haccept⟩ := Except.bind_eq_ok.mp haccept
    obtain ⟨⟨⟩, hcheck, he⟩ := Except.bind_eq_ok.mp haccept
    cases he
    obtain ⟨-, ht, hc⟩ := of_target htarget
    rw [h.table hD hdb] at ht
    obtain ⟨R, hR, rfl⟩ := Except.map_eq_ok.mp ht
    obtain ⟨-, hfind⟩ := Database.of_relation hR
    obtain ⟨hmem, hn⟩ := Table.of_column hc
    rw [check_eq_ok (h.collections.scanAll hD h.content hfind)] at hcheck
    exact ⟨R, hfind, rfl, hmem, hn, hcheck⟩
  · rintro ⟨R, hR, rfl, hc, rfl, hadmits⟩
    have hcheck := (check_eq_ok (h.collections.scanAll hD h.content hR)).mpr hadmits
    have htarget : target b db T c.name = .ok (R.table, c) := by
      rw [target, if_pos (h.databaseExists hdb), h.table_eq hD hdb hR, Except.ok_bind,
        (hD.shaped hR).column_name hc]
      rfl
    rw [accept, htarget, Except.ok_bind]
    exact Except.bind_eq_ok.mpr ⟨_, hcheck, rfl⟩

/-- Columns that become unique hold distinct values, so that the database stays sound. -/
theorem sound_flag (hD : D.Sound) (hR : D.find? T = some R) (hc : c ∈ R.table.columns)
    (hi : i.Admits R.list c) : Database.Sound (D.update T (·.withTable fun t => i.flag t c)) := by
  have hs := hD.relations T R hR
  have hw : (i.flag R.table c).WellFormed := wellFormed_flag hs.table hc hi.primaryKey_eq_false
  have hk := (indexes_flag i R.table c).keyRefs
  cases i with
  | primaryKey =>
    refine hD.withTable hR (hs.withTable hw hk ?_) rfl rfl rfl
    exact Database.distinct_onColumn hs hc (Relation.distinct_iff.mpr hi.2) fun _ => rfl
  | unique =>
    refine hD.withTable hR (hs.withTable hw hk ?_) rfl rfl rfl
    exact Database.distinct_onColumn hs hc (Relation.distinct_iff.mpr hi) fun _ => rfl
  | plain =>
    refine hD.withTable hR (hs.withTable hw hk ?_) rfl rfl rfl
    exact Database.distinct_mapColumns hs (Table.onColumn_congr fun _ => rfl)
      (Table.onColumn_congr fun _ => rfl)

/-- What comes after the checks, while no save fails. -/
theorem carryOut_run (h : b.Stores cat content db D es cs) (hD : D.Sound)
    (hdb : isValidName db = true) (hR : D.find? T = some R) (hc : c ∈ R.table.columns)
    (hi : i.Admits R.list c) : ∃ s' cs',
      i.carryOut db T R.table c b = (.ok (.done 0 (i.label ++ T ++ "." ++ c.name)),
        ⟨cat.insert db (.folder (Catalog.filed es (i.flag R.table c))), s'⟩) ∧
      Stores ⟨cat.insert db (.folder (Catalog.filed es (i.flag R.table c))), s'⟩ cat content db
        (D.update T (·.withTable fun t => i.flag t c)) (Catalog.filed es (i.flag R.table c)) cs' ∧
      (c.indexed = true → s' = b.store) ∧
      (c.indexed = false → ∃ coll, Index.Groups R.list c.position coll ∧
        cs' = cs.insert (indexCollection T c.name) coll) := by
  have hw := wellFormed_flag (hD.relations T R hR).table hc hi.primaryKey_eq_false
  have hindexes := indexes_flag i R.table c
  obtain ⟨hwrite, hfolder⟩ := Catalog.writeTable_filed (c := cat) h.folder
    (hindexes.name.trans (hD.named T R hR)) (hD.valid hR) hdb (hD.fileFits hR)
  rw [← Database.tables_update hR fun t => i.flag t c] at hfolder
  rw [← h.catalog] at hwrite
  rw [carryOut, Step.bind_run_ok (onCatalog_run hwrite)]
  cases hx : c.indexed with
  | true =>
    have hcs := h.collections.withTable (f := fun t => i.flag t c) hR fun p =>
      hindexes.mem_indexPlaces_of_indexed (hD.shaped hR) hc hx
    refine ⟨b.store, cs, rfl, ⟨rfl, hfolder, h.store, hcs⟩, fun _ => rfl, ?_⟩
    intro hn
    cases hn
  | false =>
    obtain ⟨c', s', coll, hc', hbuild, hs', hgroups, hcs'⟩ :=
      Engine.build_at h hD hR hc hx (f := fun t => i.flag t c) hindexes hw.shaped
    refine ⟨s', _, ?_, ⟨rfl, hfolder, hs', hcs'⟩, ?_, fun _ => ⟨coll, hgroups, rfl⟩⟩
    · simp only [Bool.not_false, if_true, hc', Step.bind_run_ok (Step.lift_run _ _)]
      exact Step.bind_run_ok (onStore_run hbuild)
    · intro hn
      cases hn

theorem add_of_admits (h : b.Stores cat content db D es cs) (hD : D.Sound)
    (hdb : isValidName db = true) (hR : D.find? T = some R) (hc : c ∈ R.table.columns)
    (hi : i.Admits R.list c) : i.add db T c.name b = i.carryOut db T R.table c b := by
  rw [add_run, (accept_iff h hD hdb).mpr ⟨R, hR, rfl, hc, rfl, hi⟩]

theorem admits_of_add (h : b.Stores cat content db D es cs) (hD : D.Sound)
    (hdb : isValidName db = true) (hadd : i.add db T n b = (.ok o, b')) :
    ∃ R c, D.find? T = some R ∧ c ∈ R.table.columns ∧ c.name = n ∧ i.Admits R.list c := by
  rw [add_run] at hadd
  cases haccept : i.accept b db T n with
  | error e =>
    rw [haccept] at hadd
    cases hadd
  | ok p =>
    obtain ⟨t, c⟩ := p
    obtain ⟨R, hR, rfl, hc, hn, hi⟩ := (accept_iff h hD hdb).mp haccept
    exact ⟨R, c, hR, hc, hn, hi⟩

/-- A unique column is made unique again, and nothing changes. -/
theorem addUnique_again (h : b.Stores cat content db D es cs) (hD : D.Sound)
    (hdb : isValidName db = true) (hadd : unique.add db T n b = (.ok o, b')) :
    unique.add db T n b' = (.ok o, b') := by
  obtain ⟨R, c, hR, hc, rfl, hi⟩ := admits_of_add h hD hdb hadd
  obtain ⟨s', cs', hrun, h', -, -⟩ := carryOut_run h hD hdb hR hc hi
  rw [add_of_admits h hD hdb hR hc hi, hrun] at hadd
  cases hadd
  have hD' := sound_flag hD hR hc hi
  have hR' : (D.update T (·.withTable fun t => unique.flag t c)).find? T =
      some (R.withTable fun t => unique.flag t c) := OrdMap.find?_update_of_some hR
  obtain ⟨c', hcolumn, hk, hx⟩ := column_flag (i := unique) (hD'.shaped hR') hc
  obtain ⟨hc', hn⟩ := Table.of_column hcolumn
  obtain ⟨-, hp⟩ := Column.place_of_keyRef hk
  have hi' : unique.Admits R.list c' := by
    rw [Admits, Column.Distinguishes, hp]
    exact hi
  obtain ⟨s'', cs'', hrun', -, hsame, -⟩ := carryOut_run h' hD' hdb hR' hc' hi'
  have hagain := add_of_admits h' hD' hdb hR' hc' hi'
  rw [hn] at hagain hrun'
  have hflag : unique.flag (unique.flag R.table c) c' = unique.flag R.table c := by
    rw [flag, flag, hn, Table.withUnique_withUnique]
  rw [hagain, hrun', hsame hx, Relation.withTable, hflag, Catalog.filed_filed]

end Steps

end Indexing

theorem System.Holds.adds {S : System} {W : World} {db T n : String} {D : Database} {i : Indexing}
    {o : Outcome} {b : Backend} (h : S.Holds W) (hD : W.databases.find? db = some D)
    (hadd : i.add db T n S.backend = (.ok o, b)) : i.Adds db T n S.backend b := by
  have hsound := h.sound.databases db D hD
  have hdb := h.sound.names db D hD
  obtain ⟨es, cs, hstores⟩ := h.backend.stores hD
  obtain ⟨R, c, hR, hc, rfl, hi⟩ := Indexing.admits_of_add hstores hsound hdb hadd
  obtain ⟨s', cs', hrun, hstores', hsame, hbuilt⟩ :=
    Indexing.carryOut_run hstores hsound hdb hR hc hi
  rw [Indexing.add_of_admits hstores hsound hdb hR hc hi, hrun] at hadd
  cases hadd
  have hsound' := Indexing.sound_flag hsound hR hc hi
  have hholds := h.changed hD hsound' hstores'.shows
  refine ⟨hstores'.shows.changesWithin, ?_, ?_⟩
  · intro X hX
    rw [hstores'.table hsound' hdb, hstores.table hsound hdb, Database.relation,
      Database.relation, OrdMap.find?_update_of_ne _ hX]
  · refine ⟨R.table, R.list, c, h.reads hD hR, hc, rfl, ?_, hsame, ?_⟩
    · exact hholds.reads (OrdMap.find?_insert_self _ _ _) (OrdMap.find?_update_of_some hR)
    · intro hx
      obtain ⟨coll, hgroups, rfl⟩ := hbuilt hx
      refine ⟨?_, coll, hgroups, ?_⟩
      · rw [Content.collection?_eq hstores.content]
        exact Engine.index_unused hstores.collections hsound hR hc hx
      · rw [hstores'.store.content, Content.set, OrdMap.isEmpty_insert, hstores.store.within]
        rfl

/-- A column becomes a primary key, or unique, or indexed exactly if it is there, no two rows hold
equal values where it is to be unique, and it is not a primary key or indexed yet. Then its flags are
set and it has an index, which groups all rows, and nothing else changes. What is made unique a second
time stays entirely as it is. -/
theorem indexing_exact {S : System} {db : String} (h : S.Reachable)
    (hdb : S.backend.catalog.databaseExists db = true) (i : Indexing) (T n : String) :
    ((∃ o, (i.add db T n S.backend).1 = .ok o) ↔
      S.backend.catalog.tableExists db T = true ∧
        ∃ t rows c, S.backend.Reads db T t rows ∧ c ∈ t.columns ∧ c.name = n ∧ i.Admits rows c) ∧
    (∀ o b, i.add db T n S.backend = (.ok o, b) → i.Adds db T n S.backend b) ∧
    ∀ o b, Engine.addUnique db T n S.backend = (.ok o, b) →
      Engine.addUnique db T n b = (.ok o, b) := by
  obtain ⟨W, hW⟩ := h.holds
  obtain ⟨D, hD⟩ := hW.databaseExists_iff.mp hdb
  have hsound := hW.sound.databases db D hD
  have hname := hW.sound.names db D hD
  obtain ⟨es, cs, hstores⟩ := hW.backend.stores hD
  refine ⟨⟨?_, ?_⟩, ?_, ?_⟩
  · rintro ⟨o, ho⟩
    obtain ⟨R, c, hR, hc, hn, hi⟩ :=
      Indexing.admits_of_add hstores hsound hname (Prod.ext ho rfl)
    have hreads := hW.reads hD hR
    exact ⟨System.tableExists_of_table hreads.definition, R.table, R.list, c, hreads, hc, hn, hi⟩
  · rintro ⟨-, t, rows, c, hreads, hc, rfl, hi⟩
    obtain ⟨R, hR, rfl, rfl⟩ := hW.of_reads hD hreads
    obtain ⟨s', cs', hrun, -⟩ := Indexing.carryOut_run hstores hsound hname hR hc hi
    rw [Indexing.add_of_admits hstores hsound hname hR hc hi, hrun]
    exact ⟨_, rfl⟩
  · intro o b hadd
    exact hW.adds hD hadd
  · intro o b hadd
    exact Indexing.addUnique_again hstores hsound hname hadd

/-- A table with two rows, which differ in one column and agree in the other. -/
def paired : List (Nat × String) :=
  [(0, "2 4 d"), (0, "7 d"), (0, "2 5 t 29 id 29 a 29 b"), (0, "8 t 1#5#7"), (0, "8 t 2#6#7")]

/-- The one can be made unique, and the other not. -/
theorem indexing_exact_paired :
    (∃ o b, Engine.addUnique "d" "t" "a" (System.asked .inMemory paired).backend = (.ok o, b) ∧
        Indexing.unique.Adds "d" "t" "a" (System.asked .inMemory paired).backend b ∧
        Engine.addUnique "d" "t" "a" b = (.ok o, b)) ∧
      ¬ ∃ t rows c, (System.asked .inMemory paired).backend.Reads "d" "t" t rows ∧
        c ∈ t.columns ∧ c.name = "b" ∧ Indexing.unique.Admits rows c := by
  obtain ⟨hreach, hholds⟩ := System.asked_inMemory_holds paired (by decide)
  generalize System.asked .inMemory paired = S at hreach hholds ⊢
  have hworld : ((World.asked paired).databases.find? "d").any (fun D =>
      (D.addUnique "t" "a").isOk ∧ ¬ (D.addUnique "t" "b").isOk) = true := by
    decide +kernel
  simp only [Option.any_eq_true, decide_eq_true_eq, Except.isOk_iff] at hworld
  obtain ⟨D, hD, haccepted, hrefused⟩ := hworld
  have hdb := hholds.databaseExists_iff.mpr ⟨D, hD⟩
  have hsound := hholds.sound.databases "d" D hD
  obtain ⟨es, cs, hstores⟩ := hholds.backend.stores hD
  have hruns (n : String) := (Engine.addUnique_refines (T := "t") (n := n) hstores hsound
    (hholds.sound.names "d" D hD)).exists_ok_iff
  constructor
  · obtain ⟨-, heffect, hagain⟩ := indexing_exact hreach hdb .unique "t" "a"
    obtain ⟨o, ho⟩ := (hruns "a").mpr haccepted
    exact ⟨o, _, Prod.ext ho rfl, heffect o _ (Prod.ext ho rfl), hagain o _ (Prod.ext ho rfl)⟩
  · rintro ⟨t, rows, c, hreads, hadmitted⟩
    have hT := System.tableExists_of_table hreads.definition
    obtain ⟨hlegal, -⟩ := indexing_exact hreach hdb .unique "t" "b"
    exact hrefused ((hruns "b").mp (hlegal.mpr ⟨hT, t, rows, c, hreads, hadmitted⟩))

namespace Table

/-- The definition with one foreign key more, from `own` to the column `target` of `parent`, and the
flag for it on `own`. -/
def referring (t : Table) (own : Column) (parent : String) (target : Column) : Table :=
  { t with
    foreignKeys := t.foreignKeys ++ [⟨⟨own.name, own.position, own.type⟩, parent,
      ⟨target.name, target.position, target.type⟩⟩]
    columns := t.columns.map fun c =>
      if c.name = own.name then { c with foreignKey := true } else c
    columns_ne := by simp [t.columns_ne] }

/-- The definition with one more reference to it, from the column `own` of `child` to `target`, and the
flag for it on `target`. -/
def referred (t : Table) (child : String) (own target : Column) : Table :=
  { t with
    childTables := t.childTables ++ [⟨⟨target.name, target.position, target.type⟩, child,
      ⟨own.name, own.position, own.type⟩⟩]
    columns := t.columns.map fun c =>
      if c.name = target.name then { c with parentTable := true } else c
    columns_ne := by simp [t.columns_ne] }

/-- What a reference between columns of `child` and `parent` is to the definition of the table `X`,
which may be either of them, both or none. -/
def linked (X child : String) (own : Column) (parent : String) (target : Column) (t : Table) : Table :=
  let t := if X = child then t.referring own parent target else t
  if X = parent then t.referred child own target else t

theorem linked_eq (X child : String) (own : Column) (parent : String) (target : Column) :
    linked X child own parent target = Database.linkTable child own parent target X := rfl

end Table

namespace Backend

/-- A column can come to refer to another of its type: it refers to none yet, and whatever some row
holds in it some row holds in the other. -/
structure CanRefer (b : Backend) (db child : String) (own : Column) (parent : String)
    (target : Column) : Prop where
  free : own.foreignKey = false
  type : own.type = target.type
  values : ∃ t rows t' rows', b.Reads db child t rows ∧ own ∈ t.columns ∧
    b.Reads db parent t' rows' ∧ target ∈ t'.columns ∧
    ∀ r ∈ rows, ∀ v, r.get? own.position = some v → ∃ q ∈ rows', q.get? target.position = some v

/-- The column refers to the other, as both tables record, which may be the same. -/
structure Refers (db child : String) (own : Column) (parent : String) (target : Column)
    (b b' : Backend) : Prop where
  within : b.ChangesWithin db b'
  store : b'.store = b.store
  definitions : ∀ X, b'.catalog.table db X =
    (b.catalog.table db X).map (Table.linked X child own parent target)

variable {b b' : Backend} {cat : Catalog} {c : Content} {db X : String} {D D' : Database}
  {es es' : OrdMap String Entry} {cs cs' : Collections}

/-- The definition of a table is told by that of the relation. -/
theorem Stores.table_map (h : b.Stores cat c db D es cs) (hD : D.Sound)
    (h' : b'.Stores cat c db D' es' cs') (hD' : D'.Sound) (hdb : isValidName db = true)
    {f : Table → Table} (hX : D'.find? X = (D.find? X).map (·.withTable f)) :
    b'.catalog.table db X = (b.catalog.table db X).map f := by
  rw [h'.table hD' hdb, h.table hD hdb, Database.relation, Database.relation, hX]
  cases checkName X with
  | error e => rfl
  | ok _ => cases D.find? X <;> rfl

end Backend

namespace System.Holds

variable {S : System} {W : World} {db child parent column parentColumn : String} {D : Database}
  {own target : Column}

theorem canRefer_iff (h : S.Holds W) (hD : W.databases.find? db = some D) :
    S.backend.CanRefer db child own parent target ↔
      ∃ C P, D.find? child = some C ∧ D.find? parent = some P ∧ own ∈ C.table.columns ∧
        target ∈ P.table.columns ∧ own.foreignKey = false ∧ own.type = target.type ∧
        ∀ v, C.Has own.position v → P.Has target.position v := by
  constructor
  · rintro ⟨hfree, htype, t, rows, t', rows', hchild, hown, hparent, htarget, hvalues⟩
    obtain ⟨C, hC, rfl, rfl⟩ := h.of_reads hD hchild
    obtain ⟨P, hP, rfl, rfl⟩ := h.of_reads hD hparent
    refine ⟨C, P, hC, hP, hown, htarget, hfree, htype, ?_⟩
    rintro v ⟨r, hr, hv⟩
    exact hvalues r hr v hv
  · rintro ⟨C, P, hC, hP, hown, htarget, hfree, htype, hvalues⟩
    refine ⟨hfree, htype, C.table, C.list, P.table, P.list, h.reads hD hC, hown, h.reads hD hP,
      htarget, ?_⟩
    intro r hr v hv
    exact hvalues v ⟨r, hr, hv⟩

theorem refers_iff (h : S.Holds W) (hD : W.databases.find? db = some D) :
    (∃ o, (Engine.addForeignKey db child column parent parentColumn S.backend).1 = .ok o) ↔
      ∃ D', D.addForeignKey child column parent parentColumn = .ok D' := by
  obtain ⟨es, cs, hstores⟩ := h.backend.stores hD
  exact (Engine.addForeignKey_refines hstores (h.sound.databases db D hD)
    (h.sound.names db D hD)).exists_ok_iff

theorem refers {o : Outcome} {b : Backend} (h : S.Holds W) (hD : W.databases.find? db = some D)
    (hrun : Engine.addForeignKey db child column parent parentColumn S.backend = (.ok o, b)) :
    ∃ own target, own.name = column ∧ target.name = parentColumn ∧
      S.backend.CanRefer db child own parent target ∧
      S.backend.Refers db child own parent target b := by
  have hsound := h.sound.databases db D hD
  have hdb := h.sound.names db D hD
  obtain ⟨es, cs, hstores⟩ := h.backend.stores hD
  obtain ⟨D', hadd, -, hstore, hshows⟩ :=
    (Engine.addForeignKey_keeps hstores hsound hdb).of_ok hrun
  obtain ⟨C, P, own, target, hC, hP, hown, hn, htarget, hpn, hfree, htype, hvalues, rfl⟩ :=
    (Database.addForeignKey_eq_ok hsound).mp hadd
  have hcan := (h.canRefer_iff hD).mpr ⟨C, P, hC, hP, hown, htarget, hfree, htype, hvalues⟩
  refine ⟨own, target, hn, hpn, hcan, hshows.changesWithin, hstore, ?_⟩
  intro X
  obtain ⟨es', cs', hstores'⟩ := hshows
  rw [Table.linked_eq]
  exact hstores.table_map hsound hstores' (hsound.addForeignKey hadd) hdb Database.find?_link

end System.Holds

/-- A column comes to refer to another exactly if both are there and of one type, the first refers to
nothing yet, and what its rows hold rows of the other table hold. Then both tables record the
reference, in definitions that else stay, as do all others and the whole store. -/
theorem reference_exact {S : System} {db : String} (h : S.Reachable)
    (hdb : S.backend.catalog.databaseExists db = true)
    (child column parent parentColumn : String) :
    ((∃ o, (Engine.addForeignKey db child column parent parentColumn S.backend).1 = .ok o) ↔
      S.backend.catalog.tableExists db child = true ∧
        S.backend.catalog.tableExists db parent = true ∧
        ∃ own target, own.name = column ∧ target.name = parentColumn ∧
          S.backend.CanRefer db child own parent target) ∧
    ∀ o b, Engine.addForeignKey db child column parent parentColumn S.backend = (.ok o, b) →
      ∃ own target, own.name = column ∧ target.name = parentColumn ∧
        S.backend.CanRefer db child own parent target ∧
        S.backend.Refers db child own parent target b := by
  obtain ⟨W, hW⟩ := h.holds
  obtain ⟨D, hD⟩ := hW.databaseExists_iff.mp hdb
  have hsound := hW.sound.databases db D hD
  refine ⟨⟨?_, ?_⟩, ?_⟩
  · rintro ⟨o, ho⟩
    obtain ⟨own, target, hn, hpn, hcan, -⟩ := hW.refers hD (Prod.ext ho rfl)
    obtain ⟨t, rows, t', rows', hchild, -, hparent, -⟩ := hcan.values
    exact ⟨System.tableExists_of_table hchild.definition,
      System.tableExists_of_table hparent.definition, own, target, hn, hpn, hcan⟩
  · rintro ⟨-, -, own, target, rfl, rfl, hcan⟩
    obtain ⟨C, P, hC, hP, hown, htarget, hfree, htype, hvalues⟩ := (hW.canRefer_iff hD).mp hcan
    refine (hW.refers_iff hD).mpr ⟨D.link child own parent target, ?_⟩
    exact (Database.addForeignKey_eq_ok hsound).mpr
      ⟨C, P, own, target, hC, hP, hown, rfl, htarget, rfl, hfree, htype, hvalues, rfl⟩
  · intro o b hrun
    exact hW.refers hD hrun

/-- A table whose column holds values of its own row ids, and another that holds one more. -/
def chained : List (Nat × String) :=
  [(0, "2 4 d"), (0, "7 d"), (0, "2 5 t 29 id 29 up"), (0, "2 5 u 29 id 29 up"), (0, "8 t 1#1"),
    (0, "8 t 2#1"), (0, "8 u 1#3")]

/-- The first can refer to itself, and the second not to the first. -/
theorem reference_exact_chained :
    (∃ o b own target, Engine.addForeignKey "d" "t" "up" "t" "id"
          (System.asked .inMemory chained).backend = (.ok o, b) ∧
        (System.asked .inMemory chained).backend.Refers "d" "t" own "t" target b) ∧
      ¬ ∃ own target, own.name = "up" ∧ target.name = "id" ∧
        (System.asked .inMemory chained).backend.CanRefer "d" "u" own "t" target := by
  obtain ⟨hreach, hholds⟩ := System.asked_inMemory_holds chained (by decide)
  generalize System.asked .inMemory chained = S at hreach hholds ⊢
  have hworld : ((World.asked chained).databases.find? "d").any (fun D =>
      (D.addForeignKey "t" "up" "t" "id").isOk ∧
        ¬ (D.addForeignKey "u" "up" "t" "id").isOk) = true := by
    decide +kernel
  simp only [Option.any_eq_true, decide_eq_true_eq, Except.isOk_iff] at hworld
  obtain ⟨D, hD, haccepted, hrefused⟩ := hworld
  have hdb := hholds.databaseExists_iff.mpr ⟨D, hD⟩
  obtain ⟨-, heffect⟩ := reference_exact hreach hdb "t" "up" "t" "id"
  obtain ⟨hlegal, -⟩ := reference_exact hreach hdb "u" "up" "t" "id"
  constructor
  · obtain ⟨o, ho⟩ := (hholds.refers_iff hD).mpr haccepted
    obtain ⟨own, target, -, -, -, hrefers⟩ := heffect o _ (Prod.ext ho rfl)
    exact ⟨o, _, own, target, Prod.ext ho rfl, hrefers⟩
  · rintro ⟨own, target, hn, hpn, hcan⟩
    obtain ⟨t, rows, t', rows', hchild, -, hparent, -⟩ := hcan.values
    refine hrefused ((hholds.refers_iff hD).mp (hlegal.mpr ⟨?_, ?_, own, target, hn, hpn, hcan⟩))
    · exact System.tableExists_of_table hchild.definition
    · exact System.tableExists_of_table hparent.definition

end RelStore

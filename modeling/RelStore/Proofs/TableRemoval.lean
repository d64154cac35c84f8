import RelStore.Proofs.DefinitionChanges
/-! Which tables may be dropped, and what is left. Of the table there is nothing, so that another of
its name starts empty; of the others only what they had recorded of it is gone. -/
namespace RelStore

open Backend (Shows)

namespace Backend

/-- The table is gone, with its file, its rows and its indexes. Others lose the references that it
made, and else keep their definitions, their rows and their indexes. -/
structure Removes (db T : String) (b b' : Backend) : Prop where
  within : b.ChangesWithin db b'
  file : ∃ es, b'.catalog.entries? db = some es ∧ es.find? (Catalog.tableFile T) = none
  rows : b'.store.content.collection? db T = none
  indexes : ∀ x, b'.store.content.collection? db (indexCollection T x) = none
  unmentioned : ∀ X t, b'.catalog.table db X = .ok t → t.name ≠ T ∧
    (∀ fk ∈ t.foreignKeys, fk.table ≠ T) ∧ ∀ r ∈ t.childTables, r.table ≠ T
  definitions : ∀ X, X ≠ T →
    b'.catalog.table db X = (b.catalog.table db X).map (Table.forget T)
  kept : ∀ X t rows, X ≠ T → b.Reads db X t rows → b'.Reads db X (t.forget T) rows ∧
    b'.store.content.collection? db X = b.store.content.collection? db X ∧
    ∀ x, b'.store.content.collection? db (indexCollection X x) =
      b.store.content.collection? db (indexCollection X x)

end Backend

section Databases

variable {D : Database} {cs cs' : Collections} {T X : String} {R : Relation}

/-- What refers to a table is recorded there. -/
theorem Database.Sound.unreferenced_iff (h : D.Sound) (hR : D.find? T = some R) :
    (∀ r ∈ R.table.childTables, r.table = T) ↔
      ∀ X S, X ≠ T → D.find? X = some S → ∀ fk ∈ S.table.foreignKeys, fk.table ≠ T := by
  constructor
  · intro hfree X S hX hS fk hfk he
    obtain ⟨P, hP, hm⟩ := h.parent hS hfk
    rw [he, hR] at hP
    cases hP
    exact hX (hfree _ hm)
  · intro hnone r hr
    by_contra hne
    obtain ⟨C, hC, hm⟩ := h.child hR hr
    exact hnone r.table C hne hC _ hm rfl

/-- After a table is dropped no definition mentions it. -/
theorem Database.unmentioned_dropTable {D' : Database} (h : D.Sound)
    (hdrop : D.dropTable T = .ok D') (hX : D'.find? X = some R) :
    X ≠ T ∧ (∀ fk ∈ R.table.foreignKeys, fk.table ≠ T) ∧ ∀ r ∈ R.table.childTables, r.table ≠ T := by
  have hD' := h.dropTable hdrop
  obtain ⟨S, hS, hfree, rfl⟩ := (dropTable_eq_ok h).mp hdrop
  obtain ⟨hne, R', hR', rfl⟩ := of_find?_without hX
  refine ⟨hne, (h.unreferenced_iff hS).mp hfree X R' hne hR', ?_⟩
  intro r hr he
  obtain ⟨C, hC, -⟩ := hD'.child hX hr
  exact (of_find?_without hC).1 he

namespace Engine.Beside

theorem base (h : Beside T cs cs') (hX : isValidName X = true) (hne : X ≠ T) :
    cs'.find? X = cs.find? X :=
  h X (ne_placeholder hX) hne fun _ he => indexCollection_ne hX he.symm

theorem index (h : Beside T cs cs') (hT : isValidName T = true) (hX : isValidName X = true)
    (hne : X ≠ T) (x : String) :
    cs'.find? (indexCollection X x) = cs.find? (indexCollection X x) := by
  refine h _ indexCollection_ne_placeholder (indexCollection_ne hT) fun y he => ?_
  exact hne (indexCollection_inj hX hT he).1

end Engine.Beside

/-- A new table has no row and no index, also if there was one of its name. -/
theorem CollectionsOf.created {t : Table} {columns : List (String × ColumnType)}
    (h : CollectionsOf (D.insert T ⟨t, ∅⟩) cs) (hD : D.Sound)
    (ht : Table.declare T columns = .ok t) :
    cs.find? T = some ∅ ∧ ∀ x, cs.find? (indexCollection T x) = none := by
  have hfresh := Table.fresh_of_declare ht
  have hT := hfresh.valid
  refine ⟨h.base T ⟨t, ∅⟩ (OrdMap.find?_insert_self _ _ _), h.index_unused hT ?_ ?_⟩
  · intro X R hR
    by_cases hX : X = T
    · rw [hX]
      exact hT
    · rw [OrdMap.find?_insert_of_ne hX] at hR
      exact hD.valid hR
  · intro R hR
    rw [OrdMap.find?_insert_self] at hR
    cases hR
    exact hfresh.secondaryIndexes

end Databases

namespace System.Holds

variable {S : System} {W : World} {db T : String} {D : Database} {o : Outcome} {b : Backend}

theorem drops_iff (h : S.Holds W) (hD : W.databases.find? db = some D) :
    (∃ o, (Engine.dropTable db T S.backend).1 = .ok o) ↔ ∃ D', D.dropTable T = .ok D' := by
  obtain ⟨es, cs, hstores⟩ := h.backend.stores hD
  exact (Engine.dropTable_refines hstores (h.sound.databases db D hD)
    (h.sound.names db D hD)).exists_ok_iff

theorem unreferenced_iff (h : S.Holds W) (hD : W.databases.find? db = some D) {R : Relation}
    (hR : D.find? T = some R) : (∀ r ∈ R.table.childTables, r.table = T) ↔
      ∀ X t, X ≠ T → S.backend.catalog.table db X = .ok t → ∀ fk ∈ t.foreignKeys, fk.table ≠ T := by
  rw [(h.sound.databases db D hD).unreferenced_iff hR]
  constructor
  · intro hnone X t hX ht
    obtain ⟨D', R', hD', hR', rfl, -⟩ := h.of_table ht
    rw [hD] at hD'
    cases hD'
    exact hnone X R' hX hR'
  · intro hnone X R' hX hR'
    exact hnone X R'.table hX (h.table_and_rows hD hR').1

theorem removes (h : S.Holds W) (hD : W.databases.find? db = some D)
    (hrun : Engine.dropTable db T S.backend = (.ok o, b)) : S.backend.Removes db T b := by
  have hsound := h.sound.databases db D hD
  have hdb := h.sound.names db D hD
  obtain ⟨es, cs, hstores⟩ := h.backend.stores hD
  obtain ⟨D', hdrop, -, es', cs', hstores', hbeside⟩ :=
    (Engine.dropTable_beside hstores hsound hdb).of_ok hrun
  have hsound' := hsound.dropTable hdrop
  have hholds := h.changed hD hsound' hstores'.shows
  have hplace : (W.databases.insert db D').find? db = some D' := OrdMap.find?_insert_self _ _ _
  obtain ⟨R, hR, hfree, rfl⟩ := (Database.dropTable_eq_ok hsound).mp hdrop
  have hT := hsound.valid hR
  have hgone : (D.without T).find? T = none := Database.find?_without_self D T
  refine ⟨hstores'.shows.changesWithin, ?_, ?_, ?_, ?_, ?_, ?_⟩
  · refine ⟨es', Catalog.entries?_eq hstores'.entries, ?_⟩
    rw [hstores'.folder.files, Database.tables, hgone]
    rfl
  · rw [Content.collection?_eq hstores'.content]
    exact hstores'.collections.unused hT hgone
  · intro x
    rw [Content.collection?_eq hstores'.content]
    refine hstores'.collections.index_unused hT (fun X S hS => hsound'.valid hS) (fun S hS => ?_) x
    rw [hgone] at hS
    cases hS
  · intro X t ht
    obtain ⟨D'', R', hD'', hR', rfl, -⟩ := hholds.of_table ht
    rw [hplace] at hD''
    cases hD''
    rw [hsound'.named X R' hR']
    exact Database.unmentioned_dropTable hsound hdrop hR'
  · intro X hX
    exact hstores.table_map hsound hstores' hsound' hdb (Database.find?_without_of_ne hX)
  · intro X t rows hX hreads
    obtain ⟨R', hR', rfl, rfl⟩ := h.of_reads hD hreads
    have hnew := Database.find?_without_of_ne (D := D) hX
    rw [hR'] at hnew
    refine ⟨hholds.reads hplace hnew, ?_, ?_⟩
    · rw [Content.collection?_eq hstores'.content, Content.collection?_eq hstores.content]
      exact hbeside.base (hsound.valid hR') hX
    · intro x
      rw [Content.collection?_eq hstores'.content, Content.collection?_eq hstores.content]
      exact hbeside.index hT (hsound.valid hR') hX x

/-- A name that is free and short enough can be given to a table, which starts empty. -/
theorem creates (h : S.Holds W) (hD : W.databases.find? db = some D) (hT : D.find? T = none)
    (hfile : Catalog.nameFits (Catalog.tableFile T) = true) (columns : List (String × ColumnType)) :
    ((∃ o, (Engine.createTable db T columns S.backend).1 = .ok o) ↔
      ∃ t, Table.declare T columns = .ok t) ∧
    ∀ o b, Engine.createTable db T columns S.backend = (.ok o, b) →
      b.store.content.collection? db T = some ∅ ∧
        ∀ x, b.store.content.collection? db (indexCollection T x) = none := by
  have hsound := h.sound.databases db D hD
  obtain ⟨es, cs, hstores⟩ := h.backend.stores hD
  have hcreate : Refines (Engine.createTable db T columns) S.backend _ _ _ :=
    Engine.createTable_refines hstores hsound (h.sound.names db D hD)
  constructor
  · rw [hcreate.exists_ok_iff]
    simp only [Database.createTable_eq_ok]
    constructor
    · rintro ⟨D', t, -, ht, -⟩
      exact ⟨t, ht⟩
    · rintro ⟨t, ht⟩
      exact ⟨_, t, hT, ht, hfile, rfl⟩
  · intro o b hrun
    obtain ⟨D', hD', -, es', cs', hstores'⟩ := hcreate.of_ok hrun
    obtain ⟨t, -, ht, -, rfl⟩ := Database.createTable_eq_ok.mp hD'
    simp only [Content.collection?_eq hstores'.content]
    exact hstores'.collections.created hsound ht

/-- A table that has been dropped can be created anew, with any columns. -/
theorem recreates (h : S.Holds W) (hD : W.databases.find? db = some D)
    (hrun : Engine.dropTable db T S.backend = (.ok o, b)) (columns : List (String × ColumnType)) :
    ((∃ o', (Engine.createTable db T columns b).1 = .ok o') ↔
      ∃ t, Table.declare T columns = .ok t) ∧
    ∀ o' b', Engine.createTable db T columns b = (.ok o', b') →
      b'.store.content.collection? db T = some ∅ ∧
        ∀ x, b'.store.content.collection? db (indexCollection T x) = none := by
  have hsound := h.sound.databases db D hD
  obtain ⟨es, cs, hstores⟩ := h.backend.stores hD
  obtain ⟨D', hdrop, -, hshows⟩ :=
    (Engine.dropTable_refines hstores hsound (h.sound.names db D hD)).of_ok hrun
  have hholds := h.changed hD (hsound.dropTable hdrop) hshows
  obtain ⟨R, hR, -, rfl⟩ := (Database.dropTable_eq_ok hsound).mp hdrop
  exact hholds.creates (OrdMap.find?_insert_self _ _ _) (OrdMap.find?_erase_self _ _)
    (hsound.fileFits hR) columns

end System.Holds

/-- A table is dropped exactly if it is there and no other table refers to it. Then nothing of it is
left, the other tables only lose what they had recorded of it, and a table that is created with its
name has no row and no index. -/
theorem removal_exact {S : System} {db : String} (h : S.Reachable)
    (hdb : S.backend.catalog.databaseExists db = true) (T : String) :
    ((∃ o, (Engine.dropTable db T S.backend).1 = .ok o) ↔
      S.backend.catalog.tableExists db T = true ∧
        ∀ X t, X ≠ T → S.backend.catalog.table db X = .ok t →
          ∀ fk ∈ t.foreignKeys, fk.table ≠ T) ∧
    ∀ o b, Engine.dropTable db T S.backend = (.ok o, b) →
      S.backend.Removes db T b ∧
        ∀ columns, ((∃ o', (Engine.createTable db T columns b).1 = .ok o') ↔
            ∃ t, Table.declare T columns = .ok t) ∧
          ∀ o' b', Engine.createTable db T columns b = (.ok o', b') →
            b'.store.content.collection? db T = some ∅ ∧
              ∀ x, b'.store.content.collection? db (indexCollection T x) = none := by
  obtain ⟨W, hW⟩ := h.holds
  obtain ⟨D, hD⟩ := hW.databaseExists_iff.mp hdb
  have hsound := hW.sound.databases db D hD
  refine ⟨?_, ?_⟩
  · simp only [hW.drops_iff hD, Database.dropTable_eq_ok hsound]
    constructor
    · rintro ⟨D', R, hR, hfree, -⟩
      exact ⟨System.tableExists_of_table (hW.table_and_rows hD hR).1,
        (hW.unreferenced_iff hD hR).mp hfree⟩
    · rintro ⟨hT, hnone⟩
      obtain ⟨D', R, hD', hR⟩ := hW.tableExists_iff.mp hT
      rw [hD] at hD'
      cases hD'
      exact ⟨_, R, hR, (hW.unreferenced_iff hD hR).mpr hnone, rfl⟩
  · intro o b hrun
    exact ⟨hW.removes hD hrun, hW.recreates hD hrun⟩

/-- The table that refers to another and to itself can go, and come back with other columns. The one
that is referred to stays. -/
theorem removal_exact_referred :
    (∃ o b, Engine.dropTable "d" "c" (System.asked .inMemory referred).backend = (.ok o, b) ∧
        (System.asked .inMemory referred).backend.Removes "d" "c" b ∧
        ∃ o' b', Engine.createTable "d" "c" [("k", .int)] b = (.ok o', b') ∧
          b'.store.content.collection? "d" "c" = some ∅) ∧
      ¬ ∀ X t, X ≠ "p" →
        (System.asked .inMemory referred).backend.catalog.table "d" X = .ok t →
        ∀ fk ∈ t.foreignKeys, fk.table ≠ "p" := by
  obtain ⟨hreach, hholds⟩ := System.asked_inMemory_holds referred (by decide)
  generalize System.asked .inMemory referred = S at hreach hholds ⊢
  have hworld : ((World.asked referred).databases.find? "d").any (fun D =>
      (D.dropTable "c").isOk ∧ D.contains "p" ∧ ¬ (D.dropTable "p").isOk) = true := by
    decide +kernel
  simp only [Option.any_eq_true, decide_eq_true_eq, Except.isOk_iff] at hworld
  obtain ⟨D, hD, haccepted, hp, hrefused⟩ := hworld
  have hdb := hholds.databaseExists_iff.mpr ⟨D, hD⟩
  obtain ⟨-, heffect⟩ := removal_exact hreach hdb "c"
  obtain ⟨hlegal, -⟩ := removal_exact hreach hdb "p"
  constructor
  · obtain ⟨o, ho⟩ := (hholds.drops_iff hD).mpr haccepted
    obtain ⟨hremoves, hagain⟩ := heffect o _ (Prod.ext ho rfl)
    obtain ⟨hcreates, hempty⟩ := hagain [("k", .int)]
    obtain ⟨o', ho'⟩ := hcreates.mpr ⟨_, rfl⟩
    exact ⟨o, _, Prod.ext ho rfl, hremoves, o', _, Prod.ext ho' rfl,
      (hempty o' _ (Prod.ext ho' rfl)).1⟩
  · intro hnone
    refine hrefused ((hholds.drops_iff hD).mp (hlegal.mpr ⟨?_, hnone⟩))
    obtain ⟨R, hR⟩ := OrdMap.contains_iff.mp hp
    exact hholds.tableExists_iff.mpr ⟨D, R, hD, hR⟩

end RelStore

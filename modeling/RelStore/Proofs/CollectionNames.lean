import RelStore.Proofs.IndexUpkeep
import RelStore.Proofs.Reachability
/-! What the store has collections for. Its databases are those of the catalog, and the collections
of a database are told by its table definitions alone. -/
namespace RelStore

/-- The collection of the rows, and one for each index that has entries of its own. -/
def Table.collectionNames (t : Table) : List String :=
  t.name :: t.secondaryIndexes.map fun c => indexCollection t.name c.name

namespace Database

variable {D : Database} {T T' n : String} {R R' : Relation}

def definitions (D : Database) : List Table := D.bindings.map fun b => b.2.table

theorem mem_collectionNames_definitions :
    n ∈ D.definitions.flatMap Table.collectionNames ↔
      ∃ T R, D.find? T = some R ∧ n ∈ R.table.collectionNames := by
  rw [definitions, List.flatMap_map, List.mem_flatMap]
  constructor
  · rintro ⟨b, hb, hn⟩
    exact ⟨b.1, b.2, OrdMap.find?_eq_some_iff.mpr hb, hn⟩
  · rintro ⟨T, R, hR, hn⟩
    exact ⟨(T, R), OrdMap.find?_eq_some_iff.mp hR, hn⟩

namespace Sound

theorem collectionNames_eq (h : D.Sound) (hR : D.find? T = some R) :
    R.table.collectionNames =
      T :: R.table.secondaryIndexes.map fun c => indexCollection T c.name := by
  rw [Table.collectionNames, h.named T R hR]

/-- Two tables never need the same collection: the names of tables are valid, those of index
collections are not, and tell which table they belong to. -/
theorem eq_of_mem_collectionNames (h : D.Sound) (hR : D.find? T = some R)
    (hR' : D.find? T' = some R') (hn : n ∈ R.table.collectionNames)
    (hn' : n ∈ R'.table.collectionNames) : T = T' := by
  rw [h.collectionNames_eq hR] at hn
  rw [h.collectionNames_eq hR'] at hn'
  rcases List.mem_cons.mp hn with rfl | hn
  · rcases List.mem_cons.mp hn' with rfl | hn'
    · rfl
    · obtain ⟨c, -, he⟩ := List.mem_map.mp hn'
      exact absurd he (indexCollection_ne (h.valid hR))
  · obtain ⟨c, -, rfl⟩ := List.mem_map.mp hn
    rcases List.mem_cons.mp hn' with he | hn'
    · exact absurd he (indexCollection_ne (h.valid hR'))
    · obtain ⟨c', -, he⟩ := List.mem_map.mp hn'
      exact (indexCollection_inj (h.valid hR') (h.valid hR) he).1.symm

theorem nodup_definitions (h : D.Sound) :
    (D.definitions.flatMap Table.collectionNames).Nodup := by
  rw [definitions, List.flatMap_map, List.nodup_flatMap]
  have hfind {b : String × Relation} (hb : b ∈ D.bindings) : D.find? b.1 = some b.2 :=
    OrdMap.find?_eq_some_iff.mpr hb
  refine ⟨fun b hb => ?_, D.ascending.imp_of_mem fun {b b'} hb hb' hlt => ?_⟩
  · rw [h.collectionNames_eq (hfind hb)]
    exact nodup_collectionNames h (hfind hb)
  · intro n hn hn'
    exact OrdMap.ne_of_compare_lt hlt (h.eq_of_mem_collectionNames (hfind hb) (hfind hb') hn hn')

end Sound

end Database

namespace CollectionsOf

variable {D : Database} {cs : Collections} {n : String}

/-- While there is no table the placeholder stands alone. -/
theorem keys_of_isEmpty (h : CollectionsOf D cs) (hempty : D.isEmpty = true) :
    cs.keys = [Engine.placeholder] := by
  apply List.perm_singleton.mp
  apply (List.perm_ext_iff_of_nodup cs.nodup_keys (List.nodup_singleton _)).mpr
  intro n
  rw [List.mem_singleton, OrdMap.mem_keys, OrdMap.contains_iff]
  constructor
  · rintro ⟨coll, hn⟩
    rcases h.only n coll hn with he | ⟨R, hR⟩ | ⟨T, R, hR, -⟩
    · exact he
    · rw [OrdMap.isEmpty_iff.mp hempty n] at hR
      cases hR
    · rw [OrdMap.isEmpty_iff.mp hempty T] at hR
      cases hR
  · rintro rfl
    exact ⟨∅, by rw [h.placeholder, if_pos hempty]⟩

theorem mem_keys_iff (h : CollectionsOf D cs) (hD : D.Sound) (hne : D.isEmpty = false) :
    n ∈ cs.keys ↔ ∃ T R, D.find? T = some R ∧ n ∈ R.table.collectionNames := by
  rw [OrdMap.mem_keys, OrdMap.contains_iff]
  constructor
  · rintro ⟨coll, hn⟩
    rcases h.only n coll hn with rfl | ⟨R, hR⟩ | ⟨T, R, hR, c, hc, rfl⟩
    · rw [h.placeholder, hne] at hn
      cases hn
    · refine ⟨n, R, hR, ?_⟩
      rw [hD.collectionNames_eq hR]
      exact List.mem_cons_self
    · refine ⟨T, R, hR, ?_⟩
      rw [hD.collectionNames_eq hR]
      exact List.mem_cons_of_mem _ (List.mem_map_of_mem hc)
  · rintro ⟨T, R, hR, hn⟩
    rw [hD.collectionNames_eq hR] at hn
    rcases List.mem_cons.mp hn with rfl | hn
    · exact ⟨_, h.base n R hR⟩
    · obtain ⟨c, hc, rfl⟩ := List.mem_map.mp hn
      obtain ⟨coll, hcoll, -⟩ := h.index T R hR c hc
      exact ⟨coll, hcoll⟩

theorem keys_perm (h : CollectionsOf D cs) (hD : D.Sound) (hne : D.isEmpty = false) :
    cs.keys.Perm (D.definitions.flatMap Table.collectionNames) := by
  apply (List.perm_ext_iff_of_nodup cs.nodup_keys hD.nodup_definitions).mpr
  intro n
  rw [h.mem_keys_iff hD hne, Database.mem_collectionNames_definitions]

end CollectionsOf

namespace FolderOf

variable {D : Database} {es : OrdMap String Entry} {c : Catalog} {db : String}

/-- The listing of a folder names the tables, drafts aside. -/
theorem listTables (h : FolderOf D.tables es) (hD : D.Sound)
    (hes : c.find? db = some (.folder es)) (hdb : isValidName db = true) :
    c.listTables db = .ok D.keys := by
  rw [Catalog.listTables, Table.checkName_eq_ok.mpr hdb, Catalog.entries?_eq hes]
  refine congrArg Except.ok (OrdMap.keys_eq fun T => ?_)
  rw [Bool.eq_iff_iff, OrdSet.contains_ofList, List.mem_filterMap]
  constructor
  · rintro ⟨file, hfile, hT⟩
    obtain ⟨-, rfl⟩ := Catalog.tableOfFile?_eq_some.mp hT
    rw [OrdMap.mem_keys, OrdMap.contains, h.files, Option.isSome_map, Database.tables,
      Option.isSome_map] at hfile
    exact hfile
  · intro hT
    obtain ⟨R, hR⟩ := OrdMap.contains_iff.mp hT
    refine ⟨Catalog.tableFile T, ?_,
      Catalog.tableOfFile?_eq_some.mpr ⟨ne_empty_of_isValidName (hD.valid hR), rfl⟩⟩
    rw [OrdMap.mem_keys, OrdMap.contains, h.files, Option.isSome_map, Database.tables,
      Option.isSome_map]
    exact hT

end FolderOf

namespace System

variable {S : System} {W : World} {db : String} {D : Database}

theorem Holds.catalog_keys (h : S.Holds W) : S.backend.catalog.keys = W.databases.keys := by
  apply OrdMap.keys_eq_of_find? h.backend.noFolder
  intro db D hD
  obtain ⟨es, hes, -⟩ := h.backend.folder db D hD
  exact ⟨_, hes⟩

theorem Holds.content_keys (h : S.Holds W) : S.backend.store.content.keys = W.databases.keys := by
  apply OrdMap.keys_eq_of_find? h.backend.noCollections
  intro db D hD
  obtain ⟨cs, hcs, -⟩ := h.backend.collections db D hD
  exact ⟨cs, hcs⟩

/-- No database of the store is hidden for want of collections. -/
theorem Holds.databases_eq (h : S.Holds W) :
    S.backend.store.content.databases = S.backend.store.content.keys := by
  rw [Content.databases, OrdMap.keys, List.filter_eq_self.mpr]
  intro b hb
  have hb := OrdMap.find?_eq_some_iff.mpr hb
  cases hD : W.databases.find? b.1 with
  | none =>
    rw [h.backend.noCollections b.1 hD] at hb
    cases hb
  | some D =>
    obtain ⟨cs, hcs, hcollections⟩ := h.backend.collections b.1 D hD
    rw [hb] at hcs
    cases hcs
    rw [hcollections.nonempty]
    rfl

theorem Holds.listTables (h : S.Holds W) (hD : W.databases.find? db = some D) :
    S.backend.catalog.listTables db = .ok D.keys := by
  obtain ⟨es, cs, hstores⟩ := h.backend.stores hD
  exact hstores.folder.listTables (h.sound.databases db D hD) hstores.entries
    (h.sound.names db D hD)

theorem Holds.definitions (h : S.Holds W) (hD : W.databases.find? db = some D) :
    D.keys.mapM (S.backend.catalog.table db) = .ok D.definitions := by
  rw [mapM_eq_ok_iff, OrdMap.keys, Database.definitions, List.forall₂_map_left_iff,
    List.forall₂_map_right_iff, List.forall₂_same]
  intro b hb
  exact (h.table_and_rows hD (OrdMap.find?_eq_some_iff.mpr hb)).1

end System

/-- Whatever was asked for, the store has the databases of the catalog; one without tables has the
empty placeholder and nothing else, and any other the collections that its tables need, each once.
The names of collections say what they are for. -/
theorem store_names_catalog {S : System} (h : S.Reachable) :
    (S.backend.store.content.databases = S.backend.catalog.keys ∧
      S.backend.store.content.keys = S.backend.catalog.keys ∧
      ∀ db, S.backend.catalog.databaseExists db = true ↔ db ∈ S.backend.catalog.keys) ∧
    (∀ db ∈ S.backend.catalog.keys, ∃ names tables,
      S.backend.catalog.listTables db = .ok names ∧
      names.mapM (S.backend.catalog.table db) = .ok tables ∧
      (names = [] → S.backend.store.content.collections db = [Engine.placeholder] ∧
        S.backend.store.content.collection? db Engine.placeholder = some ∅) ∧
      (names ≠ [] → (S.backend.store.content.collections db).Perm
        (tables.flatMap Table.collectionNames))) ∧
    (∀ T c T' c', isValidName T = true → isValidName c = true → isValidName T' = true →
      isValidName c' = true → indexCollection T c = indexCollection T' c' → T = T' ∧ c = c') ∧
    ∀ T c, isValidName (indexCollection T c) = false ∧ indexCollection T c ≠ Engine.placeholder := by
  obtain ⟨W, hW⟩ := h.holds
  refine ⟨⟨?_, ?_, fun db => ?_⟩, fun db hdb => ?_, ?_, fun T c => ⟨?_, ?_⟩⟩
  · rw [hW.databases_eq, hW.content_keys, hW.catalog_keys]
  · rw [hW.content_keys, hW.catalog_keys]
  · rw [hW.databaseExists_eq, hW.catalog_keys, OrdMap.mem_keys]
  · rw [hW.catalog_keys, OrdMap.mem_keys] at hdb
    obtain ⟨D, hD⟩ := OrdMap.contains_iff.mp hdb
    have hsound := hW.sound.databases db D hD
    obtain ⟨cs, hcs, hcollections⟩ := hW.backend.collections db D hD
    have hnames : D.keys = [] ↔ D.isEmpty = true := by
      rw [OrdMap.keys, List.map_eq_nil_iff, OrdMap.isEmpty, List.isEmpty_iff]
    refine ⟨D.keys, D.definitions, hW.listTables hD, hW.definitions hD, fun hnil => ?_,
      fun hne => ?_⟩
    · rw [hnames] at hnil
      rw [Content.collections, hcs, Content.collection?_eq hcs, hcollections.placeholder, if_pos hnil]
      exact ⟨hcollections.keys_of_isEmpty hnil, rfl⟩
    · rw [Ne, hnames, Bool.not_eq_true] at hne
      rw [Content.collections, hcs]
      exact hcollections.keys_perm hsound hne
  · exact fun T c T' c' hT _ hT' _ he => indexCollection_inj hT hT' he
  · exact Bool.eq_false_iff.mpr fun hvalid => indexCollection_ne hvalid rfl
  · exact indexCollection_ne_placeholder

/-- One session drops the database that another has selected, and the other asks for a table there;
then one database gets tables, with an index, and another loses its only one. -/
def deserted : List (Nat × String) :=
  [(0, "2 4 d"), (1, "7 d"), (0, "3 4 d"), (1, "2 5 t 29 id"), (0, "2 4 e"), (0, "2 4 f"), (0, "7 e"),
    (0, "2 5 t 29 id 29 a 29 b"), (0, "2 5 u 29 id"), (0, "10 6 t a"), (1, "7 f"),
    (1, "2 5 v 29 id"), (1, "3 5 v")]

theorem store_names_catalog_deserted :
    let content := (System.asked .inMemory deserted).backend.store.content
    content.databases = ["e", "f"] ∧ content.collections "f" = ["database created"] ∧
      (content.collections "e").Perm ["t", "index_t.a", "u"] := by
  intro content
  obtain ⟨hreach, hholds⟩ := System.asked_inMemory_holds deserted (by decide)
  obtain ⟨⟨hdatabases, -, -⟩, hwithin, -⟩ := store_names_catalog hreach
  have hkeys : (System.asked .inMemory deserted).backend.catalog.keys = ["e", "f"] := by
    rw [hholds.catalog_keys]
    decide +kernel
  rw [hkeys] at hdatabases hwithin
  have hused : ((World.asked deserted).databases.find? "e").map (fun D =>
      (D.keys, D.definitions.flatMap Table.collectionNames)) =
        some (["t", "u"], ["t", "index_t.a", "u"]) := by decide +kernel
  have hbare : ((World.asked deserted).databases.find? "f").map OrdMap.keys = some [] := by
    decide +kernel
  refine ⟨hdatabases, ?_, ?_⟩
  · obtain ⟨D, hD, hnil⟩ := Option.map_eq_some_iff.mp hbare
    obtain ⟨names, tables, hnames, -, hplaceholder, -⟩ := hwithin "f" (by decide)
    rw [hholds.listTables hD, hnil] at hnames
    cases hnames
    exact (hplaceholder rfl).1
  · obtain ⟨D, hD, hboth⟩ := Option.map_eq_some_iff.mp hused
    obtain ⟨hkeys, hneeds⟩ := Prod.mk.inj hboth
    obtain ⟨names, tables, hnames, htables, -, hperm⟩ := hwithin "e" (by decide)
    rw [hholds.listTables hD] at hnames
    cases hnames
    rw [hholds.definitions hD] at htables
    cases htables
    rw [hneeds, hkeys] at hperm
    exact hperm (by decide)

end RelStore

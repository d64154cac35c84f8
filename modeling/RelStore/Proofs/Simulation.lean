import RelStore.Proofs.Operations
import RelStore.Proofs.Requests
import RelStore.Proofs.Selection
/-! The backend simulates the databases: every command of a session is answered as for the relations
it works on, and leaves a backend that holds them. -/
namespace RelStore

open Backend (Models Stores Shows Changed onCatalog_run onStore_run getContent_run)

/-- Named databases that are sound. -/
structure Databases.Sound (w : Databases) : Prop where
  names : ∀ db D, w.find? db = some D → isValidName db = true
  databases : ∀ db D, w.find? db = some D → D.Sound

/-- The response is that of the databases, and the backend holds them. -/
def Answered (o : Outcome) (answer : Response × Databases) (b : Backend) : Prop :=
  o.response = answer.1 ∧ b.Models answer.2

namespace Backend.Models

variable {b b' : Backend} {w : Databases} {db : String} {D : Database}

theorem stores (h : b.Models w) (hD : w.find? db = some D) :
    ∃ es cs, b.Stores b.catalog b.store.content db D es cs := by
  obtain ⟨es, hes, hfolder⟩ := h.folder db D hD
  obtain ⟨cs, hcs, hcollections⟩ := h.collections db D hD
  refine ⟨es, cs, (OrdMap.insert_eq_self hes).symm, hfolder, ⟨?_, h.reliable⟩, hcollections⟩
  exact (Content.set_self hcs hcollections.nonempty).symm

/-- One database is put into place, and the others stay. -/
theorem of_shows (h : b.Models w) (hb : Shows b.catalog b.store.content db D b') :
    b'.Models (w.insert db D) := by
  have hothers := hb.changesWithin
  obtain ⟨es, cs, hstores⟩ := hb
  have hnone {X : String} (hX : (w.insert db D).find? X = none) : X ≠ db ∧ w.find? X = none := by
    have hne : X ≠ db := by
      rintro rfl
      rw [OrdMap.find?_insert_self] at hX
      cases hX
    rw [OrdMap.find?_insert_of_ne hne] at hX
    exact ⟨hne, hX⟩
  refine ⟨fun X hX => ?_, fun X hX => ?_, fun X E hE => ?_, fun X E hE => ?_,
    hstores.store.reliable⟩
  · obtain ⟨hne, hX⟩ := hnone hX
    rw [hothers.catalog X hne, h.noFolder X hX]
  · obtain ⟨hne, hX⟩ := hnone hX
    rw [hothers.content X hne, h.noCollections X hX]
  · by_cases hX : X = db
    · subst hX
      rw [OrdMap.find?_insert_self] at hE
      cases hE
      exact ⟨es, hstores.entries, hstores.folder⟩
    · rw [OrdMap.find?_insert_of_ne hX] at hE
      rw [hothers.catalog X hX]
      exact h.folder X E hE
  · by_cases hX : X = db
    · subst hX
      rw [OrdMap.find?_insert_self] at hE
      cases hE
      exact ⟨cs, hstores.content, hstores.collections⟩
    · rw [OrdMap.find?_insert_of_ne hX] at hE
      rw [hothers.content X hX]
      exact h.collections X E hE

theorem of_shows_same (h : b.Models w) (hD : w.find? db = some D)
    (hb : Shows b.catalog b.store.content db D b') : b'.Models w := by
  have := h.of_shows hb
  rwa [OrdMap.insert_eq_self hD] at this

theorem of_leaves (h : b.Models w) {c : Command} (hb : c.Leaves b b') : b'.Models w := by
  cases hb with
  | unchanged => exact h
  | @draft T X columns es text long folder =>
    cases hD : w.find? X with
    | none =>
      rw [h.noFolder X hD] at folder
      cases folder
    | some D =>
      obtain ⟨es', cs, hstores⟩ := h.stores hD
      rw [hstores.entries] at folder
      cases folder
      exact h.of_shows_same hD
        ⟨_, cs, rfl, hstores.folder.draft text, hstores.store, hstores.collections⟩

theorem requireDatabase_error (h : b.Models w) (hdb : w.find? db = none) :
    Engine.requireDatabase db b = (.error (.databaseNotFound db), b) := by
  have hnot : b.catalog.databaseExists db = false := by
    rw [Catalog.databaseExists, Catalog.entries?, h.noFolder db hdb]
    exact Bool.and_false _
  simp only [Engine.requireDatabase, Step.bind_run, Step.get_run, hnot, Bool.not_false, if_true,
    Step.throw_run]

theorem erased (h : b.Models w) {s' : Store} (hs : s'.At b.store.content db ∅) :
    Models ⟨b.catalog.erase db, s'⟩ (w.erase db) := by
  have hcontent {X : String} (hX : X ≠ db) : s'.content.find? X = b.store.content.find? X := by
    rw [hs.content, Content.find?_set_of_ne hX]
  have hsome {X : String} {E : Database} (hE : (w.erase db).find? X = some E) :
      X ≠ db ∧ w.find? X = some E := by
    have hne : X ≠ db := by
      rintro rfl
      rw [OrdMap.find?_erase_self] at hE
      cases hE
    rw [OrdMap.find?_erase_of_ne hne] at hE
    exact ⟨hne, hE⟩
  refine ⟨fun X hX => ?_, fun X hX => ?_, fun X E hE => ?_, fun X E hE => ?_, hs.reliable⟩
  · by_cases hne : X = db
    · rw [hne, OrdMap.find?_erase_self]
    · rw [OrdMap.find?_erase_of_ne hne] at hX ⊢
      exact h.noFolder X hX
  · by_cases hne : X = db
    · rw [hne, hs.content, Content.find?_set_self]
      rfl
    · rw [OrdMap.find?_erase_of_ne hne] at hX
      rw [hcontent hne, h.noCollections X hX]
  · obtain ⟨hne, hE⟩ := hsome hE
    rw [OrdMap.find?_erase_of_ne hne]
    exact h.folder X E hE
  · obtain ⟨hne, hE⟩ := hsome hE
    rw [hcontent hne]
    exact h.collections X E hE

theorem mem_databases (h : b.Models w) :
    db ∈ b.store.content.databases ↔ w.contains db = true := by
  rw [OrdMap.contains_iff, Content.databases, List.mem_map]
  constructor
  · rintro ⟨⟨n, cs⟩, hm, rfl⟩
    have hfind := OrdMap.find?_eq_some_iff.mpr (List.mem_filter.mp hm).1
    cases hn : w.find? n with
    | some D => exact ⟨D, rfl⟩
    | none =>
      rw [h.noCollections n hn] at hfind
      cases hfind
  · rintro ⟨D, hD⟩
    obtain ⟨cs, hcs, hcollections⟩ := h.collections db D hD
    refine ⟨(db, cs), List.mem_filter.mpr ⟨OrdMap.find?_eq_some_iff.mp hcs, ?_⟩, rfl⟩
    simp [hcollections.nonempty]

end Backend.Models

theorem CollectionsOf.fresh :
    CollectionsOf ∅ ((∅ : Collections).insert Engine.placeholder ∅) where
  placeholder := OrdMap.find?_insert_self _ _ _
  base := fun T R hR => (nomatch hR)
  index := fun T R hR => (nomatch hR)
  only := by
    intro n coll hn
    by_cases hp : n = Engine.placeholder
    · exact .inl hp
    · rw [OrdMap.find?_insert_of_ne hp] at hn
      cases hn

theorem FolderOf.fresh : FolderOf (Database.tables ∅) ∅ :=
  ⟨fun _ => rfl, fun _ he => (nomatch he)⟩

namespace Engine

variable {b : Backend} {w : Databases} {n : String}

theorem createDatabase_refines (h : b.Models w) :
    Refines (createDatabase n) b (do
        if w.contains n then throw (.databaseAlreadyExists n)
        checkName n
        if !Catalog.nameFits n then throw (.io "File name too long")
        return (Response.done, w.insert n ∅)) Answered (· = b) := by
  refine .step getContent_run (.guard h.mem_databases rfl fun hn => ?_)
  have hnone : w.find? n = none := OrdMap.contains_eq_false_iff.mp (by simpa using hn)
  have hcat : b.catalog.contains n = false :=
    OrdMap.contains_eq_false_iff.mpr (h.noFolder n hnone)
  cases hname : checkName n with
  | error e =>
    refine .of_error (onCatalog_run ?_) rfl
    rw [Catalog.createDatabase, hname]
    rfl
  | ok _ =>
    rw [Except.ok_bind]
    by_cases hfits : Catalog.nameFits n = true
    · obtain ⟨s', hcreate, hs'⟩ := Store.createCollection_at
        ⟨(Content.set_empty (h.noCollections n hnone)).symm, h.reliable⟩
        (OrdMap.find?_empty placeholder)
      have hrun : Catalog.createDatabase n b.catalog = (.ok (), b.catalog.insert n (.folder ∅)) := by
        simp only [Catalog.createDatabase, hname, Step.bind_run, Step.lift_run, Step.get_run, hcat,
          Bool.false_eq_true, if_false, Catalog.makeFolder, hfits, if_true, Step.modify_run]
      rw [hfits]
      refine .step (onCatalog_run hrun) (.step (onStore_run hcreate) (.pure ⟨rfl, ?_⟩))
      exact h.of_shows ⟨∅, _, rfl, .fresh, hs', .fresh⟩
    · rw [Bool.not_eq_true] at hfits
      rw [hfits]
      refine .of_error (k := fun _ : Unit => _) (onCatalog_run ?_) rfl
      simp only [Catalog.createDatabase, hname, Step.bind_run, Step.lift_run, Step.get_run, hcat,
        Bool.false_eq_true, if_false, Catalog.makeFolder, hfits, Step.throw_run]

theorem dropDatabase_refines (h : b.Models w) :
    Refines (dropDatabase n) b (do
        checkName n
        let _ ← w.database n
        return (Response.done, w.erase n)) Answered (· = b) := by
  cases hname : checkName n with
  | error e =>
    refine .of_error (onCatalog_run ?_) rfl
    rw [Catalog.dropDatabase, hname]
    rfl
  | ok _ =>
    rw [Except.ok_bind, Databases.database]
    cases hD : w.find? n with
    | none =>
      refine .of_error (onCatalog_run ?_) rfl
      have hentries : b.catalog.entries? n = none := by rw [Catalog.entries?, h.noFolder n hD]
      simp only [Catalog.dropDatabase, hname, Step.bind_run, Step.lift_run, Step.get_run, hentries,
        Option.isNone_none, if_true, Step.throw_run]
    | some D =>
      obtain ⟨es, cs, hstores⟩ := h.stores hD
      obtain ⟨s', hdrop, hs'⟩ := Store.dropDatabase_at hstores.store hstores.collections.nonempty
      have hrun := Catalog.dropDatabase_run
        (hstores.databaseExists (Table.checkName_eq_ok.mp hname))
      exact .step (onCatalog_run hrun) (.step (onStore_run hdrop) (.pure ⟨rfl, h.erased hs'⟩))

theorem useDatabase_refines (h : b.Models w) (hw : w.Sound) :
    Refines (useDatabase n) b (do
        let _ ← w.database n
        return (Response.done, w)) Answered (· = b) := by
  rw [Databases.database]
  cases hD : w.find? n with
  | none => exact .of_error (h.requireDatabase_error hD) rfl
  | some D =>
    obtain ⟨es, cs, hstores⟩ := h.stores hD
    exact .step (hstores.requireDatabase_run (hw.names n D hD)) (.pure ⟨rfl, h⟩)

end Engine

theorem Refines.leaves {α β : Type} {x : Step Backend α} {b : Backend} {r : Except Error β}
    {done : α → β → Backend → Prop} {c : Command} (h : Refines x b r done (· = b)) :
    Refines x b r done (c.Leaves b) :=
  h.imp (fun _ _ _ _ => id) fun _ hb => hb ▸ .unchanged c

namespace Session

variable {b : Backend} {w : Databases} {s : Session}

/-- An operation in the selected database, which has to exist. -/
theorem selected_refines {α : Type} (s : Session) {op : String → Step Backend Outcome}
    {meaning : Database → Except Error α} (answer : String → α → Response × Databases)
    {kept : Backend → Prop} (h : b.Models w) (hb : kept b)
    (hrequire : ∀ db e, Engine.requireDatabase db b = (.error e, b) → op db b = (.error e, b))
    (hop : ∀ db D es cs, w.find? db = some D → b.Stores b.catalog b.store.content db D es cs →
      Refines (op db) b (meaning D) (fun o x b' => Answered o (answer db x) b') kept) :
    Refines (do op (← s.selected)) b (do
        let db ← s.selected
        let x ← meaning (← w.database db)
        return answer db x) Answered kept := by
  refine .check hb fun db _ => ?_
  rw [Databases.database]
  cases hD : w.find? db with
  | none => exact ⟨b, hrequire db _ (h.requireDatabase_error hD), hb⟩
  | some D =>
    obtain ⟨es, cs, hstores⟩ := h.stores hD
    have hrefines := hop db D es cs hD hstores
    rw [Except.ok_bind]
    cases hx : meaning D with
    | error e =>
      rw [hx] at hrefines
      exact hrefines
    | ok x =>
      rw [hx] at hrefines
      exact hrefines

theorem change_refines {op : String → Step Backend Outcome}
    {change : Database → Except Error Database} {kept : Backend → Prop} (h : b.Models w)
    (hw : w.Sound) (hb : kept b)
    (hrequire : ∀ db e, Engine.requireDatabase db b = (.error e, b) → op db b = (.error e, b))
    (hop : ∀ db D es cs, isValidName db = true → D.Sound →
      b.Stores b.catalog b.store.content db D es cs →
      Refines (op db) b (change D) (Changed b.catalog b.store.content db) kept) :
    Refines (do op (← s.selected)) b (w.change s change) Answered kept := by
  refine selected_refines s (fun db D => (.done, w.insert db D)) h hb hrequire
    fun db D es cs hD hstores => ?_
  refine (hop db D es cs (hw.names db D hD) (hw.databases db D hD) hstores).imp ?_ fun _ => id
  exact fun o D' b' _ hdone => ⟨hdone.1, h.of_shows hdone.2⟩

theorem run_refines (h : b.Models w) (hw : w.Sound) {c : Command} (hc : c.Feasible) :
    Refines (s.run c) b (w.run s c) Answered (c.Leaves b) := by
  cases c with
  | createDatabase n => exact .leaves (Engine.createDatabase_refines h)
  | dropDatabase n => exact .leaves (Engine.dropDatabase_refines h)
  | useDatabase n => exact .leaves (Engine.useDatabase_refines h hw)
  | createTable n columns =>
    exact change_refines h hw (.unchanged _) (fun db e he => Step.bind_run_error he)
      fun db D es cs hdb hD hs => Engine.createTable_refines hs hD hdb
  | dropTable n =>
    exact .leaves (change_refines h hw rfl (fun db e he => Step.bind_run_error he)
      fun db D es cs hdb hD hs => Engine.dropTable_refines hs hD hdb)
  | insert t values =>
    exact .leaves (change_refines h hw rfl (fun db e he => Step.bind_run_error he)
      fun db D es cs hdb hD hs => Engine.insert_refines hs hD hdb)
  | delete t id =>
    exact .leaves (change_refines h hw rfl (fun db e he => Step.bind_run_error he)
      fun db D es cs hdb hD hs => Engine.delete_refines hs hD hdb)
  | addPrimaryKey t c =>
    exact .leaves (change_refines h hw rfl (fun db e he => Step.bind_run_error he)
      fun db D es cs hdb hD hs => Engine.addPrimaryKey_refines hs hD hdb)
  | addForeignKey t c p pc =>
    exact .leaves (change_refines h hw rfl (fun db e he => Step.bind_run_error he)
      fun db D es cs hdb hD hs => Engine.addForeignKey_refines hs hD hdb)
  | addUnique t c =>
    exact .leaves (change_refines h hw rfl (fun db e he => Step.bind_run_error he)
      fun db D es cs hdb hD hs => Engine.addUnique_refines hs hD hdb)
  | addIndex t c =>
    exact .leaves (change_refines h hw rfl (fun db e he => Step.bind_run_error he)
      fun db D es cs hdb hD hs => Engine.addIndex_refines hs hD hdb)
  | select t projection predicates =>
    have hsame : w.run s (.select t projection predicates) = (do
        let db ← s.selected
        let x ← (← w.database db).relation t >>= fun R => R.select projection predicates
        return (.table x.1 (x.2.map fun row => row.map Value.text), w)) := by
      simp only [Databases.run, bind_assoc]
    rw [hsame]
    refine selected_refines s (fun _ (x : List String × List (List Value)) =>
      (.table x.1 (x.2.map fun row => row.map Value.text), w)) h (Command.Leaves.unchanged _)
      (fun db e he => Step.bind_run_error he) fun db D es cs hD hs => ?_
    have hrefines := Engine.select_refines hs (hw.databases db D hD) (hw.names db D hD) t
      projection predicates
    refine .leaves (hrefines.imp ?_ fun _ => id)
    rintro o x b' - ⟨rfl, rfl⟩
    exact ⟨rfl, h⟩

end Session

end RelStore

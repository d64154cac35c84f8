import RelStore.Proofs.Simulation
/-! Any number of sessions on one backend. Whatever they ask for, in whatever order, the backend
holds sound databases. -/
namespace RelStore

namespace Databases

variable {w w' : Databases} {s : Session} {n : String} {D : Database}

theorem Sound.empty : Sound ∅ := ⟨fun _ _ h => (nomatch h), fun _ _ h => (nomatch h)⟩

theorem Sound.insert (h : w.Sound) (hn : isValidName n = true) (hD : D.Sound) :
    Sound (w.insert n D) := by
  refine ⟨fun X E hE => ?_, fun X E hE => ?_⟩
  · by_cases hX : X = n
    · exact hX ▸ hn
    · rw [OrdMap.find?_insert_of_ne hX] at hE
      exact h.names X E hE
  · by_cases hX : X = n
    · subst hX
      rw [OrdMap.find?_insert_self] at hE
      cases hE
      exact hD
    · rw [OrdMap.find?_insert_of_ne hX] at hE
      exact h.databases X E hE

theorem Sound.erase (h : w.Sound) (n : String) : Sound (w.erase n) := by
  have hold {X : String} {E : Database} (hE : (w.erase n).find? X = some E) : w.find? X = some E := by
    by_cases hX : X = n
    · rw [hX, OrdMap.find?_erase_self] at hE
      cases hE
    · rwa [OrdMap.find?_erase_of_ne hX] at hE
  exact ⟨fun X E hE => h.names X E (hold hE), fun X E hE => h.databases X E (hold hE)⟩

theorem of_database {db : String} (h : w.database db = .ok D) : w.find? db = some D := by
  rw [database] at h
  split at h
  · next hD =>
    cases h
    exact hD
  · cases h

theorem of_createDatabase {answer : Response × Databases}
    (ha : w.run s (.createDatabase n) = .ok answer) :
    isValidName n = true ∧ answer = (.done, w.insert n ∅) := by
  by_cases hn : w.contains n = true
  · rw [Databases.run, if_pos hn] at ha
    cases ha
  · rw [Databases.run, if_neg hn] at ha
    obtain ⟨⟨⟩, hname, ha⟩ := Except.bind_eq_ok.mp ha
    by_cases hfits : Catalog.nameFits n = true
    · rw [hfits] at ha
      cases ha
      exact ⟨Table.checkName_eq_ok.mp hname, rfl⟩
    · rw [Bool.not_eq_true] at hfits
      rw [hfits] at ha
      cases ha

theorem Sound.change {op : Database → Except Error Database} {answer : Response × Databases}
    (h : w.Sound) (hop : ∀ D D', D.Sound → op D = .ok D' → D'.Sound)
    (ha : w.change s op = .ok answer) : answer.2.Sound := by
  obtain ⟨db, -, ha⟩ := Except.bind_eq_ok.mp ha
  obtain ⟨D, hD, ha⟩ := Except.bind_eq_ok.mp ha
  obtain ⟨D', hD', he⟩ := Except.bind_eq_ok.mp ha
  cases he
  have hfind := of_database hD
  exact h.insert (h.names db D hfind) (hop D D' (h.databases db D hfind) hD')

theorem Sound.run {c : Command} {answer : Response × Databases} (h : w.Sound) (hc : c.Feasible)
    (ha : w.run s c = .ok answer) : answer.2.Sound := by
  cases c with
  | createDatabase n =>
    obtain ⟨hname, rfl⟩ := of_createDatabase ha
    exact h.insert hname .empty
  | dropDatabase n =>
    obtain ⟨⟨⟩, -, ha⟩ := Except.bind_eq_ok.mp ha
    obtain ⟨D, -, he⟩ := Except.bind_eq_ok.mp ha
    cases he
    exact h.erase n
  | useDatabase n =>
    obtain ⟨D, -, he⟩ := Except.bind_eq_ok.mp ha
    cases he
    exact h
  | createTable n columns => exact h.change (fun D D' hD hi => hD.createTable hc hi) ha
  | dropTable n => exact h.change (fun D D' hD hi => hD.dropTable hi) ha
  | insert t values => exact h.change (fun D D' hD hi => hD.insertRow hc hi) ha
  | delete t id => exact h.change (fun D D' hD hi => hD.deleteRow hi) ha
  | addPrimaryKey t c => exact h.change (fun D D' hD hi => hD.addPrimaryKey hi) ha
  | addForeignKey t c p pc => exact h.change (fun D D' hD hi => hD.addForeignKey hi) ha
  | addUnique t c => exact h.change (fun D D' hD hi => hD.addUnique hi) ha
  | addIndex t c => exact h.change (fun D D' hD hi => hD.addIndex hi) ha
  | select t projection predicates =>
    obtain ⟨db, -, ha⟩ := Except.bind_eq_ok.mp ha
    obtain ⟨D, -, ha⟩ := Except.bind_eq_ok.mp ha
    obtain ⟨R, -, ha⟩ := Except.bind_eq_ok.mp ha
    obtain ⟨⟨columns, rows⟩, -, he⟩ := Except.bind_eq_ok.mp ha
    cases he
    exact h

end Databases

/-- How a request is answered, and what it leaves, for databases. -/
def Databases.handle (w : Databases) (s : Session) (request : String) :
    Response × Databases × Session :=
  match Command.decode request with
  | .error e => (.ofError e, w, s)
  | .ok c =>
    match w.run s c with
    | .ok (response, w) => (response, w, s.after c)
    | .error e => (.ofError e, w, s)

theorem Databases.Sound.handle {w : Databases} {s : Session} {request : String} (h : w.Sound)
    (hsize : request.utf8ByteSize < 2 ^ 63) : (w.handle s request).2.1.Sound := by
  rw [Databases.handle]
  cases hc : Command.decode request with
  | error e => exact h
  | ok c =>
    cases ha : w.run s c with
    | error e =>
      simp only [ha]
      exact h
    | ok answer =>
      simp only [ha]
      exact h.run (Command.feasible_of_decode hsize hc) ha

/-- A request is answered as for the databases that the backend holds. -/
theorem Service.handleRequest_eq {b : Backend} {w : Databases} {s : Session} {request : String}
    (h : b.Models w) (hw : w.Sound) (hsize : request.utf8ByteSize < 2 ^ 63) :
    ∃ b', handleRequest ⟨b, s⟩ request =
        ((w.handle s request).1, ⟨b', (w.handle s request).2.2⟩) ∧
      b'.Models (w.handle s request).2.1 := by
  rw [handleRequest, Databases.handle]
  cases hc : Command.decode request with
  | error e => exact ⟨b, rfl, h⟩
  | ok c =>
    have hrun := Session.run_refines (s := s) h hw (Command.feasible_of_decode hsize hc)
    cases ha : w.run s c with
    | error e =>
      rw [ha] at hrun
      obtain ⟨b', hb', hleaves⟩ := hrun
      refine ⟨b', ?_, by simpa only [ha] using h.of_leaves hleaves⟩
      simp only [execute, hb', ha]
    | ok answer =>
      rw [ha] at hrun
      obtain ⟨o, b', hb', hresponse, hmodels⟩ := hrun
      refine ⟨b', ?_, by simpa only [ha] using hmodels⟩
      simp only [execute, hb', ha, hresponse]

/-- Sessions on one backend. -/
structure System where
  backend : Backend
  sessions : Nat → Session

/-- What the sessions see of it: databases, without files, collections and indexes. -/
structure World where
  databases : Databases
  sessions : Nat → Session

namespace World

def handle (W : World) (i : Nat) (request : String) : Response × World :=
  let (response, w, s) := W.databases.handle (W.sessions i) request
  (response, ⟨w, Function.update W.sessions i s⟩)

def asked (requests : List (Nat × String)) : World :=
  requests.foldl (fun W r => (W.handle r.1 r.2).2) ⟨∅, fun _ => .fresh⟩

def hasTable (W : World) (db T : String) : Bool :=
  (W.databases.find? db).any fun D => D.contains T

end World

namespace System

/-- Nothing has been asked for, and no session has a database. -/
def initial (store : Store) : System := ⟨⟨∅, store⟩, fun _ => .fresh⟩

def handle (S : System) (i : Nat) (request : String) : Response × System :=
  let (response, service) := Service.handleRequest ⟨S.backend, S.sessions i⟩ request
  (response, ⟨service.backend, Function.update S.sessions i service.session⟩)

/-- Requests by several sessions, one after another. -/
def asked (store : Store) (requests : List (Nat × String)) : System :=
  requests.foldl (fun S r => (S.handle r.1 r.2).2) (initial store)

/-- From an empty catalog and an empty store whose saves succeed, by requests of the sessions. A text
in memory has fewer than 2^63 bytes. -/
inductive Reachable : System → Prop where
  | initial {store : Store} (empty : store.content = ∅) (reliable : store.Reliable) :
    Reachable (initial store)
  | handle {S : System} {request : String} (h : Reachable S) (i : Nat)
    (size : request.utf8ByteSize < 2 ^ 63) : Reachable (S.handle i request).2

structure Holds (S : System) (W : World) : Prop where
  backend : S.backend.Models W.databases
  sessions : S.sessions = W.sessions
  sound : W.databases.Sound

variable {S : System} {W : World} {store : Store} {request db T : String}
  {requests : List (Nat × String)}

theorem Holds.initial (empty : store.content = ∅) (reliable : store.Reliable) :
    (initial store).Holds ⟨∅, fun _ => .fresh⟩ where
  backend := by
    refine ⟨fun _ _ => rfl, fun X _ => ?_, fun _ _ hD => (nomatch hD), fun _ _ hD => (nomatch hD),
      reliable⟩
    show store.content.find? X = none
    rw [empty]
    rfl
  sessions := rfl
  sound := .empty

/-- A request is answered as the world answers it, and leads to its next state. -/
theorem Holds.handle (h : S.Holds W) (i : Nat) (size : request.utf8ByteSize < 2 ^ 63) :
    (S.handle i request).1 = (W.handle i request).1 ∧
      (S.handle i request).2.Holds (W.handle i request).2 := by
  obtain ⟨b', hb', hmodels⟩ := Service.handleRequest_eq (s := S.sessions i) h.backend h.sound size
  rw [System.handle, World.handle, hb', ← h.sessions]
  exact ⟨rfl, hmodels, rfl, h.sound.handle size⟩

theorem Reachable.holds (h : Reachable S) : ∃ W, S.Holds W := by
  induction h with
  | initial empty reliable => exact ⟨_, .initial empty reliable⟩
  | handle _ i size ih =>
    obtain ⟨W, hW⟩ := ih
    exact ⟨_, (hW.handle i size).2⟩

theorem asked_holds (store : Store) (requests : List (Nat × String)) (empty : store.content = ∅)
    (reliable : store.Reliable) (size : ∀ r ∈ requests, r.2.utf8ByteSize < 2 ^ 63) :
    Reachable (asked store requests) ∧ (asked store requests).Holds (World.asked requests) := by
  have hfrom {S : System} {W : World} (hS : Reachable S) (hW : S.Holds W) :
      Reachable (requests.foldl (fun S r => (S.handle r.1 r.2).2) S) ∧
        Holds (requests.foldl (fun S r => (S.handle r.1 r.2).2) S)
          (requests.foldl (fun W r => (W.handle r.1 r.2).2) W) := by
    induction requests generalizing S W with
    | nil => exact ⟨hS, hW⟩
    | cons r requests ih =>
      obtain ⟨hr, hrest⟩ := List.forall_mem_cons.mp size
      exact ih hrest (hS.handle r.1 hr) (hW.handle r.1 hr).2
  exact hfrom (.initial empty reliable) (.initial empty reliable)

theorem asked_inMemory_holds (requests : List (Nat × String))
    (size : ∀ r ∈ requests, r.2.utf8ByteSize < 2 ^ 63) :
    Reachable (asked .inMemory requests) ∧
      (asked .inMemory requests).Holds (World.asked requests) :=
  asked_holds .inMemory requests rfl (fun _ hm => (nomatch hm)) size

theorem Holds.databaseExists_eq (h : S.Holds W) :
    S.backend.catalog.databaseExists db = W.databases.contains db := by
  cases hD : W.databases.find? db with
  | none =>
    rw [Catalog.databaseExists, Catalog.entries?, h.backend.noFolder db hD, OrdMap.contains, hD]
    exact Bool.and_false _
  | some D =>
    obtain ⟨es, cs, hstores⟩ := h.backend.stores hD
    rw [hstores.databaseExists (h.sound.names db D hD), OrdMap.contains, hD]
    rfl

theorem Holds.databaseExists_iff (h : S.Holds W) :
    S.backend.catalog.databaseExists db = true ↔ ∃ D, W.databases.find? db = some D := by
  rw [h.databaseExists_eq, OrdMap.contains_iff]

theorem Holds.tableExists_eq (h : S.Holds W) :
    S.backend.catalog.tableExists db T = W.hasTable db T := by
  rw [World.hasTable]
  cases hD : W.databases.find? db with
  | none =>
    rw [Catalog.tableExists, Catalog.fileText?, Catalog.entries?, h.backend.noFolder db hD]
    exact Bool.and_false _
  | some D =>
    obtain ⟨es, cs, hstores⟩ := h.backend.stores hD
    rw [hstores.folder.tableExists (h.sound.databases db D hD) hstores.entries
      (h.sound.names db D hD)]
    rfl

theorem Holds.tableExists_iff (h : S.Holds W) : S.backend.catalog.tableExists db T = true ↔
    ∃ D R, W.databases.find? db = some D ∧ D.find? T = some R := by
  simp only [h.tableExists_eq, World.hasTable, Option.any_eq_true, OrdMap.contains_iff,
    exists_and_left]

theorem Holds.table_and_rows {D : Database} {R : Relation} (h : S.Holds W)
    (hD : W.databases.find? db = some D) (hR : D.find? T = some R) :
    S.backend.catalog.table db T = .ok R.table ∧
      Row.scan S.backend.store.content db R.table .all = .ok R.list := by
  have hsound := h.sound.databases db D hD
  obtain ⟨es, cs, hstores⟩ := h.backend.stores hD
  exact ⟨hstores.table_eq hsound (h.sound.names db D hD) hR,
    hstores.collections.scanAll hsound hstores.content hR⟩

/-- A table that is there is one of a sound database that the backend holds. -/
theorem Reachable.of_tableExists (h : Reachable S)
    (hT : S.backend.catalog.tableExists db T = true) :
    ∃ D R es cs, S.backend.Stores S.backend.catalog S.backend.store.content db D es cs ∧ D.Sound ∧
      isValidName db = true ∧ D.find? T = some R := by
  obtain ⟨W, hW⟩ := h.holds
  obtain ⟨D, R, hD, hR⟩ := hW.tableExists_iff.mp hT
  obtain ⟨es, cs, hstores⟩ := hW.backend.stores hD
  exact ⟨D, R, es, cs, hstores, hW.sound.databases db D hD, hW.sound.names db D hD, hR⟩

theorem tableExists_of_table {t : Table} (ht : S.backend.catalog.table db T = .ok t) :
    S.backend.catalog.tableExists db T = true := Catalog.tableExists_of_table ht

theorem Holds.of_table {t : Table} (h : S.Holds W) (ht : S.backend.catalog.table db T = .ok t) :
    ∃ D R, W.databases.find? db = some D ∧ D.find? T = some R ∧ R.table = t ∧
      Row.scan S.backend.store.content db t .all = .ok R.list := by
  obtain ⟨D, R, hD, hR⟩ := h.tableExists_iff.mp (tableExists_of_table ht)
  obtain ⟨ht', hrows⟩ := h.table_and_rows hD hR
  rw [ht] at ht'
  cases ht'
  exact ⟨D, R, hD, hR, rfl, hrows⟩

end System

end RelStore

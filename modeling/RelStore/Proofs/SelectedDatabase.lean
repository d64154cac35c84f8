import RelStore.Proofs.Locality
import RelStore.Proofs.Refinement
/-! The database that a session has selected. It is there, unless it was dropped and that could not
be saved: then its folder is gone and the session still has it selected, until it selects one that is
there or this one is made anew. -/
namespace RelStore

open Backend (onCatalog_run onStore_run)

section Database

variable {s : Session} {c : Command} {b : Backend} {n d : String}

/-- A command without a place reads and writes in none, so in any. -/
theorem Session.run_worksIn_place (s : Session) (c : Command) :
    WorksIn ((c.place s).getD "") c.drops (s.run c) := by
  refine Session.run_worksIn fun n hn => ?_
  rw [hn, Option.getD_some]

/-- Only a command that drops databases removes a folder. -/
theorem Session.run_folder_stays (hc : c.drops = false) (hd : b.catalog.databaseExists d = true) :
    (s.run c b).2.catalog.databaseExists d = true := by
  have hworks := s.run_worksIn_place c
  rw [hc] at hworks
  exact hworks.folder_stays b hd

theorem Engine.dropDatabase_folder_stays (hne : d ≠ n) (hd : b.catalog.databaseExists d = true) :
    (Engine.dropDatabase n b).2.catalog.databaseExists d = true := by
  have hworks : WorksIn n true (Engine.dropDatabase n) := .eraseDatabase
  obtain ⟨hfolder, -⟩ := hworks.elsewhere b hne
  rw [Catalog.databaseExists, Catalog.entries?, hfolder]
  exact hd

/-- A database that is there is dropped, if that can be saved. -/
theorem Engine.dropDatabase_ok (hn : b.catalog.databaseExists n = true)
    (hsaves : ¬ (b.store.content.contains n = true ∧ b.store.SaveFails)) :
    ∃ o b', Engine.dropDatabase n b = (.ok o, b') := by
  obtain ⟨s', hs'⟩ : ∃ s', Store.dropDatabase n b.store = (.ok (), s') := by
    rw [Store.dropDatabase_run]
    by_cases hcontent : b.store.content.contains n = true
    · rw [if_pos hcontent]
      exact ⟨_, Store.save_of_not_fails (s := { b.store with content := b.store.content.erase n })
        fun hfails => hsaves ⟨hcontent, hfails⟩⟩
    · rw [if_neg hcontent]
      exact ⟨_, rfl⟩
  rw [Engine.dropDatabase, Step.bind_run_ok (onCatalog_run (Catalog.dropDatabase_run hn)),
    Step.bind_run_ok (onStore_run (b := { b with catalog := b.catalog.erase n }) hs')]
  exact ⟨_, _, rfl⟩

/-- The folder goes first. -/
theorem Engine.dropDatabase_error (hn : b.catalog.databaseExists n = true)
    (hcontent : b.store.content.contains n = true) (hfails : b.store.SaveFails) :
    ∃ e b', Engine.dropDatabase n b = (.error e, b') ∧ b'.catalog = b.catalog.erase n ∧
      b'.store.content = b.store.content.erase n := by
  obtain ⟨e, he⟩ :=
    Store.save_of_fails (s := { b.store with content := b.store.content.erase n }) hfails
  have hdrop := (Store.dropDatabase_run b.store n).trans ((if_pos hcontent).trans he)
  rw [Engine.dropDatabase, Step.bind_run_ok (onCatalog_run (Catalog.dropDatabase_run hn)),
    Step.bind_run_error (onStore_run (b := { b with catalog := b.catalog.erase n }) hdrop)]
  exact ⟨e, _, rfl, rfl, rfl⟩

theorem Engine.dropDatabase_response {o : Outcome} {b' : Backend}
    (h : Engine.dropDatabase n b = (.ok o, b')) : o.response = .done := by
  rw [Engine.dropDatabase, Step.bind_run] at h
  generalize Backend.onCatalog (Catalog.dropDatabase n) b = p at h
  obtain ⟨_ | _, b₁⟩ := p
  · cases h
  · simp only [Step.bind_run] at h
    generalize Backend.onStore (Store.dropDatabase n) b₁ = p at h
    obtain ⟨_ | _, b₂⟩ := p
    · cases h
    · cases h
      rfl

theorem Engine.useDatabase_run (b : Backend) (n : String) :
    Engine.useDatabase n b =
      if b.catalog.databaseExists n = true then
        (.ok (.done 0 ("Using database " ++ Error.quoted n)), b)
      else (.error (.databaseNotFound n), b) := by
  have hrequire := Backend.requireDatabase_run b n
  split
  · next hn =>
    rw [if_pos hn] at hrequire
    rw [Engine.useDatabase, Step.bind_run_ok hrequire]
    rfl
  · next hn =>
    rw [if_neg hn] at hrequire
    exact Step.bind_run_error hrequire

/-- What is done in the selected database fails at once where that is gone. -/
theorem Session.selected_gone {α : Type} (hs : s.database = some n)
    (hn : b.catalog.databaseExists n = false) (f : String → Unit → Step Backend α) :
    (do let db ← s.selected
        Engine.requireDatabase db >>= f db : Step Backend α) b =
      (.error (.databaseNotFound n), b) := by
  have hselected : s.selected = .ok n := by rw [Session.selected, hs]
  rw [hselected, Step.bind_run_ok (Step.lift_run _ _)]
  refine Step.bind_run_error ?_
  rw [Backend.requireDatabase_run, hn]
  rfl

theorem Engine.dropDatabase_gone (hvalid : isValidName n = true)
    (hn : b.catalog.find? n = none) :
    Engine.dropDatabase n b = (.error (.databaseNotFound n), b) := by
  have hentries : b.catalog.entries? n = none := by rw [Catalog.entries?, hn]
  have hrun : Catalog.dropDatabase n b.catalog = (.error (.databaseNotFound n), b.catalog) := by
    simp only [Catalog.dropDatabase, Table.checkName_eq_ok.mpr hvalid, Step.bind_run, Step.lift_run,
      Step.get_run, hentries, Option.isNone_none, if_true]
    rfl
  exact Step.bind_run_error (onCatalog_run hrun)

/-- A database that is neither in the catalog nor in the store is made anew, its folder first. -/
theorem Engine.createDatabase_missing (hvalid : isValidName n = true)
    (hcatalog : b.catalog.find? n = none) (hcontent : b.store.content.find? n = none) :
    Engine.createDatabase n b =
      (do Backend.onCatalog (Catalog.makeFolder n)
          Backend.onStore (Store.createCollection n placeholder)
          return .done 0 ("Database " ++ Error.quoted n ++ " created") : Step Backend Outcome) b := by
  have hmissing : n ∉ b.store.content.databases := by
    rw [Content.mem_databases, hcontent]
    rintro ⟨cs, ⟨⟩, -⟩
  have hcontains : OrdMap.contains b.catalog n = false := by
    rw [OrdMap.contains, hcatalog]
    rfl
  have hrun : Catalog.createDatabase n b.catalog = Catalog.makeFolder n b.catalog := by
    simp only [Catalog.createDatabase, Table.checkName_eq_ok.mpr hvalid, Step.bind_run, Step.lift_run,
      Step.get_run, hcontains, Bool.false_eq_true, if_false]
  rw [Engine.createDatabase, Step.bind_run_ok Backend.getContent_run, if_neg hmissing]
  dsimp only
  rw [Step.bind_run, Step.bind_run, Backend.onCatalog, Backend.onCatalog, hrun]

theorem Engine.createDatabase_folder (hvalid : isValidName n = true)
    (hcatalog : b.catalog.find? n = none) (hcontent : b.store.content.find? n = none)
    (hfits : Catalog.nameFits n = true) :
    (Engine.createDatabase n b).2.catalog = b.catalog.insert n (.folder ∅) := by
  have hfolder : Catalog.makeFolder n b.catalog = (.ok (), b.catalog.insert n (.folder ∅)) := by
    rw [Catalog.makeFolder, if_pos hfits]
    rfl
  rw [createDatabase_missing hvalid hcatalog hcontent, Step.bind_run_ok (onCatalog_run hfolder),
    Step.bind_run, Backend.onStore]
  rcases Store.createCollection n placeholder b.store with ⟨_ | _, store⟩ <;> rfl

theorem Engine.createDatabase_unfit (hvalid : isValidName n = true)
    (hcatalog : b.catalog.find? n = none) (hcontent : b.store.content.find? n = none)
    (hfits : Catalog.nameFits n = false) :
    Engine.createDatabase n b = (.error (.io "File name too long"), b) := by
  have hfolder : Catalog.makeFolder n b.catalog = (.error (.io "File name too long"), b.catalog) := by
    rw [Catalog.makeFolder, if_neg (by rw [hfits]; exact Bool.false_ne_true)]
    rfl
  rw [createDatabase_missing hvalid hcatalog hcontent]
  exact Step.bind_run_error (onCatalog_run hfolder)

/-- What selects or drops a database is acknowledged; it gives no table. -/
theorem Session.after_eq_self {o : Outcome} {b' : Backend} (h : s.run c b = (.ok o, b'))
    (ho : o.response ≠ .done) : s.after c = s := by
  cases c with
  | dropDatabase n => exact absurd (Engine.dropDatabase_response h) ho
  | useDatabase n =>
    rw [Session.run, Engine.useDatabase_run] at h
    split at h
    · cases h
      exact absurd rfl ho
    · cases h
  | _ => rfl

end Database

namespace Service

variable {s : Service} {c : Command} {request : String}

/-- The database that the session has selected, if any, is there. -/
def SelectionStands (s : Service) : Prop :=
  ∀ n, s.session.database = some n → s.backend.catalog.databaseExists n = true

/-- The command drops the selected database, and that cannot be saved. -/
def Strands (s : Service) (c : Command) : Prop :=
  ∃ n, c = .dropDatabase n ∧ s.session.database = some n ∧
    s.backend.store.content.contains n = true ∧ s.backend.store.SaveFails

theorem SelectionStands.of_folders (h : s.SelectionStands) {b : Backend}
    (hb : ∀ n, s.session.database = some n → s.backend.catalog.databaseExists n = true →
      b.catalog.databaseExists n = true) : SelectionStands ⟨b, s.session⟩ :=
  fun n hn => hb n hn (h n hn)

theorem execute_state (hafter : s.session.after c = s.session) :
    (s.execute c).2 = ⟨(s.session.run c s.backend).2, s.session⟩ := by
  rw [execute]
  rcases s.session.run c s.backend with ⟨_ | _, b⟩
  · rfl
  · exact congrArg (Service.mk b) hafter

/-- A command that neither selects nor drops a database. -/
theorem SelectionStands.execute_other (h : s.SelectionStands) (hdrops : c.drops = false)
    (hafter : s.session.after c = s.session) : (s.execute c).2.SelectionStands := by
  rw [execute_state hafter]
  exact h.of_folders fun _ _ => Session.run_folder_stays hdrops

theorem SelectionStands.execute_drop {n : String} (h : s.SelectionStands)
    (hn : s.session.database = some n) : (s.execute (.dropDatabase n)).2.SelectionStands ↔
      ¬ (s.backend.store.content.contains n = true ∧ s.backend.store.SaveFails) := by
  have hthere := h n hn
  by_cases hfails : s.backend.store.content.contains n = true ∧ s.backend.store.SaveFails
  · obtain ⟨e, b, hrun, hcatalog, -⟩ := Engine.dropDatabase_error hthere hfails.1 hfails.2
    refine iff_of_false ?_ (not_not.mpr hfails)
    intro hstands
    simp only [Service.execute, Session.run, hrun] at hstands
    have hgone := hstands n hn
    rw [hcatalog, Catalog.databaseExists, Catalog.entries?, OrdMap.find?_erase_self,
      Bool.and_eq_true] at hgone
    cases hgone.2
  · obtain ⟨o, b, hrun⟩ := Engine.dropDatabase_ok hthere hfails
    refine iff_of_true ?_ hfails
    simp only [Service.execute, Session.run, hrun, Session.after, hn, if_true]
    rintro d ⟨⟩

theorem SelectionStands.execute_drop_other {n : String} (h : s.SelectionStands)
    (hn : s.session.database ≠ some n) : (s.execute (.dropDatabase n)).2.SelectionStands := by
  have hafter : s.session.after (.dropDatabase n) = s.session := if_neg hn
  rw [execute_state hafter]
  refine h.of_folders fun d hd => Engine.dropDatabase_folder_stays ?_
  rintro rfl
  exact hn hd

/-- Whatever was selected before, a database that is there is then the selected one. -/
theorem execute_use_there {n : String} (hn : s.backend.catalog.databaseExists n = true) :
    (s.execute (.useDatabase n)).2.SelectionStands := by
  simp only [execute, Session.run, Engine.useDatabase_run, if_pos hn]
  rintro d ⟨⟩
  exact hn

theorem execute_use_missing {n : String} (hn : ¬ s.backend.catalog.databaseExists n = true) :
    (s.execute (.useDatabase n)).2 = s := by
  simp only [execute, Session.run, Engine.useDatabase_run, if_neg hn]

theorem SelectionStands.execute_use (h : s.SelectionStands) (n : String) :
    (s.execute (.useDatabase n)).2.SelectionStands := by
  by_cases hn : s.backend.catalog.databaseExists n = true
  · exact execute_use_there hn
  · rw [execute_use_missing hn]
    exact h

/-- While the selected database is there, it stays so, or nothing is selected, exactly unless the
selected database is dropped and that cannot be saved. -/
theorem SelectionStands.execute_iff (h : s.SelectionStands) (c : Command) :
    (s.execute c).2.SelectionStands ↔ ¬ s.Strands c := by
  cases c with
  | dropDatabase n =>
    by_cases hn : s.session.database = some n
    · rw [h.execute_drop hn]
      refine not_congr ⟨fun hfails => ⟨n, rfl, hn, hfails⟩, ?_⟩
      rintro ⟨d, ⟨⟩, -, hfails⟩
      exact hfails
    · refine iff_of_true (h.execute_drop_other hn) ?_
      rintro ⟨d, ⟨⟩, hselected, -⟩
      exact hn hselected
  | useDatabase n => exact iff_of_true (h.execute_use n) fun ⟨d, hd, _⟩ => nomatch hd
  | _ => exact iff_of_true (h.execute_other rfl rfl) fun ⟨d, hd, _⟩ => nomatch hd

/-- The selected database is gone, from the catalog and from the store. -/
structure Lost (s : Service) (n : String) : Prop where
  selected : s.session.database = some n
  valid : isValidName n = true
  catalog : s.backend.catalog.find? n = none
  content : s.backend.store.content.find? n = none

/-- The command selects a database that is there, or makes the selected one anew. -/
inductive Restores (s : Service) : Command → Prop where
  | use {n : String} (there : s.backend.catalog.databaseExists n = true) :
    Restores s (.useDatabase n)
  | create {n : String} (selected : s.session.database = some n)
    (fits : Catalog.nameFits n = true) : Restores s (.createDatabase n)

theorem Lost.gone {n : String} (h : s.Lost n) : s.backend.catalog.databaseExists n = false := by
  rw [Catalog.databaseExists, Catalog.entries?, h.catalog, Bool.and_eq_false_iff]
  exact .inr rfl

theorem Lost.not_stands {n : String} (h : s.Lost n) : ¬ s.SelectionStands := fun hstands => by
  have hthere := hstands n h.selected
  rw [h.gone] at hthere
  cases hthere

/-- What works elsewhere, or fails at once, does not bring it back. -/
theorem Lost.congr {n : String} (h : s.Lost n) {b : Backend}
    (hcatalog : b.catalog.find? n = s.backend.catalog.find? n)
    (hcontent : b.store.content.find? n = s.backend.store.content.find? n) :
    Lost ⟨b, s.session⟩ n :=
  ⟨h.selected, h.valid, hcatalog.trans h.catalog, hcontent.trans h.content⟩

theorem Lost.of_run {n : String} (h : s.Lost n) {r : Except Error Outcome}
    (hrun : s.session.run c s.backend = (r, s.backend)) :
    Lost ⟨(s.session.run c s.backend).2, s.session⟩ n := by
  rw [hrun]
  exact h

/-- A selected database that is there is lost when it is dropped and that cannot be saved. -/
theorem SelectionStands.execute_lost (h : s.SelectionStands) (hstrands : s.Strands c) :
    ∃ n, (s.execute c).2.Lost n := by
  obtain ⟨n, rfl, hn, hcontent, hfails⟩ := hstrands
  have hthere := h n hn
  obtain ⟨e, b, hrun, hcatalog, hgone⟩ := Engine.dropDatabase_error hthere hcontent hfails
  rw [Catalog.databaseExists, Bool.and_eq_true] at hthere
  refine ⟨n, ?_⟩
  simp only [execute, Session.run, hrun]
  refine ⟨hn, hthere.1, ?_, ?_⟩
  · rw [hcatalog, OrdMap.find?_erase_self]
  · rw [hgone, OrdMap.find?_erase_self]

theorem Lost.execute_create {n : String} (h : s.Lost n) (m : String) :
    (s.Restores (.createDatabase m) → (s.execute (.createDatabase m)).2.SelectionStands) ∧
      (¬ s.Restores (.createDatabase m) → (s.execute (.createDatabase m)).2.Lost n) := by
  rw [execute_state rfl]
  by_cases hm : n = m
  · subst hm
    cases hfits : Catalog.nameFits n with
    | true =>
      refine ⟨fun _ d hd => ?_, fun hother => absurd (.create h.selected hfits) hother⟩
      rw [h.selected, Option.some.injEq] at hd
      subst hd
      rw [Session.run, Catalog.databaseExists,
        Engine.createDatabase_folder h.valid h.catalog h.content hfits, Catalog.entries?_insert,
        h.valid]
      rfl
    | false =>
      have hrun := Engine.createDatabase_unfit h.valid h.catalog h.content hfits
      refine ⟨fun hrestores => ?_, fun _ => ?_⟩
      · cases hrestores with
        | create _ hfits' => rw [hfits] at hfits'; cases hfits'
      · rw [Session.run, hrun]
        exact h
  · refine ⟨fun hrestores => ?_, fun _ => ?_⟩
    · cases hrestores with
      | create hselected => exact absurd (Option.some.inj (h.selected.symm.trans hselected)) hm
    · have hworks : WorksIn m false (Engine.createDatabase m) := .createDatabase
      obtain ⟨hcatalog, hcontent⟩ := hworks.elsewhere s.backend hm
      exact h.congr hcatalog hcontent

theorem Lost.execute_drop {n : String} (h : s.Lost n) (m : String) :
    (s.execute (.dropDatabase m)).2.Lost n := by
  by_cases hm : n = m
  · subst hm
    simp only [execute, Session.run, Engine.dropDatabase_gone h.valid h.catalog]
    exact h
  · have hafter : s.session.after (.dropDatabase m) = s.session := by
      rw [Session.after, h.selected, if_neg (mt Option.some.inj hm)]
    obtain ⟨hcatalog, hcontent⟩ := WorksIn.eraseDatabase.elsewhere s.backend hm
    rw [execute_state hafter]
    exact h.congr hcatalog hcontent

theorem Lost.execute_use {n : String} (h : s.Lost n) (m : String) :
    (s.Restores (.useDatabase m) → (s.execute (.useDatabase m)).2.SelectionStands) ∧
      (¬ s.Restores (.useDatabase m) → (s.execute (.useDatabase m)).2.Lost n) := by
  by_cases hm : s.backend.catalog.databaseExists m = true
  · exact ⟨fun _ => execute_use_there hm, fun hother => absurd (.use hm) hother⟩
  · rw [execute_use_missing hm]
    refine ⟨fun hrestores => ?_, fun _ => h⟩
    cases hrestores with
    | use hthere => exact absurd hthere hm

/-- A lost selection stays lost until a command restores it. -/
theorem Lost.execute {n : String} (h : s.Lost n) (c : Command) :
    (s.Restores c → (s.execute c).2.SelectionStands) ∧
      (¬ s.Restores c → (s.execute c).2.Lost n) := by
  cases c with
  | createDatabase m => exact h.execute_create m
  | dropDatabase m => exact ⟨(fun hrestores => nomatch hrestores), fun _ => h.execute_drop m⟩
  | useDatabase m => exact h.execute_use m
  | _ =>
    refine ⟨(fun hrestores => nomatch hrestores), fun _ => ?_⟩
    rw [execute_state rfl]
    exact h.of_run (Session.selected_gone h.selected h.gone _)

/-- Whether the selection is lost after a command; `lost` says whether it was before. -/
def Loses (lost : Prop) (s : Service) (c : Command) : Prop :=
  s.Strands c ∨ lost ∧ ¬ s.Restores c

/-- The selection is lost just if it is said to be; else it stands. -/
structure Tracks (lost : Prop) (s : Service) : Prop where
  gone : lost → ∃ n, s.Lost n
  stands : ¬ lost → s.SelectionStands

theorem Tracks.stands_iff {lost : Prop} (h : s.Tracks lost) : s.SelectionStands ↔ ¬ lost := by
  refine ⟨fun hstands hlost => ?_, h.stands⟩
  obtain ⟨n, hn⟩ := h.gone hlost
  exact hn.not_stands hstands

theorem Tracks.execute {lost : Prop} (h : s.Tracks lost) (c : Command) :
    (s.execute c).2.Tracks (s.Loses lost c) := by
  by_cases hlost : lost
  · obtain ⟨n, hn⟩ := h.gone hlost
    obtain ⟨hrestored, hstill⟩ := hn.execute c
    -- a database that is gone from the store cannot be dropped once more
    have hstrands : ¬ s.Strands c := by
      rintro ⟨m, -, hm, hcontent, -⟩
      cases hn.selected.symm.trans hm
      rw [OrdMap.contains, hn.content] at hcontent
      cases hcontent
    refine ⟨fun hloses => ⟨n, hstill ?_⟩, fun hloses => hrestored ?_⟩
    · exact (hloses.resolve_left hstrands).2
    · by_contra hother
      exact hloses (.inr ⟨hlost, hother⟩)
  · have hstands := h.stands hlost
    refine ⟨fun hloses => ?_, fun hloses => ?_⟩
    · exact hstands.execute_lost (hloses.resolve_right fun hboth => hlost hboth.1)
    · exact (hstands.execute_iff c).mpr fun hstrands => hloses (.inl hstrands)

theorem handleRequest_error {e : Error} (hc : Command.decode request = .error e) :
    s.handleRequest request = (.ofError e, s) := by
  rw [handleRequest, hc]

theorem handleRequest_state (hc : Command.decode request = .ok c) :
    (s.handleRequest request).2 = (s.execute c).2 := by
  rw [handleRequest, hc]
  dsimp only
  rcases s.execute c with ⟨_ | o, s'⟩ <;> rfl

theorem execute_backend (s : Service) (c : Command) :
    (s.execute c).2.backend = (s.session.run c s.backend).2 := by
  rw [execute]
  rcases s.session.run c s.backend with ⟨_ | o, b⟩ <;> rfl

/-- A response that is no error tells the outcome of the command. -/
theorem run_of_answered (hc : Command.decode request = .ok c)
    (h : (s.handleRequest request).1.isError = false) :
    ∃ o, s.session.run c s.backend = (.ok o, (s.handleRequest request).2.backend) ∧
      (s.handleRequest request).1 = o.response := by
  rw [handleRequest_state hc, execute_backend]
  obtain ⟨result, b, hrun⟩ : ∃ result b, s.session.run c s.backend = (result, b) := ⟨_, _, rfl⟩
  rw [handleRequest, hc] at h ⊢
  simp only [execute, hrun] at h ⊢
  cases result with
  | error e => cases h
  | ok o => exact ⟨o, rfl, rfl⟩

/-- What is acknowledged has changed the session as its command does, and nothing else has. -/
theorem handleRequest_session (hc : Command.decode request = .ok c) :
    ((s.handleRequest request).1 = .done ∧
      (s.handleRequest request).2.session = s.session.after c) ∨
    ((s.handleRequest request).1 ≠ .done ∧
      (s.handleRequest request).2.session = s.session) := by
  obtain ⟨result, b, hrun⟩ : ∃ result b, s.session.run c s.backend = (result, b) := ⟨_, _, rfl⟩
  rw [handleRequest, hc]
  simp only [execute, hrun]
  cases result with
  | error e => exact .inr ⟨by rintro ⟨⟩, rfl⟩
  | ok o =>
    by_cases hdone : o.response = .done
    · exact .inl ⟨hdone, rfl⟩
    · exact .inr ⟨hdone, Session.after_eq_self hrun hdone⟩

/-- What the calls of a store keep, commands keep. -/
theorem execute_store {P : Store → Prop} (s : Service) (c : Command)
    (hcall : ∀ (call : Store.Call) store, P store → P (call.run store).2) (h : P s.backend.store) :
    P (s.execute c).2.backend.store := by
  rw [execute_backend]
  exact (s.session.run_worksIn_place c).kept (P := fun b => P b.store) (fun _ _ h => h)
    (fun _ _ h => h) (fun call b _ => hcall call b.store) h

theorem handleRequest_store {P : Store → Prop} (s : Service) (request : String)
    (hcall : ∀ (call : Store.Call) store, P store → P (call.run store).2) (h : P s.backend.store) :
    P (s.handleRequest request).2.backend.store := by
  cases hc : Command.decode request with
  | error e =>
    rw [handleRequest_error hc]
    exact h
  | ok c =>
    rw [handleRequest_state hc]
    exact s.execute_store c hcall h

theorem SelectionStands.handleRequest_iff (h : s.SelectionStands) (request : String) :
    (s.handleRequest request).2.SelectionStands ↔
      ¬ ∃ c, Command.decode request = .ok c ∧ s.Strands c := by
  cases hdecode : Command.decode request with
  | error e =>
    rw [handleRequest_error hdecode]
    refine iff_of_true h ?_
    rintro ⟨c, ⟨⟩, -⟩
  | ok c =>
    rw [handleRequest_state hdecode, h.execute_iff c]
    refine not_congr ⟨fun hstrands => ⟨c, rfl, hstrands⟩, ?_⟩
    rintro ⟨c', ⟨⟩, hstrands⟩
    exact hstrands

end Service

end RelStore

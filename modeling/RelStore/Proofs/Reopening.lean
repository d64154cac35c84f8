import RelStore.Proofs.CommandLineRequests
import RelStore.Proofs.Interference
import RelStore.Proofs.SelectedDatabase
/-! Opening store and catalog again. While no save fails, the snapshot holds what is in memory, and
sessions that select their databases again go on as if nothing had happened. -/
namespace RelStore

/-- Every database has a collection. So it is in every snapshot that was written by the program. -/
def Content.Filled (c : Content) : Prop := ∀ db cs, c.find? db = some cs → cs.isEmpty = false

namespace Content.Filled

variable {c : Content} {cs : Collections} {db : String}

theorem insert (h : c.Filled) (hcs : cs.isEmpty = false) : Filled (c.insert db cs) := by
  intro db' cs' hdb'
  by_cases hdb : db' = db
  · rw [hdb, OrdMap.find?_insert_self] at hdb'
    cases hdb'
    exact hcs
  · rw [OrdMap.find?_insert_of_ne hdb] at hdb'
    exact h db' cs' hdb'

theorem erase (h : c.Filled) : Filled (c.erase db) := by
  intro db' cs' hdb'
  by_cases hdb : db' = db
  · rw [hdb, OrdMap.find?_erase_self] at hdb'
    cases hdb'
  · rw [OrdMap.find?_erase_of_ne hdb] at hdb'
    exact h db' cs' hdb'

theorem run (call : Store.Call) {s : Store} (h : s.content.Filled) :
    (call.run s).2.content.Filled := by
  rcases call.content_cases s with hsame | ⟨cs, hcs, hset⟩ | hgone
  · rwa [hsame]
  · rw [hset]
    exact h.insert hcs
  · rw [hgone]
    exact h.erase

end Content.Filled

namespace Store

/-- Opens the store again: from its snapshot, or empty if there is none. -/
def reopen (s : Store) : Except Error Store :=
  match s.medium with
  | some m => openAt m
  | none => .ok inMemory

/-- The snapshot is configured, no save fails, and nothing is in memory alone. -/
structure Kept (s : Store) : Prop where
  accounted : s.Accounted false
  reliable : s.Reliable
  filled : s.content.Filled

variable {s : Store}

theorem kept_openAt {m : Medium} (h : openAt m = .ok s) (outages : m.outages = [])
    (filled : s.content.Filled) : s.Kept where
  accounted := accounted_openAt h
  reliable := by
    obtain ⟨content, hload, rfl⟩ := Except.map_eq_ok.mp h
    rintro m ⟨⟩
    refine ⟨fun hslot => ?_, outages⟩
    rw [load, hslot] at hload
    cases hload
  filled := filled

/-- Where every database has a collection, dropping what is not there changes nothing. -/
theorem Call.prunes_eq_false (h : s.content.Filled) (call : Call) : call.prunes s = false := by
  cases call with
  | dropCollection db n =>
    rw [Call.prunes, OrdMap.contains, within]
    cases hdb : s.content.find? db with
    | none => simp [OrdMap.contains, hdb]
    | some cs => simp [h db cs hdb]
  | _ => rfl

/-- No call of a store that keeps its snapshot can leave anything in memory alone. -/
theorem Kept.owes_eq_false (h : s.Kept) (call : Call) : call.owes s false = false := by
  have hsaves := not_saveFails h.reliable
  rw [Call.owes]
  split
  · simp [hsaves]
  · simp [call.prunes_eq_false h.filled]

theorem Kept.run (h : s.Kept) (call : Call) : (call.run s).2.Kept where
  accounted := h.owes_eq_false call ▸ h.accounted.run call
  reliable := call.run_reliable h.reliable
  filled := h.filled.run call

theorem Kept.reopen (h : s.Kept) (hback : s.content.ReadsBack) : s.reopen = .ok s := by
  obtain ⟨m, hm⟩ := Option.isSome_iff_exists.mp h.accounted.configured
  have hload := h.accounted.durable rfl hback m hm
  obtain ⟨content, medium⟩ := s
  obtain rfl : medium = some m := hm
  exact Except.map_eq_ok.mpr ⟨content, hload, rfl⟩

end Store

theorem Session.eq_of_database {s : Session} {db : Option String} (h : s.database = db) :
    s = ⟨db⟩ := by
  cases s
  cases h
  rfl

namespace Service

variable {s : Service} {request : String}

theorem handleRequest_kept (s : Service) (request : String) (h : s.backend.store.Kept) :
    (s.handleRequest request).2.backend.store.Kept :=
  s.handleRequest_store request (fun call _ h => h.run call) h

/-- Without failing saves a selection is never stranded. -/
theorem SelectionStands.handleRequest_kept (h : s.SelectionStands) (hkept : s.backend.store.Kept) :
    (s.handleRequest request).2.SelectionStands := by
  rw [h.handleRequest_iff]
  rintro ⟨c, -, n, -, -, -, hfails⟩
  exact Store.not_saveFails hkept.reliable hfails

theorem handleRequest_use {b : Backend} {n : String} (session : Session)
    (hn : b.catalog.databaseExists n = true) :
    handleRequest ⟨b, session⟩ (Command.useDatabase n).encode = (.done, ⟨b, ⟨some n⟩⟩) := by
  have hname : isValidName n = true := (Bool.and_eq_true _ _ ▸ hn).1
  have hdecode := Command.decode_encode (c := .useDatabase n) (carried_of_isValidName hname)
  simp only [handleRequest, hdecode, execute, Session.run, Engine.useDatabase_run, if_pos hn]
  rfl

end Service

namespace System

variable {S : System} {requests later : List (Nat × String)} {ids : List Nat} {i : Nat}

/-- Store and catalog are opened again, and no session has a database selected. -/
def reopen (S : System) : Except Error System :=
  S.backend.store.reopen.map fun store => ⟨{ S.backend with store }, fun _ => .fresh⟩

/-- The requests by which sessions select the databases again that they have selected. -/
def reselections (S : System) (ids : List Nat) : List (Nat × String) :=
  ids.filterMap fun i => (S.sessions i).database.map fun n => (i, (Command.useDatabase n).encode)

def replies (S : System) : List (Nat × String) → List Response
  | [] => []
  | (i, request) :: rest => (S.handle i request).1 :: (S.handle i request).2.replies rest

/-- The database that the session has selected, if any, is there. -/
def SelectionStands (S : System) (i : Nat) : Prop :=
  Service.SelectionStands ⟨S.backend, S.sessions i⟩

theorem run_kept (h : S.backend.store.Kept) (requests : List (Nat × String)) :
    (S.run requests).backend.store.Kept := by
  induction requests generalizing S with
  | nil => exact h
  | cons r rest ih => exact ih (Service.handleRequest_kept _ r.2 h)

/-- Where only one session asks, no other can drop the database that it has selected. -/
theorem run_selectionStands (h : S.backend.store.Kept) (hi : S.SelectionStands i)
    (hrequests : ∀ r ∈ requests, r.1 = i) : (S.run requests).SelectionStands i := by
  induction requests generalizing S with
  | nil => exact hi
  | cons r rest ih =>
    obtain ⟨rfl, hrest⟩ := List.forall_mem_cons.mp hrequests
    refine ih (Service.handleRequest_kept _ r.2 h) ?_ hrest
    rw [SelectionStands, handle_session_self]
    exact Service.SelectionStands.handleRequest_kept hi h

/-- A session that has nothing, or what it had, has what it had once it has selected it again. -/
theorem run_reselection {f : Nat → Session} (hf : f i = .fresh ∨ f i = S.sessions i)
    (hi : S.SelectionStands i) : run ⟨S.backend, f⟩ (S.reselections [i]) =
      ⟨S.backend, Function.update f i (S.sessions i)⟩ := by
  cases hdb : (S.sessions i).database with
  | none =>
    have hnone : S.reselections [i] = [] := by
      rw [reselections, List.filterMap_cons, hdb]
      rfl
    have hsame : f i = S.sessions i :=
      hf.elim (fun hfresh => hfresh.trans (Session.eq_of_database hdb).symm) id
    rw [hnone, ← hsame, Function.update_eq_self]
    rfl
  | some n =>
    have hone : S.reselections [i] = [(i, (Command.useDatabase n).encode)] := by
      rw [reselections, List.filterMap_cons, hdb]
      rfl
    rw [hone, Session.eq_of_database hdb]
    show (handle _ _ _).2 = _
    rw [handle, Service.handleRequest_use _ (hi n hdb)]

theorem run_reselections {f : Nat → Session} (hf : ∀ j, f j = .fresh ∨ f j = S.sessions j)
    (hids : ∀ i ∈ ids, S.SelectionStands i) :
    ∃ f', run ⟨S.backend, f⟩ (S.reselections ids) = ⟨S.backend, f'⟩ ∧
      (∀ j, f j = S.sessions j → f' j = S.sessions j) ∧ ∀ i ∈ ids, f' i = S.sessions i := by
  induction ids generalizing f with
  | nil => exact ⟨f, rfl, fun _ => id, fun _ h => nomatch h⟩
  | cons i ids ih =>
    obtain ⟨hi, hids⟩ := List.forall_mem_cons.mp hids
    have hupdate (j : Nat) : Function.update f i (S.sessions i) j = S.sessions j ∨
        Function.update f i (S.sessions i) j = f j := by
      by_cases hji : j = i
      · rw [hji]
        exact .inl (Function.update_self i _ f)
      · exact .inr (Function.update_of_ne hji _ f)
    have hf' (j : Nat) : Function.update f i (S.sessions i) j = .fresh ∨
        Function.update f i (S.sessions i) j = S.sessions j := by
      rcases hupdate j with hset | hother
      · exact .inr hset
      · exact hother ▸ hf j
    obtain ⟨f', hrun, hkeeps, hsets⟩ := ih hf' hids
    refine ⟨f', ?_, fun j hj => hkeeps j ?_, ?_⟩
    · have hsplit : S.reselections (i :: ids) = S.reselections [i] ++ S.reselections ids :=
        List.filterMap_append (l := [i])
      have hfirst := run_reselection (hf i) hi
      rw [run] at hfirst hrun ⊢
      rw [hsplit, List.foldl_append, hfirst, hrun]
    · exact (hupdate j).elim id fun hother => hother.trans hj
    · exact List.forall_mem_cons.mpr ⟨hkeeps i (Function.update_self i _ f), hsets⟩

/-- Answers depend on the backend and on the sessions that ask. -/
theorem replies_eq {b : Backend} {f g : Nat → Session} (h : ∀ i ∈ ids, f i = g i)
    (hlater : ∀ r ∈ later, r.1 ∈ ids) : replies ⟨b, f⟩ later = replies ⟨b, g⟩ later := by
  induction later generalizing b f g with
  | nil => rfl
  | cons r rest ih =>
    obtain ⟨i, request⟩ := r
    obtain ⟨hi, hrest⟩ := List.forall_mem_cons.mp hlater
    have hsame := h i hi
    rw [replies, replies, handle, handle]
    simp only [hsame]
    refine congrArg _ (ih (fun j hj => ?_) hrest)
    by_cases hji : j = i
    · rw [hji, Function.update_self, Function.update_self]
    · rw [Function.update_of_ne hji, Function.update_of_ne hji, h j hj]

end System

/-- One table with a float for its row id. -/
def measured : Content :=
  (∅ : Content).insert "d" ((∅ : Collections).insert "t"
    ((∅ : Collection).insert (.float ⟨0x3ff8000000000000⟩) (.blob "1.5")))

end RelStore

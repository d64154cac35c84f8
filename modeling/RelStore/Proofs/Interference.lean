import RelStore.Proofs.Locality
import RelStore.Proofs.Reachability
/-! Sessions that work in different databases. Each of them is answered, and leaves its database, as
if it were alone. -/
namespace RelStore

open Backend (onCatalog onStore)

/-- Saves go on to succeed, or go on to fail. -/
def Store.Steady (s : Store) : Prop := ∀ m ∈ s.medium, m.outages = []

namespace Store

theorem Steady.unsaved {s : Store} (h : s.Steady) : s.unsaved = s := by
  obtain ⟨content, _ | ⟨slot, outages⟩⟩ := s
  · rfl
  · obtain rfl : outages = [] := h _ rfl
    rfl

theorem Steady.saved {s : Store} (h : s.Steady) : s.saved.Steady ∧ ¬ s.saved.SaveFails := by
  obtain ⟨content, _ | ⟨slot, outages⟩⟩ := s
  · exact ⟨h, fun ⟨m, hm, _⟩ => nomatch hm⟩
  · obtain rfl : outages = [] := h _ rfl
    constructor
    · rintro m ⟨⟩
      rfl
    · rintro ⟨m, ⟨⟩, hfirst | hslot⟩
      · cases hfirst
      · cases hslot

theorem reliable_iff {s : Store} : s.Reliable ↔ s.Steady ∧ ¬ s.SaveFails := by
  constructor
  · exact fun h => ⟨fun m hm => (h m hm).2, not_saveFails h⟩
  · intro h m hm
    exact ⟨fun hslot => h.2 ⟨m, hm, .inr hslot⟩, h.1 m hm⟩

namespace Call

/-- Saves go on to succeed, or go on to fail. -/
theorem run_steady (call : Call) {s : Store} (h : s.Steady) :
    (call.run s).2.Steady ∧ ((call.run s).2.SaveFails ↔ s.SaveFails) := by
  cases hsaves : call.saves s with
  | false =>
    obtain ⟨r, content, hrun, -⟩ := run_of_not_saves hsaves
    rw [hrun]
    exact ⟨h, Iff.rfl⟩
  | true =>
    cases ends_of_saves hsaves with
    | saved content hok hrun =>
      obtain ⟨hsteady, hlater⟩ := Steady.saved (s := { s with content }) h
      rw [hrun]
      exact ⟨hsteady, iff_of_false hlater hok⟩
    | failed e content hfails hrun =>
      rw [hrun, Steady.unsaved (s := { s with content }) h]
      exact ⟨h, Iff.rfl⟩

theorem run_reliable (call : Call) {s : Store} (h : s.Reliable) : (call.run s).2.Reliable := by
  obtain ⟨hsteady, hsaves⟩ := reliable_iff.mp h
  obtain ⟨hsteady', hfails⟩ := call.run_steady hsteady
  exact reliable_iff.mpr ⟨hsteady', mt hfails.mp hsaves⟩

end Call

end Store

/-- From related states the step gives the same answer and leads to related states. -/
def Step.Respects {σ α : Type} (R : σ → σ → Prop) (x : Step σ α) : Prop :=
  ∀ s s', R s s' → (x s).1 = (x s').1 ∧ R (x s).2 (x s').2

theorem Step.Respects.bind {σ α β : Type} {R : σ → σ → Prop} {x : Step σ α} {f : α → Step σ β}
    (hx : Respects R x) (hf : ∀ a, Respects R (f a)) : Respects R (x >>= f) := by
  intro s s' h
  obtain ⟨hsame, hrel⟩ := hx s s' h
  rw [bind_run, bind_run]
  generalize x s = p at hsame hrel
  generalize x s' = p' at hsame hrel
  obtain ⟨r, t⟩ := p
  obtain ⟨r', t'⟩ := p'
  obtain rfl : r = r' := hsame
  cases r with
  | error e => exact ⟨rfl, hrel⟩
  | ok a => exact hf a t t' hrel

/-- The stores hold the same of one database, and saves of both succeed, or of both fail. -/
structure Store.Alike (db : String) (s s' : Store) : Prop where
  content : s.content.find? db = s'.content.find? db
  steady : s.Steady
  steady' : s'.Steady
  fails : s.SaveFails ↔ s'.SaveFails

structure Backend.Alike (db : String) (b b' : Backend) : Prop where
  catalog : b.catalog.find? db = b'.catalog.find? db
  store : b.store.Alike db b'.store

theorem Backend.Alike.trans {db : String} {b b' b'' : Backend} (h : b.Alike db b')
    (h' : b'.Alike db b'') : b.Alike db b'' :=
  ⟨h.catalog.trans h'.catalog, h.store.content.trans h'.store.content, h.store.steady,
    h'.store.steady', h.store.fails.trans h'.store.fails⟩

namespace Store

variable {s s' : Store} {db : String}

theorem save_steady (h : s.Steady) (hfails : s.SaveFails) :
    save s = (.error (.io "Is a directory"), s) := by
  obtain ⟨content, medium⟩ := s
  obtain ⟨⟨slot, outages⟩, rfl, hfirst⟩ := hfails
  obtain rfl : outages = [] := h _ rfl
  rcases hfirst with hfirst | hslot
  · cases hfirst
  · cases hslot
    rfl

namespace Alike

theorem within (h : s.Alike db s') : s.within db = s'.within db := by
  rw [Store.within, h.content, Store.within]

theorem contains (h : s.Alike db s') : s.content.contains db = s'.content.contains db := by
  rw [OrdMap.contains, h.content, OrdMap.contains]

/-- Changes that come to the same in the database. -/
theorem change (h : s.Alike db s') {content content' : Content}
    (hsame : content.find? db = content'.find? db) :
    Alike db { s with content } { s' with content := content' } :=
  ⟨hsame, h.steady, h.steady', h.fails⟩

end Alike

section Calls

open Step (Respects)

theorem save_respects (db : String) : Respects (Alike db) save := by
  intro s s' h
  by_cases hfails : s.SaveFails
  · rw [save_steady h.steady hfails, save_steady h.steady' (h.fails.mp hfails)]
    exact ⟨rfl, h⟩
  · rw [save_of_not_fails hfails, save_of_not_fails (mt h.fails.mpr hfails)]
    obtain ⟨hsteady, hlater⟩ := h.steady.saved
    obtain ⟨hsteady', hlater'⟩ := h.steady'.saved
    exact ⟨rfl, h.content, hsteady, hsteady', iff_of_false hlater hlater'⟩

theorem createCollection_respects (db n : String) :
    Respects (Alike db) (createCollection db n) := by
  intro s s' h
  rw [createCollection_run, createCollection_run, ← h.within]
  split
  · exact ⟨rfl, h⟩
  · refine save_respects db _ _ (h.change ?_)
    rw [OrdMap.find?_insert_self, OrdMap.find?_insert_self]

theorem dropCollection_respects (db n : String) : Respects (Alike db) (dropCollection db n) := by
  intro s s' h
  cases hdb : s.content.find? db with
  | none =>
    rw [dropCollection_run_none s db n hdb,
      dropCollection_run_none s' db n (h.content.symm.trans hdb)]
    exact ⟨rfl, h⟩
  | some cs =>
    rw [dropCollection_run_some s db n hdb,
      dropCollection_run_some s' db n (h.content.symm.trans hdb)]
    have hsame : (s.content.set db (cs.erase n)).find? db =
        (s'.content.set db (cs.erase n)).find? db := by
      rw [Content.find?_set_self, Content.find?_set_self]
    have hchange := h.change hsame
    split
    · exact (save_respects db).bind (fun _ _ _ h => ⟨rfl, h⟩) _ _ hchange
    · exact ⟨rfl, hchange⟩

theorem dropDatabase_respects (db : String) : Respects (Alike db) (dropDatabase db) := by
  intro s s' h
  rw [dropDatabase_run, dropDatabase_run, ← h.contains]
  split
  · refine save_respects db _ _ (h.change ?_)
    rw [OrdMap.find?_erase_self, OrdMap.find?_erase_self]
  · exact ⟨rfl, h⟩

theorem apply_respects (db : String) (ops : List WriteOp) : Respects (Alike db) (apply db ops) := by
  intro s s' h
  by_cases hops : ops = []
  · subst hops
    exact ⟨rfl, h⟩
  · cases hsteps : WriteOp.steps (s.within db) ops with
    | error e =>
      rw [apply_run_error hsteps, apply_run_error (h.within ▸ hsteps)]
      exact ⟨rfl, h⟩
    | ok cs =>
      rw [apply_run_ok hops hsteps, apply_run_ok hops (h.within ▸ hsteps)]
      have hfind : (s.content.insert db cs).find? db = (s'.content.insert db cs).find? db := by
        rw [OrdMap.find?_insert_self, OrdMap.find?_insert_self]
      obtain ⟨hsame, hrel⟩ := save_respects db _ _ (h.change hfind)
      generalize save { s with content := s.content.insert db cs } = p at hsame hrel
      generalize save { s' with content := s'.content.insert db cs } = p' at hsame hrel
      obtain ⟨r, t⟩ := p
      obtain ⟨r', t'⟩ := p'
      obtain rfl : r = r' := hsame
      cases r with
      | ok _ => exact ⟨rfl, hrel⟩
      | error e => exact ⟨rfl, hrel.change h.content⟩

end Calls

end Store

theorem Backend.Alike.only_eq {db : String} {b b' : Backend} (h : b.Alike db b') :
    b.only db = b'.only db := by
  rw [only, only, OrdMap.only_eq_iff.mpr h.catalog, OrdMap.only_eq_iff.mpr h.store.content]

theorem Backend.onStore_respects {db : String} {α : Type} {x : Step Store α}
    (h : Step.Respects (Store.Alike db) x) : Step.Respects (Alike db) (onStore x) := by
  intro b b' hb
  obtain ⟨hsame, hrel⟩ := h _ _ hb.store
  exact ⟨hsame, hb.catalog, hrel⟩

namespace WorksIn

variable {db : String} {drops : Bool} {α : Type} {x : Step Backend α}

/-- What the step answers, and what it leaves in the database, is told by what it finds there. -/
theorem respects (h : WorksIn db drops x) : Step.Respects (Backend.Alike db) x := by
  induction h with
  | lift r => exact fun b b' hb => ⟨rfl, hb⟩
  | @read _ f only _ ih =>
    intro b b' hb
    have hsame : f b = f b' := by rw [← only b, ← only b', hb.only_eq]
    rw [show (get >>= f) b = f b b from rfl, show (get >>= f) b' = f b b' by rw [hsame]; rfl]
    exact ih b b b' hb
  | bind _ _ ihx ihf => exact ihx.bind ihf
  | setFolder es =>
    intro b b' hb
    refine ⟨rfl, ?_, hb.store⟩
    show (b.catalog.insert db _).find? db = (b'.catalog.insert db _).find? db
    rw [OrdMap.find?_insert_self, OrdMap.find?_insert_self]
  | dropFolder hd =>
    intro b b' hb
    refine ⟨rfl, ?_, hb.store⟩
    show (b.catalog.erase db).find? db = (b'.catalog.erase db).find? db
    rw [OrdMap.find?_erase_self, OrdMap.find?_erase_self]
  | createCollection n => exact Backend.onStore_respects (Store.createCollection_respects db n)
  | dropCollection n => exact Backend.onStore_respects (Store.dropCollection_respects db n)
  | dropDatabase => exact Backend.onStore_respects (Store.dropDatabase_respects db)
  | apply ops => exact Backend.onStore_respects (Store.apply_respects db ops)

/-- Saves go on as they went. -/
theorem steady (h : WorksIn db drops x) {b : Backend} (hb : b.store.Steady) :
    (x b).2.store.Steady ∧ ((x b).2.store.SaveFails ↔ b.store.SaveFails) := by
  refine h.kept (P := fun b' => b'.store.Steady ∧ (b'.store.SaveFails ↔ b.store.SaveFails))
    (fun _ _ h => h) (fun _ _ h => h) ?_ ⟨hb, Iff.rfl⟩
  rintro call b' - ⟨hsteady, hfails⟩
  obtain ⟨hsteady', hfails'⟩ := call.run_steady hsteady
  exact ⟨hsteady', hfails'.trans hfails⟩

end WorksIn

/-- The database that a command names as such. -/
def Command.named : Command → Option String
  | .createDatabase n | .dropDatabase n | .useDatabase n => some n
  | _ => none

/-- A request names no database but one. -/
def NamesOnly (db request : String) : Prop :=
  ∀ n ∈ (Command.decode request).toOption.bind Command.named, n = db

instance (db request : String) : Decidable (NamesOnly db request) := by
  unfold NamesOnly; infer_instance

theorem NamesOnly.of_decode {db request : String} {c : Command} (h : NamesOnly db request)
    (hc : Command.decode request = .ok c) : ∀ n, c.named = some n → n = db := by
  rw [NamesOnly, hc] at h
  exact h

/-- A session has no database selected but one. -/
def Session.SelectsOnly (db : String) (s : Session) : Prop := ∀ n, s.database = some n → n = db

section Sessions

variable {s : Session} {c : Command} {db request : String}

theorem Command.place_eq (hs : s.SelectsOnly db) (hc : ∀ n, c.named = some n → n = db) :
    ∀ n, c.place s = some n → n = db := by
  cases c with
  | createDatabase n => exact hc
  | dropDatabase n => exact hc
  | useDatabase n => exact hc
  | _ => exact hs

theorem Session.SelectsOnly.after (hs : s.SelectsOnly db) (hc : ∀ n, c.named = some n → n = db) :
    (s.after c).SelectsOnly db := by
  cases c with
  | useDatabase n => exact hc
  | dropDatabase n =>
    rw [Session.after]
    split
    · exact fun n hn => nomatch hn
    · exact hs
  | _ => exact hs

/-- A request that names no other database is answered alike by backends that are alike in it. -/
theorem Service.handleRequest_alike {b b' : Backend} (hb : b.Alike db b') (hs : s.SelectsOnly db)
    (hr : NamesOnly db request) :
    (handleRequest ⟨b, s⟩ request).1 = (handleRequest ⟨b', s⟩ request).1 ∧
      (handleRequest ⟨b, s⟩ request).2.session = (handleRequest ⟨b', s⟩ request).2.session ∧
      (handleRequest ⟨b, s⟩ request).2.backend.Alike db (handleRequest ⟨b', s⟩ request).2.backend ∧
      (handleRequest ⟨b, s⟩ request).2.session.SelectsOnly db := by
  rw [handleRequest, handleRequest]
  cases hc : Command.decode request with
  | error e => exact ⟨rfl, rfl, hb, hs⟩
  | ok c =>
    have hworks := Session.run_worksIn (Command.place_eq hs (hr.of_decode hc))
    obtain ⟨hsame, hrel⟩ := hworks.respects b b' hb
    simp only [execute]
    generalize s.run c b = p at hsame hrel
    generalize s.run c b' = p' at hsame hrel
    obtain ⟨r, t⟩ := p
    obtain ⟨r', t'⟩ := p'
    obtain rfl : r = r' := hsame
    cases r with
    | error e => exact ⟨rfl, rfl, hrel, hs⟩
    | ok o => exact ⟨rfl, rfl, hrel, hs.after (hr.of_decode hc)⟩

/-- What a request that names no other database leaves of the others. -/
theorem Service.handleRequest_elsewhere {b : Backend} (hs : s.SelectsOnly db)
    (hr : NamesOnly db request) (hb : b.store.Steady) {other : String} (hne : other ≠ db) :
    (handleRequest ⟨b, s⟩ request).2.backend.Alike other b ∧
      (handleRequest ⟨b, s⟩ request).2.session.SelectsOnly db := by
  rw [handleRequest]
  cases hc : Command.decode request with
  | error e => exact ⟨⟨rfl, rfl, hb, hb, Iff.rfl⟩, hs⟩
  | ok c =>
    have hworks := Session.run_worksIn (Command.place_eq hs (hr.of_decode hc))
    obtain ⟨hcatalog, hcontent⟩ := hworks.elsewhere b hne
    obtain ⟨hsteady, hfails⟩ := hworks.steady hb
    simp only [execute]
    generalize s.run c b = p at hcatalog hcontent hsteady hfails
    obtain ⟨r, t⟩ := p
    cases r with
    | error e => exact ⟨⟨hcatalog, hcontent, hsteady, hb, hfails⟩, hs⟩
    | ok o => exact ⟨⟨hcatalog, hcontent, hsteady, hb, hfails⟩, hs.after (hr.of_decode hc)⟩

end Sessions

namespace System

/-- The responses to the requests of one session, in turn. -/
def repliesTo (S : System) (k : Nat) : List (Nat × String) → List Response
  | [] => []
  | (i, request) :: rest =>
    let (response, S) := S.handle i request
    if i = k then response :: S.repliesTo k rest else S.repliesTo k rest

def run (S : System) (requests : List (Nat × String)) : System :=
  requests.foldl (fun S r => (S.handle r.1 r.2).2) S

/-- The systems are alike for a session that works in one database. -/
structure AlikeFor (i : Nat) (db : String) (S S' : System) : Prop where
  backend : S.backend.Alike db S'.backend
  session : S.sessions i = S'.sessions i
  selects : (S.sessions i).SelectsOnly db

variable {S S' : System} {i j : Nat} {A B request : String}

theorem handle_session_self (S : System) (i : Nat) (request : String) :
    (S.handle i request).2.sessions i =
      (Service.handleRequest ⟨S.backend, S.sessions i⟩ request).2.session :=
  Function.update_self i _ _

theorem handle_session_of_ne (S : System) (request : String) (h : i ≠ j) :
    (S.handle j request).2.sessions i = S.sessions i := Function.update_of_ne h _ _

theorem AlikeFor.own (h : AlikeFor i A S S') (hr : NamesOnly A request) :
    (S.handle i request).1 = (S'.handle i request).1 ∧
      AlikeFor i A (S.handle i request).2 (S'.handle i request).2 := by
  obtain ⟨hsame, hsession, hbackend, hselects⟩ :=
    Service.handleRequest_alike h.backend h.selects hr
  rw [h.session] at hsame hsession hbackend
  have hself : (S.handle i request).2.sessions i =
      (Service.handleRequest ⟨S.backend, S'.sessions i⟩ request).2.session :=
    h.session ▸ handle_session_self S i request
  refine ⟨?_, ?_, ?_, ?_⟩
  · show (Service.handleRequest ⟨S.backend, S.sessions i⟩ request).1 = _
    rw [h.session]
    exact hsame
  · show Backend.Alike A (Service.handleRequest ⟨S.backend, S.sessions i⟩ request).2.backend _
    rw [h.session]
    exact hbackend
  · rw [hself, hsession, handle_session_self]
  · rw [handle_session_self]
    exact hselects

theorem AlikeFor.other (h : AlikeFor i A S S') (hij : i ≠ j) (hAB : A ≠ B)
    (hj : (S.sessions j).SelectsOnly B) (hr : NamesOnly B request) :
    AlikeFor i A (S.handle j request).2 S' ∧ ((S.handle j request).2.sessions j).SelectsOnly B := by
  obtain ⟨hbackend, hselects⟩ := Service.handleRequest_elsewhere hj hr h.backend.store.steady hAB
  have hsession := handle_session_of_ne S request hij
  refine ⟨⟨hbackend.trans h.backend, hsession.trans h.session, ?_⟩, ?_⟩
  · rw [hsession]
    exact h.selects
  · rw [handle_session_self]
    exact hselects

/-- The requests of one session. -/
def alone (k : Nat) (requests : List (Nat × String)) : List (Nat × String) :=
  requests.filter fun r => r.1 = k

/-- Requests of two sessions, of which each names one database at most. -/
def Apart (i j : Nat) (A B : String) (requests : List (Nat × String)) : Prop :=
  ∀ r ∈ requests, r.1 = i ∧ NamesOnly A r.2 ∨ r.1 = j ∧ NamesOnly B r.2

theorem AlikeFor.run {mixed : List (Nat × String)} (h : AlikeFor i A S S') (hij : i ≠ j)
    (hAB : A ≠ B) (hj : (S.sessions j).SelectsOnly B) (hmixed : Apart i j A B mixed) :
    S.repliesTo i mixed = S'.repliesTo i (alone i mixed) ∧
      AlikeFor i A (S.run mixed) (S'.run (alone i mixed)) := by
  induction mixed generalizing S S' with
  | nil => exact ⟨rfl, h⟩
  | cons r rest ih =>
    obtain ⟨k, request⟩ := r
    obtain ⟨hr, hrest⟩ := List.forall_mem_cons.mp hmixed
    rcases hr with ⟨rfl, hnames⟩ | ⟨rfl, hnames⟩
    · obtain ⟨hsame, hnext⟩ := h.own hnames
      have hj' : ((S.handle k request).2.sessions j).SelectsOnly B := by
        rw [handle_session_of_ne S request (Ne.symm hij)]
        exact hj
      obtain ⟨hreplies, halike⟩ := ih hnext hj' hrest
      have halone : alone k ((k, request) :: rest) = (k, request) :: alone k rest :=
        List.filter_cons_of_pos (decide_eq_true rfl)
      rw [halone]
      refine ⟨?_, halike⟩
      simp only [repliesTo, if_true]
      exact List.cons_eq_cons.mpr ⟨hsame, hreplies⟩
    · obtain ⟨hnext, hj'⟩ := h.other hij hAB hj hnames
      obtain ⟨hreplies, halike⟩ := ih hnext hj' hrest
      have halone : alone i ((k, request) :: rest) = alone i rest :=
        List.filter_cons_of_neg (by simpa using Ne.symm hij)
      rw [halone]
      refine ⟨?_, halike⟩
      simp only [repliesTo, if_neg (Ne.symm hij)]
      exact hreplies

theorem AlikeFor.refl (hS : S.backend.store.Steady) (hi : (S.sessions i).SelectsOnly A) :
    AlikeFor i A S S := ⟨⟨rfl, rfl, hS, hS, Iff.rfl⟩, rfl, hi⟩

end System

/-- So are all systems that are reached while no save fails. -/
theorem System.Reachable.steady {S : System} (h : S.Reachable) : S.backend.store.Steady := by
  obtain ⟨W, hW⟩ := h.holds
  exact fun m hm => (hW.backend.reliable m hm).2

/-- Two sessions that work in different databases do not notice each other. However their requests
are mixed, each session gets the answers that it gets alone, and each database is left in the
catalog and in the store as by its session alone. -/
theorem databases_do_not_interfere {S : System} (steady : S.backend.store.Steady) {i j : Nat}
    {A B : String} (hij : i ≠ j) (hAB : A ≠ B) (hi : (S.sessions i).SelectsOnly A)
    (hj : (S.sessions j).SelectsOnly B) {mixed : List (Nat × String)}
    (hmixed : System.Apart i j A B mixed) :
    let S' := S.run mixed
    let Si := S.run (System.alone i mixed)
    let Sj := S.run (System.alone j mixed)
    S.repliesTo i mixed = S.repliesTo i (System.alone i mixed) ∧
      S.repliesTo j mixed = S.repliesTo j (System.alone j mixed) ∧
      (S'.backend.catalog.find? A = Si.backend.catalog.find? A ∧
        S'.backend.store.content.find? A = Si.backend.store.content.find? A) ∧
      (S'.backend.catalog.find? B = Sj.backend.catalog.find? B ∧
        S'.backend.store.content.find? B = Sj.backend.store.content.find? B) := by
  have hmixed' : System.Apart j i B A mixed := fun r hr => (hmixed r hr).symm
  obtain ⟨hreplies, halike⟩ := (System.AlikeFor.refl steady hi).run hij hAB hj hmixed
  obtain ⟨hreplies', halike'⟩ := (System.AlikeFor.refl steady hj).run hij.symm hAB.symm hi hmixed'
  exact ⟨hreplies, hreplies', ⟨halike.backend.catalog, halike.backend.store.content⟩,
    halike'.backend.catalog, halike'.backend.store.content⟩

/-- Two sessions make a database and a table each; the one drops its database, the other goes on. -/
def sideBySide : List (Nat × String) :=
  [(0, "2 4 a"), (1, "2 4 b"), (1, "7 b"), (0, "7 a"), (0, "2 5 t 29 id"), (1, "2 5 t 29 id 29 x"),
    (0, "8 t 1"), (1, "8 t 1#5"), (1, "3 4 b"), (0, "19 18 16 t"), (1, "19 18 16 t"), (0, "3 5 t")]

theorem databases_do_not_interfere_sideBySide :
    let S := System.initial .inMemory
    S.repliesTo 0 sideBySide = S.repliesTo 0 [(0, "2 4 a"), (0, "7 a"), (0, "2 5 t 29 id"),
        (0, "8 t 1"), (0, "19 18 16 t"), (0, "3 5 t")] ∧
      S.repliesTo 1 sideBySide = S.repliesTo 1 [(1, "2 4 b"), (1, "7 b"), (1, "2 5 t 29 id 29 x"),
        (1, "8 t 1#5"), (1, "3 4 b"), (1, "19 18 16 t")] := by
  have hmixed : System.Apart 0 1 "a" "b" sideBySide := by
    unfold System.Apart
    decide +kernel
  have hreached : (System.initial .inMemory).Reachable := .initial rfl fun m hm => nomatch hm
  obtain ⟨hreplies, hreplies', -⟩ :=
    databases_do_not_interfere hreached.steady (i := 0) (j := 1) (by decide) (by decide)
      (fun n hn => nomatch hn) (fun n hn => nomatch hn) hmixed
  exact ⟨hreplies, hreplies'⟩

end RelStore

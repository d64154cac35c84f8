import RelStore.Proofs.Reachability
/-! What a request that fails leaves behind: nothing new but a draft, and that only of a table whose
file name is too long. A selection leaves nothing behind at all. -/
namespace RelStore

open Catalog (tableFile draftFile nameFits)

namespace Step

variable {σ α β : Type} {x : Step σ α} {f : α → Step σ β}

/-- The step may look at a state, and leaves it as it is. -/
def ReadOnly (x : Step σ α) : Prop := ∀ s, (x s).2 = s

theorem ReadOnly.get : ReadOnly (get : Step σ σ) := fun _ => rfl

theorem ReadOnly.lift (r : Except Error α) : ReadOnly (liftM r : Step σ α) := fun _ => rfl

theorem ReadOnly.bind (hx : ReadOnly x) (hf : ∀ a, ReadOnly (f a)) : ReadOnly (x >>= f) := by
  intro s
  have hs := hx s
  rw [bind_run]
  cases hr : (x s).1 with
  | error e =>
    rw [show x s = (.error e, s) from Prod.ext hr hs]
  | ok a =>
    rw [show x s = (.ok a, s) from Prod.ext hr hs]
    exact hf a s

end Step

section Selections

open Step (ReadOnly)

theorem Engine.requireDatabase_readOnly (db : String) : ReadOnly (Engine.requireDatabase db) := by
  refine .bind .get fun b => ?_
  split
  · exact .lift (.error (.databaseNotFound db))
  · exact .lift (.ok ())

theorem Engine.select_readOnly (db T : String) (projection : Projection) (predicates : List Predicate) :
    ReadOnly (Engine.select db T projection predicates) := by
  refine .bind (requireDatabase_readOnly db) fun _ => .bind .get fun b => .bind (.lift _) fun plan => ?_
  exact .bind (.bind .get fun _ => .lift (.ok _)) fun c => .bind (.lift _) fun rows => .lift (.ok _)

/-- A selection leaves everything as it is, answered or not. -/
theorem Service.handleRequest_select {s : Service} {request T : String} {projection : Projection}
    {predicates : List Predicate}
    (hc : Command.decode request = .ok (.select T projection predicates)) :
    (s.handleRequest request).2 = s := by
  have hreadOnly : ReadOnly (s.session.run (.select T projection predicates)) :=
    .bind (.lift _) fun db => Engine.select_readOnly db T projection predicates
  have hs := hreadOnly s.backend
  rw [handleRequest, hc]
  simp only [execute]
  generalize s.session.run (.select T projection predicates) s.backend = answer at hs ⊢
  obtain ⟨r, b⟩ := answer
  cases hs
  cases r <;> rfl

end Selections

/-- Everything that requests can tell: which databases there are, the files but for drafts, the store
and what the sessions have selected. -/
structure System.Unchanged (S S' : System) : Prop where
  databases : ∀ db, (S'.backend.catalog.entries? db).isSome = (S.backend.catalog.entries? db).isSome
  files : ∀ db file, (∀ T, file ≠ draftFile T) →
    S'.backend.catalog.fileText? db file = S.backend.catalog.fileText? db file
  store : S'.backend.store = S.backend.store
  sessions : S'.sessions = S.sessions

namespace Command.Leaves

variable {c : Command} {b b' : Backend}

theorem store (h : c.Leaves b b') : b'.store = b.store := by cases h <;> rfl

theorem entries?_isSome (h : c.Leaves b b') (db : String) :
    (b'.catalog.entries? db).isSome = (b.catalog.entries? db).isSome := by
  cases h with
  | unchanged => rfl
  | @draft T X columns es text long folder =>
    by_cases hX : db = X
    · rw [hX, Catalog.entries?_insert, Catalog.entries?_eq folder]
      rfl
    · simp only [Catalog.entries?, OrdMap.find?_insert_of_ne hX]

theorem fileText? (h : c.Leaves b b') (db : String) {file : String}
    (hfile : ∀ T, file ≠ draftFile T) : b'.catalog.fileText? db file = b.catalog.fileText? db file := by
  cases h with
  | unchanged => rfl
  | @draft T X columns es text long folder =>
    by_cases hX : db = X
    · simp only [Catalog.fileText?, hX, Catalog.entries?_insert, Catalog.entries?_eq folder,
        Option.bind_some, OrdMap.find?_insert_of_ne (hfile T)]
    · simp only [Catalog.fileText?, Catalog.entries?, OrdMap.find?_insert_of_ne hX]

theorem eq_of_fits (h : c.Leaves b b')
    (hfits : ∀ n columns, c = .createTable n columns → nameFits (tableFile n) = true) : b' = b := by
  cases h with
  | unchanged => rfl
  | @draft T X columns es text long folder =>
    rw [hfits T columns rfl] at long
    cases long

end Command.Leaves

theorem Outcome.isError_response (o : Outcome) : o.response.isError = false := by cases o <;> rfl

/-- A request that fails is not one, or its command has left what it may leave. -/
theorem Service.handleRequest_failed {b : Backend} {w : Databases} {s : Session} {request : String}
    (h : b.Models w) (hw : w.Sound) (hsize : request.utf8ByteSize < 2 ^ 63)
    (hfailed : (handleRequest ⟨b, s⟩ request).1.isError = true) :
    (handleRequest ⟨b, s⟩ request).2 = ⟨b, s⟩ ∨ ∃ c b', Command.decode request = .ok c ∧
      c.Leaves b b' ∧ (handleRequest ⟨b, s⟩ request).2 = ⟨b', s⟩ := by
  rw [handleRequest] at hfailed ⊢
  cases hc : Command.decode request with
  | error e => exact .inl rfl
  | ok c =>
    have hrun := Session.run_refines (s := s) h hw (Command.feasible_of_decode hsize hc)
    cases ha : w.run s c with
    | error e =>
      rw [ha] at hrun
      obtain ⟨b', hb', hleaves⟩ := hrun
      refine .inr ⟨c, b', rfl, hleaves, ?_⟩
      simp only [execute, hb']
    | ok answer =>
      rw [ha] at hrun
      obtain ⟨o, b', hb', -⟩ := hrun
      simp only [hc, execute, hb', o.isError_response] at hfailed
      cases hfailed

/-- A request that fails changes nothing that requests can tell, and leaves the very system unless it
would create a table whose file name is too long. A selection leaves it in any case. -/
theorem failed_request_unchanged {S : System} {request : String} (h : S.Reachable) (i : Nat)
    (size : request.utf8ByteSize < 2 ^ 63) :
    ((S.handle i request).1.isError = true →
      S.Unchanged (S.handle i request).2 ∧
        ((∀ n columns, Command.decode request = .ok (.createTable n columns) →
          nameFits (tableFile n) = true) → (S.handle i request).2 = S)) ∧
    ∀ T projection predicates, Command.decode request = .ok (.select T projection predicates) →
      (S.handle i request).2 = S := by
  have hsame {b : Backend} (hservice : (Service.handleRequest ⟨S.backend, S.sessions i⟩ request).2 =
      ⟨b, S.sessions i⟩) : (S.handle i request).2 = ⟨b, S.sessions⟩ := by
    show System.mk (Service.handleRequest _ request).2.backend
      (Function.update S.sessions i (Service.handleRequest _ request).2.session) = _
    rw [hservice, Function.update_eq_self]
  obtain ⟨W, hW⟩ := h.holds
  constructor
  · intro hfailed
    rcases Service.handleRequest_failed hW.backend hW.sound size hfailed with
      hkept | ⟨c, b', hc, hleaves, hkept⟩
    · rw [hsame hkept]
      exact ⟨⟨fun _ => rfl, fun _ _ _ => rfl, rfl, rfl⟩, fun _ => rfl⟩
    · rw [hsame hkept]
      refine ⟨⟨hleaves.entries?_isSome, fun db _ => hleaves.fileText? db, hleaves.store, rfl⟩, ?_⟩
      intro hfits
      rw [hleaves.eq_of_fits fun n columns he => hfits n columns (he ▸ hc)]
  · intro T projection predicates hc
    exact hsame (Service.handleRequest_select hc)

/-- Two sessions share a database with a reference between two tables. -/
def owing : List (Nat × String) :=
  [(0, "2 4 d"), (0, "7 d"), (0, "2 5 p 29 id 29 a"), (0, "2 5 c 29 id 29 x"), (1, "7 d"),
    (1, "10 12 c x p a"), (0, "8 p 1#5"), (1, "8 c 1#5")]

theorem failed_request_unchanged_owing :
    let S := System.asked .inMemory owing
    (S.handle 1 "8 c 2#6").1.isError = true ∧ (S.handle 1 "8 c 2#6").2 = S ∧
      (S.handle 0 "19 18 16 c").1.isError = false ∧ (S.handle 0 "19 18 16 c").2 = S := by
  obtain ⟨hreach, hholds⟩ := System.asked_inMemory_holds owing (by decide)
  have hrefused : ((System.asked .inMemory owing).handle 1 "8 c 2#6").1.isError = true := by
    rw [(hholds.handle 1 (by decide)).1]
    decide +kernel
  have hanswered : ((System.asked .inMemory owing).handle 0 "19 18 16 c").1.isError = false := by
    rw [(hholds.handle 0 (by decide)).1]
    decide +kernel
  refine ⟨hrefused, ?_, hanswered, ?_⟩
  · refine ((failed_request_unchanged hreach 1 (by decide)).1 hrefused).2 fun n columns hc => ?_
    have hinsert : Command.decode "8 c 2#6" = .ok (.insert "c" ["2", "6"]) := by decide +kernel
    rw [hinsert] at hc
    cases hc
  · exact (failed_request_unchanged hreach 0 (by decide)).2 "c" .all [] (by decide +kernel)

end RelStore

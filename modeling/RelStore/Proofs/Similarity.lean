import RelStore.Proofs.CatalogAgreement
import RelStore.Proofs.Reopening
/-! Systems that differ at most in the order of the ids in index entries. They hold the same
databases, so they answer alike, and what they hold afterwards is the same again. -/
namespace RelStore

/-- The same payload, but for the order of ids. -/
inductive Payload.Similar : Payload → Payload → Prop where
  | blob (text : String) : Similar (.blob text) (.blob text)
  | rowIds {ids ids' : List Value} (perm : ids.Perm ids') : Similar (.rowIds ids) (.rowIds ids')

/-- The same keys, with values that are related. -/
def OrdMap.Alike {κ α β : Type} [Ord κ] (p : α → β → Prop) (m : OrdMap κ α) (n : OrdMap κ β) : Prop :=
  ∀ k, Option.Rel p (m.find? k) (n.find? k)

def Collection.Similar : Collection → Collection → Prop := OrdMap.Alike Payload.Similar

def Collections.Similar : Collections → Collections → Prop := OrdMap.Alike Collection.Similar

def Content.Similar : Content → Content → Prop := OrdMap.Alike Collections.Similar

/-- The same catalog and sessions, and the same content but for the order of ids in index entries. -/
structure System.Similar (S S' : System) : Prop where
  catalog : S'.backend.catalog = S.backend.catalog
  content : S.backend.store.content.Similar S'.backend.store.content
  sessions : S'.sessions = S.sessions

section Contents

variable {R : Relation} {i : Nat} {coll coll' : Collection} {D : Database} {cs cs' : Collections}

theorem IndexEntry.similar {p p' : Option Payload} {ids : List Value} (h : IndexEntry p ids)
    (h' : IndexEntry p' ids) : Option.Rel Payload.Similar p p' := by
  cases h with
  | absent =>
    cases h' with
    | absent => exact .none
    | present ne perm => exact absurd perm.eq_nil ne
  | present ne perm =>
    cases h' with
    | absent => exact absurd perm.eq_nil ne
    | present ne' perm' => exact .some (.rowIds (perm.trans perm'.symm))

theorem IndexEntry.congr {p p' : Option Payload} {ids : List Value} (h : IndexEntry p ids)
    (hp : Option.Rel Payload.Similar p p') : IndexEntry p' ids := by
  cases h with
  | absent =>
    cases hp
    exact .absent
  | present ne perm =>
    cases hp with
    | some hs =>
      cases hs with
      | rowIds perm' =>
        refine .present (fun hnil => ne ?_) (perm'.symm.trans perm)
        rw [hnil] at perm'
        exact perm'.eq_nil

theorem Collection.Similar.refl (coll : Collection) : coll.Similar coll := by
  intro k
  cases coll.find? k with
  | none => exact .none
  | some p =>
    cases p with
    | blob text => exact .some (.blob text)
    | rowIds ids => exact .some (.rowIds (.refl ids))

/-- Rows are stored as texts. -/
theorem Collection.Similar.eq_of_rows (h : R.collection.Similar coll) : coll = R.collection := by
  ext k : 1
  have hk := h k
  rw [Relation.find?_collection] at hk ⊢
  cases hrow : R.rows.find? k with
  | none =>
    rw [hrow] at hk
    exact (eq_none_iff_of_rel hk).mpr rfl
  | some fields =>
    rw [hrow] at hk
    obtain ⟨p, hp, hs⟩ := of_rel_some_left hk
    cases hs
    exact hp

theorem Collection.Similar.eq_of_empty (h : Collection.Similar ∅ coll) : coll = ∅ := by
  ext k : 1
  exact (eq_none_iff_of_rel (h k)).mpr rfl

/-- Collections similar to those of a database are those of the same database. -/
theorem CollectionsOf.of_similar (h : CollectionsOf D cs) (hs : cs.Similar cs') :
    CollectionsOf D cs' := by
  refine ⟨?_, ?_, ?_, ?_⟩
  · have hp := hs Engine.placeholder
    rw [h.placeholder] at hp
    by_cases hD : D.isEmpty = true
    · rw [if_pos hD] at hp ⊢
      obtain ⟨coll, hcoll, hsim⟩ := of_rel_some_left hp
      rw [hcoll, hsim.eq_of_empty]
    · rw [if_neg hD] at hp ⊢
      exact (eq_none_iff_of_rel hp).mpr rfl
  · intro T R hR
    obtain ⟨coll, hcoll, hsim⟩ := of_rel_some_left (h.base T R hR ▸ hs T)
    rw [hcoll, hsim.eq_of_rows]
  · intro T R hR c hc
    obtain ⟨coll, hcoll, hindex⟩ := h.index T R hR c hc
    obtain ⟨coll', hcoll', hsim⟩ := of_rel_some_left (hcoll ▸ hs (indexCollection T c.name))
    exact ⟨coll', hcoll', fun v => (hindex v).congr (hsim v)⟩
  · intro n coll' hn
    obtain ⟨coll, hcoll, -⟩ := of_rel_some_right (hn ▸ hs n)
    exact h.only n coll hcoll

/-- The collections of one database are similar, however they came about. -/
theorem CollectionsOf.similar (h : CollectionsOf D cs) (h' : CollectionsOf D cs') :
    cs.Similar cs' := by
  have hfound {cs cs' : Collections} (h : CollectionsOf D cs) (h' : CollectionsOf D cs')
      {n : String} {coll : Collection} (hn : cs.find? n = some coll) :
      ∃ coll', cs'.find? n = some coll' ∧ coll.Similar coll' := by
    rcases h.only n coll hn with rfl | ⟨R, hR⟩ | ⟨T, R, hR, c, hc, rfl⟩
    · rw [h.placeholder, ← h'.placeholder] at hn
      exact ⟨coll, hn, .refl coll⟩
    · rw [h.base n R hR, ← h'.base n R hR] at hn
      exact ⟨coll, hn, .refl coll⟩
    · obtain ⟨coll₁, hcoll₁, hindex₁⟩ := h.index T R hR c hc
      obtain ⟨coll₂, hcoll₂, hindex₂⟩ := h'.index T R hR c hc
      rw [hn] at hcoll₁
      cases hcoll₁
      exact ⟨coll₂, hcoll₂, fun v => (hindex₁ v).similar (hindex₂ v)⟩
  intro n
  cases hn : cs.find? n with
  | none =>
    cases hn' : cs'.find? n with
    | none => exact .none
    | some coll' =>
      obtain ⟨coll, hcoll, -⟩ := hfound h' h hn'
      rw [hn] at hcoll
      cases hcoll
  | some coll =>
    obtain ⟨coll', hcoll', hsim⟩ := hfound h h' hn
    rw [hcoll']
    exact .some hsim

end Contents

/-- Where the same databases are held with the same catalog, a command leaves the same catalog. -/
theorem Session.run_catalog {b b' : Backend} {w : Databases} {s : Session} {c : Command}
    (h : b.Models w) (h' : b'.Models w) (hw : w.Sound) (hc : c.Feasible)
    (hcatalog : b'.catalog = b.catalog) : (s.run c b').2.catalog = (s.run c b).2.catalog := by
  have hrun := Session.run_refines (s := s) h hw hc
  have hrun' := Session.run_refines (s := s) h' hw hc
  cases ha : w.run s c with
  | ok answer =>
    rw [ha] at hrun hrun'
    obtain ⟨o, b₁, hb₁, -⟩ := hrun
    obtain ⟨o', b₁', hb₁', -⟩ := hrun'
    rw [hb₁, hb₁']
    exact (s.run_agrees c b' b hcatalog o' o b₁' b₁ hb₁' hb₁).2
  | error e =>
    rw [ha] at hrun hrun'
    obtain ⟨b₁, hb₁, hleaves⟩ := hrun
    obtain ⟨b₁', hb₁', hleaves'⟩ := hrun'
    cases hleaves with
    | draft => exact s.createTable_catalog _ _ hcatalog
    | unchanged =>
      cases hleaves' with
      | draft => exact s.createTable_catalog _ _ hcatalog
      | unchanged =>
        rw [hb₁, hb₁']
        exact hcatalog

namespace System

variable {S S' : System} {W : World}

/-- Similar systems hold the same world. -/
theorem Similar.holds (h : S.Similar S') (hW : S.Holds W) (hreliable : S'.backend.store.Reliable) :
    S'.Holds W := by
  refine ⟨⟨?_, ?_, ?_, ?_, hreliable⟩, h.sessions.trans hW.sessions, hW.sound⟩
  · intro db hdb
    rw [h.catalog]
    exact hW.backend.noFolder db hdb
  · intro db hdb
    exact (eq_none_iff_of_rel (h.content db)).mpr (hW.backend.noCollections db hdb)
  · intro db D hD
    rw [h.catalog]
    exact hW.backend.folder db D hD
  · intro db D hD
    obtain ⟨cs, hcs, hcollections⟩ := hW.backend.collections db D hD
    obtain ⟨cs', hcs', hsim⟩ := of_rel_some_left (hcs ▸ h.content db)
    exact ⟨cs', hcs', hcollections.of_similar hsim⟩

/-- Systems with one catalog that hold the same world are similar. -/
theorem Holds.similar (h : S.Holds W) (h' : S'.Holds W)
    (hcatalog : S'.backend.catalog = S.backend.catalog) : S.Similar S' := by
  refine ⟨hcatalog, fun db => ?_, h'.sessions.trans h.sessions.symm⟩
  cases hD : W.databases.find? db with
  | none =>
    rw [h.backend.noCollections db hD, h'.backend.noCollections db hD]
    exact .none
  | some D =>
    obtain ⟨cs, hcs, hcollections⟩ := h.backend.collections db D hD
    obtain ⟨cs', hcs', hcollections'⟩ := h'.backend.collections db D hD
    rw [hcs, hcs']
    exact .some (hcollections.similar hcollections')

/-- Similar systems give equal responses, and what they become is similar. -/
theorem Similar.handle {request : String} (h : S.Similar S') (hS : S.Reachable) (hS' : S'.Reachable)
    (i : Nat) (size : request.utf8ByteSize < 2 ^ 63) :
    (S.handle i request).1 = (S'.handle i request).1 ∧
      (S.handle i request).2.Similar (S'.handle i request).2 := by
  obtain ⟨W, hW⟩ := hS.holds
  obtain ⟨W', hreliable⟩ := hS'.holds
  have hW' := h.holds hW hreliable.backend.reliable
  obtain ⟨hresponse, hnext⟩ := hW.handle i size
  obtain ⟨hresponse', hnext'⟩ := hW'.handle i size
  refine ⟨hresponse.trans hresponse'.symm, hnext.similar hnext' ?_⟩
  show (Service.handleRequest ⟨S'.backend, S'.sessions i⟩ request).2.backend.catalog =
    (Service.handleRequest ⟨S.backend, S.sessions i⟩ request).2.backend.catalog
  cases hc : Command.decode request with
  | error e =>
    rw [Service.handleRequest_error hc, Service.handleRequest_error hc]
    exact h.catalog
  | ok c =>
    rw [Service.handleRequest_state hc, Service.handleRequest_state hc, Service.execute_backend,
      Service.execute_backend, h.sessions]
    exact Session.run_catalog hW.backend hW'.backend hW.sound (Command.feasible_of_decode size hc)
      h.catalog

end System

end RelStore

import RelStore.Proofs.Representation
import RelStore.Proofs.StoreRuns
/-! The store while no save fails. Every change of a database is a change of its collections, and
writes that do not meet can be told apart. -/
namespace RelStore

namespace WriteOp

section Distinct

variable {cs cs' : Collections} {ops : List WriteOp}

/-- A collection that no write is to stays as it is. -/
theorem find?_steps {n : String} (hn : n ∉ ops.map WriteOp.collection)
    (h : steps cs ops = .ok cs') : cs'.find? n = cs.find? n := by
  induction ops generalizing cs with
  | nil =>
    cases h
    rfl
  | cons op ops ih =>
    obtain ⟨_, hstep, h⟩ := Except.bind_eq_ok.mp h
    obtain ⟨coll, -, rfl⟩ := Except.map_eq_ok.mp hstep
    rw [List.map_cons, List.mem_cons, not_or] at hn
    rw [ih hn.2 h, OrdMap.find?_insert_of_ne hn.1]

/-- Of writes to different collections each does to its own what it does alone. -/
theorem of_steps (hd : (ops.map WriteOp.collection).Nodup) (h : steps cs ops = .ok cs') :
    (∀ n, n ∉ ops.map WriteOp.collection → cs'.find? n = cs.find? n) ∧
      ∀ op ∈ ops, ∀ coll, op.run (op.found cs) = .ok coll →
        cs'.find? op.collection = some coll := by
  refine ⟨fun n hn => find?_steps hn h, ?_⟩
  induction ops generalizing cs with
  | nil =>
    cases h
    exact fun _ hop => (List.not_mem_nil hop).elim
  | cons op ops ih =>
    obtain ⟨hfirst, hd⟩ := List.nodup_cons.mp hd
    obtain ⟨_, hstep, h⟩ := Except.bind_eq_ok.mp h
    obtain ⟨coll, hrun, rfl⟩ := Except.map_eq_ok.mp hstep
    refine List.forall_mem_cons.mpr ⟨fun coll' hrun' => ?_, fun op' hop' => ?_⟩
    · cases hrun.symm.trans hrun'
      rw [find?_steps hfirst h, OrdMap.find?_insert_self]
    · have hne : op'.collection ≠ op.collection :=
        fun he => hfirst (he ▸ List.mem_map_of_mem hop')
      have hnew := ih hd h op' hop'
      rwa [found, OrdMap.find?_insert_of_ne hne] at hnew

/-- They succeed together if each does alone. -/
theorem steps_distinct (hd : (ops.map WriteOp.collection).Nodup)
    (hok : ∀ op ∈ ops, ∃ coll, op.run (op.found cs) = .ok coll) : ∃ cs', steps cs ops = .ok cs' := by
  induction ops generalizing cs with
  | nil => exact ⟨cs, rfl⟩
  | cons op ops ih =>
    obtain ⟨hfirst, hd⟩ := List.nodup_cons.mp hd
    obtain ⟨⟨coll, hrun⟩, hok⟩ := List.forall_mem_cons.mp hok
    rw [steps, step, hrun]
    refine ih hd fun op' hop' => ?_
    have hne : op'.collection ≠ op.collection :=
      fun he => hfirst (he ▸ List.mem_map_of_mem hop')
    rw [found, OrdMap.find?_insert_of_ne hne]
    exact hok op' hop'

end Distinct

/-- Insertions of new keys into one collection. -/
theorem steps_inserts {cs : Collections} {name : String} {coll : Collection}
    {entries : List (Value × Payload)} (hcoll : cs.find? name = some coll)
    (hd : (entries.map (·.1)).Nodup) (hnew : ∀ e ∈ entries, coll.find? e.1 = none) :
    ∃ coll', steps cs (entries.map fun e => .insert name ⟨e.1, e.2⟩) = .ok (cs.insert name coll') ∧
      ∀ v p, coll'.find? v = some p ↔ (v, p) ∈ entries ∨ coll.find? v = some p := by
  induction entries generalizing cs coll with
  | nil =>
    refine ⟨coll, ?_, fun v p => by simp⟩
    rw [OrdMap.insert_eq_self hcoll]
    rfl
  | cons e entries ih =>
    obtain ⟨v, p⟩ := e
    obtain ⟨hfirst, hd⟩ := List.nodup_cons.mp hd
    have hv := hnew _ List.mem_cons_self
    have hrest : ∀ e ∈ entries, (coll.insert v p).find? e.1 = none := by
      intro e he
      have hne : e.1 ≠ v := fun hev => hfirst (List.mem_map.mpr ⟨e, he, hev⟩)
      rw [OrdMap.find?_insert_of_ne hne]
      exact hnew e (List.mem_cons_of_mem _ he)
    obtain ⟨coll', hsteps, hfind⟩ := ih (OrdMap.find?_insert_self cs name _) hd hrest
    rw [OrdMap.insert_insert] at hsteps
    refine ⟨coll', ?_, fun w q => ?_⟩
    · have hrun : (WriteOp.insert name ⟨v, p⟩).step cs =
          .ok (cs.insert name (coll.insert v p)) := by
        rw [step, found, WriteOp.collection, hcoll, run, Option.getD_some,
          if_neg (by simpa [OrdMap.contains] using hv)]
        rfl
      rw [List.map_cons, steps, hrun]
      exact hsteps
    · rw [hfind, List.mem_cons, Prod.mk.injEq]
      by_cases hw : w = v
      · subst hw
        have hnot : (w, q) ∉ entries := fun hm => hfirst (List.mem_map.mpr ⟨_, hm, rfl⟩)
        simp only [OrdMap.find?_insert_self, Option.some.injEq, hnot, hv, true_and, eq_comm]
        simp
      · rw [OrdMap.find?_insert_of_ne hw]
        simp [hw]

end WriteOp

section Set

variable {c : Content} {db : String} {cs cs' : Collections}

theorem Content.find?_set_self :
    (c.set db cs).find? db = if cs.isEmpty then none else some cs := by
  rw [set]
  split
  · exact OrdMap.find?_erase_self _ _
  · exact OrdMap.find?_insert_self _ _ _

theorem Content.getD_set : ((c.set db cs).find? db).getD ∅ = cs := by
  rw [find?_set_self]
  split
  · next he =>
    rw [OrdMap.isEmpty_iff] at he
    ext k : 1
    rw [he k]
    rfl
  · rfl

theorem Content.find?_set_of_ne {db' : String} (h : db' ≠ db) :
    (c.set db cs).find? db' = c.find? db' := by
  rw [set]
  split
  · exact OrdMap.find?_erase_of_ne h
  · exact OrdMap.find?_insert_of_ne h

theorem Content.set_set (c : Content) (db : String) (cs cs' : Collections) :
    (c.set db cs).set db cs' = c.set db cs' := by
  ext k : 1
  by_cases hk : k = db
  · rw [hk, find?_set_self, find?_set_self]
  · rw [find?_set_of_ne hk, find?_set_of_ne hk, find?_set_of_ne hk]

theorem Content.insert_set (hne : cs'.isEmpty = false) :
    (c.set db cs).insert db cs' = c.set db cs' := by
  rw [← set_set c db cs cs']
  generalize c.set db cs = d
  rw [set, hne]
  rfl

theorem Content.set_self (h : c.find? db = some cs) (hne : cs.isEmpty = false) : c.set db cs = c := by
  rw [set, hne]
  exact OrdMap.insert_eq_self h

theorem Content.set_empty (h : c.find? db = none) : c.set db ∅ = c := by
  ext k : 1
  by_cases hk : k = db
  · rw [hk, find?_set_self, h]
    rfl
  · rw [find?_set_of_ne hk]

end Set

namespace Store

/-- The store holds a content with certain collections in one database, and saves succeed. -/
structure At (s : Store) (c : Content) (db : String) (cs : Collections) : Prop where
  content : s.content = c.set db cs
  reliable : s.Reliable

variable {s : Store} {c : Content} {db n : String} {cs : Collections} {coll : Collection}

theorem not_saveFails (h : s.Reliable) : ¬ s.SaveFails := by
  rintro ⟨m, hm, hfails⟩
  obtain ⟨hslot, hout⟩ := h m hm
  rcases hfails with hfirst | hfolder
  · rw [hout] at hfirst
    cases hfirst
  · exact hslot hfolder

theorem save_reliable (h : s.Reliable) :
    ∃ s', save s = (.ok (), s') ∧ s'.content = s.content ∧ s'.Reliable := by
  refine ⟨s.saved, save_of_not_fails (not_saveFails h), rfl, fun m hm => ?_⟩
  obtain ⟨m₀, hm₀, rfl⟩ := Option.map_eq_some_iff.mp hm
  exact ⟨Slot.noConfusion, by rw [(h m₀ hm₀).2]; rfl⟩

/-- A change of the collections of the database that is then saved. -/
theorem save_at {cs' : Collections} (h : s.At c db cs) (content : Content)
    (hset : content = c.set db cs') :
    ∃ s', save { s with content } = (.ok (), s') ∧ s'.At c db cs' := by
  obtain ⟨s', hsave, hc, hr⟩ := save_reliable (s := { s with content }) h.reliable
  exact ⟨s', hsave, hc.trans hset, hr⟩

theorem At.within (h : s.At c db cs) : s.within db = cs := by
  rw [Store.within, h.content, Content.getD_set]

theorem At.find? (h : s.At c db cs) (hne : cs.isEmpty = false) : s.content.find? db = some cs := by
  rw [h.content, Content.find?_set_self, hne]
  rfl

theorem createCollection_at (h : s.At c db cs) (hn : cs.find? n = none) :
    ∃ s', createCollection db n s = (.ok (), s') ∧ s'.At c db (cs.insert n ∅) := by
  rw [createCollection_run, h.within, OrdMap.contains_eq_false_iff.mpr hn, if_neg Bool.false_ne_true]
  exact save_at h _ (by rw [h.content, Content.insert_set (OrdMap.isEmpty_insert _ _ _)])

theorem dropCollection_at (h : s.At c db cs) (hne : cs.isEmpty = false) :
    ∃ s', dropCollection db n s = (.ok (cs.contains n), s') ∧ s'.At c db (cs.erase n) := by
  have hset : s.content.set db (cs.erase n) = c.set db (cs.erase n) := by
    rw [h.content, Content.set_set]
  rw [dropCollection_run_some s db n (h.find? hne)]
  cases hn : cs.contains n with
  | true =>
    obtain ⟨s', hsave, hat⟩ := save_at h _ hset
    exact ⟨s', by rw [if_pos rfl, Step.bind_run_ok hsave]; rfl, hat⟩
  | false => exact ⟨_, if_neg Bool.false_ne_true, hset, h.reliable⟩

theorem dropDatabase_at (h : s.At c db cs) (hne : cs.isEmpty = false) :
    ∃ s', dropDatabase db s = (.ok (), s') ∧ s'.At c db ∅ := by
  rw [dropDatabase_run, OrdMap.contains_iff.mpr ⟨cs, h.find? hne⟩, if_pos rfl]
  exact save_at h _ (by rw [h.content]; exact Content.set_set c db cs ∅)

theorem apply_at {cs' : Collections} {ops : List WriteOp} (h : s.At c db cs)
    (hne : cs'.isEmpty = false) (hsteps : WriteOp.steps cs ops = .ok cs') :
    ∃ s', apply db ops s = (.ok (), s') ∧ s'.At c db cs' := by
  by_cases hops : ops = []
  · cases hops
    cases hsteps
    exact ⟨s, rfl, h⟩
  · obtain ⟨s', hsave, hat⟩ := save_at h (s.content.insert db cs')
      (by rw [h.content, Content.insert_set hne])
    rw [← h.within] at hsteps
    exact ⟨s', by rw [apply_run_ok hops hsteps, hsave], hat⟩

end Store

end RelStore

import RelStore.Proofs.Maps
import RelStore.Proofs.Running
import RelStore.Store.Durable
/-! What each operation of the store gives, whether its save goes well or not. A batch does its
writes one after another; its log, the latest effect first, takes it back from wherever it
stopped. -/
namespace RelStore

/-- The content with these collections in a database, which is there if it has any. -/
def Content.set (c : Content) (db : String) (cs : Collections) : Content :=
  if cs.isEmpty then c.erase db else c.insert db cs

/-- The collection with an entry put under a key, or with none there. -/
def Collection.put (c : Collection) (id : Value) : Option Payload → Collection
  | some p => c.insert id p
  | none => c.erase id

namespace Collection

variable {c : Collection} {id : Value}

theorem find?_put_self (p : Option Payload) : (c.put id p).find? id = p := by
  cases p with
  | none => exact OrdMap.find?_erase_self _ _
  | some p => exact OrdMap.find?_insert_self _ _ _

theorem find?_put_of_ne {id' : Value} (h : id' ≠ id) (p : Option Payload) :
    (c.put id p).find? id' = c.find? id' := by
  cases p with
  | none => exact OrdMap.find?_erase_of_ne h
  | some p => exact OrdMap.find?_insert_of_ne h

/-- Putting back what was there undoes whatever was put. -/
theorem put_put_find? (c : Collection) (id : Value) (p : Option Payload) :
    (c.put id p).put id (c.find? id) = c := by
  ext id' : 1
  by_cases hid : id' = id
  · rw [hid, find?_put_self]
  · rw [find?_put_of_ne hid, find?_put_of_ne hid]

theorem put_find? (c : Collection) (id : Value) : c.put id (c.find? id) = c := by
  ext id' : 1
  by_cases hid : id' = id
  · rw [hid, find?_put_self]
  · rw [find?_put_of_ne hid]

end Collection

namespace WriteOp

/-- What a write makes of the entry under its key; nothing, where it cannot be done. -/
def effect : WriteOp → Option Payload → Option (Option Payload)
  | .insert _ d, none => some (some d.payload)
  | .insert _ _, some _ => none
  | .delete _ _, _ => some none
  | .push _ _ v, some (.rowIds ids) => some (some (.rowIds (ids ++ [v])))
  | .pull _ _ v, some (.rowIds ids) => some (some (.rowIds (ids.filter (· ≠ v))))
  | .push _ _ _, _ => none
  | .pull _ _ _, _ => none

/-- A write touches the entry under its key and no other. -/
theorem run_eq_effect (op : WriteOp) (c : Collection) :
    (op.run c).toOption = (op.effect (c.find? op.key)).map (c.put op.key) := by
  cases op with
  | insert name d =>
    cases hd : c.find? d.id <;>
      simp [run, effect, key, OrdMap.contains, hd, Except.toOption, Collection.put]
  | delete name id => rfl
  | push name id v | pull name id v =>
    obtain hid | ⟨s, hid⟩ | ⟨ids, hid⟩ : c.find? id = none ∨
        (∃ s, c.find? id = some (.blob s)) ∨ ∃ ids, c.find? id = some (.rowIds ids) := by
      rcases c.find? id with _ | s | ids <;> simp
    all_goals simp [run, editRowIds, effect, key, hid, Except.toOption, Collection.put]

theorem eq_put_of_run {op : WriteOp} {c c' : Collection} (h : op.run c = .ok c') :
    ∃ p, c' = c.put op.key p := by
  have heq := run_eq_effect op c
  rw [h, Except.toOption, eq_comm, Option.map_eq_some_iff] at heq
  obtain ⟨p, -, hp⟩ := heq
  exact ⟨p, hp.symm⟩

/-- The collection that a write finds; a missing one is empty. -/
def found (op : WriteOp) (cs : Collections) : Collection := (cs.find? op.collection).getD ∅

def step (op : WriteOp) (cs : Collections) : Except Error Collections :=
  (op.run (op.found cs)).map fun c => cs.insert op.collection c

def steps (cs : Collections) : List WriteOp → Except Error Collections
  | [] => .ok cs
  | op :: ops => do steps (← op.step cs) ops

/-- Each write leaves a collection. -/
theorem isEmpty_steps {cs cs' : Collections} {ops : List WriteOp}
    (hne : ops ≠ [] ∨ cs.isEmpty = false) (h : steps cs ops = .ok cs') : cs'.isEmpty = false := by
  induction ops generalizing cs with
  | nil =>
    cases h
    exact hne.resolve_left fun hnil => hnil rfl
  | cons op ops ih =>
    obtain ⟨cs₁, hstep, h⟩ := Except.bind_eq_ok.mp h
    obtain ⟨c, -, rfl⟩ := Except.map_eq_ok.mp hstep
    exact ih (.inr (OrdMap.isEmpty_insert _ _ _)) h

end WriteOp

namespace Batch

variable {cs : Collections}

theorem openCollection_found (op : WriteOp) (cs : Collections) (log : List Undo) :
    op.found (openCollection cs log op.collection).1 = op.found cs ∧
      ∀ c, (openCollection cs log op.collection).1.insert op.collection c =
        cs.insert op.collection c := by
  rw [openCollection]
  split
  · exact ⟨rfl, fun _ => rfl⟩
  · next hnone =>
    have hnone := OrdMap.contains_eq_false_iff.mp (by simpa using hnone)
    refine ⟨?_, fun c => OrdMap.insert_insert _ _ _ _⟩
    rw [WriteOp.found, WriteOp.found, OrdMap.find?_insert_self, hnone]
    rfl

/-- A batch whose writes succeed one after another ends with what they leave. -/
theorem run_of_steps {cs' : Collections} {ops : List WriteOp} (log : List Undo)
    (h : WriteOp.steps cs ops = .ok cs') : ∃ log', run cs log ops = ⟨cs', log', none⟩ := by
  induction ops generalizing cs log with
  | nil =>
    cases h
    exact ⟨log, rfl⟩
  | cons op ops ih =>
    obtain ⟨cs₁, hstep, h⟩ := Except.bind_eq_ok.mp h
    obtain ⟨c, hc, rfl⟩ := Except.map_eq_ok.mp hstep
    obtain ⟨hfound, hinsert⟩ := openCollection_found op cs log
    rw [WriteOp.found] at hfound
    rw [run]
    simp only [hfound, hc, hinsert]
    exact ih _ h

/-- A batch fails with the error of the first write that does. -/
theorem failure_of_steps {e : Error} {ops : List WriteOp} (log : List Undo)
    (h : WriteOp.steps cs ops = .error e) : (run cs log ops).failure = some e := by
  induction ops generalizing cs log with
  | nil => cases h
  | cons op ops ih =>
    obtain ⟨hfound, hinsert⟩ := openCollection_found op cs log
    rw [WriteOp.found] at hfound
    rw [WriteOp.steps, WriteOp.step] at h
    rw [run]
    cases hc : op.run (op.found cs) with
    | error e' =>
      rw [hc] at h
      cases h
      simp only [hfound, hc]
    | ok c =>
      rw [hc] at h
      simp only [hfound, hc, hinsert]
      exact ih _ h

theorem find?_openCollection (cs : Collections) (log : List Undo) (name : String) :
    ∃ c, (openCollection cs log name).1.find? name = some c := by
  rw [openCollection]
  split
  · next h => exact OrdMap.contains_iff.mp h
  · exact ⟨∅, OrdMap.find?_insert_self _ _ _⟩

theorem rollback_openCollection (cs : Collections) (log : List Undo) (name : String) :
    rollback (openCollection cs log name).2 (openCollection cs log name).1 = rollback log cs := by
  rw [openCollection]
  split
  · rfl
  · next hnone =>
    have hnone := OrdMap.contains_eq_false_iff.mp (by simpa using hnone)
    change rollback log ((cs.insert name ∅).erase name) = _
    rw [OrdMap.erase_insert hnone]

theorem restore_eq_put {name : String} {c : Collection} (hc : cs.find? name = some c) (id : Value)
    (prior : Option Payload) :
    (Undo.restore name id prior).run cs = cs.insert name (c.put id prior) := by
  rw [Undo.run, hc]
  cases prior <;> rfl

/-- An entry changed since it was logged is put back. -/
theorem restore_insert_put {name : String} {id : Value} {c : Collection}
    (hc : cs.find? name = some c) (p : Option Payload) :
    (Undo.restore name id (c.find? id)).run (cs.insert name (c.put id p)) = cs := by
  rw [restore_eq_put (OrdMap.find?_insert_self _ _ _), Collection.put_put_find?,
    OrdMap.insert_insert, OrdMap.insert_eq_self hc]

/-- From wherever a batch stopped, undoing all that it has logged gives what undoing the earlier
log would have given before. By induction on the writes, with the log so far as a parameter. -/
theorem rollback_run (cs : Collections) (log : List Undo) (ops : List WriteOp) :
    rollback (run cs log ops).log (run cs log ops).collections = rollback log cs := by
  induction ops generalizing cs log with
  | nil => rfl
  | cons op ops ih =>
    obtain ⟨c, hc⟩ := find?_openCollection cs log op.collection
    have hopen := rollback_openCollection cs log op.collection
    rw [run]
    generalize openCollection cs log op.collection = opened at hc hopen
    obtain ⟨cs₁, log₁⟩ := opened
    simp only [hc, Option.getD_some]
    cases hrun : op.run c with
    | error e =>
      have hback : (Undo.restore op.collection op.key (c.find? op.key)).run cs₁ = cs₁ := by
        rw [restore_eq_put hc, Collection.put_find?, OrdMap.insert_eq_self hc]
      rw [← hopen]
      exact congrArg (rollback log₁) hback
    | ok c' =>
      obtain ⟨p, rfl⟩ := WriteOp.eq_put_of_run hrun
      rw [← hopen]
      refine (ih _ _).trans ?_
      exact congrArg (rollback log₁) (restore_insert_put hc p)

end Batch

/-- The next save fails. -/
def Medium.SaveFails (m : Medium) : Prop := m.outages.head? = some true ∨ m.slot = .folder

instance (m : Medium) : Decidable m.SaveFails := by unfold Medium.SaveFails; infer_instance

theorem Medium.save_of_fails {m : Medium} (h : m.SaveFails) (text : String) :
    ∃ e, m.save text = (.error e, { m with outages := m.outages.tail }) := by
  obtain ⟨slot, outages⟩ := m
  rcases outages with _ | ⟨_ | _, rest⟩ <;> cases slot <;> simp_all [SaveFails, save]

theorem Medium.save_of_not_fails {m : Medium} (h : ¬ m.SaveFails) (text : String) :
    m.save text = (.ok (), ⟨.file text, m.outages.tail⟩) := by
  obtain ⟨slot, outages⟩ := m
  rcases outages with _ | ⟨_ | _, rest⟩ <;> cases slot <;> simp_all [SaveFails, save]

namespace Store

/-- A snapshot is configured, and the next save of it fails. -/
def SaveFails (s : Store) : Prop := ∃ m ∈ s.medium, m.SaveFails

instance (s : Store) : Decidable s.SaveFails := by unfold SaveFails; infer_instance

/-- The store after a save that went well. -/
def saved (s : Store) : Store :=
  { s with medium := s.medium.map fun m => ⟨.file (Snapshot.write s.content), m.outages.tail⟩ }

/-- The store after a save that failed. -/
def unsaved (s : Store) : Store :=
  { s with medium := s.medium.map fun m => { m with outages := m.outages.tail } }

theorem save_of_fails {s : Store} (h : s.SaveFails) : ∃ e, save s = (.error e, s.unsaved) := by
  obtain ⟨content, medium⟩ := s
  obtain ⟨m, hm, hfails⟩ := h
  cases hm
  obtain ⟨e, he⟩ := Medium.save_of_fails hfails (Snapshot.write content)
  exact ⟨e, by simp only [save, he]; rfl⟩

theorem save_of_not_fails {s : Store} (h : ¬ s.SaveFails) : save s = (.ok (), s.saved) := by
  obtain ⟨content, medium⟩ := s
  cases medium with
  | none => rfl
  | some m =>
    have hm : ¬ m.SaveFails := fun hf => h ⟨m, rfl, hf⟩
    simp only [save, Medium.save_of_not_fails hm]
    rfl

variable (s : Store) (db n : String)

/-- The collections of a database; a missing one has none. -/
def within : Collections := (s.content.find? db).getD ∅

theorem createCollection_run : createCollection db n s =
    if (s.within db).contains n then (.ok (), s)
    else save { s with content := s.content.insert db ((s.within db).insert n ∅) } := by
  cases hn : (s.within db).contains n
  all_goals
    rw [within] at hn ⊢
    simp only [createCollection, getContent, setContent, Step.bind_run, Step.get_run,
      Step.pure_run, Step.modify_run, hn, Bool.false_eq_true, if_false, if_true]

theorem dropCollection_run_none (h : s.content.find? db = none) :
    dropCollection db n s = (.ok false, s) := by
  simp only [dropCollection, getContent, Step.bind_run, Step.get_run, Step.pure_run, h]

theorem dropCollection_run_some {cs : Collections} (h : s.content.find? db = some cs) :
    dropCollection db n s =
      if cs.contains n then
        (do save; return true : Step Store Bool)
          { s with content := s.content.set db (cs.erase n) }
      else (.ok false, { s with content := s.content.set db (cs.erase n) }) := by
  cases hn : cs.contains n
  all_goals
    simp only [dropCollection, getContent, setContent, Step.bind_run, Step.get_run, Step.pure_run,
      Step.modify_run, h, hn, Bool.false_eq_true, if_false, if_true]
    rfl

theorem dropDatabase_run : dropDatabase db s =
    if s.content.contains db then save { s with content := s.content.erase db } else (.ok (), s) := by
  cases hdb : s.content.contains db
  all_goals
    simp only [dropDatabase, getContent, setContent, Step.bind_run, Step.get_run, Step.pure_run,
      Step.modify_run, hdb, Bool.false_eq_true, if_false, if_true]

variable {s db} {op : WriteOp} {ops : List WriteOp}

/-- Undoing a batch leaves the content as it was, without the database if the batch has made it. -/
theorem rollback_content (s : Store) (db : String) (ops : List WriteOp) :
    let batch := Batch.run (s.within db) [] ops
    (if (s.content.find? db).isSome then
        (s.content.insert db batch.collections).insert db
          (Batch.rollback batch.log batch.collections)
      else (s.content.insert db batch.collections).erase db) = s.content := by
  intro batch
  cases hdb : s.content.find? db with
  | none => exact OrdMap.erase_insert hdb
  | some cs =>
    have hback : Batch.rollback batch.log batch.collections = cs := by
      rw [Batch.rollback_run, within, hdb]
      rfl
    rw [hback, Option.isSome_some, if_pos rfl, OrdMap.insert_insert]
    exact OrdMap.insert_eq_self hdb

theorem apply_run_error {e : Error} (h : WriteOp.steps (s.within db) ops = .error e) :
    apply db ops s = (.error e, s) := by
  cases ops with
  | nil => cases h
  | cons op ops =>
    have hfail := Batch.failure_of_steps [] h
    have hback := rollback_content s db (op :: ops)
    rw [within] at hfail hback
    simp only [apply, List.isEmpty_cons, Bool.false_eq_true, if_false, getContent, setContent,
      Step.bind_run, Step.get_run, Step.pure_run, Step.modify_run, Step.tryCatch_run, hfail,
      Step.throw_run, hback]

theorem apply_run_ok {cs : Collections} (hne : ops ≠ [])
    (h : WriteOp.steps (s.within db) ops = .ok cs) :
    apply db ops s =
      match save { s with content := s.content.insert db cs } with
      | (.ok (), s') => (.ok (), s')
      | (.error e, s') => (.error e, { s' with content := s.content }) := by
  obtain ⟨op, ops, rfl⟩ := List.exists_cons_of_ne_nil hne
  obtain ⟨log, hrun⟩ := Batch.run_of_steps [] h
  have hback := rollback_content s db (op :: ops)
  rw [hrun] at hback
  rw [within] at hrun
  simp only [apply, List.isEmpty_cons, Bool.false_eq_true, if_false, getContent, setContent,
    Step.bind_run, Step.get_run, Step.pure_run, Step.modify_run, Step.tryCatch_run, hrun,
    Step.throw_run]
  by_cases hfails : SaveFails { s with content := s.content.insert db cs }
  · obtain ⟨e, he⟩ := save_of_fails hfails
    rw [he]
    simp only [unsaved, hback]
  · rw [save_of_not_fails hfails]

end Store

end RelStore

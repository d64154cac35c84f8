import RelStore.Proofs.Batches
/-! What a restart finds. A call that saves leaves the snapshot with all that is in memory, whatever
failed before; a batch whose save fails takes itself back. The other calls keep a change that was
not saved, and until the next save it is in memory alone. -/
namespace RelStore

namespace Store

inductive Call where
  | createCollection (db name : String)
  | dropCollection (db name : String)
  | dropDatabase (db : String)
  | apply (db : String) (ops : List WriteOp)
  deriving DecidableEq

namespace Call

def run : Call → Step Store Unit
  | .createCollection db name => Store.createCollection db name
  | .dropCollection db name => do
    let _ ← Store.dropCollection db name
  | .dropDatabase db => Store.dropDatabase db
  | .apply db ops => Store.apply db ops

/-- Whether the call gets as far as saving. -/
def saves (s : Store) : Call → Bool
  | .createCollection db name => !(s.within db).contains name
  | .dropCollection db name => (s.within db).contains name
  | .dropDatabase db => s.content.contains db
  | .apply db ops => !ops.isEmpty && (s.content.writes db ops).isSome

/-- Whether the call undoes its change when that cannot be saved. -/
def undoes : Call → Bool
  | .apply _ _ => true
  | _ => false

/-- Dropping what is not there still removes a database without collections, and does not save. -/
def prunes (s : Store) : Call → Bool
  | .dropCollection db name =>
    !(s.within db).contains name && s.content.contains db && (s.within db).isEmpty
  | _ => false

/-- Whether something is in memory alone after the call, given whether something was before. -/
def owes (s : Store) (owing : Bool) (call : Call) : Bool :=
  if call.saves s then decide s.SaveFails && (owing || !call.undoes)
  else owing || call.prunes s

/-- How a call ends that gets as far as saving: all that is in memory is saved, or it fails. -/
inductive Ends (s : Store) (call : Call) : Prop where
  | saved (content : Content) (saves : ¬ s.SaveFails)
    (run : call.run s = (.ok (), saved { s with content }))
  | failed (e : Error) (content : Content) (fails : s.SaveFails)
    (run : call.run s = (.error e, unsaved { s with content }))
    (undone : call.undoes = true → content = s.content)

/-- A call that changes the content and saves it, and keeps the change if that fails. -/
theorem Ends.of_save {s : Store} {call : Call} (content : Content)
    (hrun : call.run s = save { s with content }) (hkeeps : call.undoes = false) : Ends s call := by
  by_cases hfails : s.SaveFails
  · obtain ⟨e, he⟩ := save_of_fails (s := { s with content }) hfails
    refine .failed e content hfails (hrun.trans he) ?_
    intro hundoes
    rw [hkeeps] at hundoes
    cases hundoes
  · exact .saved content hfails (hrun.trans (save_of_not_fails (s := { s with content }) hfails))

theorem ends_of_saves {s : Store} {call : Call} (h : call.saves s = true) : Ends s call := by
  cases call with
  | createCollection db name =>
    have hnew : (s.within db).contains name = false := by simpa [saves] using h
    refine .of_save (s.content.insert db ((s.within db).insert name ∅)) ?_ rfl
    rw [run, createCollection_run, hnew, if_neg Bool.false_ne_true]
  | dropCollection db name =>
    have hthere : (s.within db).contains name = true := h
    obtain ⟨cs, hcs⟩ : ∃ cs, s.content.find? db = some cs := by
      cases hdb : s.content.find? db with
      | none =>
        rw [within, hdb] at hthere
        cases hthere
      | some cs => exact ⟨cs, rfl⟩
    rw [within, hcs, Option.getD_some] at hthere
    refine .of_save (s.content.set db (cs.erase name)) ?_ rfl
    rw [run, Step.bind_run, dropCollection_run_some s db name hcs, hthere, if_pos rfl,
      Step.bind_run]
    rcases save { s with content := s.content.set db (cs.erase name) } with ⟨_ | _, _⟩ <;> rfl
  | dropDatabase db =>
    have hthere : s.content.contains db = true := h
    refine .of_save (s.content.erase db) ?_ rfl
    rw [run, dropDatabase_run, hthere, if_pos rfl]
  | apply db ops =>
    obtain ⟨hops, hwrites⟩ : ops ≠ [] ∧ (s.content.writes db ops).isSome = true := by
      simpa [saves] using h
    rcases apply_cases s db ops with
      ⟨hnil, -⟩ | ⟨e, hnone, -⟩ | ⟨e, -, -, hfails, -, hrun⟩ | ⟨c, -, hfails, -, hrun⟩
    · exact absurd hnil hops
    · rw [hnone] at hwrites
      cases hwrites
    · exact .failed e s.content hfails hrun fun _ => rfl
    · exact .saved c hfails hrun

/-- A call that does not get as far as saving leaves the content as it was, but for a database
without collections. -/
theorem run_of_not_saves {s : Store} {call : Call} (h : call.saves s = false) :
    ∃ r content, call.run s = (r, { s with content }) ∧
      (call.prunes s = false → content = s.content) := by
  cases call with
  | createCollection db name =>
    have hthere : (s.within db).contains name = true := by simpa [saves] using h
    exact ⟨_, s.content, by rw [run, createCollection_run, hthere, if_pos rfl], fun _ => rfl⟩
  | dropCollection db name =>
    have habsent : (s.within db).contains name = false := h
    cases hdb : s.content.find? db with
    | none =>
      refine ⟨.ok (), s.content, ?_, fun _ => rfl⟩
      rw [run, Step.bind_run_ok (dropCollection_run_none s db name hdb)]
      rfl
    | some cs =>
      have hwithin : s.within db = cs := by rw [within, hdb, Option.getD_some]
      rw [hwithin] at habsent
      have hrun := dropCollection_run_some s db name hdb
      rw [habsent, if_neg Bool.false_ne_true] at hrun
      refine ⟨.ok (), s.content.set db (cs.erase name), ?_, fun hprunes => ?_⟩
      · rw [run, Step.bind_run_ok hrun]
        rfl
      · have hthere : s.content.contains db = true := OrdMap.contains_iff.mpr ⟨cs, hdb⟩
        have hne : cs.isEmpty = false := by
          simpa [prunes, hwithin, habsent, hthere] using hprunes
        rw [OrdMap.erase_eq_self (OrdMap.contains_eq_false_iff.mp habsent)]
        rw [Content.set, hne, if_neg Bool.false_ne_true, OrdMap.insert_eq_self hdb]
  | dropDatabase db =>
    have habsent : s.content.contains db = false := h
    refine ⟨.ok (), s.content, ?_, fun _ => rfl⟩
    rw [run, dropDatabase_run, habsent, if_neg Bool.false_ne_true]
  | apply db ops =>
    rcases apply_cases s db ops with
      ⟨-, hrun⟩ | ⟨e, -, hrun⟩ | ⟨e, c, hne, -, hsome, -⟩ | ⟨c, hne, -, hsome, -⟩
    · exact ⟨_, s.content, hrun, fun _ => rfl⟩
    · exact ⟨_, s.content, hrun, fun _ => rfl⟩
    · simp [saves, hne, hsome] at h
    · simp [saves, hne, hsome] at h

end Call

/-- The store after calls, with whether something is in memory alone. -/
def after (s : Store) (owing : Bool) : List Call → Store × Bool
  | [] => (s, owing)
  | call :: calls => after (call.run s).2 (call.owes s owing) calls

/-- A snapshot is configured, and unless something is owed to it, it loads as what is in memory. -/
structure Accounted (s : Store) (owing : Bool) : Prop where
  configured : s.medium.isSome = true
  durable : owing = false → s.content.ReadsBack → s.Durable

variable {s s' : Store} {owing : Bool}

/-- Only what is in memory and in the place of the snapshot counts. -/
theorem Durable.congr (h : s.Durable) (hcontent : s'.content = s.content)
    (hslot : s'.slot? = s.slot?) : s'.Durable := by
  intro m' hm'
  have hfound : s.slot? = some m'.slot := by rw [← hslot, slot?, hm']; rfl
  obtain ⟨m, hm, hsame⟩ := Option.map_eq_some_iff.mp hfound
  rw [hcontent, ← h m hm, load, load, hsame]

/-- What a call that is acknowledged has saved is found by a restart, whatever failed before. -/
theorem durable_of_saves {call : Call} (hsaves : call.saves s = true)
    (hok : (call.run s).1 = .ok ()) (hback : (call.run s).2.content.ReadsBack) :
    (call.run s).2.Durable := by
  cases Call.ends_of_saves hsaves with
  | saved content _ hrun =>
    rw [hrun] at hback ⊢
    exact (written_saved _).durable hback
  | failed e content _ hrun =>
    rw [hrun] at hok
    cases hok

theorem Accounted.run (h : s.Accounted owing) (call : Call) :
    (call.run s).2.Accounted (call.owes s owing) := by
  obtain ⟨hconfigured, hdurable⟩ := h
  cases hsaves : call.saves s with
  | true =>
    rw [Call.owes, hsaves, if_pos rfl]
    cases Call.ends_of_saves hsaves with
    | saved content _ hrun =>
      rw [hrun]
      exact ⟨Option.isSome_map.trans hconfigured, fun _ => (written_saved _).durable⟩
    | failed e content hfails hrun hundone =>
      rw [hrun]
      refine ⟨Option.isSome_map.trans hconfigured, ?_⟩
      intro howes hback
      obtain ⟨rfl, hundoes⟩ : owing = false ∧ call.undoes = true := by simpa [hfails] using howes
      have hcontent := hundone hundoes
      subst hcontent
      exact (hdurable rfl hback).congr rfl (slot?_unsaved s)
  | false =>
    obtain ⟨r, content, hrun, hsame⟩ := Call.run_of_not_saves hsaves
    rw [Call.owes, hsaves, if_neg Bool.false_ne_true, hrun]
    refine ⟨hconfigured, ?_⟩
    intro howes hback
    obtain ⟨rfl, hprunes⟩ : owing = false ∧ call.prunes s = false := by simpa using howes
    have hcontent := hsame hprunes
    subst hcontent
    exact hdurable rfl hback

theorem Accounted.after (h : s.Accounted owing) (calls : List Call) :
    (after s owing calls).1.Accounted (after s owing calls).2 := by
  induction calls generalizing s owing with
  | nil => exact h
  | cons call calls ih => exact ih (h.run call)

theorem accounted_openAt {m : Medium} (h : openAt m = .ok s) : s.Accounted false := by
  obtain ⟨content, hload, rfl⟩ := Except.map_eq_ok.mp h
  refine ⟨rfl, fun _ _ => ?_⟩
  rintro m ⟨⟩
  exact hload

/-- Along any calls, with any of their saves failing, a restart finds what is in memory, unless
something is owed: the change of a call other than a batch that could not be saved, or a database
without collections removed on the way, and no save since. A call that gets as far as saving and is
acknowledged owes nothing, whatever failed before. -/
theorem restart_finds_unless_owed {m : Medium} {s : Store} (hopen : openAt m = .ok s)
    (calls : List Call) :
    (after s false calls).1.medium.isSome = true ∧
      ((after s false calls).2 = false → (after s false calls).1.content.ReadsBack →
        (after s false calls).1.Durable) ∧
      ∀ call : Call, call.saves (after s false calls).1 = true →
        (call.run (after s false calls).1).1 = .ok () →
        (call.run (after s false calls).1).2.content.ReadsBack →
        (call.run (after s false calls).1).2.Durable := by
  obtain ⟨hconfigured, hdurable⟩ := (accounted_openAt hopen).after calls
  exact ⟨hconfigured, hdurable, fun call => durable_of_saves⟩

/-- A collection that could not be saved, another one that is; then a batch that is taken back. -/
theorem restart_finds_unless_owed_caught_up :
    let m : Medium := ⟨.vacant, [true, false, true]⟩
    let calls : List Call := [.createCollection "d" "a", .createCollection "d" "b",
      .apply "d" [.insert "c" ⟨.int 1, .blob "x"⟩]]
    let s := (after ⟨∅, some m⟩ false calls).1
    openAt m = .ok ⟨∅, some m⟩ ∧ s.content.collections "d" = ["a", "b"] ∧ s.Durable := by
  intro m calls s
  have hopen : openAt m = .ok ⟨∅, some m⟩ := rfl
  refine ⟨hopen, by decide +kernel, ?_⟩
  exact (restart_finds_unless_owed hopen calls).2.1 (by decide +kernel) (by decide +kernel)

/-- A collection that could not be saved is kept; asked for again, it is there already, which is
acknowledged without a save, and a restart does not find it. -/
theorem not_restart_finds : ¬ ∀ (m : Medium) (s : Store) (calls : List Call) (call : Call),
    openAt m = .ok s → (call.run (after s false calls).1).1 = .ok () →
      (call.run (after s false calls).1).2.content.ReadsBack →
      (call.run (after s false calls).1).2.Durable := by
  intro h
  have hlost := h ⟨.vacant, [true]⟩ ⟨∅, some ⟨.vacant, [true]⟩⟩ [.createCollection "d" "c"]
    (.createCollection "d" "c") rfl rfl (by decide +kernel) ⟨.vacant, []⟩ (by decide +kernel)
  have hempty := Except.ok.inj hlost
  revert hempty
  decide +kernel

end Store

end RelStore

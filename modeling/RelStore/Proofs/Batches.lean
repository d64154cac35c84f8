import RelStore.Proofs.SnapshotText
import RelStore.Proofs.StoreRuns
/-! A batch is done in whole or not at all. What it should give is told by the entries alone: each
write makes something of the entry under its key, in a database and a collection that are made
where they are missing. -/
namespace RelStore

namespace Content

/-- The content after one write, unless it cannot be done. -/
def write (c : Content) (db : String) (op : WriteOp) : Option Content :=
  let cs := (c.find? db).getD ∅
  let coll := (cs.find? op.collection).getD ∅
  (op.effect (coll.find? op.key)).map fun p =>
    c.insert db (cs.insert op.collection (coll.put op.key p))

/-- The content after one write after another. -/
def writes (c : Content) (db : String) (ops : List WriteOp) : Option Content :=
  ops.foldlM (fun c op => c.write db op) c

theorem write_eq_step (c : Content) (db : String) (op : WriteOp) :
    c.write db op = (op.step ((c.find? db).getD ∅)).toOption.map (c.insert db) := by
  have heffect := op.run_eq_effect (op.found ((c.find? db).getD ∅))
  rw [write, WriteOp.step, ← WriteOp.found]
  cases hrun : op.run (op.found ((c.find? db).getD ∅)) with
  | error e =>
    rw [hrun, Except.toOption, eq_comm, Option.map_eq_none_iff] at heffect
    rw [heffect]
    rfl
  | ok coll =>
    rw [hrun, Except.toOption, eq_comm, Option.map_eq_some_iff] at heffect
    obtain ⟨p, hp, rfl⟩ := heffect
    rw [hp]
    rfl

/-- In a content that has the database, the writes only change its collections. -/
theorem writes_insert (c : Content) (db : String) (cs : Collections) (ops : List WriteOp) :
    writes (c.insert db cs) db ops = (WriteOp.steps cs ops).toOption.map (c.insert db) := by
  induction ops generalizing cs with
  | nil => rfl
  | cons op ops ih =>
    have hwrite := write_eq_step (c.insert db cs) db op
    rw [OrdMap.find?_insert_self, Option.getD_some] at hwrite
    rw [writes, List.foldlM_cons, hwrite, WriteOp.steps]
    cases op.step cs with
    | error e => rfl
    | ok cs' =>
      simp only [Except.toOption, Option.map_some, OrdMap.insert_insert]
      exact ih cs'

theorem writes_eq_steps (c : Content) (db : String) {ops : List WriteOp} (hne : ops ≠ []) :
    c.writes db ops =
      (WriteOp.steps ((c.find? db).getD ∅) ops).toOption.map (c.insert db) := by
  obtain ⟨op, ops, rfl⟩ := List.exists_cons_of_ne_nil hne
  rw [writes, List.foldlM_cons, write_eq_step, WriteOp.steps]
  cases op.step ((c.find? db).getD ∅) with
  | error e => rfl
  | ok cs => exact writes_insert c db cs ops

theorem writes_eq_some {c c' : Content} {db : String} {ops : List WriteOp} (hne : ops ≠ []) :
    c.writes db ops = some c' ↔
      ∃ cs, WriteOp.steps ((c.find? db).getD ∅) ops = .ok cs ∧ c.insert db cs = c' := by
  rw [writes_eq_steps c db hne, Option.map_eq_some_iff]
  simp only [Except.toOption_eq_some]

end Content

namespace Store

variable {s s' : Store} {db : String} {ops : List WriteOp}

/-- A configured snapshot is what the content is written as. -/
def Written (s : Store) : Prop := ∀ m ∈ s.medium, m.slot = .file (Snapshot.write s.content)

/-- A configured snapshot loads as the content in memory. -/
def Durable (s : Store) : Prop := ∀ m ∈ s.medium, load m = .ok s.content

theorem Written.durable (h : s.Written) (hback : s.content.ReadsBack) : s.Durable := by
  intro m hm
  rw [load, h m hm]
  simp only [Snapshot.read?_write hback]

theorem written_saved (s : Store) : s.saved.Written := by
  intro m hm
  obtain ⟨m₀, -, rfl⟩ := Option.map_eq_some_iff.mp hm
  rfl

/-- What there is of a snapshot: whether one is configured, and what is in its place. -/
def slot? (s : Store) : Option Slot := s.medium.map Medium.slot

theorem slot?_unsaved (s : Store) : s.unsaved.slot? = s.slot? := by
  rw [slot?, slot?, unsaved, Option.map_map]
  rfl

/-- How a batch can go. -/
theorem apply_cases (s : Store) (db : String) (ops : List WriteOp) :
    (ops = [] ∧ apply db ops s = (.ok (), s)) ∨
    (∃ e, s.content.writes db ops = none ∧ apply db ops s = (.error e, s)) ∨
    (∃ e c, ops ≠ [] ∧ s.SaveFails ∧ s.content.writes db ops = some c ∧
      apply db ops s = (.error e, s.unsaved)) ∨
    (∃ c, ops ≠ [] ∧ ¬ s.SaveFails ∧ s.content.writes db ops = some c ∧
      apply db ops s = (.ok (), saved { s with content := c })) := by
  by_cases hops : ops = []
  · exact .inl ⟨hops, by rw [hops]; rfl⟩
  have hwrites := Content.writes_eq_steps s.content db hops
  rw [← within] at hwrites
  cases hsteps : WriteOp.steps (s.within db) ops with
  | error e =>
    rw [hsteps] at hwrites
    exact .inr (.inl ⟨e, hwrites, apply_run_error hsteps⟩)
  | ok cs =>
    rw [hsteps] at hwrites
    have hrun := apply_run_ok hops hsteps
    by_cases hfails : s.SaveFails
    · obtain ⟨e, he⟩ := save_of_fails (s := { s with content := s.content.insert db cs }) hfails
      rw [he] at hrun
      exact .inr (.inr (.inl ⟨e, _, hops, hfails, hwrites, hrun⟩))
    · rw [save_of_not_fails (s := { s with content := s.content.insert db cs }) hfails] at hrun
      exact .inr (.inr (.inr ⟨_, hops, hfails, hwrites, hrun⟩))

theorem apply_ok (h : apply db ops s = (.ok (), s')) :
    s.content.writes db ops = some s'.content ∧ s'.medium.isSome = s.medium.isSome ∧
      (ops ≠ [] → s'.Written) ∧ (ops = [] → s' = s) := by
  rcases apply_cases s db ops with
    ⟨rfl, hrun⟩ | ⟨e, -, hrun⟩ | ⟨e, -, -, -, -, hrun⟩ | ⟨c, hne, -, hwrites, hrun⟩
  all_goals
    rw [hrun] at h
    cases h
  · exact ⟨rfl, rfl, fun hne => absurd rfl hne, fun _ => rfl⟩
  · exact ⟨hwrites, Option.isSome_map, fun _ => written_saved _, fun h => absurd h hne⟩

theorem apply_error {e : Error} (h : apply db ops s = (.error e, s')) :
    s'.content = s.content ∧ s'.slot? = s.slot? := by
  rcases apply_cases s db ops with
    ⟨-, hrun⟩ | ⟨e, -, hrun⟩ | ⟨e, -, -, -, -, hrun⟩ | ⟨c, -, -, -, hrun⟩
  all_goals
    rw [hrun] at h
    cases h
  · exact ⟨rfl, rfl⟩
  · exact ⟨rfl, slot?_unsaved s⟩

theorem apply_fails_iff (s : Store) (db : String) (ops : List WriteOp) :
    (∃ e s', apply db ops s = (.error e, s')) ↔
      s.content.writes db ops = none ∨ (ops ≠ [] ∧ s.SaveFails) := by
  rcases apply_cases s db ops with
    ⟨rfl, hrun⟩ | ⟨e, hnone, hrun⟩ | ⟨e, -, hne, hfails, -, hrun⟩ | ⟨c, -, hsaves, hsome, hrun⟩
  · exact iff_of_false (by rw [hrun]; rintro ⟨e, s', ⟨⟩⟩)
      (not_or.mpr ⟨Option.some_ne_none _, fun h => h.1 rfl⟩)
  · exact iff_of_true ⟨e, s, hrun⟩ (.inl hnone)
  · exact iff_of_true ⟨e, s.unsaved, hrun⟩ (.inr ⟨hne, hfails⟩)
  · exact iff_of_false (by rw [hrun]; rintro ⟨e, s', ⟨⟩⟩)
      (not_or.mpr ⟨by rw [hsome]; exact Option.some_ne_none c, fun h => hsaves h.2⟩)

/-- A batch that is acknowledged has done its writes one after another, and a configured snapshot
holds what they leave. One that fails leaves the content and the snapshot alone; it fails exactly
when a write cannot be done or the save fails. -/
theorem apply_all_or_nothing (s : Store) (db : String) (ops : List WriteOp) :
    (∀ s', apply db ops s = (.ok (), s') →
      s.content.writes db ops = some s'.content ∧
        s'.medium.isSome = s.medium.isSome ∧
        (ops ≠ [] → s'.Written ∧ (s'.content.ReadsBack → s'.Durable)) ∧
        (ops = [] → s' = s)) ∧
    (∀ e s', apply db ops s = (.error e, s') → s'.content = s.content ∧ s'.slot? = s.slot?) ∧
    ((∃ e s', apply db ops s = (.error e, s')) ↔
      s.content.writes db ops = none ∨ (ops ≠ [] ∧ s.SaveFails)) := by
  refine ⟨fun s' h => ?_, fun e s' h => apply_error h, apply_fails_iff s db ops⟩
  obtain ⟨hwrites, hmedium, hwritten, hnil⟩ := apply_ok h
  exact ⟨hwrites, hmedium, fun hne => ⟨hwritten hne, (hwritten hne).durable⟩, hnil⟩

/-- A batch that makes its database and is saved; then one whose save fails, with every write
done. -/
theorem apply_all_or_nothing_saved_then_undone :
    let s : Store := ⟨∅, some ⟨.vacant, [false, true]⟩⟩
    let made : List WriteOp := [.insert "i" ⟨.int 1, .rowIds []⟩, .push "i" (.int 1) (.int 7)]
    let lost : List WriteOp := [.delete "i" (.int 1), .insert "j" ⟨.int 1, .blob "x"⟩]
    let s₁ := (apply "d" made s).2
    let s₂ := (apply "d" lost s₁).2
    s₁.content.collections "d" = ["i"] ∧ s₁.Durable ∧ s₂.content = s₁.content ∧
      s₂.slot? = s₁.slot? := by
  intro s made lost s₁ s₂
  have hmade : apply "d" made s = (.ok (), s₁) := rfl
  have hlost : apply "d" lost s₁ = (.error (.io "snapshot not written"), s₂) := rfl
  obtain ⟨-, -, hkept, -⟩ := (apply_all_or_nothing s "d" made).1 s₁ hmade
  refine ⟨by decide +kernel, (hkept (List.cons_ne_nil _ _)).2 (by decide +kernel), ?_⟩
  exact (apply_all_or_nothing s₁ "d" lost).2.1 _ s₂ hlost

end Store

end RelStore

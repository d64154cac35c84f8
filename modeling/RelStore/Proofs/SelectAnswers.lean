import RelStore.Proofs.Reachability
/-! What a selection answers: the columns asked for, of the rows that meet every predicate, whatever
is indexed. -/
namespace RelStore

namespace Projection

def Valid (t : Table) : Projection → Prop
  | .all => True
  | .columns names => names ≠ [] ∧ ∀ n ∈ names, ∃ c ∈ t.columns, c.name = n

def asksFor (c : Column) : Projection → Bool
  | .all => true
  | .columns names => c.name ∈ names

end Projection

namespace Predicate

/-- The predicate is on the column, whose type reads the literal as the value. -/
def Compares (t : Table) (p : Predicate) (c : Column) (v : Value) : Prop :=
  c ∈ t.columns ∧ c.name = p.column ∧ c.type.read? p.literal = some v

def Valid (t : Table) (p : Predicate) : Prop := ∃ c v, p.Compares t c v

def Holds (t : Table) (r : Row) (p : Predicate) : Prop :=
  ∃ c v x, p.Compares t c v ∧ r.get? c.position = some x ∧ p.op.holds x v = true

end Predicate

/-- The columns asked for, in the order of their declaration and each once, and in the order of their
ids the rows for which every predicate holds. -/
structure SelectAnswer (t : Table) (rows : List Row) (projection : Projection)
    (predicates : List Predicate) (columns : List Column) (found : List Row) : Prop where
  declared : columns.Sublist t.columns
  once : (columns.map (·.name)).Nodup
  asked : ∀ c, c ∈ columns ↔ c ∈ t.columns ∧ projection.asksFor c = true
  ascending : found.Pairwise fun r s => compare r.id s.id = .lt
  exact : ∀ r, r ∈ found ↔ r ∈ rows ∧ ∀ p ∈ predicates, p.Holds t r
  values : ∀ r ∈ found, ∀ c ∈ columns, ∃ v, r.get? c.position = some v

section Meaning

variable {t : Table} {projection : Projection} {predicates : List Predicate} {p : Predicate}
  {R : Relation}

theorem forM_column_eq_ok (hs : t.Shaped) {names : List String} :
    (names.forM fun n => do let _ ← t.column n : Except Error Unit) = .ok () ↔
      ∀ n ∈ names, ∃ c ∈ t.columns, c.name = n := by
  rw [forM_eq_ok_iff]
  apply forall₂_congr
  intro n _
  rw [Except.bind_eq_ok]
  constructor
  · rintro ⟨c, hc, -⟩
    obtain ⟨hmem, hn⟩ := Table.of_column hc
    exact ⟨c, hmem, hn⟩
  · rintro ⟨c, hmem, rfl⟩
    exact ⟨c, hs.column_name hmem, rfl⟩

theorem planProjection_eq_ok (hs : t.Shaped) {columns : List Column} :
    SelectPlan.planProjection t projection = .ok columns ↔
      projection.Valid t ∧ columns = t.columns.filter fun c => projection.asksFor c := by
  cases projection with
  | all =>
    rw [SelectPlan.planProjection, Except.ok.injEq, eq_comm]
    simp [Projection.Valid, Projection.asksFor]
  | columns names =>
    rw [SelectPlan.planProjection, Projection.Valid, ← forM_column_eq_ok hs]
    by_cases hne : names = []
    · subst hne
      constructor
      · intro h
        cases h
      · intro h
        exact absurd rfl h.1.1
    · have hempty : names.isEmpty = false := by simpa using hne
      rw [hempty, if_neg Bool.false_ne_true, Except.bind_eq_ok]
      constructor
      · rintro ⟨⟨⟩, hcheck, he⟩
        cases he
        exact ⟨⟨hne, hcheck⟩, rfl⟩
      · rintro ⟨⟨-, hcheck⟩, rfl⟩
        exact ⟨(), hcheck, rfl⟩

theorem condition_eq_ok (hs : t.Shaped) {c : Column} {op : Operator} {v : Value} :
    Relation.condition t p = .ok (c, op, v) ↔ p.Compares t c v ∧ op = p.op := by
  rw [Relation.condition, Except.bind_eq_ok]
  constructor
  · rintro ⟨column, hcolumn, h⟩
    obtain ⟨value, hv, he⟩ := Except.bind_eq_ok.mp h
    cases he
    obtain ⟨hc, hn⟩ := Table.of_column hcolumn
    rw [Column.read] at hv
    split at hv
    · next hread =>
      cases hv
      exact ⟨⟨hc, hn, hread⟩, rfl⟩
    · cases hv
  · rintro ⟨⟨hc, hn, hread⟩, rfl⟩
    refine ⟨c, hn ▸ hs.column_name hc, Except.bind_eq_ok.mpr ⟨v, ?_, rfl⟩⟩
    rw [Column.read, hread]

theorem exists_conditions_iff (hs : t.Shaped) :
    (∃ conditions, predicates.mapM (Relation.condition t) = .ok conditions) ↔
      ∀ p ∈ predicates, p.Valid t := by
  rw [exists_mapM_eq_ok_iff]
  apply forall₂_congr
  intro p _
  constructor
  · rintro ⟨⟨c, op, v⟩, h⟩
    exact ⟨c, v, ((condition_eq_ok hs).mp h).1⟩
  · rintro ⟨c, v, h⟩
    exact ⟨_, (condition_eq_ok hs).mpr ⟨h, rfl⟩⟩

theorem meets_iff_holds (hs : t.Shaped) {r : Row} {x : Column × Operator × Value}
    (h : Relation.condition t p = .ok x) : Relation.meets r x = true ↔ p.Holds t r := by
  obtain ⟨c, op, v⟩ := x
  obtain ⟨hcompares, rfl⟩ := (condition_eq_ok hs).mp h
  obtain ⟨hc, hn, hv⟩ := hcompares
  rw [Relation.meets_iff]
  constructor
  · rintro ⟨x, hx, hholds⟩
    exact ⟨c, v, x, ⟨hc, hn, hv⟩, hx, hholds⟩
  · rintro ⟨c', v', x, ⟨hc', hn', hv'⟩, hx, hholds⟩
    rw [hs.eq_of_name hc' hc (hn'.trans hn.symm)] at hv' hx
    rw [hv] at hv'
    cases hv'
    exact ⟨x, hx, hholds⟩

theorem all_meets_iff (hs : t.Shaped) {conditions : List (Column × Operator × Value)} {r : Row}
    (h : List.Forall₂ (fun p x => Relation.condition t p = .ok x) predicates conditions) :
    (∀ x ∈ conditions, Relation.meets r x = true) ↔ ∀ p ∈ predicates, p.Holds t r := by
  induction h with
  | nil => simp
  | cons hx _ ih => rw [List.forall_mem_cons, List.forall_mem_cons, meets_iff_holds hs hx, ih]

theorem exists_select_iff (hs : R.table.Shaped) :
    (∃ answer, R.select projection predicates = .ok answer) ↔
      projection.Valid R.table ∧ ∀ p ∈ predicates, p.Valid R.table := by
  rw [← exists_conditions_iff hs, Relation.select]
  constructor
  · rintro ⟨answer, h⟩
    obtain ⟨columns, hcolumns, h⟩ := Except.bind_eq_ok.mp h
    obtain ⟨conditions, hconditions, -⟩ := Except.bind_eq_ok.mp h
    exact ⟨((planProjection_eq_ok hs).mp hcolumns).1, conditions, hconditions⟩
  · rintro ⟨hvalid, conditions, hconditions⟩
    rw [(planProjection_eq_ok hs).mpr ⟨hvalid, rfl⟩, Except.ok_bind, hconditions]
    exact ⟨_, rfl⟩

theorem of_select (hs : R.table.Shaped) (hfits : ∀ r ∈ R.list, r.Fits R.table)
    {answer : List String × List (List Value)} (h : R.select projection predicates = .ok answer) :
    ∃ columns found, answer = (columns.map (·.name),
        found.map fun r => r.project (columns.map (·.position))) ∧
      SelectAnswer R.table R.list projection predicates columns found := by
  obtain ⟨columns, hcolumns, h⟩ := Except.bind_eq_ok.mp h
  obtain ⟨conditions, hconditions, he⟩ := Except.bind_eq_ok.mp h
  cases he
  obtain ⟨-, rfl⟩ := (planProjection_eq_ok hs).mp hcolumns
  refine ⟨_, _, rfl, ⟨List.filter_sublist, ?_, fun c => List.mem_filter, ?_, fun r => ?_,
    fun r hr c hc => ?_⟩⟩
  · have hdistinct := hs.distinct
    rw [Table.names_eq] at hdistinct
    exact hdistinct.sublist (List.filter_sublist.map _)
  · exact (List.pairwise_map.mp Relation.ids_ascending).sublist List.filter_sublist
  · rw [List.mem_filter, List.all_eq_true, all_meets_iff hs (mapM_eq_ok_iff.mp hconditions)]
  · obtain ⟨v, hv, -⟩ := (hfits r (List.mem_filter.mp hr).1).get? hs (List.mem_filter.mp hc).1
    exact ⟨v, hv⟩

end Meaning

section Flags

variable {t t' : Table} {R R' : Relation} {projection : Projection} {predicates : List Predicate}

/-- Columns are found alike, but for their flags. -/
theorem column_map_keyRef (hk : t'.keyRefs = t.keyRefs) (hn : t'.name = t.name) (n : String) :
    (t'.column n).map Column.keyRef = (t.column n).map Column.keyRef := by
  have hfind (t : Table) : (t.columns.find? fun c => c.name = n).map Column.keyRef =
      t.keyRefs.find? fun k => k.column = n := by
    rw [Table.keyRefs, List.find?_map]
    rfl
  have hsame := hfind t'
  rw [hk, ← hfind t] at hsame
  rw [Table.column, Table.column, hn]
  cases h : t.columns.find? fun c => c.name = n with
  | none =>
    rw [h, Option.map_none, Option.map_eq_none_iff] at hsame
    rw [hsame]
  | some c =>
    rw [h, Option.map_some] at hsame
    obtain ⟨c', hc', hkey⟩ := Option.map_eq_some_iff.mp hsame
    rw [hc']
    exact congrArg Except.ok hkey

theorem map_eq_map_iff {ε α β : Type} {x y : Except ε α} {f : α → β} (h : x.map f = y.map f) :
    (∃ e, x = .error e ∧ y = .error e) ∨ ∃ a b, x = .ok a ∧ y = .ok b ∧ f a = f b := by
  cases x with
  | error e =>
    cases y with
    | error e' => exact .inl ⟨e, rfl, congrArg _ (Except.error.inj h).symm⟩
    | ok b => cases h
  | ok a =>
    cases y with
    | error e => cases h
    | ok b => exact .inr ⟨a, b, rfl, rfl, Except.ok.inj h⟩

theorem planProjection_congr (hk : t'.keyRefs = t.keyRefs) (hn : t'.name = t.name)
    (projection : Projection) :
    (SelectPlan.planProjection t' projection).map (·.map Column.keyRef) =
      (SelectPlan.planProjection t projection).map (·.map Column.keyRef) := by
  cases projection with
  | all => exact congrArg Except.ok hk
  | columns names =>
    have hcheck : (names.forM fun n => do let _ ← t'.column n : Except Error Unit) =
        (names.forM fun n => do let _ ← t.column n) := by
      apply forM_congr
      intro n _
      rcases map_eq_map_iff (column_map_keyRef hk hn n) with ⟨e, h', h⟩ | ⟨c', c, h', h, -⟩
      · rw [h', h]
      · rw [h', h]
        rfl
    have hasked (t : Table) : (t.columns.filter fun c => decide (c.name ∈ names)).map Column.keyRef =
        t.keyRefs.filter fun k => decide (k.column ∈ names) := by
      rw [Table.keyRefs, List.filter_map]
      rfl
    rw [SelectPlan.planProjection, SelectPlan.planProjection]
    split
    · rfl
    · rw [hcheck]
      cases (names.forM fun n => do let _ ← t.column n : Except Error Unit) with
      | error e => rfl
      | ok _ => exact congrArg Except.ok ((hasked t').trans (hk ▸ (hasked t).symm))

/-- A condition with its column, but for the flags. -/
def conditionKey (x : Column × Operator × Value) : KeyRef × Operator × Value := (x.1.keyRef, x.2)

theorem condition_congr (hk : t'.keyRefs = t.keyRefs) (hn : t'.name = t.name) (p : Predicate) :
    (Relation.condition t' p).map conditionKey = (Relation.condition t p).map conditionKey := by
  rw [Relation.condition, Relation.condition]
  rcases map_eq_map_iff (column_map_keyRef hk hn p.column) with ⟨e, h', h⟩ | ⟨c', c, h', h, hkey⟩
  · rw [h', h]
  · have hread : c'.read p.literal = c.read p.literal := by
      simp only [Column.keyRef, KeyRef.mk.injEq] at hkey
      rw [Column.read, Column.read, hkey.1, hkey.2.2]
    rw [h', h, Except.ok_bind, Except.ok_bind, hread]
    cases c.read p.literal with
    | error e => rfl
    | ok v => exact congrArg (fun k => Except.ok (k, p.op, v)) hkey

theorem conditions_congr (hk : t'.keyRefs = t.keyRefs) (hn : t'.name = t.name)
    (predicates : List Predicate) :
    (predicates.mapM (Relation.condition t')).map (·.map conditionKey) =
      (predicates.mapM (Relation.condition t)).map (·.map conditionKey) := by
  induction predicates with
  | nil => rfl
  | cons p predicates ih =>
    rw [List.mapM_cons, List.mapM_cons]
    rcases map_eq_map_iff (condition_congr hk hn p) with ⟨e, h', h⟩ | ⟨x', x, h', h, hx⟩
    · rw [h', h]
      rfl
    · rw [h', h, Except.ok_bind, Except.ok_bind]
      rcases map_eq_map_iff ih with ⟨e, h', h⟩ | ⟨xs', xs, h', h, hxs⟩
      · rw [h', h]
        rfl
      · rw [h', h]
        exact congrArg Except.ok (congrArg₂ List.cons hx hxs)

/-- The answer to a selection does not depend on the flags of the columns. -/
theorem select_congr (hk : R'.table.keyRefs = R.table.keyRefs) (hn : R'.table.name = R.table.name)
    (hlist : R'.list = R.list) : R'.select projection predicates = R.select projection predicates := by
  rw [Relation.select, Relation.select, hlist]
  rcases map_eq_map_iff (planProjection_congr hk hn projection) with
    ⟨e, h', h⟩ | ⟨columns', columns, h', h, hcolumns⟩
  · rw [h', h]
    rfl
  rw [h', h, Except.ok_bind, Except.ok_bind]
  rcases map_eq_map_iff (conditions_congr hk hn predicates) with
    ⟨e, h', h⟩ | ⟨conditions', conditions, h', h, hconditions⟩
  · rw [h', h]
    rfl
  rw [h', h, Except.ok_bind, Except.ok_bind]
  have hnames : columns'.map (·.name) = columns.map (·.name) := by
    have := congrArg (List.map KeyRef.column) hcolumns
    rwa [List.map_map, List.map_map] at this
  have hplaces : columns'.map (·.position) = columns.map (·.position) := by
    have := congrArg (List.map KeyRef.ordinal) hcolumns
    rwa [List.map_map, List.map_map] at this
  have hmeets (r : Row) : conditions'.all (Relation.meets r) = conditions.all (Relation.meets r) := by
    have := congrArg (fun l => l.all fun x => (r.get? x.1.ordinal).any fun v => x.2.1.holds v x.2.2)
      hconditions
    rwa [List.all_map, List.all_map] at this
  simp only [hnames, hplaces, hmeets]

end Flags

section Answers

variable {S : System} {W : World} {w w' : Databases} {s : Session} {db T : String}
  {projection : Projection} {predicates : List Predicate}

/-- What a selection says, for databases. -/
def Databases.select (w : Databases) (db T : String) (projection : Projection)
    (predicates : List Predicate) : Except Error Outcome := do
  let D ← w.database db
  let R ← D.relation T
  let (columns, rows) ← R.select projection predicates
  return .table columns rows

theorem System.Holds.select_eq (h : S.Holds W) :
    (Engine.select db T projection predicates S.backend).1 =
      W.databases.select db T projection predicates := by
  rw [Databases.select, Databases.database]
  cases hD : W.databases.find? db with
  | none =>
    rw [Engine.select, Step.bind_run_error (h.backend.requireDatabase_error hD)]
    rfl
  | some D =>
    obtain ⟨es, cs, hstores⟩ := h.backend.stores hD
    have hrefines := Engine.select_refines hstores (h.sound.databases db D hD)
      (h.sound.names db D hD) T projection predicates
    have hassoc : (do
        let R ← D.relation T
        let (columns, rows) ← R.select projection predicates
        return Outcome.table columns rows : Except Error Outcome) =
        (D.relation T >>= fun R => R.select projection predicates).map fun a => .table a.1 a.2 := by
      cases D.relation T with
      | error e => rfl
      | ok R =>
        simp only [Except.ok_bind]
        cases R.select projection predicates <;> rfl
    rw [Except.ok_bind, hassoc]
    cases ha : (D.relation T >>= fun R => R.select projection predicates) with
    | error e =>
      rw [ha] at hrefines
      obtain ⟨b', hrun, -⟩ := hrefines
      rw [hrun]
      rfl
    | ok a =>
      rw [ha] at hrefines
      obtain ⟨o, b', hrun, rfl, -⟩ := hrefines
      rw [hrun]
      rfl

/-- A definition that only changes in its flags keeps every answer. -/
theorem Databases.select_update {D : Database} {R : Relation} {X Y : String} {f : Table → Table}
    (hD : w.find? X = some D) (hR : D.find? Y = some R) (hk : (f R.table).keyRefs = R.table.keyRefs)
    (hn : (f R.table).name = R.table.name) :
    Databases.select (w.insert X (D.update Y (·.withTable f))) db T projection predicates =
      w.select db T projection predicates := by
  rw [Databases.select, Databases.select, Databases.database, Databases.database]
  by_cases hX : db = X
  · subst hX
    rw [OrdMap.find?_insert_self, hD, Except.ok_bind, Except.ok_bind, Database.relation,
      Database.relation]
    cases checkName T with
    | error e => rfl
    | ok _ =>
      simp only [Except.ok_bind]
      by_cases hY : T = Y
      · subst hY
        rw [OrdMap.find?_update_self, hR]
        simp only [Option.map_some, pure_bind]
        have hsame : (R.withTable f).select projection predicates = R.select projection predicates :=
          select_congr hk hn rfl
        rw [hsame]
      · rw [OrdMap.find?_update_of_ne _ hY]
  · rw [OrdMap.find?_insert_of_ne hX]

/-- An index or a unique constraint keeps every answer, whether it is added or refused. -/
theorem Databases.select_handle {request n : String}
    (hc : Command.decode request = .ok (.addIndex T n) ∨
      Command.decode request = .ok (.addUnique T n)) {X : String} :
    (w.handle s request).2.1.select db X projection predicates =
      w.select db X projection predicates := by
  have hchange {op : Database → Except Error Database} {answer : Response × Databases}
      (hop : ∀ D D', op D = .ok D' → ∃ R f, D.find? T = some R ∧
        (f R.table).keyRefs = R.table.keyRefs ∧ (f R.table).name = R.table.name ∧
        D' = D.update T (·.withTable f)) (ha : w.change s op = .ok answer) :
      answer.2.select db X projection predicates = w.select db X projection predicates := by
    obtain ⟨Y, -, ha⟩ := Except.bind_eq_ok.mp ha
    obtain ⟨D, hD, ha⟩ := Except.bind_eq_ok.mp ha
    obtain ⟨D', hD', he⟩ := Except.bind_eq_ok.mp ha
    cases he
    obtain ⟨R, f, hR, hk, hn, rfl⟩ := hop D D' hD'
    exact Databases.select_update (Databases.of_database hD) hR hk hn
  rw [Databases.handle]
  rcases hc with hc | hc
  · rw [hc]
    cases ha : w.run s (.addIndex T n) with
    | error e => simp only [ha]
    | ok answer =>
      simp only [ha]
      refine hchange (fun D D' hD' => ?_) ha
      obtain ⟨R, c, hR, -, -, -, rfl⟩ := Database.of_addIndex hD'
      exact ⟨R, _, hR, (Table.Indexes.withIndex (c := c)).keyRefs, rfl, rfl⟩
  · rw [hc]
    cases ha : w.run s (.addUnique T n) with
    | error e => simp only [ha]
    | ok answer =>
      simp only [ha]
      refine hchange (fun D D' hD' => ?_) ha
      obtain ⟨R, c, hR, -, -, -, rfl⟩ := Database.of_addUnique hD'
      exact ⟨R, _, hR, (Table.Indexes.withUnique (c := c)).keyRefs, rfl, rfl⟩

theorem Databases.select_eq_ok {D : Database} {o : Outcome} (hD : w.find? db = some D) :
    w.select db T projection predicates = .ok o ↔ ∃ R answer, D.relation T = .ok R ∧
      R.select projection predicates = .ok answer ∧ o = .table answer.1 answer.2 := by
  rw [Databases.select, Databases.database, hD, Except.ok_bind, Except.bind_eq_ok]
  apply exists_congr
  intro R
  rw [exists_and_left, Except.bind_eq_ok]
  refine and_congr_right fun _ => exists_congr fun answer => and_congr_right fun _ => ?_
  constructor
  · intro he
    exact (Except.ok.inj he).symm
  · rintro rfl
    rfl

theorem System.Holds.select_ok_iff (h : S.Holds W) {D : Database}
    (hD : W.databases.find? db = some D) :
    (∃ o, (Engine.select db T projection predicates S.backend).1 = .ok o) ↔
      S.backend.catalog.tableExists db T = true ∧
        ∃ t, S.backend.catalog.table db T = .ok t ∧ projection.Valid t ∧
          ∀ p ∈ predicates, p.Valid t := by
  have hsound := h.sound.databases db D hD
  rw [h.select_eq]
  constructor
  · rintro ⟨o, ho⟩
    obtain ⟨R, answer, hR, hanswer, -⟩ := (Databases.select_eq_ok hD).mp ho
    obtain ⟨-, hfind⟩ := Database.of_relation hR
    obtain ⟨ht, -⟩ := h.table_and_rows hD hfind
    exact ⟨System.tableExists_of_table ht, R.table, ht,
      (exists_select_iff (hsound.shaped hfind)).mp ⟨answer, hanswer⟩⟩
  · rintro ⟨-, t, ht, hvalid⟩
    obtain ⟨D', R, hD', hR, rfl, -⟩ := h.of_table ht
    rw [hD] at hD'
    cases hD'
    obtain ⟨answer, hanswer⟩ := (exists_select_iff (hsound.shaped hR)).mpr hvalid
    exact ⟨_, (Databases.select_eq_ok hD).mpr ⟨R, answer, hsound.relation hR, hanswer, rfl⟩⟩

theorem System.Holds.of_select_ok (h : S.Holds W) {D : Database} {o : Outcome}
    (hD : W.databases.find? db = some D)
    (ho : (Engine.select db T projection predicates S.backend).1 = .ok o) :
    ∃ t rows columns found, S.backend.catalog.table db T = .ok t ∧
      Row.scan S.backend.store.content db t .all = .ok rows ∧
      SelectAnswer t rows projection predicates columns found ∧
      o = .table (columns.map (·.name))
        (found.map fun r => r.project (columns.map (·.position))) := by
  have hsound := h.sound.databases db D hD
  rw [h.select_eq] at ho
  obtain ⟨R, answer, hR, hanswer, rfl⟩ := (Databases.select_eq_ok hD).mp ho
  obtain ⟨-, hfind⟩ := Database.of_relation hR
  obtain ⟨ht, hrows⟩ := h.table_and_rows hD hfind
  obtain ⟨columns, found, rfl, hexact⟩ := of_select (hsound.shaped hfind)
    (hsound.relations T R hfind).rows hanswer
  exact ⟨R.table, R.list, columns, found, ht, hrows, hexact, rfl⟩

/-- Two systems answer alike where they have the same rows under the same columns, but for flags. -/
theorem System.Holds.select_alike {S' : System} {W' : World} (h : S.Holds W) (h' : S'.Holds W')
    {t t' : Table} {rows : List Row} (ht : S.backend.catalog.table db T = .ok t)
    (ht' : S'.backend.catalog.table db T = .ok t') (hk : t'.keyRefs = t.keyRefs)
    (hrows : Row.scan S.backend.store.content db t .all = .ok rows)
    (hrows' : Row.scan S'.backend.store.content db t' .all = .ok rows) :
    (Engine.select db T projection predicates S'.backend).1 =
      (Engine.select db T projection predicates S.backend).1 := by
  obtain ⟨D, R, hD, hR, rfl, hlist⟩ := h.of_table ht
  obtain ⟨D', R', hD', hR', rfl, hlist'⟩ := h'.of_table ht'
  rw [hrows] at hlist
  rw [hrows'] at hlist'
  have hsound := h.sound.databases db D hD
  have hsound' := h'.sound.databases db D' hD'
  have hn : R'.table.name = R.table.name := by
    rw [hsound'.named T R' hR', hsound.named T R hR]
  have hsame : R'.select projection predicates = R.select projection predicates :=
    select_congr hk hn ((Except.ok.inj hlist').symm.trans (Except.ok.inj hlist))
  rw [h.select_eq, h'.select_eq, Databases.select, Databases.select, Databases.database,
    Databases.database, hD, hD', Except.ok_bind, Except.ok_bind, hsound.relation hR,
    hsound'.relation hR', Except.ok_bind, Except.ok_bind, hsame]

end Answers

/-- A selection succeeds exactly for a table that is there, columns that it has and literals that
their types read. Its answer is what a scan finds; it is the same for two systems that differ in which
columns are indexed, and stays when an index or a unique constraint is added. -/
theorem select_eq_naive {S : System} {db : String} (h : S.Reachable)
    (hdb : S.backend.catalog.databaseExists db = true) (T : String) (projection : Projection)
    (predicates : List Predicate) :
    ((∃ o, (Engine.select db T projection predicates S.backend).1 = .ok o) ↔
      S.backend.catalog.tableExists db T = true ∧
        ∃ t, S.backend.catalog.table db T = .ok t ∧ projection.Valid t ∧
          ∀ p ∈ predicates, p.Valid t) ∧
    (∀ o, (Engine.select db T projection predicates S.backend).1 = .ok o →
      ∃ t rows columns found, S.backend.catalog.table db T = .ok t ∧
        Row.scan S.backend.store.content db t .all = .ok rows ∧
        SelectAnswer t rows projection predicates columns found ∧
        o = .table (columns.map (·.name)) (found.map fun r => r.project (columns.map (·.position)))) ∧
    (∀ S' : System, S'.Reachable → ∀ t t' rows, S.backend.catalog.table db T = .ok t →
      S'.backend.catalog.table db T = .ok t' → t'.keyRefs = t.keyRefs →
      Row.scan S.backend.store.content db t .all = .ok rows →
      Row.scan S'.backend.store.content db t' .all = .ok rows →
      (Engine.select db T projection predicates S'.backend).1 =
        (Engine.select db T projection predicates S.backend).1) ∧
    ∀ i request Y n, request.utf8ByteSize < 2 ^ 63 →
      Command.decode request = .ok (.addIndex Y n) ∨
        Command.decode request = .ok (.addUnique Y n) →
      (Engine.select db T projection predicates (S.handle i request).2.backend).1 =
        (Engine.select db T projection predicates S.backend).1 := by
  obtain ⟨W, hW⟩ := h.holds
  obtain ⟨D, hD⟩ := hW.databaseExists_iff.mp hdb
  refine ⟨hW.select_ok_iff hD, fun o ho => hW.of_select_ok hD ho,
    fun S' h' t t' rows ht ht' hk hrows hrows' => ?_, fun i request Y n size hc => ?_⟩
  · obtain ⟨W', hW'⟩ := h'.holds
    exact hW.select_alike hW' ht ht' hk hrows hrows'
  · rw [(hW.handle i size).2.select_eq, hW.select_eq]
    exact Databases.select_handle hc

/-- Conditions on an indexed and on another column. -/
def halfIndexed : List (Nat × String) :=
  [(0, "2 4 d"), (0, "7 d"), (0, "2 5 t 29 id 29 a 29 b"), (0, "8 t 1#5#3"), (1, "7 d"),
    (1, "10 6 t a"), (1, "8 t 2#7#4"), (0, "8 t 3#1#4")]

theorem select_eq_naive_half_indexed :
    ∃ t rows columns found,
      (System.asked .inMemory halfIndexed).backend.catalog.table "d" "t" = .ok t ∧
      Row.scan (System.asked .inMemory halfIndexed).backend.store.content "d" t .all = .ok rows ∧
      SelectAnswer t rows (.columns ["b", "a"]) [⟨"a", .ge, "5"⟩, ⟨"b", .ne, "3"⟩] columns found ∧
      columns.map (·.name) = ["a", "b"] ∧
      (found.map fun r => r.project (columns.map (·.position))) = [[.int 7, .int 4]] := by
  obtain ⟨hreach, hholds⟩ := System.asked_inMemory_holds halfIndexed (by decide)
  obtain ⟨-, hmeaning, -, -⟩ := @select_eq_naive _ "d" hreach
    (hholds.databaseExists_eq.trans (by decide +kernel)) "t" (.columns ["b", "a"])
    [⟨"a", .ge, "5"⟩, ⟨"b", .ne, "3"⟩]
  have hok : (World.asked halfIndexed).databases.select "d" "t" (.columns ["b", "a"])
      [⟨"a", .ge, "5"⟩, ⟨"b", .ne, "3"⟩] = .ok (.table ["a", "b"] [[.int 7, .int 4]]) := by
    decide +kernel
  obtain ⟨t, rows, columns, found, ht, hrows, hanswer, ho⟩ := hmeaning _ (hholds.select_eq.trans hok)
  obtain ⟨hcolumns, hfound⟩ := Outcome.table.inj ho
  exact ⟨t, rows, columns, found, ht, hrows, hanswer, hcolumns.symm, hfound.symm⟩

end RelStore

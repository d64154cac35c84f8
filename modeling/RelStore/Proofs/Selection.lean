import RelStore.Proofs.Refinement
import RelStore.Proofs.Resolution
/-! Selections. What a plan finds by index, meeting the ids of one condition after another, and then
checks row by row, are the rows that meet every condition. -/
namespace RelStore

section Lookups

variable {c : Content} {db T : String} {cs : Collections} {D : Database} {R : Relation} {r : Row}
  {column : Column} {op : Operator} {v : Value}

theorem CollectionsOf.agrees (h : CollectionsOf D cs) (hD : D.Sound) (hcs : c.find? db = some cs)
    (hR : D.find? T = some R) : Index.Agrees c db R.table R.list := by
  intro column hc
  obtain ⟨coll, hcoll, hindex⟩ := h.index T R hR column hc
  rw [hD.named T R hR, Content.collection?_eq hcs, hcoll]
  exact hindex.exact

theorem CollectionsOf.mem_lookup (h : CollectionsOf D cs) (hD : D.Sound) (hcs : c.find? db = some cs)
    (hR : D.find? T = some R) (hc : column ∈ R.table.columns) (hi : column.indexed = true)
    {id : Value} : id ∈ (Index.lookup c db R.table column op v).keys ↔
      ∃ r ∈ R.list, r.id = id ∧ Relation.meets r (column, op, v) = true :=
  Index.mem_lookup (h.scanAll hD hcs hR) (h.agrees hD hcs hR) hc hi

end Lookups

namespace SelectPlan

variable {t : Table} {groups : List (String × Conditions)} {name : String}
  {condition : Operator × Value} {r : Row}

theorem forall_addCondition {p : String → Operator × Value → Prop} :
    (∀ g ∈ addCondition name condition groups, ∀ x ∈ g.2, p g.1 x) ↔
      (∀ g ∈ groups, ∀ x ∈ g.2, p g.1 x) ∧ p name condition := by
  induction groups with
  | nil => simp [addCondition, -Prod.forall]
  | cons g groups ih =>
    obtain ⟨other, conditions⟩ := g
    rw [addCondition]
    split
    · next he =>
      subst he
      simp only [List.forall_mem_cons, List.forall_mem_append, List.not_mem_nil, false_implies,
        implies_true, and_true]
      exact and_right_comm
    · rw [List.forall_mem_cons, List.forall_mem_cons, ih, and_assoc]

/-- Every group has conditions, on a column of the table. -/
def Grouped (t : Table) (groups : List (String × Conditions)) : Prop :=
  ∀ g ∈ groups, (∃ column, t.column g.1 = .ok column) ∧ g.2 ≠ []

theorem Grouped.nil (t : Table) : Grouped t [] := fun _ hg => (nomatch hg)

theorem Grouped.addCondition (h : Grouped t groups) (hn : ∃ column, t.column name = .ok column) :
    Grouped t (addCondition name condition groups) := by
  induction groups with
  | nil => exact List.forall_mem_singleton.mpr ⟨hn, List.cons_ne_nil _ _⟩
  | cons g groups ih =>
    obtain ⟨other, conditions⟩ := g
    obtain ⟨hg, hrest⟩ := List.forall_mem_cons.mp h
    rw [SelectPlan.addCondition]
    split
    · exact List.forall_mem_cons.mpr ⟨⟨hg.1, by simp⟩, hrest⟩
    · exact List.forall_mem_cons.mpr ⟨hg, ih hrest⟩

theorem groupConditions_eq {predicates : List Predicate} :
    groupConditions t groups predicates = (predicates.mapM (Relation.condition t)).map fun cs =>
      cs.foldl (fun groups x => addCondition x.1.name x.2 groups) groups := by
  induction predicates generalizing groups with
  | nil => rfl
  | cons p predicates ih =>
    rw [groupConditions, List.mapM_cons, Relation.condition]
    cases t.column p.column with
    | error e => rfl
    | ok column =>
      simp only [Except.ok_bind]
      cases column.read p.literal with
      | error e => rfl
      | ok v =>
        simp only [Except.ok_bind, ih]
        cases predicates.mapM (Relation.condition t) <;> rfl

theorem forall_grouped {cs : List (Column × Operator × Value)}
    {p : String → Operator × Value → Prop} :
    (∀ g ∈ cs.foldl (fun groups x => addCondition x.1.name x.2 groups) groups, ∀ x ∈ g.2, p g.1 x) ↔
      (∀ g ∈ groups, ∀ x ∈ g.2, p g.1 x) ∧ ∀ x ∈ cs, p x.1.name x.2 := by
  induction cs generalizing groups with
  | nil => simp
  | cons x cs ih => rw [List.foldl_cons, ih, forall_addCondition, List.forall_mem_cons, and_assoc]

theorem Grouped.foldl {cs : List (Column × Operator × Value)} (h : Grouped t groups)
    (hcs : ∀ x ∈ cs, ∃ column, t.column x.1.name = .ok column) :
    Grouped t (cs.foldl (fun groups x => SelectPlan.addCondition x.1.name x.2 groups) groups) := by
  induction cs generalizing groups with
  | nil => exact h
  | cons x cs ih =>
    obtain ⟨hx, hrest⟩ := List.forall_mem_cons.mp hcs
    exact ih (h.addCondition hx) hrest

theorem admits_iff {column : Column} {v : Value} (hv : r.get? column.position = some v)
    (conditions : Conditions) : ScanFilter.admits ⟨column.position, conditions⟩ r = true ↔
      ∀ x ∈ conditions, Relation.meets r (column, x) = true := by
  simp only [ScanFilter.admits, hv, satisfies, List.all_eq_true, Relation.meets, Option.any_some]

/-- Of the groups, those on indexed columns are looked up, and the others become filters. -/
theorem split_eq_ok (h : Grouped t groups) (hs : t.Shaped) :
    ∃ indexed filters, split t groups = .ok (indexed, filters) ∧ Grouped t indexed ∧
      (∀ g ∈ indexed, ∀ column, t.column g.1 = .ok column → column.indexed = true) ∧
      ∀ r : Row, r.Fits t → ((∀ g ∈ groups, Meets t r g) ↔
        (∀ g ∈ indexed, Meets t r g) ∧ ∀ f ∈ filters, f.admits r = true) := by
  induction groups with
  | nil => exact ⟨[], [], rfl, h, by simp, by simp⟩
  | cons g groups ih =>
    obtain ⟨name, conditions⟩ := g
    obtain ⟨⟨⟨column, hcolumn⟩, hne⟩, hrest⟩ := List.forall_mem_cons.mp h
    obtain ⟨indexed, filters, hsplit, hgrouped, hindexed, hmeets⟩ := ih hrest
    have hown (column' : Column) (he : t.column name = .ok column') : column' = column := by
      rw [hcolumn] at he
      exact (Except.ok.inj he).symm
    rw [split, hcolumn, Except.ok_bind, hsplit, Except.ok_bind]
    by_cases hi : column.indexed = true
    · refine ⟨(name, conditions) :: indexed, filters, by simp only [hi, if_true]; rfl,
        List.forall_mem_cons.mpr ⟨⟨⟨column, hcolumn⟩, hne⟩, hgrouped⟩,
        List.forall_mem_cons.mpr ⟨fun column' he => hown column' he ▸ hi, hindexed⟩, fun r hr => ?_⟩
      rw [List.forall_mem_cons, List.forall_mem_cons, hmeets r hr, and_assoc]
    · refine ⟨indexed, ⟨column.position, conditions⟩  :: filters,
        by simp only [hi, Bool.false_eq_true, if_false]; rfl, hgrouped, hindexed, fun r hr => ?_⟩
      obtain ⟨v, hv, -⟩ := hr.get? hs (Table.of_column hcolumn).1
      rw [List.forall_mem_cons, List.forall_mem_cons, hmeets r hr, admits_iff hv, Meets, hcolumn]
      simp only [Except.ok.injEq, forall_eq']
      exact and_left_comm

end SelectPlan

section Plans

variable {c : Content} {db T : String} {cs : Collections} {D : Database} {R : Relation}
  {projection : Projection} {predicates : List Predicate}

theorem CollectionsOf.runPlan_of_resolve (h : CollectionsOf D cs) (hD : D.Sound)
    (hcs : c.find? db = some cs) (hR : D.find? T = some R) (plan : SelectPlan)
    {left : Option IdSet} (ht : plan.table = R.table)
    (hleft : Index.resolve c db plan.table plan.indexed = .ok left) :
    Engine.runPlan c db plan = .ok ((R.list.filter fun r =>
      Index.remains left r.id && plan.filters.all fun f => f.admits r).map fun r =>
        r.project plan.projection) := by
  have hscan (f : KeyFilter) : Row.scan c db plan.table f = .ok (R.list.filter fun r => f.admits r.id) := by
    rw [ht]
    exact h.scan hcs (by rwa [hD.named T R hR]) (hD.relations T R hR).rows f
  rw [Engine.runPlan, hleft, Except.ok_bind]
  cases left with
  | none =>
    simp only [hscan, Option.any_none, Bool.false_eq_true, if_false, Except.ok_bind,
      List.filter_filter, KeyFilter.admits, Index.remains, Option.all_none, Bool.and_true,
      Bool.true_and]
    rfl
  | some ids =>
    by_cases hempty : ids.isEmpty = true
    · simp [hempty, Index.remains, Index.contains_of_isEmpty hempty]
      rfl
    · have hkeys (r : Row) : decide (r.id ∈ ids.keys) = ids.contains r.id := by
        rw [Bool.eq_iff_iff, decide_eq_true_iff, OrdMap.mem_keys]
      simp only [hscan, Option.any_some, hempty, Bool.false_eq_true, if_false, Except.ok_bind,
        List.filter_filter, KeyFilter.admits, hkeys, Index.remains, Option.all_some]
      simp only [Bool.and_comm]
      rfl

theorem column_of_condition (hs : R.table.Shaped) {conditions : List (Column × Operator × Value)}
    (h : predicates.mapM (Relation.condition R.table) = .ok conditions) :
    ∀ x ∈ conditions, R.table.column x.1.name = .ok x.1 := by
  intro x hx
  obtain ⟨p, -, hp⟩ := exists_of_mem_right (mapM_eq_ok_iff.mp h) hx
  obtain ⟨column, hcolumn, hp⟩ := Except.bind_eq_ok.mp hp
  obtain ⟨v, -, he⟩ := Except.bind_eq_ok.mp hp
  cases he
  exact hs.column_name (Table.of_column hcolumn).1

theorem SelectPlan.meets_grouped {conditions : List (Column × Operator × Value)} {r : Row}
    (h : ∀ x ∈ conditions, R.table.column x.1.name = .ok x.1) :
    (∀ g ∈ conditions.foldl (fun groups x => SelectPlan.addCondition x.1.name x.2 groups) [],
      SelectPlan.Meets R.table r g) ↔ ∀ x ∈ conditions, Relation.meets r x = true := by
  refine (SelectPlan.forall_grouped (p := fun n x => ∀ column, R.table.column n =
    .ok column → Relation.meets r (column, x) = true)).trans ?_
  rw [and_iff_right fun g hg => (nomatch hg)]
  apply forall₂_congr
  intro x hx
  rw [h x hx]
  simp only [Except.ok.injEq, forall_eq']

/-- The plan of a selection finds the rows that meet every condition. -/
theorem CollectionsOf.runPlan (h : CollectionsOf D cs) (hD : D.Sound) (hcs : c.find? db = some cs)
    (hR : D.find? T = some R) :
    (SelectPlan.ofTable R.table projection predicates >>= fun plan =>
        (Engine.runPlan c db plan).map fun rows => (plan.columns, rows)) =
      R.select projection predicates := by
  have hs := hD.shaped hR
  rw [SelectPlan.ofTable, Relation.select, SelectPlan.groupConditions_eq]
  cases SelectPlan.planProjection R.table projection with
  | error e => rfl
  | ok columns =>
    cases hconditions : predicates.mapM (Relation.condition R.table) with
    | error e => rfl
    | ok conditions =>
      have hcolumns := column_of_condition hs hconditions
      have hgrouped := SelectPlan.Grouped.foldl (.nil R.table)
        fun x hx => ⟨x.1, hcolumns x hx⟩
      obtain ⟨indexed, filters, hsplit, hin, hindexed, hmeets⟩ := SelectPlan.split_eq_ok hgrouped hs
      have hresolvable : ∀ g ∈ indexed, Index.Resolvable R.table g := fun g hg =>
        ⟨(hin g hg).1.imp fun column hcolumn => ⟨hcolumn, hindexed g hg column hcolumn⟩, (hin g hg).2⟩
      obtain ⟨left, hresolve, hleft⟩ := Index.resolveFrom_eq_ok c db none hin
      have hrow : ∀ r ∈ R.list, (Index.remains left r.id && filters.all fun f => f.admits r) =
          conditions.all (Relation.meets r) := by
        intro r hr
        rw [Bool.eq_iff_iff, Bool.and_eq_true, hleft,
          Index.lists_iff_meets (h.scanAll hD hcs hR) (h.agrees hD hcs hR) hresolvable hr,
          List.all_eq_true, List.all_eq_true,
          ← SelectPlan.meets_grouped hcolumns, hmeets r ((hD.relations T R hR).rows r hr)]
        exact and_congr_left' (and_iff_right rfl)
      have hplan := h.runPlan_of_resolve hD hcs hR ⟨R.table, columns.map (·.name),
        columns.map (·.position), indexed, filters⟩ rfl hresolve
      rw [List.filter_congr hrow] at hplan
      simp only [Except.ok_bind, Except.map, hsplit, pure_bind, hplan]
      rfl

theorem Engine.select_refines {b : Backend} {cat : Catalog} {es : OrdMap String Entry}
    (h : b.Stores cat c db D es cs) (hD : D.Sound) (hdb : isValidName db = true) (T : String)
    (projection : Projection) (predicates : List Predicate) :
    Refines (Engine.select db T projection predicates) b
      (D.relation T >>= fun R => R.select projection predicates)
      (fun o answer b' => o = .table answer.1 answer.2 ∧ b' = b) (· = b) := by
  have hplan : (D.relation T >>= fun R => R.select projection predicates) =
      (SelectPlan.make b.catalog db T projection predicates >>= fun plan =>
        Engine.runPlan b.store.content db plan >>= fun rows => .ok (plan.columns, rows)) := by
    rw [SelectPlan.make, h.table hD hdb]
    cases hR : D.relation T with
    | error e => rfl
    | ok R => exact (h.collections.runPlan hD h.content (Database.of_relation hR).2).symm
  rw [hplan]
  refine .step (h.requireDatabase_run hdb) (.step (Step.get_run b) ?_)
  refine .check rfl fun plan _ => .step Backend.getContent_run ?_
  exact .check rfl fun rows _ => .pure ⟨rfl, rfl⟩

end Plans

end RelStore

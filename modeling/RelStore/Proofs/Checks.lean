import RelStore.Proofs.Representation
/-! The checks before a change, as made on files and collections, are the checks on relations: they
pass for the same rows and fail with the same error. -/
namespace RelStore

theorem forM_congr {α ε : Type} {f g : α → Except ε PUnit} {l : List α}
    (h : ∀ a ∈ l, f a = g a) : l.forM f = l.forM g := by
  induction l with
  | nil => rfl
  | cons a l ih =>
    obtain ⟨ha, hl⟩ := List.forall_mem_cons.mp h
    change (f a >>= fun _ => l.forM f) = (g a >>= fun _ => l.forM g)
    rw [ha, ih hl]

namespace Constraint

variable {cat : Catalog} {c : Content} {db T : String} {cs : Collections} {D : Database}
  {R : Relation}

theorem checkUnique_eq (h : CollectionsOf D cs) (hD : D.Sound) (hcs : c.find? db = some cs)
    (hR : D.find? T = some R) (r : Row) : checkUnique c db R.table r = R.checkUnique r := by
  have hcols (columns : List Column) (hsub : ∀ x ∈ columns, x ∈ R.table.columns) :
      checkUniqueColumns c db R.table r columns = columns.forM (R.checkUniqueColumn r) := by
    induction columns with
    | nil => rfl
    | cons column columns ih =>
      obtain ⟨hmem, hsub⟩ := List.forall_mem_cons.mp hsub
      change _ = (R.checkUniqueColumn r column >>= fun _ => columns.forM (R.checkUniqueColumn r))
      rw [checkUniqueColumns, ih hsub, Relation.checkUniqueColumn]
      cases r.get? column.position with
      | none => rfl
      | some v =>
        simp only [h.valueExists hD hcs hR hmem, Except.ok_bind]
        cases R.holds column v <;> rfl
  have hsub : ∀ x ∈ R.table.columns.filter fun column => column.unique && !column.isRowId,
      x ∈ R.table.columns := fun x hx => (List.mem_filter.mp hx).1
  rw [checkUnique, Relation.checkUnique, hcols _ hsub, hD.named T R hR, h.findOne hcs hR,
    Option.isSome_map]
  rfl

theorem checkReference_eq (h : CollectionsOf D cs) (hD : D.Sound) (hcs : c.find? db = some cs)
    (hcat : ∀ T, cat.table db T = (D.relation T).map (·.table)) (t : Table) (values : List Value)
    (wanted : Bool) (failure : String → String → String → Error) (fk : ForeignKey) :
    checkReference cat c db t values wanted failure fk =
      D.checkReference t values wanted failure fk := by
  rw [checkReference, Database.checkReference]
  cases t.column fk.key.column with
  | error e => rfl
  | ok own =>
    simp only [Except.ok_bind]
    cases values[own.position]? with
    | none => rfl
    | some v =>
      simp only [hcat]
      cases hP : D.relation fk.table with
      | error e => rfl
      | ok P =>
        obtain ⟨-, hfind⟩ := Database.of_relation hP
        simp only [Except.map, Except.ok_bind]
        cases htarget : P.table.column fk.column.column with
        | error e => rfl
        | ok target =>
          simp only [Except.ok_bind, h.valueExists hD hcs hfind (Table.of_column htarget).1]

theorem checkParents_eq (h : CollectionsOf D cs) (hD : D.Sound) (hcs : c.find? db = some cs)
    (hcat : ∀ T, cat.table db T = (D.relation T).map (·.table)) (t : Table) (values : List Value) :
    checkParents cat c db t values =
      t.foreignKeys.forM (D.checkReference t values true .missingParent) :=
  forM_congr fun fk _ => checkReference_eq h hD hcs hcat t values true .missingParent fk

theorem checkNoChildren_eq (h : CollectionsOf D cs) (hD : D.Sound) (hcs : c.find? db = some cs)
    (hcat : ∀ T, cat.table db T = (D.relation T).map (·.table)) (t : Table) (values : List Value) :
    checkNoChildren cat c db t values =
      t.childTables.forM (D.checkReference t values false .dependentRows) :=
  forM_congr fun fk _ => checkReference_eq h hD hcs hcat t values false .dependentRows fk

theorem checkExistingUnique_eq (h : CollectionsOf D cs) (hD : D.Sound)
    (hcs : c.find? db = some cs) (hR : D.find? T = some R) (column : Column) :
    checkExistingUnique c db R.table column = checkDistinct R.table column ∅ R.list := by
  rw [checkExistingUnique, h.scanAll hD hcs hR]
  rfl

theorem checkExistingReferences_eq (h : CollectionsOf D cs) (hD : D.Sound)
    (hcs : c.find? db = some cs) (hR : D.find? T = some R) {P : Relation} {parent : String}
    (hP : D.find? parent = some P) (own : Column) {target : Column}
    (htarget : target ∈ P.table.columns) :
    checkExistingReferences c db R.table own P.table target =
      Database.checkReferences R own P target := by
  rw [checkExistingReferences, h.scanAll hD hcs hR, Except.ok_bind]
  apply forM_congr
  intro v _
  rw [h.valueExists hD hcs hP htarget, Except.ok_bind]
  cases P.holds target v <;> rfl

end Constraint

end RelStore

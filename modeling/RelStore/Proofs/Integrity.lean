import RelStore.Proofs.Soundness
/-! Sound databases: relations are sound, references are recorded on both sides, and every value
that refers to another table is found there. Each operation keeps this. -/
namespace RelStore

/-- The same reference as the other table records it. -/
def ForeignKey.mirror (fk : ForeignKey) (own : String) : ForeignKey := ⟨fk.column, own, fk.key⟩

namespace Database

/-- The references that each table makes and those made to it. -/
abbrev Links := String → Option (List ForeignKey × List ForeignKey)

def links (D : Database) : Links := fun T =>
  (D.find? T).map fun R => (R.table.foreignKeys, R.table.childTables)

structure Linked (l : Links) : Prop where
  parents : ∀ T ks cs, l T = some (ks, cs) → ∀ fk ∈ ks,
    ∃ ks' cs', l fk.table = some (ks', cs') ∧ fk.mirror T ∈ cs'
  children : ∀ T ks cs, l T = some (ks, cs) → ∀ r ∈ cs,
    ∃ ks' cs', l r.table = some (ks', cs') ∧ r.mirror T ∈ ks'
  types : ∀ T ks cs, l T = some (ks, cs) → ∀ fk ∈ ks, fk.key.type = fk.column.type

structure Sound (D : Database) : Prop where
  named : ∀ T R, D.find? T = some R → R.table.name = T
  relations : ∀ T R, D.find? T = some R → R.Sound
  linked : Linked D.links
  references : ∀ C R, D.find? C = some R → ∀ fk ∈ R.table.foreignKeys,
    ∀ P, D.find? fk.table = some P → ∀ v, R.Has fk.key.ordinal v → P.Has fk.column.ordinal v

theorem Sound.empty : Sound ∅ where
  named := fun _ _ h => (nomatch h)
  relations := fun _ _ h => (nomatch h)
  linked := ⟨fun _ _ _ h => (nomatch h), fun _ _ _ h => (nomatch h), fun _ _ _ h => (nomatch h)⟩
  references := fun _ _ h => (nomatch h)

section Facts

variable {D : Database} {T : String} {R : Relation} {fk r : ForeignKey}

theorem links_of_find? (h : D.find? T = some R) :
    D.links T = some (R.table.foreignKeys, R.table.childTables) := by rw [links, h, Option.map_some]

theorem of_links {ks cs : List ForeignKey} (h : D.links T = some (ks, cs)) :
    ∃ R, D.find? T = some R ∧ R.table.foreignKeys = ks ∧ R.table.childTables = cs := by
  obtain ⟨R, hR, he⟩ := Option.map_eq_some_iff.mp h
  cases he
  exact ⟨R, hR, rfl, rfl⟩

theorem of_relation (h : D.relation T = .ok R) : isValidName T = true ∧ D.find? T = some R := by
  obtain ⟨⟨⟩, hname, h⟩ := Except.bind_eq_ok.mp h
  refine ⟨Table.checkName_eq_ok.mp hname, ?_⟩
  split at h
  · next hR =>
    cases h
    exact hR
  · cases h

namespace Sound

theorem shaped (h : D.Sound) (hR : D.find? T = some R) : R.table.Shaped :=
  (h.relations T R hR).table.shaped

theorem valid (h : D.Sound) (hR : D.find? T = some R) : isValidName T = true := by
  rw [← h.named T R hR]
  exact (h.shaped hR).name

theorem fileFits (h : D.Sound) (hR : D.find? T = some R) :
    Catalog.nameFits (Catalog.tableFile T) = true := by
  rw [← h.named T R hR]
  exact (h.shaped hR).file

theorem relation (h : D.Sound) (hR : D.find? T = some R) : D.relation T = .ok R := by
  simp only [Database.relation, Table.checkName_eq_ok.mpr (h.valid hR), hR]
  rfl

theorem parent (h : D.Sound) (hR : D.find? T = some R) (hfk : fk ∈ R.table.foreignKeys) :
    ∃ P, D.find? fk.table = some P ∧ fk.mirror T ∈ P.table.childTables := by
  obtain ⟨ks, cs, hl, hm⟩ := h.linked.parents T _ _ (links_of_find? hR) fk hfk
  obtain ⟨P, hP, -, rfl⟩ := of_links hl
  exact ⟨P, hP, hm⟩

theorem child (h : D.Sound) (hR : D.find? T = some R) (hr : r ∈ R.table.childTables) :
    ∃ C, D.find? r.table = some C ∧ r.mirror T ∈ C.table.foreignKeys := by
  obtain ⟨ks, cs, hl, hm⟩ := h.linked.children T _ _ (links_of_find? hR) r hr
  obtain ⟨C, hC, rfl, -⟩ := of_links hl
  exact ⟨C, hC, hm⟩

/-- The column referred to is one of the parent's. -/
theorem parentColumn (h : D.Sound) (hR : D.find? T = some R) (hfk : fk ∈ R.table.foreignKeys)
    {P : Relation} (hP : D.find? fk.table = some P) : fk.column ∈ P.table.keyRefs := by
  obtain ⟨P', hP', hm⟩ := h.parent hR hfk
  rw [hP] at hP'
  cases hP'
  exact (h.relations _ _ hP).table.linked.childKeys _ hm

theorem childColumn (h : D.Sound) (hR : D.find? T = some R) (hr : r ∈ R.table.childTables)
    {C : Relation} (hC : D.find? r.table = some C) : r.column ∈ C.table.keyRefs := by
  obtain ⟨C', hC', hm⟩ := h.child hR hr
  rw [hC] at hC'
  cases hC'
  exact (h.relations _ _ hC).table.linked.keys _ hm

end Sound

theorem column_of_keyRef {t : Table} (h : t.Shaped) {k : KeyRef} (hk : k ∈ t.keyRefs) :
    ∃ c, t.column k.column = .ok c ∧ c ∈ t.columns ∧ c.keyRef = k := by
  obtain ⟨c, hc, rfl⟩ := Table.mem_keyRefs.mp hk
  exact ⟨c, h.column_name hc, hc, rfl⟩

/-- What the check of a recorded reference says of the row. -/
theorem checkReference_eq_ok (h : D.Sound) {t : Table} (ht : t.Shaped) (hk : fk.key ∈ t.keyRefs)
    {P : Relation} (hP : D.find? fk.table = some P) (hpk : fk.column ∈ P.table.keyRefs)
    {values : List Value} {wanted : Bool} {failure : String → String → String → Error} :
    D.checkReference t values wanted failure fk = .ok () ↔
      ∀ v, values[fk.key.ordinal]? = some v → (P.Has fk.column.ordinal v ↔ wanted = true) := by
  obtain ⟨own, hown, -, hkey⟩ := column_of_keyRef ht hk
  obtain ⟨target, htarget, -, hcol⟩ := column_of_keyRef (h.shaped hP) hpk
  have hpos : own.position = fk.key.ordinal := congrArg KeyRef.ordinal hkey
  have htpos : target.position = fk.column.ordinal := congrArg KeyRef.ordinal hcol
  simp only [checkReference, hown, Except.ok_bind, hpos]
  cases values[fk.key.ordinal]? with
  | none => simp [pure, Except.pure]
  | some v =>
    simp only [h.relation hP, Except.ok_bind, htarget, Option.some.injEq, forall_eq', ← htpos,
      ← Relation.holds_iff]
    by_cases hw : P.holds target v = wanted
    · simp [hw, pure, Except.pure]
    · rw [if_pos hw]
      constructor
      · intro he
        cases he
      · intro he
        exact absurd (Bool.eq_iff_iff.mpr he) hw

end Facts

section Rows

variable {D D' : Database} {T : String} {R : Relation} {r : Row}

theorem links_update {f : Relation → Relation}
    (hf : ∀ R, D.find? T = some R → (f R).table.foreignKeys = R.table.foreignKeys ∧
      (f R).table.childTables = R.table.childTables) : links (D.update T f) = D.links := by
  funext X
  by_cases hX : X = T
  · subst hX
    rw [links, links, OrdMap.find?_update_self, Option.map_map]
    cases hR : D.find? X with
    | none => rfl
    | some R => simp [hf R hR]
  · rw [links, links, OrdMap.find?_update_of_ne f hX]

/-- A property of all relations stays if the changed relation has it. -/
theorem forall_update {p : String → Relation → Prop} {f : Relation → Relation}
    (h : ∀ X R, D.find? X = some R → p X R) (hf : ∀ R, D.find? T = some R → p T (f R)) :
    ∀ X R, (D.update T f).find? X = some R → p X R := by
  intro X R hR
  by_cases hX : X = T
  · subst hX
    rw [OrdMap.find?_update_self] at hR
    obtain ⟨R, hR', rfl⟩ := Option.map_eq_some_iff.mp hR
    exact hf R hR'
  · rw [OrdMap.find?_update_of_ne f hX] at hR
    exact h X R hR

theorem insertRow_eq_ok {values : List String} (h : D.Sound) : D.insertRow T values = .ok D' ↔
    ∃ R r, D.find? T = some R ∧ Constraint.readRow R.table values = .ok r ∧
      R.checkUnique r = .ok () ∧
      (∀ fk ∈ R.table.foreignKeys,
        D.checkReference R.table r.values true .missingParent fk = .ok ()) ∧
      D' = D.update T (·.insertRow r) := by
  constructor
  · intro hi
    obtain ⟨R, hR, hi⟩ := Except.bind_eq_ok.mp hi
    obtain ⟨r, hr, hi⟩ := Except.bind_eq_ok.mp hi
    obtain ⟨⟨⟩, hunique, hi⟩ := Except.bind_eq_ok.mp hi
    obtain ⟨⟨⟩, hparents, he⟩ := Except.bind_eq_ok.mp hi
    cases he
    exact ⟨R, r, (of_relation hR).2, hr, hunique, forM_eq_ok_iff.mp hparents, rfl⟩
  · rintro ⟨R, r, hR, hr, hunique, hparents, rfl⟩
    rw [insertRow, h.relation hR, Except.ok_bind, hr, Except.ok_bind, hunique, Except.ok_bind,
      forM_eq_ok_iff.mpr hparents]
    rfl

theorem Sound.insertRow {values : List String} (h : D.Sound)
    (hd : ∀ s ∈ values, fieldDelimiter ∉ s.toList) (hi : D.insertRow T values = .ok D') :
    D'.Sound := by
  obtain ⟨R, r, hR, hr, hunique, hparents, rfl⟩ := (insertRow_eq_ok h).mp hi
  have hfits : r.Fits R.table := Constraint.of_readRow hr hd
  have hnew : R.rows.find? r.id = none :=
    (Relation.of_checkUnique rfl (h.shaped hR) hunique).1
  have hsame (R' : Relation) : D.find? T = some R' → R' = R := by
    rw [hR]
    exact fun he => (Option.some.inj he).symm
  refine ⟨?_, ?_, ?_, ?_⟩
  · exact forall_update h.named fun R' hR' => h.named T R' hR'
  · apply forall_update h.relations
    intro R' hR'
    rw [hsame R' hR']
    exact (h.relations T R hR).insertRow hfits hunique
  · rw [links_update (f := Relation.insertRow r) fun _ _ => ⟨rfl, rfl⟩]
    exact h.linked
  · -- A value that refers is an old one, which finds what it found, or the new row's.
    have hgrow : ∀ X X', (D.update T (·.insertRow r)).find? X = some X' →
        ∃ X₀, D.find? X = some X₀ ∧ X'.table = X₀.table ∧
          (∀ i v, X₀.Has i v → X'.Has i v) ∧
          ∀ i v, X'.Has i v → X₀.Has i v ∨ X = T ∧ r.get? i = some v := by
      refine forall_update (fun X X' hX => ?_) fun R' hR' => ?_
      · exact ⟨X', hX, rfl, fun _ _ => id, fun _ _ => .inl⟩
      · rw [hsame R' hR']
        refine ⟨R, hR, rfl, fun i v hv => (Relation.has_insertRow hnew).mpr (.inl hv), ?_⟩
        exact fun i v hv => ((Relation.has_insertRow hnew).mp hv).imp_right fun hv => ⟨rfl, hv⟩
    intro C C' hC fk hfk P' hP v hv
    obtain ⟨C₀, hC₀, hct, -, hold⟩ := hgrow C C' hC
    obtain ⟨P₀, hP₀, -, hkeep, -⟩ := hgrow fk.table P' hP
    rw [hct] at hfk
    refine hkeep _ _ ?_
    rcases hold _ _ hv with hv | ⟨rfl, hv⟩
    · exact h.references C C₀ hC₀ fk hfk P₀ hP₀ v hv
    · rw [hsame C₀ hC₀] at hfk
      have hcheck := hparents fk hfk
      rw [checkReference_eq_ok h (h.shaped hR) ((h.relations _ R hR).table.linked.keys fk hfk) hP₀
        (h.parentColumn hR hfk hP₀)] at hcheck
      exact (hcheck v hv).mpr rfl

theorem deleteRow_eq_ok {literal : String} (h : D.Sound) : D.deleteRow T literal = .ok D' ↔
    ∃ R r, D.find? T = some R ∧ R.table.rowId.read literal = .ok r.id ∧ r ∈ R.list ∧
      (∀ ref ∈ R.table.childTables,
        D.checkReference R.table r.values false .dependentRows ref = .ok ()) ∧
      D' = D.update T (·.deleteRow r.id) := by
  constructor
  · intro hi
    obtain ⟨R, hR, hi⟩ := Except.bind_eq_ok.mp hi
    obtain ⟨id, hid, hi⟩ := Except.bind_eq_ok.mp hi
    split at hi
    · cases hi
    · next fields hrow =>
      obtain ⟨⟨⟩, hchildren, he⟩ := Except.bind_eq_ok.mp hi
      cases he
      exact ⟨R, ⟨id, fields⟩, (of_relation hR).2, hid, Relation.mem_list.mpr hrow,
        forM_eq_ok_iff.mp hchildren, rfl⟩
  · rintro ⟨R, r, hR, hid, hr, hchildren, rfl⟩
    rw [deleteRow, h.relation hR, Except.ok_bind, hid, Except.ok_bind, Relation.mem_list.mp hr]
    exact Except.bind_eq_ok.mpr ⟨⟨⟩, forM_eq_ok_iff.mpr hchildren, rfl⟩

theorem Sound.deleteRow {literal : String} (h : D.Sound) (hi : D.deleteRow T literal = .ok D') :
    D'.Sound := by
  obtain ⟨R, r, hR, -, hr, hchildren, rfl⟩ := (deleteRow_eq_ok h).mp hi
  have hsame (R' : Relation) : D.find? T = some R' → R' = R := by
    rw [hR]
    exact fun he => (Option.some.inj he).symm
  refine ⟨?_, ?_, ?_, ?_⟩
  · exact forall_update h.named fun R' hR' => h.named T R' hR'
  · exact forall_update h.relations fun R' hR' => (h.relations T R' hR').deleteRow r.id
  · rw [links_update (f := Relation.deleteRow r.id) fun _ _ => ⟨rfl, rfl⟩]
    exact h.linked
  · -- A value referred to is gone only with the deleted row, which nothing refers to.
    have hshrink : ∀ X X', (D.update T (·.deleteRow r.id)).find? X = some X' →
        ∃ X₀, D.find? X = some X₀ ∧ X'.table = X₀.table ∧
          (∀ i v, X'.Has i v → X₀.Has i v) ∧
          ∀ i v, X₀.Has i v → X'.Has i v ∨ X = T ∧ r.get? i = some v := by
      refine forall_update (fun X X' hX => ?_) fun R' hR' => ?_
      · exact ⟨X', hX, rfl, fun _ _ => id, fun _ _ => .inl⟩
      · rw [hsame R' hR']
        refine ⟨R, hR, rfl, fun i v hv => hv.of_deleteRow, fun i v hv => ?_⟩
        by_cases hrv : r.get? i = some v
        · exact .inr ⟨rfl, hrv⟩
        · exact .inl (hv.deleteRow hr hrv)
    intro C C' hC fk hfk P' hP v hv
    obtain ⟨C₀, hC₀, hct, hold, -⟩ := hshrink C C' hC
    obtain ⟨P₀, hP₀, -, -, hkeep⟩ := hshrink fk.table P' hP
    rw [hct] at hfk
    have hv₀ := hold _ _ hv
    rcases hkeep _ _ (h.references C C₀ hC₀ fk hfk P₀ hP₀ v hv₀) with hv' | ⟨hT, hv'⟩
    · exact hv'
    · obtain ⟨P, hP, hm⟩ := h.parent hC₀ hfk
      rw [hT] at hP
      rw [hsame P hP] at hm
      have hcheck := hchildren _ hm
      rw [checkReference_eq_ok h (h.shaped hR) ((h.relations T R hR).table.linked.childKeys _ hm) hC₀
        (h.childColumn hR hm hC₀)] at hcheck
      exact absurd ((hcheck v hv').mp hv₀) Bool.false_ne_true

end Rows

section Definitions

variable {D D' : Database} {T n : String} {R : Relation} {c : Column}

/-- Changed flags leave unique columns distinct, if no column becomes unique. -/
theorem distinct_mapColumns (h : R.Sound) {f : Column → Column}
    (hk : ∀ c, (f c).keyRef = c.keyRef) (hu : ∀ c, (f c).unique = c.unique) :
    ∀ c ∈ R.table.columns.map f, c.unique = true → R.Distinct c.position := by
  refine List.forall_mem_map.mpr ?_
  intro c hc hcu
  rw [hu] at hcu
  rw [show (f c).position = c.position from congrArg KeyRef.ordinal (hk c)]
  exact h.unique c hc hcu

theorem distinct_onColumn (h : R.Sound) (hc : c ∈ R.table.columns) (hd : R.Distinct c.position)
    {g : Column → Column} (hk : ∀ c, (g c).keyRef = c.keyRef) :
    ∀ b ∈ R.table.columns.map fun b => if b.name = c.name then g b else b,
      b.unique = true → R.Distinct b.position := by
  refine List.forall_mem_map.mpr ?_
  intro b hb hbu
  by_cases hn : b.name = c.name
  · rw [if_pos hn, show (g b).position = b.position from congrArg KeyRef.ordinal (hk b),
      h.table.shaped.eq_of_name hb hc hn]
    exact hd
  · rw [if_neg hn] at hbu ⊢
    exact h.unique b hb hbu

/-- With the old rows, the old references hold, and new ones if they hold of the old rows. -/
theorem references_of_rows (h : D.Sound)
    (hback : ∀ X X', D'.find? X = some X' → ∃ X₀, D.find? X = some X₀ ∧ X'.rows = X₀.rows ∧
      ∀ fk ∈ X'.table.foreignKeys, fk ∈ X₀.table.foreignKeys ∨ ∀ P, D.find? fk.table = some P →
        ∀ v, X₀.Has fk.key.ordinal v → P.Has fk.column.ordinal v) :
    ∀ C R, D'.find? C = some R → ∀ fk ∈ R.table.foreignKeys, ∀ P, D'.find? fk.table = some P →
      ∀ v, R.Has fk.key.ordinal v → P.Has fk.column.ordinal v := by
  have hhas {X X₀ : Relation} (he : X.rows = X₀.rows) (i : Nat) (v : Value) :
      X.Has i v ↔ X₀.Has i v := by rw [Relation.Has, Relation.Has, Relation.list, he]; rfl
  intro C C' hC fk hfk P' hP v hv
  obtain ⟨C₀, hC₀, hcr, hkeys⟩ := hback C C' hC
  obtain ⟨P₀, hP₀, hpr, -⟩ := hback fk.table P' hP
  rw [hhas hcr] at hv
  rw [hhas hpr]
  rcases hkeys fk hfk with hfk | hnew
  · exact h.references C C₀ hC₀ fk hfk P₀ hP₀ v hv
  · exact hnew P₀ hP₀ v hv

/-- A changed definition with the same references. -/
theorem Sound.withTable (h : D.Sound) (hR : D.find? T = some R) {f : Table → Table}
    (hs : (R.withTable f).Sound) (hn : (f R.table).name = R.table.name)
    (hf : (f R.table).foreignKeys = R.table.foreignKeys)
    (hc : (f R.table).childTables = R.table.childTables) :
    Sound (D.update T (·.withTable f)) := by
  have hsame (R' : Relation) (hR' : D.find? T = some R') : R' = R := by
    rw [hR] at hR'
    exact (Option.some.inj hR').symm
  refine ⟨?_, ?_, ?_, references_of_rows h ?_⟩
  · apply forall_update h.named
    intro R' hR'
    rw [hsame R' hR']
    exact hn.trans (h.named T R hR)
  · apply forall_update h.relations
    intro R' hR'
    rw [hsame R' hR']
    exact hs
  · rw [links_update (f := Relation.withTable f) fun R' hR' => by
      rw [hsame R' hR']
      exact ⟨hf, hc⟩]
    exact h.linked
  · refine forall_update (fun X X' hX => ⟨X', hX, rfl, fun fk => .inl⟩) fun R' hR' => ?_
    rw [hsame R' hR']
    refine ⟨R, hR, rfl, fun fk hfk => .inl ?_⟩
    rwa [Relation.withTable, hf] at hfk

theorem of_addPrimaryKey (hi : D.addPrimaryKey T n = .ok D') :
    ∃ R c, D.find? T = some R ∧ c ∈ R.table.columns ∧ c.name = n ∧ c.primaryKey = false ∧
      R.Distinct c.position ∧
      D' = D.update T (·.withTable fun t => t.withPrimaryKey c.name c.position) := by
  obtain ⟨R, hR, hi⟩ := Except.bind_eq_ok.mp hi
  obtain ⟨c, hc, hi⟩ := Except.bind_eq_ok.mp hi
  by_cases hp : c.primaryKey = true
  · rw [if_pos hp] at hi
    cases hi
  · rw [if_neg hp] at hi
    obtain ⟨⟨⟩, hdist, he⟩ := Except.bind_eq_ok.mp hi
    cases he
    obtain ⟨hmem, hn⟩ := Table.of_column hc
    exact ⟨R, c, (of_relation hR).2, hmem, hn, by simpa using hp, Relation.distinct_of_check hdist,
      rfl⟩

theorem of_addUnique (hi : D.addUnique T n = .ok D') :
    ∃ R c, D.find? T = some R ∧ c ∈ R.table.columns ∧ c.name = n ∧ R.Distinct c.position ∧
      D' = D.update T (·.withTable fun t => t.withUnique c.name) := by
  obtain ⟨R, hR, hi⟩ := Except.bind_eq_ok.mp hi
  obtain ⟨c, hc, hi⟩ := Except.bind_eq_ok.mp hi
  obtain ⟨⟨⟩, hdist, he⟩ := Except.bind_eq_ok.mp hi
  cases he
  obtain ⟨hmem, hn⟩ := Table.of_column hc
  exact ⟨R, c, (of_relation hR).2, hmem, hn, Relation.distinct_of_check hdist, rfl⟩

theorem of_addIndex (hi : D.addIndex T n = .ok D') :
    ∃ R c, D.find? T = some R ∧ c ∈ R.table.columns ∧ c.name = n ∧ c.indexed = false ∧
      D' = D.update T (·.withTable fun t => t.withIndex c.name) := by
  obtain ⟨R, hR, hi⟩ := Except.bind_eq_ok.mp hi
  obtain ⟨c, hc, hi⟩ := Except.bind_eq_ok.mp hi
  by_cases hx : c.indexed = true
  · rw [if_pos hx] at hi
    cases hi
  · rw [if_neg hx] at hi
    cases hi
    obtain ⟨hmem, hn⟩ := Table.of_column hc
    exact ⟨R, c, (of_relation hR).2, hmem, hn, by simpa using hx, rfl⟩

theorem Sound.addPrimaryKey (h : D.Sound) (hi : D.addPrimaryKey T n = .ok D') : D'.Sound := by
  obtain ⟨R, c, hR, hc, -, hp, hd, rfl⟩ := of_addPrimaryKey hi
  have hs := h.relations T R hR
  refine h.withTable hR (hs.withTable (hs.table.withPrimaryKey hc hp) ?_ ?_) rfl rfl rfl
  · exact Table.keyRefs_mapColumns (Table.onColumn_congr fun _ => rfl)
  · exact distinct_onColumn hs hc hd fun _ => rfl

theorem Sound.addUnique (h : D.Sound) (hi : D.addUnique T n = .ok D') : D'.Sound := by
  obtain ⟨R, c, hR, hc, -, hd, rfl⟩ := of_addUnique hi
  have hs := h.relations T R hR
  refine h.withTable hR (hs.withTable (hs.table.withUnique c.name) ?_ ?_) rfl rfl rfl
  · exact Table.keyRefs_mapColumns (Table.onColumn_congr fun _ => rfl)
  · exact distinct_onColumn hs hc hd fun _ => rfl

theorem Sound.addIndex (h : D.Sound) (hi : D.addIndex T n = .ok D') : D'.Sound := by
  obtain ⟨R, c, hR, -, -, -, rfl⟩ := of_addIndex hi
  have hs := h.relations T R hR
  refine h.withTable hR (hs.withTable (hs.table.withIndex c.name) ?_ ?_) rfl rfl rfl
  · exact Table.keyRefs_mapColumns (Table.onColumn_congr fun _ => rfl)
  · exact distinct_mapColumns hs (Table.onColumn_congr fun _ => rfl)
      (Table.onColumn_congr fun _ => rfl)

end Definitions

section Links

variable {D D' : Database} {T : String} {child parent : String} {own target : Column}

/-- What a link does to the table of a name. -/
def linkTable (child : String) (own : Column) (parent : String) (target : Column)
    (T : String) : Table → Table := fun t =>
  let t := if T = child then Catalog.withForeignKey t ⟨own.keyRef, parent, target.keyRef⟩ else t
  if T = parent then Catalog.withChildReference t ⟨target.keyRef, child, own.keyRef⟩ else t

theorem find?_link :
    (D.link child own parent target).find? T =
      (D.find? T).map (·.withTable (linkTable child own parent target T)) := by
  by_cases hp : T = parent
  · subst hp
    rw [link, OrdMap.find?_update_self]
    by_cases hc : T = child
    · subst hc
      rw [OrdMap.find?_update_self, Option.map_map]
      unfold linkTable
      simp only [if_true]
      rfl
    · rw [OrdMap.find?_update_of_ne _ hc]
      unfold linkTable
      simp only [hc, if_true, if_false]
  · rw [link, OrdMap.find?_update_of_ne _ hp]
    by_cases hc : T = child
    · subst hc
      rw [OrdMap.find?_update_self]
      unfold linkTable
      simp only [hp, if_true, if_false]
    · rw [OrdMap.find?_update_of_ne _ hc]
      unfold linkTable
      simp only [hp, hc, if_false]
      exact (congrFun Option.map_id _).symm

theorem linkTable_foreignKeys (t : Table) :
    (linkTable child own parent target T t).foreignKeys =
      if T = child then t.foreignKeys ++ [⟨own.keyRef, parent, target.keyRef⟩]
      else t.foreignKeys := by
  simp only [linkTable]
  split <;> split <;> rfl

theorem linkTable_childTables (t : Table) :
    (linkTable child own parent target T t).childTables =
      if T = parent then t.childTables ++ [⟨target.keyRef, child, own.keyRef⟩]
      else t.childTables := by
  simp only [linkTable]
  split <;> split <;> rfl

theorem linkTable_name (t : Table) : (linkTable child own parent target T t).name = t.name := by
  simp only [linkTable]
  split <;> split <;> rfl

theorem keyRefs_linkTable (t : Table) :
    (linkTable child own parent target T t).keyRefs = t.keyRefs := by
  simp only [linkTable]
  split <;> split <;> simp only [Table.keyRefs_withForeignKey, Table.keyRefs_withChildReference]

theorem linkTable_wellFormed {t : Table} (h : t.WellFormed)
    (hkey : T = child →
      own.keyRef ∈ t.keyRefs ∧ own.name ∉ t.foreignKeys.map (·.key.column))
    (href : T = parent →
      target.keyRef ∈ t.keyRefs ∧ ⟨target.keyRef, child, own.keyRef⟩ ∉ t.childTables) :
    (linkTable child own parent target T t).WellFormed := by
  by_cases hc : T = child
  · obtain ⟨hk, hnew⟩ := hkey hc
    have hlinked : (Catalog.withForeignKey t ⟨own.keyRef, parent, target.keyRef⟩).WellFormed :=
      h.withForeignKey hk hnew
    simp only [linkTable, if_pos hc]
    split
    · next hp =>
      obtain ⟨hr, hfresh⟩ := href hp
      exact hlinked.withChildReference (by rwa [Table.keyRefs_withForeignKey]) hfresh
    · exact hlinked
  · simp only [linkTable, if_neg hc]
    split
    · next hp =>
      obtain ⟨hr, hfresh⟩ := href hp
      exact h.withChildReference hr hfresh
    · exact h

theorem linkTable_distinct {R : Relation} (h : R.Sound) :
    ∀ c ∈ (linkTable child own parent target T R.table).columns,
      c.unique = true → R.Distinct c.position := by
  have hforeign := distinct_mapColumns h
    (f := fun c => if c.name = own.name then { c with foreignKey := true } else c)
    (Table.onColumn_congr fun _ => rfl) (Table.onColumn_congr fun _ => rfl)
  simp only [linkTable]
  split <;> split
  · refine List.forall_mem_map.mpr ?_
    intro c hc hu
    split at hu <;> split <;> exact hforeign c hc hu
  · exact distinct_mapColumns h (Table.onColumn_congr fun _ => rfl)
      (Table.onColumn_congr fun _ => rfl)
  · exact hforeign
  · exact h.unique

theorem links_link : links (D.link child own parent target) T =
    (D.links T).map fun l =>
      (if T = child then l.1 ++ [⟨own.keyRef, parent, target.keyRef⟩] else l.1,
        if T = parent then l.2 ++ [⟨target.keyRef, child, own.keyRef⟩] else l.2) := by
  rw [links, find?_link, links, Option.map_map, Option.map_map]
  refine congrArg (Option.map · (D.find? T)) (funext fun R => ?_)
  simp only [Function.comp_apply, Relation.withTable, linkTable_foreignKeys, linkTable_childTables]

theorem mem_ite_append {p : Prop} [Decidable p] {l : List ForeignKey} {a b : ForeignKey} :
    a ∈ (if p then l ++ [b] else l) ↔ a ∈ l ∨ p ∧ a = b := by
  split
  · next hp => rw [List.mem_append, List.mem_singleton, and_iff_right hp]
  · next hp => exact ⟨.inl, fun h => h.resolve_right fun h => hp h.1⟩

/-- A reference recorded on both sides keeps the others so. -/
theorem Linked.link (h : Linked D.links) {C P : Relation} (hC : D.find? child = some C)
    (hP : D.find? parent = some P) (ht : own.type = target.type) :
    Linked (links (D.link child own parent target)) := by
  have hadd {X : String} {ks cs : List ForeignKey} (hX : D.links X = some (ks, cs)) :
      links (D.link child own parent target) X =
        some (if X = child then ks ++ [⟨own.keyRef, parent, target.keyRef⟩] else ks,
          if X = parent then cs ++ [⟨target.keyRef, child, own.keyRef⟩] else cs) := by
    rw [links_link, hX, Option.map_some]
  have hold {X : String} {l : List ForeignKey × List ForeignKey}
      (hX : links (D.link child own parent target) X = some l) :
      ∃ ks cs, D.links X = some (ks, cs) ∧
        l = (if X = child then ks ++ [⟨own.keyRef, parent, target.keyRef⟩] else ks,
          if X = parent then cs ++ [⟨target.keyRef, child, own.keyRef⟩] else cs) := by
    rw [links_link] at hX
    obtain ⟨⟨ks, cs⟩, hl, he⟩ := Option.map_eq_some_iff.mp hX
    exact ⟨ks, cs, hl, he.symm⟩
  refine ⟨?_, ?_, ?_⟩
  · intro X ks' cs' hX fk hfk
    obtain ⟨ks, cs, hl, he⟩ := hold hX
    cases he
    rcases mem_ite_append.mp hfk with hfk | ⟨rfl, rfl⟩
    · obtain ⟨ks', cs', hparent, hm⟩ := h.parents X ks cs hl fk hfk
      exact ⟨_, _, hadd hparent, mem_ite_append.mpr (.inl hm)⟩
    · exact ⟨_, _, hadd (links_of_find? hP), mem_ite_append.mpr (.inr ⟨rfl, rfl⟩)⟩
  · intro X ks' cs' hX r hr
    obtain ⟨ks, cs, hl, he⟩ := hold hX
    cases he
    rcases mem_ite_append.mp hr with hr | ⟨rfl, rfl⟩
    · obtain ⟨ks', cs', hchild, hm⟩ := h.children X ks cs hl r hr
      exact ⟨_, _, hadd hchild, mem_ite_append.mpr (.inl hm)⟩
    · exact ⟨_, _, hadd (links_of_find? hC), mem_ite_append.mpr (.inr ⟨rfl, rfl⟩)⟩
  · intro X ks' cs' hX fk hfk
    obtain ⟨ks, cs, hl, he⟩ := hold hX
    cases he
    rcases mem_ite_append.mp hfk with hfk | ⟨-, rfl⟩
    · exact h.types X ks cs hl fk hfk
    · exact ht

theorem checkReferences_eq_ok {C P : Relation} : checkReferences C own P target = .ok () ↔
    ∀ v, C.Has own.position v → P.Has target.position v := by
  have hmem (v : Value) :
      v ∈ (OrdSet.ofList (C.list.filterMap fun r => r.get? own.position)).keys ↔
        C.Has own.position v := by
    rw [OrdSet.mem_keys_ofList, List.mem_filterMap, Relation.Has]
  rw [checkReferences, forM_eq_ok_iff]
  simp only [hmem]
  refine forall₂_congr fun v _ => ?_
  rw [← Relation.holds_iff]
  cases P.holds target v <;> simp

theorem addForeignKey_eq_ok {column parentColumn : String} (h : D.Sound) :
    D.addForeignKey child column parent parentColumn = .ok D' ↔
      ∃ C P own target, D.find? child = some C ∧ D.find? parent = some P ∧
        own ∈ C.table.columns ∧ own.name = column ∧
        target ∈ P.table.columns ∧ target.name = parentColumn ∧
        own.foreignKey = false ∧ own.type = target.type ∧
        (∀ v, C.Has own.position v → P.Has target.position v) ∧
        D' = D.link child own parent target := by
  constructor
  · intro hi
    obtain ⟨C, hC, hi⟩ := Except.bind_eq_ok.mp hi
    obtain ⟨P, hP, hi⟩ := Except.bind_eq_ok.mp hi
    obtain ⟨own, hown, hi⟩ := Except.bind_eq_ok.mp hi
    obtain ⟨target, htarget, hi⟩ := Except.bind_eq_ok.mp hi
    by_cases hf : own.foreignKey = true
    · rw [if_pos hf] at hi
      cases hi
    by_cases ht : own.type = target.type
    · rw [if_neg hf, if_neg (not_not_intro ht)] at hi
      obtain ⟨⟨⟩, hrefs, he⟩ := Except.bind_eq_ok.mp hi
      cases he
      obtain ⟨hmem, hn⟩ := Table.of_column hown
      obtain ⟨htmem, htn⟩ := Table.of_column htarget
      exact ⟨C, P, own, target, (of_relation hC).2, (of_relation hP).2, hmem, hn, htmem, htn,
        by simpa using hf, ht, checkReferences_eq_ok.mp hrefs, rfl⟩
    · rw [if_neg hf, if_pos ht] at hi
      cases hi
  · rintro ⟨C, P, own, target, hC, hP, hown, rfl, htarget, rfl, hf, ht, hrefs, rfl⟩
    rw [Database.addForeignKey, h.relation hC, Except.ok_bind, h.relation hP, Except.ok_bind,
      (h.shaped hC).column_name hown, Except.ok_bind, (h.shaped hP).column_name htarget,
      Except.ok_bind, hf, if_neg Bool.false_ne_true, if_neg (not_not_intro ht),
      checkReferences_eq_ok.mpr hrefs]
    rfl

theorem of_find?_link {R' : Relation} (h : (D.link child own parent target).find? T = some R') :
    ∃ R, D.find? T = some R ∧ R' = R.withTable (linkTable child own parent target T) := by
  rw [find?_link] at h
  obtain ⟨R, hR, rfl⟩ := Option.map_eq_some_iff.mp h
  exact ⟨R, hR, rfl⟩

theorem Sound.relation_link (h : D.Sound) {C P R' : Relation} (hC : D.find? child = some C)
    (hP : D.find? parent = some P) (hown : own ∈ C.table.columns)
    (htarget : target ∈ P.table.columns) (hf : own.foreignKey = false)
    (hR' : (D.link child own parent target).find? T = some R') : R'.Sound := by
  have hnewKey := (h.relations child C hC).table.linked.noForeignKey hown hf
  have hnewRef : (⟨target.keyRef, child, own.keyRef⟩ : ForeignKey) ∉ P.table.childTables := by
    intro hm
    obtain ⟨C', hC', hmirror⟩ := h.child hP hm
    rw [hC] at hC'
    cases hC'
    exact hnewKey (List.mem_map.mpr ⟨_, hmirror, rfl⟩)
  obtain ⟨R, hR, rfl⟩ := of_find?_link hR'
  have hs := h.relations T R hR
  refine hs.withTable (linkTable_wellFormed hs.table ?_ ?_) (keyRefs_linkTable _)
    (linkTable_distinct hs)
  · rintro rfl
    rw [hC] at hR
    cases hR
    exact ⟨Table.keyRef_mem hown, hnewKey⟩
  · rintro rfl
    rw [hP] at hR
    cases hR
    exact ⟨Table.keyRef_mem htarget, hnewRef⟩

theorem Sound.link (h : D.Sound) {C P : Relation} (hC : D.find? child = some C)
    (hP : D.find? parent = some P) (hown : own ∈ C.table.columns)
    (htarget : target ∈ P.table.columns) (hf : own.foreignKey = false)
    (ht : own.type = target.type) (hrefs : ∀ v, C.Has own.position v → P.Has target.position v) :
    (D.link child own parent target).Sound := by
  refine ⟨fun X X' hX => ?_, fun X X' hX => h.relation_link hC hP hown htarget hf hX,
    h.linked.link hC hP ht, references_of_rows h fun X X' hX => ?_⟩
  · obtain ⟨R, hR, rfl⟩ := of_find?_link hX
    rw [Relation.withTable, linkTable_name]
    exact h.named X R hR
  · obtain ⟨R, hR, rfl⟩ := of_find?_link hX
    refine ⟨R, hR, rfl, fun fk hfk => ?_⟩
    rw [Relation.withTable, linkTable_foreignKeys] at hfk
    rcases mem_ite_append.mp hfk with hfk | ⟨rfl, rfl⟩
    · exact .inl hfk
    · refine .inr fun P' hP' v hv => ?_
      rw [hC] at hR
      cases hR
      rw [hP] at hP'
      cases hP'
      exact hrefs v hv

theorem Sound.addForeignKey {column parentColumn : String} (h : D.Sound)
    (hi : D.addForeignKey child column parent parentColumn = .ok D') : D'.Sound := by
  obtain ⟨C, P, own, target, hC, hP, hown, -, htarget, -, hf, ht, hrefs, rfl⟩ :=
    (addForeignKey_eq_ok h).mp hi
  exact h.link hC hP hown htarget hf ht hrefs

end Links

section Tables

variable {D D' : Database} {T : String} {R : Relation} {columns : List (String × ColumnType)}

theorem createTable_eq_ok : D.createTable T columns = .ok D' ↔
    ∃ t, D.find? T = none ∧ Table.declare T columns = .ok t ∧
      Catalog.nameFits (Catalog.tableFile T) = true ∧ D' = D.insert T ⟨t, ∅⟩ := by
  constructor
  · intro hi
    rw [createTable] at hi
    by_cases hT : D.contains T = true
    · rw [if_pos hT] at hi
      cases hi
    · rw [if_neg hT] at hi
      obtain ⟨t, ht, hi⟩ := Except.bind_eq_ok.mp hi
      by_cases hfile : Catalog.nameFits (Catalog.tableFile T) = true
      · rw [hfile] at hi
        cases hi
        exact ⟨t, OrdMap.contains_eq_false_iff.mp (by simpa using hT), ht, hfile, rfl⟩
      · rw [Bool.not_eq_true] at hfile
        rw [hfile] at hi
        cases hi
  · rintro ⟨t, hnone, ht, hfile, rfl⟩
    rw [createTable, OrdMap.contains_eq_false_iff.mpr hnone, if_neg Bool.false_ne_true, ht,
      Except.ok_bind, hfile]
    rfl

theorem forall_insert {p : String → Relation → Prop} (h : ∀ X R, D.find? X = some R → p X R)
    (hR : p T R) : ∀ X R', (D.insert T R).find? X = some R' → p X R' := by
  intro X R' hX
  by_cases hXT : X = T
  · subst hXT
    rw [OrdMap.find?_insert_self] at hX
    cases hX
    exact hR
  · rw [OrdMap.find?_insert_of_ne hXT] at hX
    exact h X R' hX

/-- A new table takes part in no reference. -/
theorem Linked.insert (h : Linked D.links) (hnone : D.find? T = none)
    (hks : R.table.foreignKeys = []) (hcs : R.table.childTables = []) :
    Linked (links (D.insert T R)) := by
  have hold {X : String} {l : List ForeignKey × List ForeignKey} (hX : D.links X = some l) :
      links (D.insert T R) X = some l := by
    have hne : X ≠ T := by
      rintro rfl
      rw [links, hnone] at hX
      cases hX
    rw [links, OrdMap.find?_insert_of_ne hne]
    exact hX
  have hlinks {X : String} {ks cs : List ForeignKey}
      (hX : links (D.insert T R) X = some (ks, cs)) :
      D.links X = some (ks, cs) ∨ ks = [] ∧ cs = [] := by
    by_cases hXT : X = T
    · subst hXT
      rw [links, OrdMap.find?_insert_self, Option.map_some, hks, hcs] at hX
      cases hX
      exact .inr ⟨rfl, rfl⟩
    · rw [links, OrdMap.find?_insert_of_ne hXT] at hX
      exact .inl hX
  refine ⟨?_, ?_, ?_⟩
  · intro X ks cs hX fk hfk
    rcases hlinks hX with hX | ⟨rfl, rfl⟩
    · obtain ⟨ks', cs', hp, hm⟩ := h.parents X ks cs hX fk hfk
      exact ⟨ks', cs', hold hp, hm⟩
    · cases hfk
  · intro X ks cs hX r hr
    rcases hlinks hX with hX | ⟨rfl, rfl⟩
    · obtain ⟨ks', cs', hc, hm⟩ := h.children X ks cs hX r hr
      exact ⟨ks', cs', hold hc, hm⟩
    · cases hr
  · intro X ks cs hX fk hfk
    rcases hlinks hX with hX | ⟨rfl, rfl⟩
    · exact h.types X ks cs hX fk hfk
    · cases hfk

theorem Sound.createTable (h : D.Sound) (hw : columns.length ≤ 2 ^ 64)
    (hi : D.createTable T columns = .ok D') : D'.Sound := by
  obtain ⟨t, hnone, ht, hfile, rfl⟩ := createTable_eq_ok.mp hi
  have hfresh := Table.fresh_of_declare ht
  have hrelation : (⟨t, ∅⟩ : Relation).Sound := by
    refine ⟨hfresh.wellFormed hfile hw, ?_, ?_⟩
    · exact fun r hr => (List.not_mem_nil hr).elim
    · exact fun _ _ _ r hr => (List.not_mem_nil hr).elim
  refine ⟨forall_insert h.named hfresh.name, forall_insert h.relations hrelation,
    h.linked.insert hnone hfresh.foreignKeys hfresh.childTables, ?_⟩
  refine forall_insert (fun C R hC fk hfk P hP => ?_) fun fk hfk => ?_
  · obtain ⟨P', hP', -⟩ := h.parent hC hfk
    have hne : fk.table ≠ T := by
      intro he
      rw [he, hnone] at hP'
      cases hP'
    rw [OrdMap.find?_insert_of_ne hne] at hP
    exact h.references C R hC fk hfk P hP
  · rw [hfresh.foreignKeys] at hfk
    cases hfk

/-- The tables that are left when one goes. They forget it. -/
def without (D : Database) (T : String) : Database :=
  (D.mapValues fun _ R => R.withTable (Table.forget T)).erase T

@[simp]
theorem find?_without_self (D : Database) (T : String) : (D.without T).find? T = none :=
  OrdMap.find?_erase_self _ _

theorem find?_without_of_ne {X : String} (hne : X ≠ T) :
    (D.without T).find? X = (D.find? X).map (·.withTable (Table.forget T)) := by
  rw [without, OrdMap.find?_erase_of_ne hne, OrdMap.find?_mapValues]

theorem of_find?_without {X : String} {X' : Relation} (h : (D.without T).find? X = some X') :
    X ≠ T ∧ ∃ R, D.find? X = some R ∧ X' = R.withTable (Table.forget T) := by
  have hne : X ≠ T := by
    rintro rfl
    rw [find?_without_self] at h
    cases h
  rw [find?_without_of_ne hne] at h
  obtain ⟨R, hR, rfl⟩ := Option.map_eq_some_iff.mp h
  exact ⟨hne, R, hR, rfl⟩

theorem dropTable_eq_ok (h : D.Sound) : D.dropTable T = .ok D' ↔
    ∃ R, D.find? T = some R ∧ (∀ r ∈ R.table.childTables, r.table = T) ∧ D' = D.without T := by
  constructor
  · intro hi
    obtain ⟨R, hR, hi⟩ := Except.bind_eq_ok.mp hi
    split at hi
    · cases hi
    · next hnone =>
      cases hi
      exact ⟨R, (of_relation hR).2, by simpa using hnone, rfl⟩
  · rintro ⟨R, hR, hfree, rfl⟩
    have hnone : (R.table.childTables.find? fun r => r.table ≠ T) = none := by simpa using hfree
    rw [Database.dropTable, h.relation hR, Except.ok_bind, hnone]
    rfl

/-- With a table go the references it makes; nothing else refers to it. -/
theorem Linked.dropTable (h : Linked D.links) (hR : D.find? T = some R)
    (hfree : ∀ r ∈ R.table.childTables, r.table = T) :
    Linked (links (D.without T)) := by
  have hfind {X : String} {ks cs : List ForeignKey} (hne : X ≠ T)
      (hX : D.links X = some (ks, cs)) :
      links (D.without T) X = some (ks, cs.filter fun r => r.table ≠ T) := by
    obtain ⟨X₀, hX₀, rfl, rfl⟩ := of_links hX
    rw [links, find?_without_of_ne hne, hX₀]
    rfl
  refine ⟨?_, ?_, ?_⟩
  · intro X ks cs hX fk hfk
    obtain ⟨X', hX', rfl, rfl⟩ := of_links hX
    obtain ⟨hne, X₀, hX₀, rfl⟩ := of_find?_without hX'
    obtain ⟨ks', cs', hp, hm⟩ := h.parents X _ _ (links_of_find? hX₀) fk hfk
    have hpne : fk.table ≠ T := by
      intro he
      obtain ⟨P, hP, -, rfl⟩ := of_links hp
      rw [he, hR] at hP
      cases hP
      exact hne (hfree _ hm)
    exact ⟨_, _, hfind hpne hp, List.mem_filter.mpr ⟨hm, decide_eq_true hne⟩⟩
  · intro X ks cs hX r hr
    obtain ⟨X', hX', rfl, rfl⟩ := of_links hX
    obtain ⟨hne, X₀, hX₀, rfl⟩ := of_find?_without hX'
    obtain ⟨hr, hrne⟩ := List.mem_filter.mp hr
    obtain ⟨ks', cs', hc, hm⟩ := h.children X _ _ (links_of_find? hX₀) r hr
    exact ⟨_, _, hfind (by simpa using hrne) hc, hm⟩
  · intro X ks cs hX fk hfk
    obtain ⟨X', hX', rfl, rfl⟩ := of_links hX
    obtain ⟨hne, X₀, hX₀, rfl⟩ := of_find?_without hX'
    exact h.types X _ _ (links_of_find? hX₀) fk hfk

theorem Sound.dropTable (h : D.Sound) (hi : D.dropTable T = .ok D') : D'.Sound := by
  obtain ⟨R, hR, hfree, rfl⟩ := (dropTable_eq_ok h).mp hi
  refine ⟨?_, ?_, h.linked.dropTable hR hfree, references_of_rows h ?_⟩
  · intro X X' hX
    obtain ⟨-, X₀, hX₀, rfl⟩ := of_find?_without hX
    exact h.named X X₀ hX₀
  · intro X X' hX
    obtain ⟨-, X₀, hX₀, rfl⟩ := of_find?_without hX
    have hs := h.relations X X₀ hX₀
    exact hs.withTable (hs.table.forget T) (Table.keyRefs_forget T _)
      (distinct_mapColumns hs (fun _ => rfl) fun _ => rfl)
  · intro X X' hX
    obtain ⟨-, X₀, hX₀, rfl⟩ := of_find?_without hX
    exact ⟨X₀, hX₀, rfl, fun fk hfk => .inl hfk⟩

end Tables

end Database

end RelStore

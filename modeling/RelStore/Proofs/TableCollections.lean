import RelStore.Proofs.IndexUpkeep
/-! Collections when tables come, go and change. Of a definition they only depend on which columns
have an index of their own. -/
namespace RelStore

/-- Name and place of the columns with an index of their own. -/
def Table.indexPlaces (t : Table) : List (String × Nat) :=
  t.secondaryIndexes.map fun c => (c.name, c.position)

theorem Table.mem_indexPlaces {t : Table} {p : String × Nat} : p ∈ t.indexPlaces ↔
    ∃ c ∈ t.columns, c.indexed = true ∧ c.isRowId = false ∧ p = (c.name, c.position) := by
  simp only [indexPlaces, List.mem_map, mem_secondaryIndexes, and_assoc, eq_comm]

theorem Table.place_mem {t : Table} {c : Column} (h : c ∈ t.secondaryIndexes) :
    (c.name, c.position) ∈ t.indexPlaces := List.mem_map_of_mem h

theorem Table.exists_index {t : Table} {p : String × Nat} (h : p ∈ t.indexPlaces) (T : String) :
    ∃ c ∈ t.secondaryIndexes, indexCollection T p.1 = indexCollection T c.name := by
  obtain ⟨c, hc, rfl⟩ := List.mem_map.mp h
  exact ⟨c, hc, rfl⟩

theorem Column.place_of_keyRef {c c' : Column} (h : c'.keyRef = c.keyRef) :
    c'.name = c.name ∧ c'.position = c.position := by
  simp only [Column.keyRef, KeyRef.mk.injEq] at h
  exact ⟨h.1, h.2.1⟩

theorem Table.indexPlaces_mapColumns {t : Table} {f : Column → Column}
    (hk : ∀ c, (f c).keyRef = c.keyRef) (hi : ∀ c, (f c).indexed = c.indexed) :
    (t.mapColumns f).indexPlaces = t.indexPlaces := by
  have hsame : (fun c : Column => c.indexed && !c.isRowId) ∘ f =
      fun c : Column => c.indexed && !c.isRowId := by
    funext c
    simp only [Function.comp_apply, hi, Column.isRowId, Column.place_of_keyRef (hk c)]
  rw [indexPlaces, indexPlaces, secondaryIndexes, secondaryIndexes, mapColumns, List.filter_map,
    List.map_map, hsame]
  exact List.map_congr_left fun c _ => by
    simp only [Function.comp_apply, Column.place_of_keyRef (hk c)]

theorem Table.indexPlaces_forget (child : String) (t : Table) :
    (t.forget child).indexPlaces = t.indexPlaces :=
  indexPlaces_mapColumns (t := { t with childTables := _ }) (fun _ => rfl) fun _ => rfl

/-- The second definition is the first with the column indexed, if it has not been. -/
structure Table.Indexes (c : Column) (t t' : Table) : Prop where
  name : t'.name = t.name
  columns : ∃ g : Column → Column, (∀ c, (g c).keyRef = c.keyRef) ∧ (∀ c, (g c).indexed = true) ∧
    t'.columns = t.columns.map fun b => if b.name = c.name then g b else b

namespace Table.Indexes

variable {t t' : Table} {c : Column}

theorem withPrimaryKey : Indexes c t (t.withPrimaryKey c.name c.position) :=
  ⟨rfl, fun b => { b with primaryKey := true, unique := true, indexed := true }, fun _ => rfl,
    fun _ => rfl, rfl⟩

theorem withUnique : Indexes c t (t.withUnique c.name) :=
  ⟨rfl, fun b => { b with unique := true, indexed := true }, fun _ => rfl, fun _ => rfl, rfl⟩

theorem withIndex : Indexes c t (t.withIndex c.name) :=
  ⟨rfl, fun b => { b with indexed := true }, fun _ => rfl, fun _ => rfl, rfl⟩

theorem keyRefs (h : Indexes c t t') : t'.keyRefs = t.keyRefs := by
  obtain ⟨g, hk, -, hcolumns⟩ := h.columns
  have := keyRefs_mapColumns (t := t) (onColumn_congr (n := c.name) hk)
  rw [Table.keyRefs, hcolumns]
  exact this

theorem column (h : Indexes c t t') (hs : t'.Shaped) (hc : c ∈ t.columns) :
    ∃ c', t'.column c.name = .ok c' ∧ c'.keyRef = c.keyRef := by
  have hm : c.keyRef ∈ t'.keyRefs := h.keyRefs ▸ keyRef_mem hc
  obtain ⟨c', hc', hk⟩ := mem_keyRefs.mp hm
  refine ⟨c', ?_, hk⟩
  rw [← (Column.place_of_keyRef hk).1]
  exact hs.column_name hc'

theorem mem_indexPlaces (h : Indexes c t t') (hs : t.Shaped) (hc : c ∈ t.columns)
    {p : String × Nat} : p ∈ t'.indexPlaces ↔
      p ∈ t.indexPlaces ∨ c.isRowId = false ∧ p = (c.name, c.position) := by
  obtain ⟨g, hk, hi, hcolumns⟩ := h.columns
  rw [Table.mem_indexPlaces, Table.mem_indexPlaces, hcolumns]
  simp only [List.mem_map, exists_exists_and_eq_and]
  have hkey (b : Column) := Column.place_of_keyRef (hk b)
  constructor
  · rintro ⟨b, hb, hx⟩
    by_cases hn : b.name = c.name
    · rw [if_pos hn, Column.isRowId, (hkey b).1, (hkey b).2, hs.eq_of_name hb hc hn] at hx
      exact .inr hx.2
    · rw [if_neg hn] at hx
      exact .inl ⟨b, hb, hx⟩
  · rintro (⟨b, hb, hx⟩ | ⟨hrow, rfl⟩)
    · refine ⟨b, hb, ?_⟩
      by_cases hn : b.name = c.name
      · rw [if_pos hn, Column.isRowId, (hkey b).1, (hkey b).2]
        exact ⟨hi b, hx.2.1, hx.2.2⟩
      · rw [if_neg hn]
        exact hx
    · refine ⟨c, hc, ?_⟩
      rw [if_pos rfl, Column.isRowId, (hkey c).1, (hkey c).2]
      exact ⟨hi c, hrow, rfl⟩

/-- A column that is indexed already adds nothing. -/
theorem mem_indexPlaces_of_indexed (h : Indexes c t t') (hs : t.Shaped) (hc : c ∈ t.columns)
    (hx : c.indexed = true) {p : String × Nat} : p ∈ t'.indexPlaces ↔ p ∈ t.indexPlaces := by
  rw [h.mem_indexPlaces hs hc]
  exact or_iff_left_of_imp fun ⟨hrow, hp⟩ => Table.mem_indexPlaces.mpr ⟨c, hc, hx, hrow, hp⟩

/-- Only the column itself has its name. -/
theorem place_of_name (h : Indexes c t t') (hs : t.Shaped) (hc : c ∈ t.columns) {p : String × Nat}
    (hp : p ∈ t'.indexPlaces) (hn : p.1 = c.name) : p = (c.name, c.position) := by
  rcases (h.mem_indexPlaces hs hc).mp hp with hold | ⟨-, he⟩
  · obtain ⟨a, ha, -, -, rfl⟩ := Table.mem_indexPlaces.mp hold
    rw [hs.eq_of_name ha hc hn]
  · exact he

end Table.Indexes

/-- The collection of an index, by its place. -/
theorem CollectionsOf.place {D : Database} {cs : Collections} {T : String} {R : Relation}
    (h : CollectionsOf D cs) (hR : D.find? T = some R) {p : String × Nat}
    (hp : p ∈ R.table.indexPlaces) :
    ∃ coll, cs.find? (indexCollection T p.1) = some coll ∧ IndexOf R p.2 coll := by
  obtain ⟨c, hc, rfl⟩ := List.mem_map.mp hp
  exact h.index T R hR c hc

theorem eq_none_iff_of_rel {α β : Type} {r : α → β → Prop} {o : Option α} {o' : Option β}
    (h : Option.Rel r o o') : o' = none ↔ o = none := by
  cases h with
  | none => simp only
  | some hs => simp only [reduceCtorEq]

theorem of_rel_some_left {α β : Type} {r : α → β → Prop} {a : α} {o : Option β}
    (h : Option.Rel r (some a) o) : ∃ b, o = some b ∧ r a b := by
  cases h with
  | some hs => exact ⟨_, rfl, hs⟩

theorem of_rel_some_right {α β : Type} {r : α → β → Prop} {b : β} {o : Option α}
    (h : Option.Rel r o (some b)) : ∃ a, o = some a ∧ r a b := by
  cases h with
  | some hs => exact ⟨_, rfl, hs⟩

/-- Relations that are held by the same collections. -/
def Relation.SameStorage (R R' : Relation) : Prop :=
  R'.rows = R.rows ∧ ∀ p, p ∈ R'.table.indexPlaces ↔ p ∈ R.table.indexPlaces

theorem IndexOf.congr {R R' : Relation} {i : Nat} {coll : Collection} (h : IndexOf R i coll)
    (hrows : R'.rows = R.rows) : IndexOf R' i coll := by
  have hids (v : Value) : R'.idsAt i v = R.idsAt i v := by
    simp only [Relation.idsAt, Relation.list, hrows]
  intro v
  rw [hids]
  exact h v

theorem Relation.collection_congr {R R' : Relation} (hrows : R'.rows = R.rows) :
    R'.collection = R.collection := by rw [collection, collection, hrows]

section Changes

variable {D D' : Database} {cs cs' : Collections} {T : String} {R : Relation} {c : Column}

theorem CollectionsOf.congr (h : CollectionsOf D cs)
    (hsame : ∀ X, Option.Rel Relation.SameStorage (D.find? X) (D'.find? X)) : CollectionsOf D' cs := by
  have hempty : D'.isEmpty = D.isEmpty := by
    rw [Bool.eq_iff_iff, OrdMap.isEmpty_iff, OrdMap.isEmpty_iff]
    exact forall_congr' fun X => eq_none_iff_of_rel (hsame X)
  refine ⟨?_, ?_, ?_, ?_⟩
  · rw [hempty]
    exact h.placeholder
  · intro X R' hR'
    obtain ⟨R, hR, hrows, -⟩ := of_rel_some_right (hR' ▸ hsame X)
    rw [Relation.collection_congr hrows]
    exact h.base X R hR
  · intro X R' hR' c hc
    obtain ⟨R, hR, hrows, hplaces⟩ := of_rel_some_right (hR' ▸ hsame X)
    obtain ⟨coll, hcoll, hindex⟩ := h.place hR ((hplaces _).mp (Table.place_mem hc))
    exact ⟨coll, hcoll, hindex.congr hrows⟩
  · intro n coll hn
    rcases h.only n coll hn with hp | ⟨R, hR⟩ | ⟨X, R, hR, c, hc, he⟩
    · exact .inl hp
    · obtain ⟨R', hR', -⟩ := of_rel_some_left (hR ▸ hsame n)
      exact .inr (.inl ⟨R', hR'⟩)
    · obtain ⟨R', hR', -, hplaces⟩ := of_rel_some_left (hR ▸ hsame X)
      obtain ⟨b, hb, hbe⟩ := Table.exists_index ((hplaces _).mpr (Table.place_mem hc)) X
      exact .inr (.inr ⟨X, R', hR', b, hb, he.trans hbe⟩)

/-- A changed definition with the same indexes. -/
theorem CollectionsOf.withTable (h : CollectionsOf D cs) (hR : D.find? T = some R)
    {f : Table → Table} (hp : ∀ p, p ∈ (f R.table).indexPlaces ↔ p ∈ R.table.indexPlaces) :
    CollectionsOf (D.update T (·.withTable f)) cs := by
  apply h.congr
  intro X
  by_cases hX : X = T
  · subst hX
    rw [OrdMap.find?_update_self, hR]
    exact .some ⟨rfl, hp⟩
  · rw [OrdMap.find?_update_of_ne _ hX]
    cases D.find? X with
    | none => exact .none
    | some _ => exact .some ⟨rfl, fun _ => .rfl⟩

/-- A definition with one more index, which has been built. -/
theorem CollectionsOf.withIndex (h : CollectionsOf D cs) (hD : D.Sound) (hR : D.find? T = some R)
    {f : Table → Table} {coll : Collection} (hc : c ∈ R.table.columns) (hrow : c.isRowId = false)
    (hindex : IndexOf R c.position coll) (hf : Table.Indexes c R.table (f R.table)) :
    CollectionsOf (D.update T (·.withTable f)) (cs.insert (indexCollection T c.name) coll) := by
  have hT := hD.valid hR
  have hplaces (p : String × Nat) : p ∈ (f R.table).indexPlaces ↔
      p ∈ R.table.indexPlaces ∨ p = (c.name, c.position) := by
    rw [hf.mem_indexPlaces (hD.shaped hR) hc, and_iff_right hrow]
  have hnew : (D.update T (·.withTable f)).find? T = some (R.withTable f) :=
    OrdMap.find?_update_of_some hR
  refine h.replace hD hT (fun X hX => OrdMap.find?_update_of_ne _ hX) ?_ ?_ ?_ ?_
  · rw [isEmpty_update, OrdMap.find?_insert_of_ne indexCollection_ne_placeholder.symm]
    exact h.placeholder
  · intro R' hR'
    rw [hnew] at hR'
    cases hR'
    refine ⟨?_, fun b hb => ?_⟩
    · rw [OrdMap.find?_insert_of_ne (indexCollection_ne hT).symm]
      exact h.base T R hR
    · by_cases hn : b.name = c.name
      · obtain ⟨-, hpos⟩ := Prod.mk.inj
          (hf.place_of_name (hD.shaped hR) hc (Table.place_mem hb) hn)
        rw [hn, hpos, OrdMap.find?_insert_self]
        exact ⟨coll, rfl, hindex.congr rfl⟩
      · have hold := ((hplaces _).mp (Table.place_mem hb)).resolve_right
          fun he => hn (congrArg Prod.fst he)
        obtain ⟨coll', hcoll', hindex'⟩ := h.place hR hold
        rw [OrdMap.find?_insert_of_ne fun he => hn (indexCollection_inj hT hT he).2]
        exact ⟨coll', hcoll', hindex'.congr rfl⟩
  · intro n coll' hn hnT
    refine ⟨R.withTable f, hnew, ?_⟩
    by_cases hnc : n = indexCollection T c.name
    · rw [hnc]
      exact .inr (Table.exists_index ((hplaces _).mpr (.inr rfl)) T)
    · rw [OrdMap.find?_insert_of_ne hnc] at hn
      rcases h.own hD hR hn hnT with hnT | ⟨b, hb, he⟩
      · exact .inl hnT
      · rw [he]
        exact .inr (Table.exists_index ((hplaces _).mpr (.inl (Table.place_mem hb))) T)
  · intro n _ _ hx
    exact OrdMap.find?_insert_of_ne (hx c.name)

theorem CollectionsOf.link {child parent : String} {own target : Column} (h : CollectionsOf D cs) :
    CollectionsOf (D.link child own parent target) cs := by
  have hforeign (t : Table) (fk : ForeignKey) :
      (Catalog.withForeignKey t fk).indexPlaces = t.indexPlaces :=
    Table.indexPlaces_mapColumns (t := { t with foreignKeys := _ })
      (Table.onColumn_congr fun _ => rfl) (Table.onColumn_congr fun _ => rfl)
  have hchild (t : Table) (r : ForeignKey) :
      (Catalog.withChildReference t r).indexPlaces = t.indexPlaces :=
    Table.indexPlaces_mapColumns (t := { t with childTables := _ })
      (Table.onColumn_congr fun _ => rfl) (Table.onColumn_congr fun _ => rfl)
  apply h.congr
  intro X
  rw [Database.find?_link]
  cases D.find? X with
  | none => exact .none
  | some R =>
    refine .some ⟨rfl, fun p => ?_⟩
    show p ∈ (Database.linkTable child own parent target X R.table).indexPlaces ↔ _
    simp only [Database.linkTable]
    split <;> split <;> simp only [hforeign, hchild]

/-- What a dropped table leaves in others is of no concern to their collections. -/
theorem CollectionsOf.forget (h : CollectionsOf (D.erase T) cs) :
    CollectionsOf (D.without T) cs := by
  apply h.congr
  intro X
  by_cases hX : X = T
  · rw [hX, OrdMap.find?_erase_self, Database.find?_without_self]
    exact .none
  · rw [OrdMap.find?_erase_of_ne hX, Database.find?_without_of_ne hX]
    cases D.find? X with
    | none => exact .none
    | some R =>
      refine .some ⟨rfl, fun p => ?_⟩
      show p ∈ (R.table.forget T).indexPlaces ↔ _
      rw [Table.indexPlaces_forget]

theorem CollectionsOf.unused (h : CollectionsOf D cs) (hT : isValidName T = true)
    (hnone : D.find? T = none) : cs.find? T = none := by
  by_contra hne
  obtain ⟨coll, hcoll⟩ := Option.ne_none_iff_exists'.mp hne
  rcases h.only _ coll hcoll with hp | ⟨R, hR⟩ | ⟨X, RX, hX, c, -, he⟩
  · exact ne_placeholder hT hp
  · rw [hnone] at hR
    cases hR
  · exact indexCollection_ne hT he.symm

/-- Of a table without indexes of its own, or of one that is not there, there is no index. -/
theorem CollectionsOf.index_unused (h : CollectionsOf D cs) (hT : isValidName T = true)
    (hnames : ∀ X R, D.find? X = some R → isValidName X = true)
    (hplain : ∀ R, D.find? T = some R → R.table.secondaryIndexes = []) (x : String) :
    cs.find? (indexCollection T x) = none := by
  by_contra hne
  obtain ⟨coll, hcoll⟩ := Option.ne_none_iff_exists'.mp hne
  rcases h.only _ coll hcoll with hp | ⟨R, hR⟩ | ⟨X, R, hR, c, hc, he⟩
  · exact indexCollection_ne_placeholder hp
  · exact indexCollection_ne (hnames _ R hR) rfl
  · obtain ⟨rfl, -⟩ := indexCollection_inj hT (hnames X R hR) he
    rw [hplain R hR] at hc
    cases hc

theorem CollectionsOf.createTable (h : CollectionsOf D cs) (hD : D.Sound)
    (hT : isValidName T = true) (hnone : D.find? T = none) {t : Table}
    (hplain : t.secondaryIndexes = []) :
    CollectionsOf (D.insert T ⟨t, ∅⟩) ((cs.insert T ∅).erase Engine.placeholder) := by
  have hvoid : ∀ x, cs.find? (indexCollection T x) = none := by
    refine h.index_unused hT (fun X R hR => hD.valid hR) fun R hR => ?_
    rw [hnone] at hR
    cases hR
  refine h.replace hD hT (fun X hX => OrdMap.find?_insert_of_ne hX) ?_ ?_ ?_ ?_
  · rw [OrdMap.find?_erase_self, OrdMap.isEmpty_insert]
    rfl
  · intro R hR
    rw [OrdMap.find?_insert_self] at hR
    cases hR
    refine ⟨?_, fun c hc => ?_⟩
    · rw [OrdMap.find?_erase_of_ne (ne_placeholder hT), OrdMap.find?_insert_self]
      rfl
    · rw [hplain] at hc
      cases hc
  · intro n coll hn hnT
    refine ⟨⟨t, ∅⟩, OrdMap.find?_insert_self _ _ _, ?_⟩
    rcases hnT with rfl | ⟨x, rfl⟩
    · exact .inl rfl
    · rw [OrdMap.find?_erase_of_ne indexCollection_ne_placeholder,
        OrdMap.find?_insert_of_ne (indexCollection_ne hT), hvoid] at hn
      cases hn
  · intro n hp hnT _
    rw [OrdMap.find?_erase_of_ne hp, OrdMap.find?_insert_of_ne hnT]

/-- What is left without a table and its indexes, with the placeholder for the last one. -/
theorem CollectionsOf.dropTable (h : CollectionsOf D cs) (hD : D.Sound) (hR : D.find? T = some R)
    (hsame : ∀ X, X ≠ T → D'.find? X = D.find? X) (hgone : D'.find? T = none)
    (hplace : cs'.find? Engine.placeholder = if D'.isEmpty then some ∅ else none)
    (hbase : cs'.find? T = none)
    (hindexes : ∀ c ∈ R.table.secondaryIndexes, cs'.find? (indexCollection T c.name) = none)
    (hothers : ∀ n, n ≠ Engine.placeholder → n ≠ T →
      (∀ c ∈ R.table.secondaryIndexes, n ≠ indexCollection T c.name) →
      cs'.find? n = cs.find? n) : CollectionsOf D' cs' := by
  refine h.replace hD (hD.valid hR) hsame hplace (fun R' hR' => ?_) (fun n coll hn hnT => ?_) ?_
  · rw [hgone] at hR'
    cases hR'
  · by_cases hown : n = T ∨ ∃ c ∈ R.table.secondaryIndexes, n = indexCollection T c.name
    · rcases hown with rfl | ⟨c, hc, rfl⟩
      · rw [hbase] at hn
        cases hn
      · rw [hindexes c hc] at hn
        cases hn
    · have hp : n ≠ Engine.placeholder := by
        rcases hnT with rfl | ⟨x, rfl⟩
        · exact ne_placeholder (hD.valid hR)
        · exact indexCollection_ne_placeholder
      rw [not_or] at hown
      rw [hothers n hp hown.1 fun c hc he => hown.2 ⟨c, hc, he⟩] at hn
      rcases h.own hD hR hn hnT with he | hc
      · exact absurd he hown.1
      · exact absurd hc hown.2
  · exact fun n hp hnT hx => hothers n hp hnT fun c _ => hx c.name

end Changes

end RelStore

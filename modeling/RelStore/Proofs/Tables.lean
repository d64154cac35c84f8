import Mathlib.Data.List.Nodup
import RelStore.Catalog.Basic
import RelStore.Proofs.Running
/-! Well-formed table definitions. Every change keeps the name, type and place of each column, so
the conditions on these carry over at once; the flags and the lists of keys change together. -/
namespace RelStore

namespace Column

def links (c : Column) : Bool × Bool := (c.foreignKey, c.parentTable)

/-- A primary key is unique, and what is unique is indexed. -/
structure Ordered (c : Column) : Prop where
  unique : c.primaryKey = true → c.unique = true
  indexed : c.unique = true → c.indexed = true

end Column

namespace Table

/-- The columns without their flags. -/
def keyRefs (t : Table) : List KeyRef := t.columns.map Column.keyRef

structure Shaped (t : Table) : Prop where
  name : isValidName t.name = true
  file : Catalog.nameFits (Catalog.tableFile t.name) = true
  names : ∀ k ∈ t.keyRefs, isValidName k.column = true
  distinct : (t.keyRefs.map (·.column)).Nodup
  ordinals : t.keyRefs.map (·.ordinal) = List.range t.keyRefs.length
  /-- So that the file can give each ordinal. -/
  width : t.keyRefs.length ≤ 2 ^ 64

structure Flagged (t : Table) : Prop where
  rowId : t.rowId.primaryKey = true
  ordered : ∀ c ∈ t.columns, c.Ordered
  once : t.primaryKeys.Nodup
  primaryKeys : ∀ p, p ∈ t.primaryKeys ↔
    ∃ c ∈ t.columns, c.primaryKey = true ∧ p = (c.name, c.position)

structure Linked (t : Table) : Prop where
  keys : ∀ fk ∈ t.foreignKeys, fk.key ∈ t.keyRefs
  once : (t.foreignKeys.map (·.key.column)).Nodup
  foreignKey : ∀ c ∈ t.columns, c.foreignKey = true ↔ c.name ∈ t.foreignKeys.map (·.key.column)
  childKeys : ∀ r ∈ t.childTables, r.key ∈ t.keyRefs
  childOnce : t.childTables.Nodup
  parentTable : ∀ c ∈ t.columns, c.parentTable = true ↔ c.name ∈ t.childTables.map (·.key.column)

structure WellFormed (t : Table) : Prop where
  shaped : t.Shaped
  flagged : t.Flagged
  linked : t.Linked

section Columns

variable {t : Table} {c : Column} {n : String}

theorem mem_keyRefs {k : KeyRef} : k ∈ t.keyRefs ↔ ∃ c ∈ t.columns, c.keyRef = k := List.mem_map

theorem keyRef_mem (hc : c ∈ t.columns) : c.keyRef ∈ t.keyRefs := List.mem_map_of_mem hc

theorem names_eq (t : Table) : t.keyRefs.map (·.column) = t.columns.map (·.name) := by
  rw [keyRefs, List.map_map]
  rfl

theorem positions_eq (t : Table) : t.keyRefs.map (·.ordinal) = t.columns.map (·.position) := by
  rw [keyRefs, List.map_map]
  rfl

theorem length_keyRefs (t : Table) : t.keyRefs.length = t.width := List.length_map _

theorem rowId_mem (t : Table) : t.rowId ∈ t.columns := List.head_mem _

theorem of_column (h : t.column n = .ok c) : c ∈ t.columns ∧ c.name = n := by
  rw [column] at h
  split at h
  · next hc =>
    cases h
    exact ⟨List.mem_of_find?_eq_some hc, by simpa using List.find?_some hc⟩
  · cases h

theorem of_column_error {e : Error} (h : t.column n = .error e) :
    e = .columnNotFound n t.name ∧ ∀ c ∈ t.columns, c.name ≠ n := by
  rw [column] at h
  split at h
  · cases h
  · next hc =>
    cases h
    exact ⟨rfl, by simpa using hc⟩

namespace Shaped

theorem eq_of_name (h : t.Shaped) {b : Column} (hb : b ∈ t.columns) (hc : c ∈ t.columns)
    (hn : b.name = c.name) : b = c := by
  have hd := h.distinct
  rw [names_eq] at hd
  exact List.inj_on_of_nodup_map hd hb hc hn

theorem column_name (h : t.Shaped) (hc : c ∈ t.columns) : t.column c.name = .ok c := by
  cases hcol : t.column c.name with
  | error e => exact absurd rfl ((of_column_error hcol).2 c hc)
  | ok b =>
    obtain ⟨hb, hn⟩ := of_column hcol
    rw [h.eq_of_name hb hc hn]

theorem getElem?_position (h : t.Shaped) (hc : c ∈ t.columns) :
    t.columns[c.position]? = some c := by
  obtain ⟨i, hi, rfl⟩ := List.getElem_of_mem hc
  have hpos : t.columns[i].position = i := by
    have ho := h.ordinals
    rw [positions_eq] at ho
    have hget : (t.columns.map (·.position))[i]? = some t.columns[i].position := by simp [hi]
    rw [ho, List.getElem?_range (by simpa [length_keyRefs, Table.width] using hi)] at hget
    exact (Option.some.inj hget).symm
  rw [hpos]
  exact List.getElem?_eq_getElem hi

theorem position_lt (h : t.Shaped) (hc : c ∈ t.columns) : c.position < t.width :=
  (List.getElem?_eq_some_iff.mp (h.getElem?_position hc)).1

theorem eq_of_position (h : t.Shaped) {b : Column} (hb : b ∈ t.columns) (hc : c ∈ t.columns)
    (hp : b.position = c.position) : b = c := by
  have hb' := h.getElem?_position hb
  rw [hp, h.getElem?_position hc] at hb'
  exact (Option.some.inj hb').symm

theorem rowId_position (h : t.Shaped) : t.rowId.position = 0 := by
  have ho := h.ordinals
  obtain ⟨c, cs, hcs⟩ := List.exists_cons_of_ne_nil t.columns_ne
  rw [positions_eq, length_keyRefs, Table.width, hcs, List.length_cons, List.range_succ_eq_map,
    List.map_cons, List.cons_eq_cons] at ho
  have hhead : t.rowId = c := by simp [rowId, hcs]
  rw [hhead]
  exact ho.1

theorem isRowId_iff (h : t.Shaped) (hc : c ∈ t.columns) : c.isRowId = true ↔ c = t.rowId := by
  rw [Column.isRowId, decide_eq_true_eq]
  constructor
  · intro hp
    exact h.eq_of_position hc t.rowId_mem (by rw [hp, h.rowId_position])
  · rintro rfl
    exact h.rowId_position

theorem ordinal_lt (h : t.Shaped) {k : KeyRef} (hk : k ∈ t.keyRefs) : k.ordinal < 2 ^ 64 := by
  obtain ⟨c, hc, rfl⟩ := mem_keyRefs.mp hk
  exact Nat.lt_of_lt_of_le (h.position_lt hc) (by simpa [length_keyRefs] using h.width)

end Shaped

theorem Flagged.primaryKey_position (h : t.Flagged) (hs : t.Shaped) {p : String × Nat}
    (hp : p ∈ t.primaryKeys) : p.2 < 2 ^ 64 := by
  obtain ⟨c, hc, -, rfl⟩ := (h.primaryKeys p).mp hp
  exact hs.ordinal_lt (keyRef_mem hc)

theorem WellFormed.isRowId_eq_false (h : t.WellFormed) (hc : c ∈ t.columns)
    (hi : c.indexed = false) : c.isRowId = false := by
  rw [← Bool.not_eq_true, h.shaped.isRowId_iff hc]
  rintro rfl
  have hordered := h.flagged.ordered _ hc
  rw [hordered.indexed (hordered.unique h.flagged.rowId)] at hi
  cases hi

theorem Linked.noForeignKey (h : t.Linked) (hc : c ∈ t.columns) (hf : c.foreignKey = false) :
    c.name ∉ t.foreignKeys.map (·.key.column) := by
  rw [← h.foreignKey c hc, hf]
  exact Bool.false_ne_true

end Columns

section Changes

variable {t : Table} {f g : Column → Column} {n : String}

theorem keyRefs_mapColumns (hk : ∀ c, (f c).keyRef = c.keyRef) :
    (t.mapColumns f).keyRefs = t.keyRefs := by
  rw [keyRefs, mapColumns, List.map_map]
  exact List.map_congr_left fun c _ => hk c

theorem rowId_mapColumns : (t.mapColumns f).rowId = f t.rowId := List.head_map _

theorem Shaped.congr {t' : Table} (h : t.Shaped) (hn : t'.name = t.name)
    (hk : t'.keyRefs = t.keyRefs) : t'.Shaped where
  name := hn ▸ h.name
  file := hn ▸ h.file
  names := hk ▸ h.names
  distinct := hk ▸ h.distinct
  ordinals := hk ▸ h.ordinals
  width := hk ▸ h.width

theorem Shaped.mapColumns (h : t.Shaped) (hk : ∀ c, (f c).keyRef = c.keyRef) :
    (t.mapColumns f).Shaped := h.congr rfl (keyRefs_mapColumns hk)

theorem Flagged.mapColumns (h : t.Flagged) (hk : ∀ c, (f c).keyRef = c.keyRef)
    (hp : ∀ c, (f c).primaryKey = c.primaryKey) (ho : ∀ c, c.Ordered → (f c).Ordered) :
    (t.mapColumns f).Flagged := by
  have hkey (c : Column) : (f c).name = c.name ∧ (f c).position = c.position := by
    have := hk c
    simp only [Column.keyRef, KeyRef.mk.injEq] at this
    exact ⟨this.1, this.2.1⟩
  refine ⟨?_, List.forall_mem_map.mpr fun c hc => ho c (h.ordered c hc), h.once, fun p => ?_⟩
  · rw [rowId_mapColumns, hp]
    exact h.rowId
  · refine (h.primaryKeys p).trans ?_
    simp [Table.mapColumns, hkey, hp]

theorem Linked.mapColumns (h : t.Linked) (hk : ∀ c, (f c).keyRef = c.keyRef)
    (hl : ∀ c, (f c).links = c.links) : (t.mapColumns f).Linked := by
  have hlinks (c : Column) : (f c).foreignKey = c.foreignKey ∧
      (f c).parentTable = c.parentTable := by simpa [Column.links] using hl c
  have hname (c : Column) : (f c).name = c.name := congrArg KeyRef.column (hk c)
  refine ⟨?_, h.once, ?_, ?_, h.childOnce, ?_⟩
  · rw [keyRefs_mapColumns hk]
    exact h.keys
  · refine List.forall_mem_map.mpr ?_
    intro c hc
    rw [(hlinks c).1, hname]
    exact h.foreignKey c hc
  · rw [keyRefs_mapColumns hk]
    exact h.childKeys
  · refine List.forall_mem_map.mpr ?_
    intro c hc
    rw [(hlinks c).2, hname]
    exact h.parentTable c hc

/-- A change of one column keeps what it keeps of this column. -/
theorem onColumn_congr {β : Type} {p : Column → β} (hg : ∀ c, p (g c) = p c) (c : Column) :
    p (if c.name = n then g c else c) = p c := by
  split
  · exact hg c
  · rfl

theorem onColumn_ordered (hg : ∀ c, c.Ordered → (g c).Ordered) (c : Column) (hc : c.Ordered) :
    (if c.name = n then g c else c).Ordered := by
  split
  · exact hg c hc
  · exact hc

end Changes

section Keys

variable {t : Table} {c : Column}

def withPrimaryKey (t : Table) (column : String) (position : Nat) : Table :=
  { t with primaryKeys := t.primaryKeys ++ [(column, position)] }.updateColumn column fun c =>
    { c with primaryKey := true, unique := true, indexed := true }

def withUnique (t : Table) (column : String) : Table :=
  t.updateColumn column fun c => { c with unique := true, indexed := true }

def withIndex (t : Table) (column : String) : Table :=
  t.updateColumn column fun c => { c with indexed := true }

theorem withUnique_withUnique (t : Table) (n : String) :
    (t.withUnique n).withUnique n = t.withUnique n := by
  simp only [withUnique, updateColumn, mapColumns, List.map_map, Table.mk.injEq, true_and, and_true]
  refine List.map_congr_left fun c _ => ?_
  by_cases hn : c.name = n <;> simp [hn]

theorem WellFormed.withIndex (h : t.WellFormed) (n : String) : (t.withIndex n).WellFormed where
  shaped := h.shaped.mapColumns (onColumn_congr fun _ => rfl)
  linked := h.linked.mapColumns (onColumn_congr fun _ => rfl) (onColumn_congr fun _ => rfl)
  flagged := h.flagged.mapColumns (onColumn_congr fun _ => rfl) (onColumn_congr fun _ => rfl)
    (onColumn_ordered fun _ hc => ⟨hc.unique, fun _ => rfl⟩)

theorem WellFormed.withUnique (h : t.WellFormed) (n : String) : (t.withUnique n).WellFormed where
  shaped := h.shaped.mapColumns (onColumn_congr fun _ => rfl)
  linked := h.linked.mapColumns (onColumn_congr fun _ => rfl) (onColumn_congr fun _ => rfl)
  flagged := h.flagged.mapColumns (onColumn_congr fun _ => rfl) (onColumn_congr fun _ => rfl)
    (onColumn_ordered fun _ _ => ⟨fun _ => rfl, fun _ => rfl⟩)

theorem Flagged.withPrimaryKey (h : t.Flagged) (hs : t.Shaped) (hc : c ∈ t.columns)
    (hp : c.primaryKey = false) : (t.withPrimaryKey c.name c.position).Flagged := by
  refine ⟨?_, ?_, ?_, ?_⟩
  · rw [Table.withPrimaryKey, updateColumn, rowId_mapColumns]
    split
    · rfl
    · exact h.rowId
  · refine List.forall_mem_map.mpr ?_
    intro b hb
    split
    · exact ⟨fun _ => rfl, fun _ => rfl⟩
    · exact h.ordered b hb
  · refine List.nodup_append.mpr ⟨h.once, by simp, fun p hmem q hq => ?_⟩
    rintro rfl
    obtain ⟨b, hb, hbp, he⟩ := (h.primaryKeys p).mp hmem
    rw [List.mem_singleton.mp hq] at he
    rw [hs.eq_of_name hb hc (congrArg Prod.fst he).symm, hp] at hbp
    cases hbp
  · intro p
    simp only [Table.withPrimaryKey, updateColumn, Table.mapColumns, List.mem_map,
      exists_exists_and_eq_and, List.mem_append, List.mem_singleton, h.primaryKeys p]
    constructor
    · rintro (⟨b, hb, hbp, rfl⟩ | rfl)
      · refine ⟨b, hb, ?_⟩
        split
        · exact ⟨rfl, rfl⟩
        · exact ⟨hbp, rfl⟩
      · exact ⟨c, hc, by simp⟩
    · rintro ⟨b, hb, hbp⟩
      by_cases hn : b.name = c.name
      · rw [if_pos hn] at hbp
        rw [hs.eq_of_name hb hc hn] at hbp
        exact .inr hbp.2
      · rw [if_neg hn] at hbp
        exact .inl ⟨b, hb, hbp⟩

theorem keyRefs_withPrimaryKey (t : Table) (n : String) (i : Nat) :
    (t.withPrimaryKey n i).keyRefs = t.keyRefs :=
  keyRefs_mapColumns (t := { t with primaryKeys := _ }) (onColumn_congr fun _ => rfl)

theorem WellFormed.withPrimaryKey (h : t.WellFormed) (hc : c ∈ t.columns)
    (hp : c.primaryKey = false) : (t.withPrimaryKey c.name c.position).WellFormed where
  shaped := h.shaped.congr rfl (keyRefs_withPrimaryKey ..)
  flagged := h.flagged.withPrimaryKey h.shaped hc hp
  linked := Linked.mapColumns (t := { t with primaryKeys := _ })
    ⟨h.linked.keys, h.linked.once, h.linked.foreignKey, h.linked.childKeys, h.linked.childOnce,
      h.linked.parentTable⟩ (onColumn_congr fun _ => rfl) (onColumn_congr fun _ => rfl)

end Keys

section References

open Catalog (withForeignKey withChildReference)

variable {t : Table} {fk r : ForeignKey}

theorem keyRefs_withForeignKey (t : Table) (fk : ForeignKey) :
    (withForeignKey t fk).keyRefs = t.keyRefs :=
  keyRefs_mapColumns (t := { t with foreignKeys := _ }) (onColumn_congr fun _ => rfl)

theorem keyRefs_withChildReference (t : Table) (r : ForeignKey) :
    (withChildReference t r).keyRefs = t.keyRefs :=
  keyRefs_mapColumns (t := { t with childTables := _ }) (onColumn_congr fun _ => rfl)

theorem Linked.withForeignKey (h : t.Linked) (hk : fk.key ∈ t.keyRefs)
    (hnew : fk.key.column ∉ t.foreignKeys.map (·.key.column)) : (withForeignKey t fk).Linked := by
  refine ⟨?_, ?_, ?_, ?_, h.childOnce, ?_⟩
  · rw [keyRefs_withForeignKey]
    exact List.forall_mem_append.mpr ⟨h.keys, by simpa using hk⟩
  · rw [Catalog.withForeignKey, updateColumn, Table.mapColumns, List.map_append, List.map_singleton,
      ← List.concat_eq_append]
    exact h.once.concat hnew
  · refine List.forall_mem_map.mpr ?_
    intro c hc
    show _ ↔ _ ∈ List.map _ (t.foreignKeys ++ [fk])
    have hold := h.foreignKey c hc
    rw [List.map_append, List.map_singleton, List.mem_append, List.mem_singleton]
    split
    · next hn => simp [hn]
    · next hn => rw [hold, or_iff_left hn]
  · rw [keyRefs_withForeignKey]
    exact h.childKeys
  · refine List.forall_mem_map.mpr ?_
    intro c hc
    split <;> exact h.parentTable c hc

theorem Linked.withChildReference (h : t.Linked) (hk : r.key ∈ t.keyRefs)
    (hnew : r ∉ t.childTables) : (withChildReference t r).Linked := by
  refine ⟨?_, h.once, ?_, ?_, ?_, ?_⟩
  · rw [keyRefs_withChildReference]
    exact h.keys
  · refine List.forall_mem_map.mpr ?_
    intro c hc
    split <;> exact h.foreignKey c hc
  · rw [keyRefs_withChildReference]
    exact List.forall_mem_append.mpr ⟨h.childKeys, by simpa using hk⟩
  · show (t.childTables ++ [r]).Nodup
    rw [← List.concat_eq_append]
    exact h.childOnce.concat hnew
  · refine List.forall_mem_map.mpr ?_
    intro c hc
    show _ ↔ _ ∈ List.map _ (t.childTables ++ [r])
    have hold := h.parentTable c hc
    rw [List.map_append, List.map_singleton, List.mem_append, List.mem_singleton]
    split
    · next hn => simp [hn]
    · next hn => rw [hold, or_iff_left hn]

theorem WellFormed.withForeignKey (h : t.WellFormed) (hk : fk.key ∈ t.keyRefs)
    (hnew : fk.key.column ∉ t.foreignKeys.map (·.key.column)) :
    (withForeignKey t fk).WellFormed where
  shaped := h.shaped.congr rfl (keyRefs_withForeignKey t fk)
  flagged := Flagged.mapColumns (t := { t with foreignKeys := _ })
    ⟨h.flagged.rowId, h.flagged.ordered, h.flagged.once, h.flagged.primaryKeys⟩
    (onColumn_congr fun _ => rfl) (onColumn_congr fun _ => rfl)
    (onColumn_ordered fun _ hc => ⟨hc.unique, hc.indexed⟩)
  linked := h.linked.withForeignKey hk hnew

theorem WellFormed.withChildReference (h : t.WellFormed) (hk : r.key ∈ t.keyRefs)
    (hnew : r ∉ t.childTables) : (withChildReference t r).WellFormed where
  shaped := h.shaped.congr rfl (keyRefs_withChildReference t r)
  flagged := Flagged.mapColumns (t := { t with childTables := _ })
    ⟨h.flagged.rowId, h.flagged.ordered, h.flagged.once, h.flagged.primaryKeys⟩
    (onColumn_congr fun _ => rfl) (onColumn_congr fun _ => rfl)
    (onColumn_ordered fun _ hc => ⟨hc.unique, hc.indexed⟩)
  linked := h.linked.withChildReference hk hnew

/-- Without the references of `child`. -/
def forget (child : String) (t : Table) : Table :=
  let kept := t.childTables.filter fun r => r.table ≠ child
  let referenced := kept.map fun r => r.key.column
  { t with childTables := kept }.mapColumns fun c => { c with parentTable := c.name ∈ referenced }

theorem keyRefs_forget (child : String) (t : Table) : (t.forget child).keyRefs = t.keyRefs :=
  keyRefs_mapColumns (t := { t with childTables := _ }) fun _ => rfl

theorem WellFormed.forget (h : t.WellFormed) (child : String) : (t.forget child).WellFormed where
  shaped := h.shaped.congr rfl (keyRefs_forget child t)
  flagged := Flagged.mapColumns (t := { t with childTables := _ })
    ⟨h.flagged.rowId, h.flagged.ordered, h.flagged.once, h.flagged.primaryKeys⟩
    (fun _ => rfl) (fun _ => rfl) fun _ hc => ⟨hc.unique, hc.indexed⟩
  linked := by
    refine ⟨?_, h.linked.once, ?_, ?_, h.linked.childOnce.filter _, ?_⟩
    · rw [keyRefs_forget]
      exact h.linked.keys
    · exact List.forall_mem_map.mpr fun c hc => h.linked.foreignKey c hc
    · rw [keyRefs_forget]
      exact fun r hr => h.linked.childKeys r (List.mem_filter.mp hr).1
    · exact List.forall_mem_map.mpr fun c hc => decide_eq_true_iff

theorem forget_forget (child : String) (t : Table) : (t.forget child).forget child = t.forget child := by
  simp only [forget, mapColumns, List.filter_filter, Bool.and_self, List.map_map, Table.mk.injEq,
    true_and, and_true]
  exact List.map_congr_left fun c _ => rfl

/-- Nothing is forgotten of a table that the child does not refer to. -/
theorem Linked.forget_eq (h : t.Linked) {child : String} (hc : ∀ r ∈ t.childTables, r.table ≠ child) :
    t.forget child = t := by
  have hkept : t.childTables.filter (fun r => r.table ≠ child) = t.childTables :=
    List.filter_eq_self.mpr fun r hr => by simpa using hc r hr
  have hflag : ∀ c ∈ t.columns,
      { c with parentTable := decide (c.name ∈ t.childTables.map (·.key.column)) } = c := by
    intro c hmem
    have : decide (c.name ∈ t.childTables.map (·.key.column)) = c.parentTable := by
      rw [Bool.eq_iff_iff, decide_eq_true_iff]
      exact (h.parentTable c hmem).symm
    rw [this]
  obtain ⟨name, columns, primaryKeys, foreignKeys, childTables, hne⟩ := t
  simp only [forget, Table.mapColumns, hkept, Table.mk.injEq, true_and, and_true]
  exact (List.map_congr_left hflag).trans (List.map_id' _)

end References

section Declarations

variable {name : String} {columns : List (String × ColumnType)} {t : Table} {c : Column}

theorem checkName_eq_ok {n : String} : checkName n = .ok () ↔ isValidName n = true := by
  simp [checkName]

theorem of_declareColumns {seen : List String} {cs : List Column} (hseen : seen.Nodup)
    (h : declareColumns name seen columns = .ok cs) :
    (∀ c ∈ cs, isValidName c.name = true ∧ c = .declared c.name c.type c.position) ∧
      (seen ++ cs.map (·.name)).Nodup ∧
      cs.map (·.position) = List.range' seen.length columns.length := by
  induction columns generalizing seen cs with
  | nil =>
    cases h
    simp [hseen]
  | cons p columns ih =>
    obtain ⟨n, type⟩ := p
    rw [declareColumns] at h
    obtain ⟨⟨⟩, hname, h⟩ := Except.bind_eq_ok.mp h
    by_cases hn : n ∈ seen
    · rw [if_pos hn] at h
      cases h
    · rw [if_neg hn] at h
      obtain ⟨rest, hrest, he⟩ := Except.bind_eq_ok.mp h
      cases he
      have hnodup : (seen ++ [n]).Nodup := by
        rw [← List.concat_eq_append]
        exact hseen.concat hn
      obtain ⟨hall, hnames, hpos⟩ := ih hnodup hrest
      refine ⟨List.forall_mem_cons.mpr ⟨⟨checkName_eq_ok.mp hname, rfl⟩, hall⟩, ?_, ?_⟩
      · simpa [Column.declared] using hnames
      · rw [List.length_cons, List.range'_succ, List.map_cons, hpos]
        simp [Column.declared]

/-- A new table is the primary key in front, other columns without flags, and no references. -/
structure Fresh (t : Table) (n : String) (width : Nat) : Prop where
  name : t.name = n
  valid : isValidName n = true
  primaryKeys : t.primaryKeys = [(t.rowId.name, 0)]
  foreignKeys : t.foreignKeys = []
  childTables : t.childTables = []
  names : ∀ c ∈ t.columns, isValidName c.name = true
  declared : ∀ c ∈ t.columns, c = .declared c.name c.type c.position
  distinct : (t.columns.map (·.name)).Nodup
  positions : t.columns.map (·.position) = List.range width

theorem fresh_of_declare (h : declare name columns = .ok t) : t.Fresh name columns.length := by
  obtain ⟨⟨⟩, hname, h⟩ := Except.bind_eq_ok.mp h
  obtain ⟨cs, hcs, h⟩ := Except.bind_eq_ok.mp h
  obtain ⟨hall, hnames, hpos⟩ := of_declareColumns .nil hcs
  cases cs with
  | nil => cases h
  | cons c cs =>
    cases h
    refine ⟨rfl, checkName_eq_ok.mp hname, rfl, rfl, rfl, ?_, ?_, hnames, ?_⟩
    · intro b hb
      exact (hall b hb).1
    · intro b hb
      exact (hall b hb).2
    · rw [hpos, List.range_eq_range']
      rfl

namespace Fresh

variable {width : Nat}

theorem length_columns (h : t.Fresh name width) : t.columns.length = width := by
  have := congrArg List.length h.positions
  simpa using this

theorem rowId_position (h : t.Fresh name width) : t.rowId.position = 0 := by
  have hpos := congrArg List.head? h.positions
  rw [← h.length_columns] at hpos
  obtain ⟨_, columns, _, _, _, hne⟩ := t
  obtain ⟨c, cs, rfl⟩ := List.exists_cons_of_ne_nil hne
  simpa [List.range_eq_range', List.range'_succ, rowId] using hpos

/-- Only the primary key is flagged. -/
theorem flags (h : t.Fresh name width) (hc : c ∈ t.columns) :
    c.primaryKey = decide (c.position = 0) ∧ c.unique = decide (c.position = 0) ∧
      c.indexed = decide (c.position = 0) ∧ c.foreignKey = false ∧ c.parentTable = false := by
  rw [h.declared c hc]
  exact ⟨rfl, rfl, rfl, rfl, rfl⟩

theorem shaped (h : t.Fresh name width) (hfile : Catalog.nameFits (Catalog.tableFile name) = true)
    (hwidth : width ≤ 2 ^ 64) : t.Shaped := by
  refine ⟨h.name ▸ h.valid, h.name ▸ hfile, ?_, ?_, ?_, ?_⟩
  · exact List.forall_mem_map.mpr h.names
  · rw [names_eq]
    exact h.distinct
  · rw [positions_eq, h.positions, length_keyRefs, Table.width, h.length_columns]
  · rw [length_keyRefs, Table.width, h.length_columns]
    exact hwidth

theorem flagged (h : t.Fresh name width) (hs : t.Shaped) : t.Flagged := by
  refine ⟨?_, ?_, ?_, ?_⟩
  · rw [(h.flags (rowId_mem t)).1, h.rowId_position]
    rfl
  · intro c hc
    obtain ⟨hp, hu, hi, -, -⟩ := h.flags hc
    exact ⟨fun hpk => by rwa [hu, ← hp], fun hunique => by rwa [hi, ← hu]⟩
  · rw [h.primaryKeys]
    exact List.nodup_singleton _
  · intro p
    rw [h.primaryKeys, List.mem_singleton]
    constructor
    · rintro rfl
      refine ⟨t.rowId, rowId_mem t, ?_, by rw [h.rowId_position]⟩
      rw [(h.flags (rowId_mem t)).1, h.rowId_position]
      rfl
    · rintro ⟨c, hc, hp, rfl⟩
      rw [(h.flags hc).1, decide_eq_true_eq] at hp
      rw [hs.eq_of_position hc (rowId_mem t) (hp.trans h.rowId_position.symm), h.rowId_position]

theorem linked (h : t.Fresh name width) : t.Linked := by
  refine ⟨?_, ?_, ?_, ?_, ?_, ?_⟩
  · simp [h.foreignKeys]
  · simp [h.foreignKeys]
  · intro c hc
    simp [h.foreignKeys, (h.flags hc).2.2.2.1]
  · simp [h.childTables]
  · simp [h.childTables]
  · intro c hc
    simp [h.childTables, (h.flags hc).2.2.2.2]

theorem wellFormed (h : t.Fresh name width)
    (hfile : Catalog.nameFits (Catalog.tableFile name) = true) (hwidth : width ≤ 2 ^ 64) :
    t.WellFormed :=
  have hs := h.shaped hfile hwidth
  ⟨hs, h.flagged hs, h.linked⟩

theorem secondaryIndexes (h : t.Fresh name width) : t.secondaryIndexes = [] := by
  apply List.filter_eq_nil_iff.mpr
  intro c hc
  simp [(h.flags hc).2.2.1, Column.isRowId]

end Fresh

end Declarations

end Table

end RelStore

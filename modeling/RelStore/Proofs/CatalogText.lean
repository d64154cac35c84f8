import RelStore.Proofs.JsonText
import RelStore.Proofs.Running
import RelStore.Schema.Record
/-! Catalog files read back. The records of a table are printed and read one by one; the order of
the columns and their distinct names then give the table again. -/
namespace RelStore

open Json

theorem Text.head_natDigits {n : Nat} (hn : n ≠ 0) : (natDigits n).head? ≠ some '0' := by
  induction n using Nat.strongRecOn with
  | ind n ih =>
    rw [natDigits, Nat.toDigits_eq_if (by decide)]
    split
    · next h =>
      have hall : ∀ m < 10, m ≠ 0 → [Nat.digitChar m].head? ≠ some '0' := by decide
      exact hall n h hn
    · next h =>
      have hne : Nat.toDigits 10 (n / 10) ≠ [] := natDigits_ne_nil (n / 10)
      rw [List.head?_append_of_ne_nil _ hne]
      exact ih (n / 10) (by omega) (by omega)

theorem Text.no_needless_zero (n : Nat) :
    ¬ ((natDigits n).head? = some '0' ∧ 1 < (natDigits n).length) := by
  rintro ⟨hzero, hlen⟩
  by_cases hn : n = 0
  · subst hn
    exact absurd hlen (by decide)
  · exact head_natDigits hn hzero

namespace Json

theorem Number.wellFormed_ofInt (i : Int) : (Number.ofInt i).WellFormed where
  whole := ⟨Text.natDigits_ne_nil _, fun _ hc => Text.isDigit_of_mem_natDigits hc⟩
  needless := Text.no_needless_zero _
  fraction := by intro ds h; cases h
  exponent := by intro e h; cases h

theorem Number.value?_ofInt {i : Int} (hmin : -2 ^ 63 ≤ i) (hmax : i < 2 ^ 64) :
    (Number.ofInt i).value? = some (.int i) := by
  simp only [value?, ofInt, Text.digitsValue_natDigits, decide_eq_true_eq]
  by_cases hneg : i < 0
  · rw [if_pos hneg, if_pos (by omega)]
    congr 2
    omega
  · rw [if_neg hneg, if_pos (by unfold significandRange; omega)]
    congr 2
    omega

theorem printable_items {l : List Json} : PrintableItems l ↔ ∀ j ∈ l, Printable j := by
  induction l with
  | nil => simp [PrintableItems]
  | cons j l ih => simp [PrintableItems, ih]

theorem printable_ofFields {l : List (String × Json)} :
    Printable (ofFields l) ↔ ∀ f ∈ l, Printable f.2 := by
  rw [ofFields, Printable]
  induction l with
  | nil => simp [PrintableFields]
  | cons f l ih => simp [PrintableFields, ih]

theorem sound_array {depth : Nat} {l : List Json} :
    sound (depth + 1) (.array l) = true ↔ ∀ j ∈ l, sound depth j = true := by
  simp only [sound, Nat.zero_lt_succ, decide_true, Bool.true_and, Nat.add_sub_cancel]
  induction l with
  | nil => simp [soundItems]
  | cons j l ih => simp [soundItems, ih]

theorem sound_ofFields {depth : Nat} {l : List (String × Json)} :
    sound (depth + 1) (ofFields l) = true ↔ ∀ f ∈ l, sound depth f.2 = true := by
  simp only [ofFields, sound, Nat.zero_lt_succ, decide_true, Bool.true_and, Nat.add_sub_cancel]
  induction l with
  | nil => simp [soundFields]
  | cons f l ih => simp [soundFields, ih]

theorem text?_ofText (s : String) : (ofText s).text? = some s := rfl

theorem Number.value?_ofNat {n : Nat} (h : n < 2 ^ 64) : (Number.ofInt n).value? = some (.int n) :=
  value?_ofInt (by omega) (by omega)

theorem nat?_ofNat {n : Nat} (h : n < 2 ^ 64) : (ofNat n).nat? = some n := by
  simp [nat?, int?, numeric?, ofNat, Number.value?_ofNat h]

theorem sound_ofNat {n : Nat} (h : n < 2 ^ 64) (depth : Nat) : sound depth (ofNat n) = true := by
  simp [sound, ofNat, Number.value?_ofNat h]

theorem mapM_map {α β : Type} {f : α → β} {g : β → Option α} {l : List α}
    (h : ∀ a ∈ l, g (f a) = some a) : (l.map f).mapM g = some l := by
  induction l with
  | nil => rfl
  | cons a l ih =>
    obtain ⟨ha, hl⟩ := List.forall_mem_cons.mp h
    rw [List.map_cons, List.mapM_cons, ha, ih hl]
    rfl

theorem named?_ofFields (l : List (String × Json)) : (ofFields l).named? = some l :=
  mapM_map fun _ _ => rfl

end Json

namespace CatalogRecord

theorem type?_ofText (t : ColumnType) : type? (.ofText t.name) = some t := by cases t <;> decide

/-- The file gives an ordinal in 64 bits. -/
def KeyRefFits (k : KeyRef) : Prop := k.ordinal < 2 ^ 64

def ForeignKeyFits (fk : ForeignKey) : Prop := KeyRefFits fk.key ∧ KeyRefFits fk.column

def Fits : CatalogRecord → Prop
  | .keys _ k => (∀ p ∈ k.primaryKeys, p.2 < 2 ^ 64) ∧ (∀ fk ∈ k.foreignKeys, ForeignKeyFits fk) ∧
      ∀ fk ∈ k.childTables, ForeignKeyFits fk
  | .column _ => True

theorem keyRef?_keyRefJson {k : KeyRef} (h : KeyRefFits k) : keyRef? (keyRefJson k) = some k := by
  simp [keyRef?, keyRefJson, record?, named?, ofFields, nat?_ofNat h, type?_ofText, text?_ofText]

theorem foreignKey?_foreignKeyJson {fk : ForeignKey} (h : ForeignKeyFits fk) :
    foreignKey? (foreignKeyJson fk) = some fk := by
  simp [foreignKey?, foreignKeyJson, record?, named?, ofFields, keyRef?_keyRefJson h.1,
    keyRef?_keyRefJson h.2, text?_ofText]

theorem primaryKey?_pair {p : String × Nat} (h : p.2 < 2 ^ 64) :
    primaryKey? (.array [.ofText p.1, .ofNat p.2]) = some p := by
  simp [primaryKey?, items?, nat?_ofNat h, text?_ofText]

/-- The record of a column has no field of the keys, so it is not taken for one. -/
theorem ofJson?_json {r : CatalogRecord} (h : r.Fits) : ofJson? r.json = some r := by
  cases r with
  | keys name k =>
    have hp := mapM_map fun p hp => primaryKey?_pair (h.1 p hp)
    have hf := mapM_map fun fk hfk => foreignKey?_foreignKeyJson (h.2.1 fk hfk)
    have hc := mapM_map fun fk hfk => foreignKey?_foreignKeyJson (h.2.2 fk hfk)
    simp [ofJson?, keys?, json, record?, named?, ofFields, items?, text?_ofText, hp, hf, hc]
  | column c =>
    simp [ofJson?, keys?, column?, json, record?, named?, ofFields, bool?, text?_ofText,
      type?_ofText]

theorem printable_ofNat (n : Nat) : Printable (.ofNat n) := Number.wellFormed_ofInt n

theorem printable_keyRefJson (k : KeyRef) : Printable (keyRefJson k) := by
  simp [keyRefJson, printable_ofFields, printable_ofNat, ofText, Printable]

theorem printable_foreignKeyJson (fk : ForeignKey) : Printable (foreignKeyJson fk) := by
  simp [foreignKeyJson, printable_ofFields, printable_keyRefJson, ofText, Printable]

theorem printable_json (r : CatalogRecord) : Printable r.json := by
  cases r with
  | keys name k =>
    simp only [json, printable_ofFields, List.forall_mem_cons, Printable, printable_items,
      List.forall_mem_map]
    exact ⟨rfl, fun p _ => ⟨rfl, printable_ofNat p.2, by simp⟩,
      fun fk _ => printable_foreignKeyJson fk,
      fun fk _ => printable_foreignKeyJson fk, by simp⟩
  | column c => simp [json, printable_ofFields, Printable, ofText]

theorem sound_ofText (s : String) (depth : Nat) : sound depth (ofText s) = true := by
  simp [sound, ofText]

theorem sound_bool (b : Bool) (depth : Nat) : sound depth (.bool b) = true := by
  simp [sound]

theorem sound_keyRefJson {k : KeyRef} (h : KeyRefFits k) (depth : Nat) :
    sound (depth + 1) (keyRefJson k) = true := by
  simp [keyRefJson, sound_ofFields, sound_ofText, sound_ofNat h]

theorem sound_foreignKeyJson {fk : ForeignKey} (h : ForeignKeyFits fk) (depth : Nat) :
    sound (depth + 2) (foreignKeyJson fk) = true := by
  simp [foreignKeyJson, sound_ofFields, sound_ofText, sound_keyRefJson h.1, sound_keyRefJson h.2]

theorem sound_json {r : CatalogRecord} (h : r.Fits) (depth : Nat) :
    sound (depth + 4) r.json = true := by
  cases r with
  | keys name k =>
    obtain ⟨hp, hf, hc⟩ := h
    simp only [json, sound_ofFields, sound_array, List.forall_mem_cons, List.forall_mem_map,
      sound_ofText, true_and]
    exact ⟨fun p hmem => ⟨sound_ofNat (hp p hmem) _, by simp⟩,
      fun fk hfk => sound_foreignKeyJson (hf fk hfk) _,
      fun fk hfk => sound_foreignKeyJson (hc fk hfk) _, by simp⟩
  | column c => simp [json, sound_ofFields, sound_ofText, sound_bool]

theorem read?_write {records : List CatalogRecord} (h : ∀ r ∈ records, r.Fits) :
    read? (write records) = some records := by
  have hprint : Printable (.array (records.map json)) :=
    printable_items.mpr (List.forall_mem_map.mpr fun r _ => printable_json r)
  have hsound : sound maxDepth (.array (records.map json)) = true :=
    sound_array.mpr (List.forall_mem_map.mpr fun r hr => sound_json (h r hr) _)
  simp only [read?, write, String.toList_ofList, read?_pretty hprint, hsound, Option.bind_eq_bind,
    Option.bind_some, if_true, items?]
  exact mapM_map fun r hr => ofJson?_json (h r hr)

end CatalogRecord

namespace Table

/-- What a catalog file needs to give a table back. -/
structure Recordable (t : Table) : Prop where
  distinct : (t.columns.map (·.name)).Nodup
  positions : t.columns.map (·.position) = List.range t.width
  primaryKeys : ∀ p ∈ t.primaryKeys, p.2 < 2 ^ 64
  foreignKeys : ∀ fk ∈ t.foreignKeys, CatalogRecord.ForeignKeyFits fk
  childTables : ∀ fk ∈ t.childTables, CatalogRecord.ForeignKeyFits fk

def columnRecord (c : Column) : CatalogRecord :=
  .column ⟨c.name, c.type, c.indexed, c.unique, c.primaryKey, c.foreignKey, c.parentTable⟩

theorem recordedColumns_columnRecord (table : String) {seen : List String} {cs : List Column}
    (hnames : (seen ++ cs.map (·.name)).Nodup)
    (hpos : cs.map (·.position) = List.range' seen.length cs.length) :
    recordedColumns table seen (cs.map columnRecord) = .ok cs := by
  induction cs generalizing seen with
  | nil => rfl
  | cons c cs ih =>
    rw [List.map_cons, List.length_cons, List.range'_succ, List.cons_eq_cons] at hpos
    have hnew : c.name ∉ seen := by
      intro hmem
      exact (List.nodup_append.mp hnames).2.2 _ hmem _ List.mem_cons_self rfl
    have hrest : recordedColumns table (seen ++ [c.name]) (cs.map columnRecord) = .ok cs :=
      ih (by simpa using hnames) (by simpa using hpos.2)
    rw [List.map_cons, columnRecord, recordedColumns]
    simp only [hnew, if_false, hrest]
    show Except.ok (_ :: cs) = _
    rw [← hpos.1]

theorem ofRecords_records {t : Table} (h : t.Recordable) : ofRecords t.name t.records = .ok t := by
  have hcols : recordedColumns t.name [] (t.columns.map columnRecord) = .ok t.columns :=
    recordedColumns_columnRecord t.name (by simpa using h.distinct)
      (by simpa [List.range_eq_range', width] using h.positions)
  obtain ⟨name, columns, primaryKeys, foreignKeys, childTables, hne⟩ := t
  obtain ⟨c, cs, rfl⟩ := List.exists_cons_of_ne_nil hne
  simp only [records, ofRecords]
  change (recordedColumns name [] ((c :: cs).map columnRecord) >>= _) = _
  rw [hcols]
  rfl

theorem columnRecords_of_recordedColumns {table : String} {seen : List String}
    {records : List CatalogRecord} {cs : List Column}
    (h : recordedColumns table seen records = .ok cs) : cs.map columnRecord = records := by
  induction records generalizing seen cs with
  | nil =>
    cases h
    rfl
  | cons r rest ih =>
    cases r with
    | keys n k => cases h
    | column r =>
      rw [recordedColumns] at h
      by_cases hseen : r.name ∈ seen
      · rw [if_pos hseen] at h
        cases h
      · rw [if_neg hseen] at h
        obtain ⟨cs', hcs, he⟩ := Except.bind_eq_ok.mp h
        cases he
        rw [List.map_cons, ih hcs, columnRecord]

/-- A list of records that gives a table is the list of its records but for the name that the first
one goes by. -/
theorem of_ofRecords {name : String} {records : List CatalogRecord} {t : Table}
    (h : ofRecords name records = .ok t) : t.name = name ∧
      ∃ n k rest, records = .keys n k :: rest ∧ t.records = .keys "keys" k :: rest := by
  cases records with
  | nil => cases h
  | cons r rest =>
    cases r with
    | column r => cases h
    | keys n k =>
      obtain ⟨cs, hcs, h⟩ := Except.bind_eq_ok.mp h
      have hrest := columnRecords_of_recordedColumns hcs
      cases cs with
      | nil => cases h
      | cons c cs =>
        cases h
        exact ⟨rfl, n, k, rest, rfl, congrArg (_ :: ·) hrest⟩

theorem name_of_ofFileText {name text : String} {t : Table} (h : ofFileText name text = .ok t) :
    t.name = name := by
  rw [ofFileText] at h
  split at h
  · exact (of_ofRecords h).1
  · cases h

theorem fits_records {t : Table} (h : t.Recordable) : ∀ r ∈ t.records, r.Fits := by
  intro r hr
  rcases List.mem_cons.mp hr with rfl | hr
  · exact ⟨h.primaryKeys, h.foreignKeys, h.childTables⟩
  · obtain ⟨c, -, rfl⟩ := List.mem_map.mp hr
    trivial

/-- The file of a table gives the table back. -/
theorem ofFileText_fileText {t : Table} (h : t.Recordable) :
    ofFileText t.name t.fileText = .ok t := by
  rw [ofFileText, fileText, CatalogRecord.read?_write (fits_records h)]
  exact ofRecords_records h

end Table

end RelStore

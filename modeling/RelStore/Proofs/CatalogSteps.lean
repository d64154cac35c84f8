import Mathlib.Logic.Function.Basic
import RelStore.Proofs.Representation
import RelStore.Proofs.Running
/-! Catalog operations in the folder of one database. A table is written beside its file and moved
into place; of a name that is too long at most the draft is left. -/
namespace RelStore

open Catalog (tableFile draftFile nameFits tableFile_ne_draftFile)

/-- The folder once a table is written. -/
def Catalog.filed (es : OrdMap String Entry) (t : Table) : OrdMap String Entry :=
  ((es.insert (draftFile t.name) (.file t.fileText)).erase (draftFile t.name)).insert
    (tableFile t.name) (.file t.fileText)

theorem Catalog.filed_filed (es : OrdMap String Entry) (t : Table) :
    filed (filed es t) t = filed es t := by
  ext k : 1
  by_cases hk : k = tableFile t.name
  · rw [hk, filed, OrdMap.find?_insert_self, filed, OrdMap.find?_insert_self]
  · rw [filed, OrdMap.find?_insert_of_ne hk]
    by_cases hd : k = draftFile t.name
    · rw [hd, OrdMap.find?_erase_self, filed, OrdMap.find?_insert_of_ne (hd ▸ hk),
        OrdMap.find?_erase_self]
    · rw [OrdMap.find?_erase_of_ne hd, OrdMap.find?_insert_of_ne hd]

section Folders

variable {T : String} {es : OrdMap String Entry} {tables : String → Option Table} {t : Table}

namespace FolderOf

theorem no_folder (h : FolderOf tables es) : es.find? (tableFile T) ≠ some .folder := by
  rw [h.files]
  intro he
  obtain ⟨t, -, he⟩ := Option.map_eq_some_iff.mp he
  cases he

theorem draft (h : FolderOf tables es) (text : String) :
    FolderOf tables (es.insert (draftFile T) (.file text)) := by
  refine ⟨fun X => ?_, fun X => ?_⟩
  · rw [OrdMap.find?_insert_of_ne tableFile_ne_draftFile]
    exact h.files X
  · by_cases hX : X = T
    · rw [hX, OrdMap.find?_insert_self]
      exact fun he => Entry.noConfusion (Option.some.inj he)
    · rw [OrdMap.find?_insert_of_ne fun he => hX (Catalog.draftFile_inj he)]
      exact h.drafts X

theorem filed (h : FolderOf tables es) :
    FolderOf (Function.update tables t.name (some t)) (Catalog.filed es t) := by
  refine ⟨fun X => ?_, fun X => ?_⟩
  · by_cases hX : X = t.name
    · rw [hX, Catalog.filed, OrdMap.find?_insert_self, Function.update_self, Option.map_some]
    · rw [Catalog.filed, OrdMap.find?_insert_of_ne fun he => hX (Catalog.tableFile_inj he),
        OrdMap.find?_erase_of_ne tableFile_ne_draftFile,
        OrdMap.find?_insert_of_ne tableFile_ne_draftFile, Function.update_of_ne hX]
      exact h.files X
  · rw [Catalog.filed, OrdMap.find?_insert_of_ne (Ne.symm tableFile_ne_draftFile)]
    by_cases hX : X = t.name
    · rw [hX, OrdMap.find?_erase_self]
      exact fun he => (nomatch he)
    · have hne : draftFile X ≠ draftFile t.name := fun he => hX (Catalog.draftFile_inj he)
      rw [OrdMap.find?_erase_of_ne hne, OrdMap.find?_insert_of_ne hne]
      exact h.drafts X

theorem erase (h : FolderOf tables es) :
    FolderOf (Function.update tables T none) (es.erase (tableFile T)) := by
  refine ⟨fun X => ?_, fun X => ?_⟩
  · by_cases hX : X = T
    · rw [hX, OrdMap.find?_erase_self, Function.update_self, Option.map_none]
    · rw [OrdMap.find?_erase_of_ne fun he => hX (Catalog.tableFile_inj he),
        Function.update_of_ne hX]
      exact h.files X
  · rw [OrdMap.find?_erase_of_ne (Ne.symm tableFile_ne_draftFile)]
    exact h.drafts X

end FolderOf

end Folders

/-- What a folder needs to give every table back. -/
def Recorded (tables : String → Option Table) : Prop :=
  ∀ T t, tables T = some t → t.name = T ∧ isValidName T = true ∧ nameFits (tableFile T) = true ∧
    t.Recordable

theorem Database.Sound.recorded {D : Database} (h : D.Sound) : Recorded D.tables := by
  intro T t ht
  obtain ⟨R, hR, rfl⟩ := Option.map_eq_some_iff.mp ht
  exact ⟨h.named T R hR, h.valid hR, h.fileFits hR, h.recordable hR⟩

theorem Recorded.forget {tables : String → Option Table} {P : String} {t : Table}
    (h : Recorded tables) (ht : tables P = some t) (child : String) :
    Recorded (Function.update tables P (some (t.forget child))) := by
  intro T t' ht'
  by_cases hT : T = P
  · subst hT
    rw [Function.update_self] at ht'
    cases ht'
    obtain ⟨hname, hvalid, hfits, hrec⟩ := h T t ht
    exact ⟨hname, hvalid, hfits, hrec.forget child⟩
  · rw [Function.update_of_ne hT] at ht'
    exact h T t' ht'

theorem FolderOf.read {c : Catalog} {db T : String} {es : OrdMap String Entry}
    {tables : String → Option Table} {t : Table} (h : FolderOf tables es) (hr : Recorded tables)
    (hdb : isValidName db = true) (ht : tables T = some t) :
    Catalog.table (c.insert db (.folder es)) db T = .ok t := by
  obtain ⟨rfl, hvalid, -, hrec⟩ := hr T t ht
  have hfile := Table.ofFileText_fileText hrec
  simp only [Catalog.table, Table.checkName_eq_ok.mpr hvalid, Table.checkName_eq_ok.mpr hdb,
    Except.ok_bind, Catalog.fileText?, Catalog.entries?_eq (OrdMap.find?_insert_self _ _ _),
    Option.bind_some, h.files, ht, Option.map_some, hfile]

namespace Catalog

variable {c : Catalog} {db T : String} {es : OrdMap String Entry} {tables : String → Option Table}
  {t : Table}

theorem entries?_insert : entries? (c.insert db (.folder es)) db = some es :=
  entries?_eq (OrdMap.find?_insert_self _ _ _)

theorem writeFile_run {file text : String} (hfits : nameFits file = true)
    (hfile : es.find? file ≠ some .folder) :
    writeFile db file text (c.insert db (.folder es)) =
      (.ok (), c.insert db (.folder (es.insert file (.file text)))) := by
  simp only [writeFile, Step.bind_run, Step.get_run, entries?_insert, hfits, Bool.not_true,
    Bool.false_eq_true, if_false, hfile, Step.modify_run, OrdMap.insert_insert]

theorem writeFile_long {file text : String} (hfits : nameFits file = false) :
    writeFile db file text (c.insert db (.folder es)) =
      (.error (.io "File name too long"), c.insert db (.folder es)) := by
  simp only [writeFile, Step.bind_run, Step.get_run, entries?_insert, hfits, Bool.not_false,
    if_true, Step.throw_run]

theorem renameFile_run {source target : String} {e : Entry} (hfits : nameFits target = true)
    (htarget : es.find? target ≠ some .folder) (hsource : es.find? source = some e) :
    renameFile db source target (c.insert db (.folder es)) =
      (.ok (), c.insert db (.folder ((es.erase source).insert target e))) := by
  simp only [renameFile, Step.bind_run, Step.get_run, entries?_insert, hfits, Bool.not_true,
    Bool.false_eq_true, if_false, htarget, hsource, Step.modify_run,
    OrdMap.insert_insert]

theorem renameFile_long {source target : String} (hfits : nameFits target = false) :
    renameFile db source target (c.insert db (.folder es)) =
      (.error (.io "File name too long"), c.insert db (.folder es)) := by
  simp only [renameFile, Step.bind_run, Step.get_run, entries?_insert, hfits, Bool.not_false,
    if_true, Step.throw_run]

theorem removeFile_run {file : String} :
    removeFile db file (c.insert db (.folder es)) =
      (.ok (), c.insert db (.folder (es.erase file))) := by
  simp only [removeFile, Step.bind_run, Step.get_run, entries?_insert, Step.modify_run,
    OrdMap.insert_insert]

theorem checkName_run {σ : Type} {n : String} (h : isValidName n = true) (s : σ) :
    (liftM (checkName n) : Step σ Unit) s = (.ok (), s) := by
  rw [Table.checkName_eq_ok.mpr h]
  rfl

theorem writeTable_run (h : FolderOf tables es) (ht : isValidName t.name = true)
    (hdb : isValidName db = true) (hfits : nameFits (tableFile t.name) = true) :
    writeTable db t (c.insert db (.folder es)) = (.ok (), c.insert db (.folder (filed es t))) := by
  have hfile : (es.insert (draftFile t.name) (.file t.fileText)).find? (tableFile t.name) ≠
      some .folder := (h.draft t.fileText).no_folder
  rw [writeTable, Step.bind_run_ok (checkName_run ht _), Step.bind_run_ok (checkName_run hdb _),
    Step.bind_run_ok (writeFile_run (nameFits_draftFile hfits) (h.drafts t.name)),
    renameFile_run hfits hfile (OrdMap.find?_insert_self _ _ _)]
  rfl

theorem writeTable_filed (h : FolderOf tables es) (hn : t.name = T) (hT : isValidName T = true)
    (hdb : isValidName db = true) (hfits : nameFits (tableFile T) = true) :
    writeTable db t (c.insert db (.folder es)) = (.ok (), c.insert db (.folder (filed es t))) ∧
      FolderOf (Function.update tables T (some t)) (filed es t) := by
  subst hn
  exact ⟨writeTable_run h hT hdb hfits, h.filed⟩

/-- Nothing but a draft is written for a name that is too long. -/
theorem writeTable_long (h : FolderOf tables es) (ht : isValidName t.name = true)
    (hdb : isValidName db = true) (hfits : nameFits (tableFile t.name) = false) :
    ∃ es', writeTable db t (c.insert db (.folder es)) =
        (.error (.io "File name too long"), c.insert db (.folder es')) ∧
      (es' = es ∨ es' = es.insert (draftFile t.name) (.file t.fileText)) := by
  by_cases hdraft : nameFits (draftFile t.name) = true
  · refine ⟨_, ?_, .inr rfl⟩
    rw [writeTable, Step.bind_run_ok (checkName_run ht _), Step.bind_run_ok (checkName_run hdb _),
      Step.bind_run_ok (writeFile_run hdraft (h.drafts t.name)), renameFile_long hfits]
  · refine ⟨es, ?_, .inl rfl⟩
    rw [writeTable, Step.bind_run_ok (checkName_run ht _), Step.bind_run_ok (checkName_run hdb _),
      Step.bind_run_error (writeFile_long (by simpa using hdraft))]

/-- A table that is read comes from the file of its name. -/
theorem of_table (h : c.table db T = .ok t) : isValidName T = true ∧ isValidName db = true ∧
    ∃ text, c.fileText? db (tableFile T) = some text ∧ Table.ofFileText T text = .ok t := by
  obtain ⟨⟨⟩, hT, h⟩ := Except.bind_eq_ok.mp h
  obtain ⟨⟨⟩, hdb, h⟩ := Except.bind_eq_ok.mp h
  refine ⟨Table.checkName_eq_ok.mp hT, Table.checkName_eq_ok.mp hdb, ?_⟩
  cases hfile : c.fileText? db (tableFile T) with
  | none =>
    rw [hfile] at h
    cases h
  | some text =>
    rw [hfile] at h
    exact ⟨text, rfl, h⟩

theorem tableExists_of_table (h : c.table db T = .ok t) : c.tableExists db T = true := by
  obtain ⟨hT, hdb, text, htext, -⟩ := of_table h
  rw [tableExists, hT, hdb, htext]
  rfl

theorem name_of_table (h : c.table db T = .ok t) : t.name = T := by
  obtain ⟨-, -, text, -, htext⟩ := of_table h
  exact Table.name_of_ofFileText htext

theorem updateTable_ok {f : Table → Except Error Table} {t' : Table} (ht : c.table db T = .ok t)
    (hf : f t = .ok t') :
    updateTable db T f c = (do writeTable db t'; return t' : Step Catalog Table) c := by
  rw [updateTable, Step.bind_run_ok (Step.get_run c), ht, Step.bind_run_ok (Step.lift_run _ _), hf]
  rfl

theorem updateTable_run {f : Table → Except Error Table} {t' : Table} (h : FolderOf tables es)
    (ht : Catalog.table (c.insert db (.folder es)) db T = .ok t) (hf : f t = .ok t')
    (hn : isValidName t'.name = true) (hdb : isValidName db = true)
    (hfits : nameFits (tableFile t'.name) = true) :
    updateTable db T f (c.insert db (.folder es)) =
      (.ok t', c.insert db (.folder (filed es t'))) := by
  rw [updateTable_ok ht hf, Step.bind_run_ok (writeTable_run h hn hdb hfits)]
  rfl

theorem updateTable_error {f : Table → Except Error Table} {e : Error}
    (ht : (c.table db T >>= f) = .error e) : updateTable db T f c = (.error e, c) := by
  rw [updateTable, Step.bind_run_ok (Step.get_run _)]
  cases htable : c.table db T with
  | error e' =>
    rw [htable] at ht
    cases ht
    rfl
  | ok t =>
    rw [htable, Except.ok_bind] at ht
    rw [Step.bind_run_ok (Step.lift_run _ _), ht]
    rfl

theorem dropDatabase_run (h : c.databaseExists db = true) :
    dropDatabase db c = (.ok (), c.erase db) := by
  rw [databaseExists, Bool.and_eq_true] at h
  obtain ⟨es, hes⟩ := Option.isSome_iff_exists.mp h.2
  simp only [dropDatabase, Table.checkName_eq_ok.mpr h.1, Step.bind_run, Step.lift_run,
    Step.get_run, hes, Option.isNone_some, Bool.false_eq_true, if_false, Step.modify_run]

theorem createTable_run {columns : List (String × ColumnType)} (hdb : c.databaseExists db = true)
    (hT : c.tableExists db T = false) (ht : Table.declare T columns = .ok t) :
    createTable db T columns c = (do writeTable db t; return t : Step Catalog Table) c := by
  rw [createTable, Step.bind_run_ok (Step.get_run c), hdb, hT, ht]
  rfl

theorem createTable_error {columns : List (String × ColumnType)} {e : Error}
    (hdb : c.databaseExists db = true)
    (h : (if c.tableExists db T then .error (.tableAlreadyExists T)
      else Table.declare T columns) = .error e) :
    createTable db T columns c = (.error e, c) := by
  rw [createTable, Step.bind_run_ok (Step.get_run c), hdb]
  by_cases hT : c.tableExists db T = true
  · rw [if_pos hT] at h ⊢
    cases h
    rfl
  · rw [if_neg hT] at h ⊢
    rw [h]
    rfl

theorem removeChildReferences_run (h : FolderOf tables es) (hr : Recorded tables)
    (hdb : isValidName db = true) (ht : tables T = some t) (child : String) :
    removeChildReferences db T child (c.insert db (.folder es)) =
        (.ok (t.forget child), c.insert db (.folder (filed es (t.forget child)))) ∧
      FolderOf (Function.update tables T (some (t.forget child))) (filed es (t.forget child)) := by
  obtain ⟨rfl, hvalid, hfits, -⟩ := hr T t ht
  exact ⟨updateTable_run h (h.read hr hdb ht) rfl hvalid hdb hfits,
    h.filed (t := t.forget child)⟩

theorem dropTable_run (h : FolderOf tables es) (hr : Recorded tables)
    (hdb : isValidName db = true) (ht : tables T = some t) :
    dropTable db T (c.insert db (.folder es)) =
      (.ok t, c.insert db (.folder (es.erase (tableFile T)))) := by
  rw [dropTable, Step.bind_run_ok (Step.get_run _), h.read hr hdb ht,
    Step.bind_run_ok (Step.lift_run _ _), Step.bind_run_ok removeFile_run]
  rfl

theorem listTables_run (h : FolderOf tables es) (hdb : isValidName db = true)
    (hnamed : ∀ T t, tables T = some t → T ≠ "") :
    ∃ l, listTables (c.insert db (.folder es)) db = .ok l ∧
      (l.isEmpty = true ↔ ∀ T, tables T = none) := by
  refine ⟨(OrdSet.ofList (es.keys.filterMap tableOfFile?)).keys, ?_, ?_⟩
  · rw [listTables, Table.checkName_eq_ok.mpr hdb, Except.ok_bind, entries?_insert]
    rfl
  · rw [List.isEmpty_iff, List.eq_nil_iff_forall_not_mem]
    constructor
    · intro hno T
      by_contra hne
      obtain ⟨t, ht⟩ := Option.ne_none_iff_exists'.mp hne
      refine hno T (OrdSet.mem_keys_ofList.mpr (List.mem_filterMap.mpr ⟨tableFile T, ?_, ?_⟩))
      · rw [OrdMap.mem_keys, OrdMap.contains_iff, h.files, ht]
        exact ⟨_, rfl⟩
      · exact tableOfFile?_eq_some.mpr ⟨hnamed T t ht, rfl⟩
    · intro hno T hT
      obtain ⟨file, hfile, hstem⟩ := List.mem_filterMap.mp (OrdSet.mem_keys_ofList.mp hT)
      obtain ⟨-, rfl⟩ := tableOfFile?_eq_some.mp hstem
      rw [OrdMap.mem_keys, OrdMap.contains_iff, h.files, hno T] at hfile
      obtain ⟨e, he⟩ := hfile
      cases he

end Catalog

end RelStore

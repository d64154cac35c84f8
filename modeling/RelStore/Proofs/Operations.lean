import RelStore.Proofs.Refinement
/-! Each operation of the engine refines its meaning for the database it works in. -/
namespace RelStore

open Backend (Stores Shows Changed onCatalog_run onStore_run getContent_run)

namespace Database

variable {D : Database} {T : String} {R : Relation}

theorem tables_update_of_rows {f : Relation → Relation} (hf : ∀ R, (f R).table = R.table) :
    tables (D.update T f) = D.tables := by
  funext X
  by_cases hX : X = T
  · rw [hX, tables, tables, OrdMap.find?_update_self, Option.map_map]
    exact congrArg (Option.map · (D.find? T)) (funext hf)
  · rw [tables, tables, OrdMap.find?_update_of_ne f hX]

theorem tables_update (h : D.find? T = some R) (f : Table → Table) :
    tables (D.update T (·.withTable f)) = Function.update D.tables T (some (f R.table)) := by
  funext X
  by_cases hX : X = T
  · rw [hX, tables, OrdMap.find?_update_self, h, Function.update_self]
    rfl
  · rw [tables, OrdMap.find?_update_of_ne _ hX, Function.update_of_ne hX, tables]

theorem tables_insert (R : Relation) :
    tables (D.insert T R) = Function.update D.tables T (some R.table) := by
  funext X
  by_cases hX : X = T
  · rw [hX, tables, OrdMap.find?_insert_self, Function.update_self]
    rfl
  · rw [tables, OrdMap.find?_insert_of_ne hX, Function.update_of_ne hX, tables]

variable {child parent : String} {C P : Relation} {own target : Column}

theorem tables_link_self (hC : D.find? child = some C) :
    tables (D.link child own child target) = Function.update D.tables child
      (some (Catalog.withChildReference
        (Catalog.withForeignKey C.table ⟨own.keyRef, child, target.keyRef⟩)
        ⟨target.keyRef, child, own.keyRef⟩)) := by
  have hkeyed : (D.update child (·.withTable fun t =>
      Catalog.withForeignKey t ⟨own.keyRef, child, target.keyRef⟩)).find? child =
      some (C.withTable fun t => Catalog.withForeignKey t ⟨own.keyRef, child, target.keyRef⟩) := by
    rw [OrdMap.find?_update_self, hC]
    rfl
  rw [link, tables_update hkeyed, tables_update hC, Function.update_idem]
  rfl

theorem tables_link_of_ne (hC : D.find? child = some C) (hP : D.find? parent = some P)
    (hne : parent ≠ child) :
    tables (D.link child own parent target) = Function.update
      (Function.update D.tables child
        (some (Catalog.withForeignKey C.table ⟨own.keyRef, parent, target.keyRef⟩)))
      parent (some (Catalog.withChildReference P.table ⟨target.keyRef, child, own.keyRef⟩)) := by
  have hkept : (D.update child (·.withTable fun t =>
      Catalog.withForeignKey t ⟨own.keyRef, parent, target.keyRef⟩)).find? parent = some P := by
    rw [OrdMap.find?_update_of_ne _ hne, hP]
  rw [link, tables_update hkept, tables_update hC]

/-- What is checked of an index that is refused does not depend on the rows. -/
theorem addIndex_error {n : String} {e : Error} (h : D.addIndex T n = .error e) :
    ((D.relation T).map (·.table) >>= fun t => do
      let c ← t.column n
      if c.indexed then throw (.alreadyIndexed n t.name)
      return t.updateColumn n fun c => { c with indexed := true } : Except Error Table) =
      .error e := by
  rw [addIndex] at h
  cases hR : D.relation T with
  | error e' =>
    rw [hR] at h
    cases h
    rfl
  | ok R =>
    rw [hR] at h
    simp only [Except.map, Except.ok_bind] at h ⊢
    cases hcolumn : R.table.column n with
    | error e' =>
      rw [hcolumn] at h
      cases h
      rfl
    | ok column =>
      rw [hcolumn] at h
      simp only [Except.ok_bind] at h ⊢
      by_cases hi : column.indexed = true
      · rw [if_pos hi] at h ⊢
        cases h
        rfl
      · rw [if_neg hi] at h
        cases h

end Database

/-- What a command leaves when it fails: everything as it was. But a table whose file name is too long
may be left as a draft. -/
inductive Command.Leaves (b : Backend) : Command → Backend → Prop where
  | unchanged (c : Command) : Leaves b c b
  | draft {T db : String} {columns : List (String × ColumnType)} {es : OrdMap String Entry}
    (text : String) (long : Catalog.nameFits (Catalog.tableFile T) = false)
    (folder : b.catalog.find? db = some (.folder es)) :
    Leaves b (.createTable T columns)
      { b with catalog :=
          b.catalog.insert db (.folder (es.insert (Catalog.draftFile T) (.file text))) }

namespace Engine

variable {b : Backend} {cat : Catalog} {c : Content} {db T n : String} {D : Database}
  {es : OrdMap String Entry} {cs : Collections} {values : List String}
  {columns : List (String × ColumnType)}

theorem createTable_refines (h : b.Stores cat c db D es cs) (hD : D.Sound)
    (hdb : isValidName db = true) :
    Refines (createTable db T columns) b (D.createTable T columns) (Changed cat c db)
      ((Command.createTable T columns).Leaves b) := by
  have hexists := h.databaseExists hdb
  have htable : b.catalog.tableExists db T = D.contains T := h.folder.tableExists hD h.entries hdb
  refine .step (h.requireDatabase_run hdb) ?_
  rw [Database.createTable]
  by_cases hT : D.contains T = true
  · rw [if_pos hT]
    refine .of_error (onCatalog_run (Catalog.createTable_error hexists ?_)) (.unchanged _)
    rw [htable, if_pos hT]
  · rw [if_neg hT]
    cases ht : Table.declare T columns with
    | error e =>
      refine .of_error (onCatalog_run (Catalog.createTable_error hexists ?_)) (.unchanged _)
      rw [htable, if_neg hT, ht]
    | ok t =>
      have hrun := Catalog.createTable_run hexists (htable.trans (by simpa using hT)) ht
      have hfresh := Table.fresh_of_declare ht
      obtain ⟨hname, hvalid⟩ := And.intro hfresh.name hfresh.valid
      rw [h.catalog] at hrun
      by_cases hfits : Catalog.nameFits (Catalog.tableFile T) = true
      · have hnone : D.find? T = none := OrdMap.contains_eq_false_iff.mp (by simpa using hT)
        have hcs := h.collections.createTable hD hvalid hnone hfresh.secondaryIndexes
        rw [Except.ok_bind, hfits]
        rw [Step.bind_run_ok (Catalog.writeTable_run (t := t) h.folder (hname ▸ hvalid) hdb
          (hname ▸ hfits)), Step.pure_run] at hrun
        obtain ⟨s₁, hcreate, h₁⟩ := Store.createCollection_at (n := T) h.store
          (h.collections.unused hvalid hnone)
        obtain ⟨s₂, hdrop, h₂⟩ := Store.dropCollection_at (n := placeholder) h₁
          (OrdMap.isEmpty_insert _ _ _)
        have hfolder := h.folder.filed (t := t)
        rw [hname, ← Database.tables_insert ⟨t, ∅⟩] at hfolder
        rw [← h.catalog] at hrun
        refine .step (onCatalog_run hrun) (.step (onStore_run hcreate) (.step (onStore_run hdrop) ?_))
        exact .pure ⟨rfl, _, _, rfl, hfolder, h₂, hcs⟩
      · rw [Bool.not_eq_true] at hfits
        rw [Except.ok_bind, hfits]
        obtain ⟨es', hwrite, hes'⟩ := Catalog.writeTable_long (c := cat) (t := t) h.folder
          (hname ▸ hvalid) hdb (hname ▸ hfits)
        rw [Step.bind_run_error hwrite, ← h.catalog] at hrun
        refine .of_error (onCatalog_run hrun) ?_
        rcases hes' with rfl | rfl
        · rw [← h.catalog]
          exact .unchanged _
        · rw [hname, ← OrdMap.insert_insert, ← h.catalog]
          exact .draft _ hfits h.entries

theorem insert_refines (h : b.Stores cat c db D es cs) (hD : D.Sound)
    (hdb : isValidName db = true) :
    Refines (insert db T values) b (D.insertRow T values) (Changed cat c db) (· = b) := by
  refine .step (h.requireDatabase_run hdb) ?_
  refine .bind (h.getTable_run hD hdb T) rfl fun R hR => ?_
  obtain ⟨-, hfind⟩ := Database.of_relation hR
  refine .step getContent_run ?_
  refine .check rfl fun r hr => ?_
  rw [Constraint.checkUnique_eq h.collections hD h.content hfind]
  refine .check rfl fun _ hunique => .step (Step.get_run b) ?_
  rw [Constraint.checkParents_eq h.collections hD h.content (h.table hD hdb)]
  refine .check rfl fun _ _ => ?_
  obtain ⟨hnew, -⟩ := Relation.of_checkUnique rfl (hD.shaped hfind) hunique
  obtain ⟨cs', hsteps, hcs'⟩ := steps_insertRow h.collections hD h.content hfind
    (Constraint.denotes_of_readRow hr) hnew
  obtain ⟨s', happly, hs'⟩ := Store.apply_at h.store hcs'.nonempty hsteps
  have hfolder := h.folder
  rw [← Database.tables_update_of_rows (f := Relation.insertRow r) fun _ => rfl] at hfolder
  rw [hD.named T R hfind]
  exact .step (onStore_run happly) (.pure ⟨rfl, es, cs', h.catalog, hfolder, hs', hcs'⟩)

theorem delete_refines (h : b.Stores cat c db D es cs) (hD : D.Sound)
    (hdb : isValidName db = true) :
    Refines (delete db T n) b (D.deleteRow T n) (Changed cat c db) (· = b) := by
  refine .step (h.requireDatabase_run hdb) ?_
  refine .bind (h.getTable_run hD hdb T) rfl fun R hR => ?_
  obtain ⟨-, hfind⟩ := Database.of_relation hR
  refine .step getContent_run ?_
  refine .check rfl fun id hid => ?_
  rw [hD.named T R hfind, h.collections.findOne h.content hfind]
  cases hrow : R.rows.find? id with
  | none => exact .fail rfl
  | some fields =>
    have hr : (⟨id, fields⟩ : Row) ∈ R.list := Relation.mem_list.mpr hrow
    have hread := Row.ofDocument_document ((hD.relations T R hfind).rows _ hr)
    simp only [Option.map_some, hread]
    refine .step (Step.lift_run _ b) (.step (Step.get_run b) ?_)
    rw [Constraint.checkNoChildren_eq h.collections hD h.content (h.table hD hdb)]
    refine .check rfl fun _ _ => ?_
    obtain ⟨cs', hsteps, hcs'⟩ := steps_deleteRow h.collections hD h.content hfind hr
    obtain ⟨s', happly, hs'⟩ := Store.apply_at h.store hcs'.nonempty hsteps
    have hfolder := h.folder
    rw [← Database.tables_update_of_rows (f := Relation.deleteRow id) fun _ => rfl] at hfolder
    exact .step (onStore_run happly) (.pure ⟨rfl, es, cs', h.catalog, hfolder, hs', hcs'⟩)

section Definitions

variable {R : Relation} {column : Column} {f : Table → Table}

/-- The definition of one table is written anew. -/
theorem update_at (h : b.Stores cat c db D es cs) (hD : D.Sound) (hdb : isValidName db = true)
    (hR : D.find? T = some R) {x : Step Catalog Table} {g : Table → Except Error Table}
    (hx : x = Catalog.updateTable db T g) (hg : g R.table = .ok (f R.table))
    (hn : (f R.table).name = R.table.name) :
    Backend.onCatalog x b = (.ok (f R.table),
        { b with catalog := cat.insert db (.folder (Catalog.filed es (f R.table))) }) ∧
      FolderOf (Database.tables (D.update T (·.withTable f))) (Catalog.filed es (f R.table)) := by
  have hs := hD.shaped hR
  have hfolder := h.folder.filed (t := f R.table)
  rw [hn, hD.named T R hR, ← Database.tables_update hR] at hfolder
  have ht := h.table_eq hD hdb hR
  rw [h.catalog] at ht
  have hrun := Catalog.updateTable_run h.folder ht hg (by rw [hn]; exact hs.name) hdb
    (by rw [hn]; exact hs.file)
  rw [← h.catalog, ← hx] at hrun
  exact ⟨onCatalog_run hrun, hfolder⟩

theorem index_unused (hcs : CollectionsOf D cs) (hD : D.Sound) (hR : D.find? T = some R)
    (hc : column ∈ R.table.columns) (hi : column.indexed = false) :
    cs.find? (indexCollection T column.name) = none := by
  have hT := hD.valid hR
  by_contra hne
  obtain ⟨coll, hcoll⟩ := Option.ne_none_iff_exists'.mp hne
  rcases hcs.own hD hR hcoll (.inr ⟨_, rfl⟩) with he | ⟨a, ha, he⟩
  · exact indexCollection_ne hT he
  · obtain ⟨ham, hax, -⟩ := mem_secondaryIndexes.mp ha
    rw [(hD.shaped hR).eq_of_name hc ham (indexCollection_inj hT hT he).2, hax] at hi
    cases hi

/-- The index of a column that becomes indexed is built. -/
theorem build_at (h : b.Stores cat c db D es cs) (hD : D.Sound) (hR : D.find? T = some R)
    (hc : column ∈ R.table.columns) (hi : column.indexed = false)
    (hf : Table.Indexes column R.table (f R.table)) (hs : (f R.table).Shaped) :
    ∃ column' s' coll, (f R.table).column column.name = .ok column' ∧
      Index.build db (f R.table) column' b.store = (.ok (), s') ∧
      s'.At c db (cs.insert (indexCollection T column.name) coll) ∧
      Index.Groups R.list column.position coll ∧
      CollectionsOf (D.update T (·.withTable f))
        (cs.insert (indexCollection T column.name) coll) := by
  have hsound := hD.relations T R hR
  have hname : (f R.table).name = T := hf.name.trans (hD.named T R hR)
  obtain ⟨column', hcolumn', hk⟩ := hf.column hs hc
  obtain ⟨hkn, hkp⟩ := Column.place_of_keyRef hk
  have hrow := hsound.table.isRowId_eq_false hc hi
  have hfits : ∀ r ∈ R.list, r.Fits (f R.table) := by
    intro r hr
    exact (hsound.rows r hr).congr hf.keyRefs
  have hfind : D.find? (f R.table).name = some R := by
    rw [hname]
    exact hR
  have hrow' : column'.isRowId = false := by
    rw [Column.isRowId, hkp]
    exact hrow
  have hnone : cs.find? (indexCollection (f R.table).name column'.name) = none := by
    rw [hname, hkn]
    exact index_unused h.collections hD hR hc hi
  obtain ⟨s', coll, hbuild, hs', hgroups⟩ :=
    Index.build_run h.store h.collections hfind hfits hrow' hnone
  rw [hname, hkn] at hs'
  rw [hkp] at hgroups
  exact ⟨column', s', coll, hcolumn', hbuild, hs', hgroups,
    h.collections.withIndex hD hR hc hrow hgroups.indexOf hf⟩

/-- The rest of an operation that has written the definition. -/
theorem index_refines (h : b.Stores cat c db D es cs) (hD : D.Sound) (hR : D.find? T = some R)
    (hc : column ∈ R.table.columns) (hf : Table.Indexes column R.table (f R.table))
    (hs : (f R.table).Shaped) {es' : OrdMap String Entry}
    (hfolder : FolderOf (Database.tables (D.update T (·.withTable f))) es') (message : String)
    {kept : Backend → Prop} :
    Refines (do
        if !column.indexed then
          Backend.onStore (Index.build db (f R.table) (← (f R.table).column column.name))
        return .done 0 message)
      { b with catalog := cat.insert db (.folder es') } (.ok (D.update T (·.withTable f)))
      (Changed cat c db) kept := by
  cases hi : column.indexed with
  | true =>
    have hcs := h.collections.withTable hR fun p =>
      hf.mem_indexPlaces_of_indexed (hD.shaped hR) hc hi
    exact .pure ⟨rfl, es', cs, rfl, hfolder, h.store, hcs⟩
  | false =>
    obtain ⟨column', s', coll, hcolumn', hbuild, hs', -, hcs'⟩ := build_at h hD hR hc hi hf hs
    rw [hcolumn']
    exact .step (Step.lift_run _ _) (.step (onStore_run hbuild)
      (.pure ⟨rfl, es', _, rfl, hfolder, hs', hcs'⟩))

theorem addPrimaryKey_refines (h : b.Stores cat c db D es cs) (hD : D.Sound)
    (hdb : isValidName db = true) :
    Refines (addPrimaryKey db T n) b (D.addPrimaryKey T n) (Changed cat c db) (· = b) := by
  refine .step (h.requireDatabase_run hdb) ?_
  refine .bind (h.getTable_run hD hdb T) rfl fun R hR => ?_
  obtain ⟨-, hfind⟩ := Database.of_relation hR
  refine .check rfl fun column hcolumn => ?_
  obtain ⟨hc, rfl⟩ := Table.of_column hcolumn
  refine .guard .rfl rfl fun hp => .step getContent_run ?_
  rw [Constraint.checkExistingUnique_eq h.collections hD h.content hfind]
  refine .check rfl fun _ hdist => ?_
  obtain ⟨hrun, hfolder⟩ := update_at h hD hdb hfind
    (x := Catalog.addPrimaryKey db T column.name)
    (f := fun t => t.withPrimaryKey column.name column.position) rfl (by
      rw [hcolumn, Except.ok_bind, if_neg hp]
      rfl) rfl
  refine .step hrun (index_refines h hD hfind hc .withPrimaryKey ?_ hfolder _)
  exact ((hD.relations T R hfind).table.withPrimaryKey hc (by simpa using hp)).shaped

theorem addUnique_refines (h : b.Stores cat c db D es cs) (hD : D.Sound)
    (hdb : isValidName db = true) :
    Refines (addUnique db T n) b (D.addUnique T n) (Changed cat c db) (· = b) := by
  refine .step (h.requireDatabase_run hdb) ?_
  refine .bind (h.getTable_run hD hdb T) rfl fun R hR => ?_
  obtain ⟨-, hfind⟩ := Database.of_relation hR
  refine .check rfl fun column hcolumn => .step getContent_run ?_
  obtain ⟨hc, rfl⟩ := Table.of_column hcolumn
  rw [Constraint.checkExistingUnique_eq h.collections hD h.content hfind]
  refine .check rfl fun _ hdist => ?_
  obtain ⟨hrun, hfolder⟩ := update_at h hD hdb hfind (x := Catalog.addUnique db T column.name)
    (f := fun t => t.withUnique column.name) rfl (by
      rw [hcolumn]
      rfl) rfl
  refine .step hrun (index_refines h hD hfind hc .withUnique ?_ hfolder _)
  exact ((hD.relations T R hfind).table.withUnique _).shaped

theorem addIndex_refines (h : b.Stores cat c db D es cs) (hD : D.Sound)
    (hdb : isValidName db = true) :
    Refines (addIndex db T n) b (D.addIndex T n) (Changed cat c db) (· = b) := by
  refine .step (h.requireDatabase_run hdb) ?_
  cases hr : D.addIndex T n with
  | error e =>
    refine ⟨b, Step.bind_run_error (onCatalog_run (Catalog.updateTable_error ?_)), rfl⟩
    rw [h.table hD hdb]
    exact Database.addIndex_error hr
  | ok D' =>
    obtain ⟨R, column, hR, hc, rfl, hi, rfl⟩ := Database.of_addIndex hr
    obtain ⟨hrun, hfolder⟩ := update_at h hD hdb hR (x := Catalog.addIndex db T column.name)
      (f := fun t => t.withIndex column.name) rfl (by
        rw [(hD.shaped hR).column_name hc, Except.ok_bind, hi]
        rfl) rfl
    obtain ⟨column', s', coll, hcolumn', hbuild, hs', -, hcs'⟩ := build_at h hD hR hc hi
      (f := fun t => t.withIndex column.name) .withIndex (((hD.relations T R hR).table.withIndex _).shaped)
    refine .step hrun ?_
    rw [hcolumn']
    exact .step (Step.lift_run _ _) (.step (onStore_run hbuild)
      (.pure ⟨rfl, _, _, rfl, hfolder, hs', hcs'⟩))

end Definitions

section Links

variable {child parent : String} {C P : Relation} {own target : Column}

/-- The checks made before a link is written. -/
theorem addForeignKey_run (hC : cat.table db child = .ok C.table)
    (hP : cat.table db parent = .ok P.table) (hown : C.table.column own.name = .ok own)
    (htarget : P.table.column target.name = .ok target)
    (hfree : (own.foreignKey || C.table.foreignKeys.any fun fk => fk.key.column = own.name) = false)
    (ht : own.type = target.type) :
    Catalog.addForeignKey db child own.name parent target.name cat =
      (do
        if parent = child then
          Catalog.writeTable db (Catalog.withChildReference
            (Catalog.withForeignKey C.table ⟨own.keyRef, P.table.name, target.keyRef⟩)
            ⟨target.keyRef, child, own.keyRef⟩)
        else
          Catalog.writeTable db
            (Catalog.withForeignKey C.table ⟨own.keyRef, P.table.name, target.keyRef⟩)
          Catalog.writeTable db
            (Catalog.withChildReference P.table ⟨target.keyRef, child, own.keyRef⟩)
        return ⟨own.keyRef, P.table.name, target.keyRef⟩ : Step Catalog ForeignKey) cat := by
  have htype : ¬ own.type ≠ target.type := not_not_intro ht
  by_cases hp : parent = child
  · have hPC : P.table = C.table := by
      rw [hp, hC] at hP
      exact (Except.ok.inj hP).symm
    rw [hPC] at htarget ⊢
    simp only [Catalog.addForeignKey, Step.bind_run, Step.get_run, Step.lift_run, Step.pure_run,
      Step.ite_run, hC, hp, if_true, hown, hfree, htarget, htype, if_false, Bool.false_eq_true]
  · simp only [Catalog.addForeignKey, Step.bind_run, Step.get_run, Step.lift_run, Step.ite_run, hC, hP,
      hp, hown, hfree, htarget, htype, if_false, Bool.false_eq_true]

/-- Both tables are written, or the one that refers to itself. -/
theorem link_at (h : b.Stores cat c db D es cs) (hD : D.Sound) (hdb : isValidName db = true)
    (hC : D.find? child = some C) (hP : D.find? parent = some P) (hown : own ∈ C.table.columns)
    (htarget : target ∈ P.table.columns) (hf : own.foreignKey = false)
    (ht : own.type = target.type) :
    ∃ fk es', Backend.onCatalog (Catalog.addForeignKey db child own.name parent target.name) b =
        (.ok fk, { b with catalog := cat.insert db (.folder es') }) ∧
      FolderOf (Database.tables (D.link child own parent target)) es' := by
  have hfree : (own.foreignKey || C.table.foreignKeys.any fun fk => fk.key.column = own.name) =
      false := by
    rw [hf, Bool.false_or, List.any_eq_false]
    intro fk hfk he
    exact (hD.relations child C hC).table.linked.noForeignKey hown hf
      (List.mem_map.mpr ⟨fk, hfk, of_decide_eq_true he⟩)
  have hrun := addForeignKey_run (h.table_eq hD hdb hC) (h.table_eq hD hdb hP)
    ((hD.shaped hC).column_name hown) ((hD.shaped hP).column_name htarget) hfree ht
  rw [h.catalog, hD.named parent P hP] at hrun
  by_cases hp : parent = child
  · subst hp
    obtain ⟨hwrite, hfolder⟩ := Catalog.writeTable_filed (c := cat) (t :=
      Catalog.withChildReference (Catalog.withForeignKey C.table ⟨own.keyRef, parent, target.keyRef⟩)
      ⟨target.keyRef, parent, own.keyRef⟩) h.folder (hD.named parent C hC) (hD.valid hC) hdb
      (hD.fileFits hC)
    simp only [if_true, Step.bind_run, hwrite, Step.pure_run] at hrun
    rw [← h.catalog] at hrun
    refine ⟨_, _, onCatalog_run hrun, ?_⟩
    rw [Database.tables_link_self hC]
    exact hfolder
  · obtain ⟨hwrite, hfolder⟩ := Catalog.writeTable_filed (c := cat) (t :=
      Catalog.withForeignKey C.table ⟨own.keyRef, parent, target.keyRef⟩) h.folder
      (hD.named child C hC) (hD.valid hC) hdb (hD.fileFits hC)
    obtain ⟨hwrite', hfolder'⟩ := Catalog.writeTable_filed (c := cat) (t :=
      Catalog.withChildReference P.table ⟨target.keyRef, child, own.keyRef⟩) hfolder
      (hD.named parent P hP) (hD.valid hP) hdb (hD.fileFits hP)
    simp only [hp, if_false, Step.bind_run, hwrite, hwrite', Step.pure_run] at hrun
    rw [← h.catalog] at hrun
    refine ⟨_, _, onCatalog_run hrun, ?_⟩
    rw [Database.tables_link_of_ne hC hP hp]
    exact hfolder'

/-- The store is only read. -/
theorem addForeignKey_keeps {column parentColumn : String} (h : b.Stores cat c db D es cs)
    (hD : D.Sound) (hdb : isValidName db = true) :
    Refines (addForeignKey db child column parent parentColumn) b
      (D.addForeignKey child column parent parentColumn)
      (fun o D' b' => o.response = .done ∧ b'.store = b.store ∧ Shows cat c db D' b') (· = b) := by
  refine .step (h.requireDatabase_run hdb) ?_
  refine .bind (h.getTable_run hD hdb child) rfl fun C hC => ?_
  refine .bind (h.getTable_run hD hdb parent) rfl fun P hP => ?_
  obtain ⟨-, hCfind⟩ := Database.of_relation hC
  obtain ⟨-, hPfind⟩ := Database.of_relation hP
  refine .check rfl fun own hown => .check rfl fun target htarget => ?_
  obtain ⟨hownMem, rfl⟩ := Table.of_column hown
  obtain ⟨htargetMem, rfl⟩ := Table.of_column htarget
  refine .guard .rfl rfl fun hf => .guard .rfl rfl fun ht => .step getContent_run ?_
  rw [Constraint.checkExistingReferences_eq h.collections hD h.content hCfind hPfind own htargetMem]
  refine .check rfl fun _ hrefs => ?_
  obtain ⟨fk, es', hrun, hfolder⟩ := link_at h hD hdb hCfind hPfind hownMem htargetMem
    (by simpa using hf) (not_not.mp ht)
  exact .step hrun (.pure ⟨rfl, rfl, es', cs, rfl, hfolder, h.store, h.collections.link⟩)

theorem addForeignKey_refines {column parentColumn : String} (h : b.Stores cat c db D es cs)
    (hD : D.Sound) (hdb : isValidName db = true) :
    Refines (addForeignKey db child column parent parentColumn) b
      (D.addForeignKey child column parent parentColumn) (Changed cat c db) (· = b) :=
  (addForeignKey_keeps h hD hdb).imp (fun _ _ _ _ hdone => ⟨hdone.1, hdone.2.2⟩) fun _ => id

end Links

section Dropping

variable {R : Relation} {tables : String → Option Table}

/-- The definitions after the references of a table are forgotten where it has foreign keys. -/
def forgotten (tables : String → Option Table) (child : String) (fks : List ForeignKey) :
    String → Option Table :=
  fun X => (tables X).map fun t => if X ∈ fks.map (·.table) then t.forget child else t

theorem forgotten_cons {fk : ForeignKey} {fks : List ForeignKey} {child : String} {t : Table}
    (ht : tables fk.table = some t) :
    forgotten (Function.update tables fk.table (some (t.forget child))) child fks =
      forgotten tables child (fk :: fks) := by
  funext X
  simp only [forgotten, List.map_cons, List.mem_cons]
  by_cases hX : X = fk.table
  · rw [hX, Function.update_self, ht]
    simp only [Option.map_some, true_or, if_true, Table.forget_forget, ite_self]
  · simp only [Function.update_of_ne hX, hX, false_or]

theorem forget_at (hb : b.catalog = cat.insert db (.folder es)) (h : FolderOf tables es)
    (hr : Recorded tables) (hdb : isValidName db = true) (child : String) {fks : List ForeignKey}
    (hin : ∀ fk ∈ fks, ∃ t, tables fk.table = some t) :
    ∃ es', (fks.forM fun fk => do
        let _ ← Backend.onCatalog (Catalog.removeChildReferences db fk.table child)) b =
          (.ok (), { b with catalog := cat.insert db (.folder es') }) ∧
      FolderOf (forgotten tables child fks) es' ∧ Recorded (forgotten tables child fks) := by
  induction fks generalizing b es tables with
  | nil =>
    have hsame : forgotten tables child [] = tables := funext fun X => by simp [forgotten]
    exact ⟨es, by rw [← hb]; rfl, by rwa [hsame], by rwa [hsame]⟩
  | cons fk fks ih =>
    obtain ⟨⟨t, ht⟩, hin⟩ := List.forall_mem_cons.mp hin
    obtain ⟨hrun, hfolder⟩ := Catalog.removeChildReferences_run h hr hdb ht child
    rw [← hb] at hrun
    obtain ⟨es', hrest, hfolder', hr'⟩ := ih
      (b := { b with catalog := cat.insert db (.folder (Catalog.filed es (t.forget child))) })
      rfl hfolder (hr.forget ht child) fun fk' hm => by
      obtain ⟨t', ht'⟩ := hin fk' hm
      by_cases he : fk'.table = fk.table
      · exact ⟨_, by rw [he, Function.update_self]⟩
      · exact ⟨t', by rw [Function.update_of_ne he, ht']⟩
    rw [forgotten_cons ht] at hfolder' hr'
    refine ⟨es', ?_, hfolder', hr'⟩
    change ((Backend.onCatalog _ >>= fun _ => pure ()) >>= fun _ => _) b = _
    rw [Step.bind_run, Step.bind_run_ok (onCatalog_run hrun), Step.pure_run]
    exact hrest

theorem tables_dropTable (hD : D.Sound) (hR : D.find? T = some R) :
    (D.without T).tables =
      Function.update (forgotten D.tables T (R.table.foreignKeys.filter fun fk => fk.table ≠ T)) T
        none := by
  funext X
  by_cases hX : X = T
  · rw [hX, Function.update_self, Database.tables, Database.find?_without_self]
    rfl
  · rw [Function.update_of_ne hX, Database.tables, Database.find?_without_of_ne hX, forgotten,
      Database.tables, Option.map_map, Option.map_map]
    cases hfind : D.find? X with
    | none => rfl
    | some S =>
      simp only [Option.map_some, Function.comp_apply, Relation.withTable]
      split
      · rfl
      · next hnot =>
        refine congrArg some ((hD.relations X S hfind).table.linked.forget_eq fun r hr he => hnot ?_)
        obtain ⟨C, hC, hm⟩ := hD.child hfind hr
        rw [he, hR] at hC
        cases hC
        exact List.mem_map.mpr ⟨_, List.mem_filter.mpr ⟨hm, decide_eq_true hX⟩, rfl⟩

/-- The collections of a table go, its indexes first. -/
theorem dropCollections_at {s : Store} (h : s.At c db cs) (hcs : CollectionsOf D cs) (hD : D.Sound)
    (hR : D.find? T = some R) :
    ∃ s₁ s₂ cs' found, Index.dropAll db R.table s = (.ok (), s₁) ∧
      Store.dropCollection db T s₁ = (.ok found, s₂) ∧ s₂.At c db cs' ∧ cs'.find? T = none ∧
      (∀ column ∈ R.table.secondaryIndexes, cs'.find? (indexCollection T column.name) = none) ∧
      ∀ n, n ≠ T → (∀ column ∈ R.table.secondaryIndexes, n ≠ indexCollection T column.name) →
        cs'.find? n = cs.find? n := by
  obtain ⟨hbase, hnames⟩ := List.nodup_cons.mp (nodup_collectionNames hD hR)
  obtain ⟨s₁, cs₁, hindexes, h₁, hgone, hothers⟩ := dropCollections_run h hnames fun n hn => by
    obtain ⟨column, hcolumn, rfl⟩ := List.mem_map.mp hn
    obtain ⟨coll, hcoll, -⟩ := hcs.index T R hR column hcolumn
    rw [hcoll]
    rfl
  have hT : cs₁.find? T = some R.collection := by rw [hothers T hbase, hcs.base T R hR]
  obtain ⟨s₂, hdrop, h₂⟩ := Store.dropCollection_at (n := T) h₁ (OrdMap.isEmpty_eq_false hT)
  refine ⟨s₁, s₂, _, _, ?_, hdrop, h₂, OrdMap.find?_erase_self _ _, fun column hcolumn => ?_, ?_⟩
  · rw [List.forM_eq_forM, List.forM_map] at hindexes
    rw [Index.dropAll, hD.named T R hR]
    exact hindexes
  · rw [OrdMap.find?_erase_of_ne (indexCollection_ne (hD.valid hR))]
    exact hgone _ (List.mem_map_of_mem hcolumn)
  · intro n hnT hni
    rw [OrdMap.find?_erase_of_ne hnT]
    refine hothers n fun hm => ?_
    obtain ⟨column, hcolumn, rfl⟩ := List.mem_map.mp hm
    exact hni column hcolumn rfl

/-- What is left is held once the last table has been replaced by the placeholder. -/
theorem placeholder_at {s : Store} {cs' : Collections} (h : s.At c db cs')
    (hcs : CollectionsOf D cs) (hD : D.Sound) (hR : D.find? T = some R) (hgone : cs'.find? T = none)
    (hgoneIndexes : ∀ column ∈ R.table.secondaryIndexes,
      cs'.find? (indexCollection T column.name) = none)
    (hothers : ∀ n, n ≠ T → (∀ column ∈ R.table.secondaryIndexes,
      n ≠ indexCollection T column.name) → cs'.find? n = cs.find? n) :
    ∃ s' cs'', (if (D.erase T).isEmpty then Store.createCollection db placeholder else pure () :
        Step Store Unit) s = (.ok (), s') ∧ s'.At c db cs'' ∧ CollectionsOf (D.erase T) cs'' ∧
      ∀ n, n ≠ placeholder → cs''.find? n = cs'.find? n := by
  have hT := hD.valid hR
  have hdrop {cs'' : Collections}
      (hplace : cs''.find? placeholder = if (D.erase T).isEmpty then some ∅ else none)
      (hkept : ∀ n, n ≠ placeholder → cs''.find? n = cs'.find? n) :
      CollectionsOf (D.erase T) cs'' := by
    refine hcs.dropTable hD hR (fun X hX => OrdMap.find?_erase_of_ne hX) (OrdMap.find?_erase_self _ _)
      hplace ?_ (fun column hcolumn => ?_) fun n hp hnT hni => ?_
    · rw [hkept T (ne_placeholder hT), hgone]
    · rw [hkept _ indexCollection_ne_placeholder, hgoneIndexes column hcolumn]
    · rw [hkept n hp, hothers n hnT hni]
  have hnone : cs'.find? placeholder = none := by
    rw [hothers _ (ne_placeholder hT).symm fun column _ => indexCollection_ne_placeholder.symm,
      hcs.placeholder, OrdMap.isEmpty_eq_false hR]
    rfl
  by_cases hempty : (D.erase T).isEmpty = true
  · obtain ⟨s', hcreate, hs'⟩ := Store.createCollection_at h hnone
    have hkept : ∀ n, n ≠ placeholder → (cs'.insert placeholder ∅).find? n = cs'.find? n :=
      fun n hn => OrdMap.find?_insert_of_ne hn
    refine ⟨s', _, by rw [if_pos hempty]; exact hcreate, hs', hdrop ?_ hkept, hkept⟩
    rw [if_pos hempty, OrdMap.find?_insert_self]
  · have hkept : ∀ n, n ≠ placeholder → cs'.find? n = cs'.find? n := fun _ _ => rfl
    refine ⟨s, cs', by rw [if_neg hempty]; rfl, h, hdrop ?_ hkept, hkept⟩
    rw [if_neg hempty, hnone]

/-- What the catalog lists once the table is gone: nothing, if it was the last. -/
theorem listTables_at (hD : D.Sound) (hR : D.find? T = some R) (hdb : isValidName db = true)
    (h : FolderOf (D.without T).tables es) :
    ∃ l, Catalog.listTables (cat.insert db (.folder es)) db = .ok l ∧
      l.isEmpty = (D.erase T).isEmpty := by
  have hnonempty : ∀ X t, (D.without T).tables X = some t → X ≠ "" := by
    intro X t ht
    obtain ⟨X', hX', -⟩ := Option.map_eq_some_iff.mp ht
    obtain ⟨-, S, hS, -⟩ := Database.of_find?_without hX'
    exact ne_empty_of_isValidName (hD.valid hS)
  obtain ⟨l, hlist, hempty⟩ := Catalog.listTables_run (c := cat) h hdb hnonempty
  refine ⟨l, hlist, ?_⟩
  rw [Bool.eq_iff_iff, hempty, OrdMap.isEmpty_iff]
  refine forall_congr' fun X => ?_
  rw [tables_dropTable hD hR]
  by_cases hX : X = T
  · simp [hX, OrdMap.find?_erase_self]
  · simp [hX, OrdMap.find?_erase_of_ne hX, Database.tables, forgotten]

/-- The catalog forgets the references of the table, then the table. -/
theorem dropFiles_at (h : b.Stores cat c db D es cs) (hD : D.Sound) (hdb : isValidName db = true)
    (hR : D.find? T = some R) :
    ∃ es', ((R.table.foreignKeys.filter fun fk : ForeignKey => fk.table ≠ T).forM fun fk => do
        let _ ← Backend.onCatalog (Catalog.removeChildReferences db fk.table T)) b =
          (.ok (), { b with catalog := cat.insert db (.folder es') }) ∧
      Catalog.dropTable db T (cat.insert db (.folder es')) =
        (.ok R.table, cat.insert db (.folder (es'.erase (Catalog.tableFile T)))) ∧
      FolderOf (D.without T).tables (es'.erase (Catalog.tableFile T)) := by
  have hparents : ∀ fk ∈ R.table.foreignKeys.filter fun fk => fk.table ≠ T,
      ∃ t, D.tables fk.table = some t := by
    intro fk hfk
    obtain ⟨P, hP, -⟩ := hD.parent hR (List.mem_filter.mp hfk).1
    exact ⟨P.table, by rw [Database.tables, hP, Option.map_some]⟩
  have htable : forgotten D.tables T (R.table.foreignKeys.filter fun fk => fk.table ≠ T) T =
      some R.table := by
    have hnot : T ∉ (R.table.foreignKeys.filter fun fk => fk.table ≠ T).map (·.table) := by simp
    rw [forgotten, Database.tables, hR, Option.map_some, Option.map_some, if_neg hnot]
  obtain ⟨es', hforget, hfolder, hrecorded⟩ :=
    forget_at h.catalog h.folder hD.recorded hdb T hparents
  refine ⟨es', hforget, Catalog.dropTable_run hfolder hrecorded hdb htable, ?_⟩
  rw [tables_dropTable hD hR]
  exact hfolder.erase

/-- What is left of the collections, beside the placeholder: those that are not the table's. -/
def Beside (T : String) (cs cs' : Collections) : Prop :=
  ∀ n, n ≠ placeholder → n ≠ T → (∀ x, n ≠ indexCollection T x) → cs'.find? n = cs.find? n

theorem dropTable_beside (h : b.Stores cat c db D es cs) (hD : D.Sound)
    (hdb : isValidName db = true) :
    Refines (dropTable db T) b (D.dropTable T)
      (fun o D' b' => o.response = .done ∧
        ∃ es' cs', b'.Stores cat c db D' es' cs' ∧ Beside T cs cs') (· = b) := by
  refine .step (h.requireDatabase_run hdb) ?_
  refine .bind (h.getTable_run hD hdb T) rfl fun R hR => ?_
  obtain ⟨-, hfind⟩ := Database.of_relation hR
  cases hchild : R.table.childTables.find? fun r => r.table ≠ T with
  | some r => exact .fail rfl
  | none =>
    obtain ⟨es', hforget, hdrop, hfolder⟩ := dropFiles_at h hD hdb hfind
    obtain ⟨s₁, s₂, cs₂, found, hindexes, hbase, h₂, hgone, hgoneIndexes, hothers⟩ :=
      dropCollections_at h.store h.collections hD hfind
    obtain ⟨s₃, cs₃, hplace, h₃, hcs₃, hkept⟩ :=
      placeholder_at h₂ h.collections hD hfind hgone hgoneIndexes hothers
    obtain ⟨l, hlist, hempty⟩ := listTables_at hD hfind hdb hfolder
    refine .step hforget (.step (onStore_run hindexes) (.step (onStore_run hbase)
      (.step (onCatalog_run hdrop) (.step (Step.get_run _) ?_))))
    rw [hlist]
    refine .step (Step.lift_run _ _) ?_
    rw [hempty]
    have hdone : ∃ es'' cs'', Stores
        ⟨cat.insert db (.folder (es'.erase (Catalog.tableFile T))), s₃⟩ cat c db
        (D.without T) es'' cs'' ∧ Beside T cs cs'' := by
      refine ⟨_, cs₃, ⟨rfl, hfolder, h₃, hcs₃.forget⟩, fun n hp hnT hni => ?_⟩
      rw [hkept n hp, hothers n hnT fun column _ => hni column.name]
    by_cases hlast : (D.erase T).isEmpty = true
    · rw [if_pos hlast] at hplace ⊢
      exact .step (onStore_run hplace) (.pure ⟨rfl, hdone⟩)
    · rw [if_neg hlast] at hplace ⊢
      cases hplace
      exact .pure ⟨rfl, hdone⟩

theorem dropTable_refines (h : b.Stores cat c db D es cs) (hD : D.Sound)
    (hdb : isValidName db = true) :
    Refines (dropTable db T) b (D.dropTable T) (Changed cat c db) (· = b) :=
  (dropTable_beside h hD hdb).imp
    (fun _ _ _ _ ⟨hdone, es', cs', hstores, _⟩ => ⟨hdone, es', cs', hstores⟩) fun _ => id

end Dropping

end Engine

end RelStore

import RelStore.Proofs.Reopening
import RelStore.Proofs.RowChanges
/-! Taking an insertion back. What the deletion does to each index is what the insertion did to it,
the other way round: an entry that was made goes, and from one that was extended the id at its end. -/
namespace RelStore

namespace WriteOp

/-- The second write takes the first one back, where that finds such a collection. -/
structure UndoneBy (coll : Collection) (op undo : WriteOp) : Prop where
  collection : undo.collection = op.collection
  runs : ∃ coll', op.run coll = .ok coll' ∧ undo.run coll' = .ok coll

variable {cs cs₁ : Collections} {ops undos : List WriteOp}

section Entries

variable {coll : Collection} {d : Document} {v id : Value} {ids : List Value} (n : String)

theorem UndoneBy.insert_delete (hfree : coll.find? d.id = none) :
    UndoneBy coll (.insert n d) (.delete n d.id) :=
  ⟨rfl, _, run_insert n hfree, congrArg _ (OrdMap.erase_insert hfree)⟩

/-- The id that is pulled is the one that was pushed, at the end. -/
theorem UndoneBy.push_pull (hentry : coll.find? v = some (.rowIds ids)) (hid : id ∉ ids) :
    UndoneBy coll (.push n v id) (.pull n v id) := by
  have hkept : ids.filter (· ≠ id) = ids :=
    List.filter_eq_self.mpr fun id' hmem => decide_eq_true fun he => hid (he ▸ hmem)
  have hids : (ids ++ [id]).filter (· ≠ id) = ids := by
    rw [List.filter_append, hkept, List.filter_cons_of_neg (by simp)]
    exact List.append_nil ids
  refine ⟨rfl, _, run_push n hentry, ?_⟩
  rw [run, editRowIds, OrdMap.find?_insert_self]
  simp only [hids]
  rw [OrdMap.insert_insert, OrdMap.insert_eq_self hentry]

end Entries

/-- Writes that are undone one by one are undone together. -/
theorem steps_undone (hd : (ops.map WriteOp.collection).Nodup) (h : steps cs ops = .ok cs₁)
    (hundo : List.Forall₂ (fun op undo => ∃ coll, cs.find? op.collection = some coll ∧
      UndoneBy coll op undo) ops undos) : steps cs₁ undos = .ok cs := by
  obtain ⟨hothers, hruns⟩ := of_steps hd h
  have hnames : undos.map WriteOp.collection = ops.map WriteOp.collection := by
    rw [← List.forall₂_eq_eq_eq, List.forall₂_map_left_iff, List.forall₂_map_right_iff]
    exact (hundo.imp fun op undo ⟨coll, _, hu⟩ => hu.collection).flip
  -- Each finds what the write it takes back has left, and leaves what that had found.
  have hback : ∀ undo ∈ undos, ∃ coll, cs.find? undo.collection = some coll ∧
      undo.run (undo.found cs₁) = .ok coll := by
    intro undo hmem
    obtain ⟨op, hop, coll, hcoll, hu⟩ := exists_of_mem_right hundo hmem
    obtain ⟨coll', hrun, hback⟩ := hu.runs
    have hcoll' := hruns op hop coll' (by rw [found_of hcoll, hrun])
    rw [← hu.collection] at hcoll hcoll'
    exact ⟨coll, hcoll, by rw [found_of hcoll', hback]⟩
  obtain ⟨cs₂, hsteps⟩ := @steps_distinct cs₁ undos (hnames ▸ hd)
    fun undo hmem => (hback undo hmem).imp fun _ h => h.2
  obtain ⟨hothers', hnew⟩ := of_steps (hnames ▸ hd) hsteps
  rw [hsteps]
  refine congrArg _ (OrdMap.ext_find? fun n => ?_)
  by_cases hn : n ∈ undos.map WriteOp.collection
  · obtain ⟨undo, hmem, rfl⟩ := List.mem_map.mp hn
    obtain ⟨coll, hcoll, hrun⟩ := hback undo hmem
    rw [hnew undo hmem coll hrun, hcoll]
  · rw [hothers' n hn, hothers n (hnames ▸ hn)]

end WriteOp

theorem forall₂_filterMap {α β γ : Type} {p : β → γ → Prop} {f : α → Option β} {g : α → Option γ}
    {l : List α} (h : ∀ a ∈ l, ∃ b c, f a = some b ∧ g a = some c ∧ p b c) :
    List.Forall₂ p (l.filterMap f) (l.filterMap g) := by
  induction l with
  | nil => exact .nil
  | cons a l ih =>
    obtain ⟨⟨b, c, hb, hc, hp⟩, hl⟩ := List.forall_mem_cons.mp h
    rw [List.filterMap_cons_some hb, List.filterMap_cons_some hc]
    exact .cons hp (ih hl)

namespace Index

variable {c c₁ : Content} {db T : String} {D : Database} {cs cs₁ : Collections} {R : Relation}
  {r : Row} {column : Column}

/-- In each index there is an entry for the value of a new row, of other ids, or none. -/
theorem entry_cases (h : CollectionsOf D cs) (hD : D.Sound) (hR : D.find? T = some R)
    (hfits : r.Fits R.table) (hnew : R.rows.find? r.id = none)
    (hcolumn : column ∈ R.table.secondaryIndexes) :
    ∃ v coll, r.get? column.position = some v ∧
      cs.find? (indexCollection T column.name) = some coll ∧
      (coll.find? v = none ∨ ∃ ids, coll.find? v = some (.rowIds ids) ∧ ids ≠ [] ∧ r.id ∉ ids) := by
  obtain ⟨v, hv, -⟩ := hfits.get? (hD.shaped hR) (mem_secondaryIndexes.mp hcolumn).1
  obtain ⟨coll, hcoll, hindex⟩ := h.index T R hR column hcolumn
  refine ⟨v, coll, hv, hcoll, ?_⟩
  cases hfind : coll.find? v with
  | none => exact .inl rfl
  | some p =>
    have hentry := hindex v
    rw [hfind] at hentry
    obtain ⟨ids, rfl, hne, hperm⟩ := hentry.eq_rowIds
    refine .inr ⟨ids, rfl, hne, fun hid => ?_⟩
    obtain ⟨q, hq, hqid, -⟩ := Relation.mem_idsAt.mp (hperm.mem_iff.mp hid)
    rw [Relation.mem_list, hqid, hnew] at hq
    cases hq

/-- The deletion finds in an index what the insertion has left there, and takes it back. -/
theorem entry_undone (n : String) {coll : Collection} {v id : Value}
    (h : coll.find? v = none ∨ ∃ ids, coll.find? v = some (.rowIds ids) ∧ ids ≠ [] ∧ id ∉ ids) :
    ∃ coll' undo, (insertWrite n v id (coll.find? v)).run coll = .ok coll' ∧
      deleteWrite n v id (coll'.find? v) = some undo ∧
      WriteOp.UndoneBy coll (insertWrite n v id (coll.find? v)) undo := by
  rcases h with hnone | ⟨ids, hids, hne, hid⟩
  · rw [hnone]
    refine ⟨_, .delete n v, WriteOp.run_insert n hnone, ?_, .insert_delete n hnone⟩
    rw [OrdMap.find?_insert_self]
    simp [deleteWrite, Payload.rowIds?]
  · have hothers : ¬ (ids ++ [id]).all (· = id) = true := by
      obtain ⟨id', hmem⟩ := List.exists_mem_of_ne_nil ids hne
      intro hall
      have heq := List.all_eq_true.mp hall id' (List.mem_append_left _ hmem)
      exact hid (of_decide_eq_true heq ▸ hmem)
    rw [hids]
    refine ⟨_, .pull n v id, WriteOp.run_push n hids, ?_, .push_pull n hids hid⟩
    rw [OrdMap.find?_insert_self]
    simp only [deleteWrite, Option.bind_some, Payload.rowIds?, Option.map_some, if_neg hothers]

/-- The deletion of a row takes back all that its insertion has written. -/
theorem writes_undone (h : CollectionsOf D cs) (hD : D.Sound) (hcs : c.find? db = some cs)
    (hR : D.find? T = some R) (hfits : r.Fits R.table) (hnew : R.rows.find? r.id = none)
    (hc₁ : c₁.find? db = some cs₁)
    (hsteps : WriteOp.steps cs (.insert T r.document :: insertWrites c db R.table r) = .ok cs₁) :
    WriteOp.steps cs₁ (.delete T r.id :: deleteWrites c₁ db R.table r) = .ok cs := by
  rw [insertWrites_eq hcs, hD.named T R hR] at hsteps
  rw [deleteWrites_eq hc₁, hD.named T R hR]
  generalize hops : R.table.secondaryIndexes.filterMap _ = ops at hsteps
  have hnodup : ((.insert T r.document :: ops).map WriteOp.collection).Nodup := by
    have hnames : ops.map WriteOp.collection =
        R.table.secondaryIndexes.map fun column => indexCollection T column.name := by
      rw [← hops]
      refine map_filterMap_eq fun column hcolumn => ?_
      obtain ⟨v, coll, hv, -⟩ := entry_cases h hD hR hfits hnew hcolumn
      exact ⟨_, congrArg (Option.map _) hv, collection_insertWrite _ v r.id _⟩
    rw [List.map_cons, hnames]
    exact nodup_collectionNames hD hR
  obtain ⟨-, hruns⟩ := WriteOp.of_steps hnodup hsteps
  refine WriteOp.steps_undone hnodup hsteps (.cons
    ⟨R.collection, h.base T R hR, .insert_delete T (Relation.find?_collection_eq_none.mpr hnew)⟩ ?_)
  subst hops
  refine forall₂_filterMap fun column hcolumn => ?_
  obtain ⟨v, coll, hv, hcoll, hentry⟩ := entry_cases h hD hR hfits hnew hcolumn
  obtain ⟨coll', undo, hrun, hundo, hundone⟩ := entry_undone (indexCollection T column.name) hentry
  have hname := collection_insertWrite (indexCollection T column.name) v r.id (coll.find? v)
  generalize hop : insertWrite (indexCollection T column.name) v r.id (coll.find? v) = op
    at hrun hundone hname
  have hwritten : (r.get? column.position).map (fun v =>
      insertWrite (indexCollection T column.name) v r.id
        ((cs.find? (indexCollection T column.name)).bind (·.find? v))) = some op := by
    rw [hv, hcoll, ← hop]
    rfl
  -- What the write of the column has left is what the deletion looks at.
  rw [← hname] at hcoll
  have hleft := hruns op (List.mem_cons_of_mem _ (List.mem_filterMap.mpr ⟨column, hcolumn, hwritten⟩))
    coll' (by rw [WriteOp.found_of hcoll, hrun])
  refine ⟨op, undo, hwritten, ?_, coll, hcoll, hundone⟩
  rw [hv, ← hname, hleft, hname]
  exact hundo

end Index

namespace Store

/-- No save fails, and once there is any content, the snapshot is what it is written as. -/
structure InStep (s : Store) : Prop where
  reliable : s.Reliable
  filled : s.content.Filled
  written : s.content = ∅ ∨ s.Written

variable {s s' : Store}

theorem InStep.run (h : s.InStep) (call : Call) : (call.run s).2.InStep := by
  refine ⟨call.run_reliable h.reliable, h.filled.run call, ?_⟩
  cases hsaves : call.saves s with
  | true =>
    cases Call.ends_of_saves hsaves with
    | saved content _ hrun =>
      rw [hrun]
      exact .inr (written_saved _)
    | failed e content hfails => exact absurd hfails (not_saveFails h.reliable)
  | false =>
    obtain ⟨r, content, hrun, hsame⟩ := Call.run_of_not_saves hsaves
    rw [hrun, hsame (call.prunes_eq_false h.filled)]
    exact h.written

theorem InStep.apply {db : String} {ops : List WriteOp} (h : s.InStep)
    (hrun : Store.apply db ops s = (.ok (), s')) :
    s'.InStep ∧ s'.medium.isSome = s.medium.isSome := by
  have hstep := h.run (.apply db ops)
  rw [Call.run, hrun] at hstep
  exact ⟨hstep, (apply_ok hrun).2.1⟩

/-- Stores in step that have the same content are the same. -/
theorem InStep.ext (h : s.InStep) (h' : s'.InStep) (hcontent : s'.content = s.content)
    (hne : s.content ≠ ∅) (hmedium : s'.medium.isSome = s.medium.isSome) : s' = s := by
  have hwritten := h.written.resolve_left hne
  have hwritten' := h'.written.resolve_left (hcontent ▸ hne)
  obtain ⟨content, medium⟩ := s
  obtain ⟨content', medium'⟩ := s'
  cases hcontent
  cases medium with
  | none =>
    cases medium' with
    | none => rfl
    | some m' => cases hmedium
  | some m =>
    cases medium' with
    | none => cases hmedium
    | some m' =>
      have hslot : m'.slot = m.slot := (hwritten' m' rfl).trans (hwritten m rfl).symm
      have houtages : m'.outages = m.outages :=
        (h'.reliable m' rfl).2.trans (h.reliable m rfl).2.symm
      cases m
      cases m'
      cases hslot
      cases houtages
      rfl

end Store

theorem System.Reachable.inStep {S : System} (h : S.Reachable) : S.backend.store.InStep := by
  induction h with
  | initial empty reliable =>
    refine ⟨reliable, fun db cs hcs => ?_, .inl empty⟩
    rw [System.initial, empty] at hcs
    cases hcs
  | handle h i size ih =>
    exact Service.handleRequest_store _ _ (P := Store.InStep) (fun call _ h => h.run call) ih

theorem Row.Fits.read_id {t : Table} {r : Row} (h : r.Fits t) :
    t.rowId.type.read? r.id.text = some r.id := by
  rw [Row.Fits, Row.columns_eq t] at h
  exact (List.forall₂_cons.mp h).1.1

/-- The collections that an insertion leaves are the outcome of its batch. -/
theorem Engine.insert_steps {b b₁ : Backend} {o : Outcome} {cat : Catalog} {c : Content}
    {db T : String} {D : Database} {es : OrdMap String Entry} {cs : Collections} {R : Relation}
    {values : List String} (h : b.Stores cat c db D es cs) (hD : D.Sound)
    (hdb : isValidName db = true) (hR : D.find? T = some R)
    (hd : ∀ s ∈ values, fieldDelimiter ∉ s.toList) (hinsert : insert db T values b = (.ok o, b₁)) :
    ∃ r cs₁, Constraint.readRow R.table values = .ok r ∧ r.Fits R.table ∧ R.rows.find? r.id = none ∧
      b₁.catalog = b.catalog ∧
      Store.apply db (.insert T r.document :: Index.insertWrites b.store.content db R.table r)
        b.store = (.ok (), b₁.store) ∧
      WriteOp.steps cs (.insert T r.document :: Index.insertWrites b.store.content db R.table r) =
        .ok cs₁ ∧
      b₁.store.At c db cs₁ ∧ CollectionsOf (D.update T (·.insertRow r)) cs₁ := by
  obtain ⟨t, r, ht, hr, hcatalog, happly⟩ := of_insert hinsert
  rw [h.table_eq hD hdb hR] at ht
  cases ht
  have hfits : r.Fits R.table := Constraint.of_readRow hr hd
  have hnew : R.rows.find? r.id = none := by
    obtain ⟨D', hD', -⟩ := (insert_refines h hD hdb).of_ok hinsert
    obtain ⟨R₀, r₀, hR₀, hr₀, hunique, -⟩ := (Database.insertRow_eq_ok hD).mp hD'
    rw [hR] at hR₀
    cases hR₀
    cases hr₀.symm.trans hr
    exact (Relation.of_checkUnique rfl (hD.shaped hR) hunique).1
  obtain ⟨cs₁, hsteps, hcs₁⟩ := steps_insertRow h.collections hD h.content hR hfits hnew
  rw [hD.named T R hR] at happly
  obtain ⟨s, hrun, hat⟩ := Store.apply_at h.store hcs₁.nonempty hsteps
  rw [happly] at hrun
  cases hrun
  exact ⟨r, cs₁, hr, hfits, hnew, hcatalog, happly, hsteps, hat, hcs₁⟩

/-- An insertion followed by the deletion of the row, by the text of its id, leaves everything as it
was: the catalog, every document with the order of the ids in every index entry, and the snapshot. -/
theorem deletion_undoes_insertion {S : System} {db T : String} {values : List String} {o : Outcome}
    {b : Backend} (h : S.Reachable) (hd : ∀ s ∈ values, fieldDelimiter ∉ s.toList)
    (hinsert : Engine.insert db T values S.backend = (.ok o, b)) :
    ∃ t, ∃ r : Row, S.backend.catalog.table db T = .ok t ∧ r.ReadFrom t values ∧
      ∀ o' b', Engine.delete db T r.id.text b = (.ok o', b') → b' = S.backend := by
  obtain ⟨t, -, ht, -⟩ := Engine.of_insert hinsert
  obtain ⟨W, hW⟩ := h.holds
  obtain ⟨D, R, hD, hR, rfl, -⟩ := hW.of_table ht
  have hsound := hW.sound.databases db D hD
  obtain ⟨es, cs, hstores⟩ := hW.backend.stores hD
  obtain ⟨r, cs₁, hr, hfits, hnew, hcatalog, happly, hsteps, hat, hcs₁⟩ :=
    Engine.insert_steps hstores hsound (hW.sound.names db D hD) hR hd hinsert
  refine ⟨R.table, r, ht, Constraint.readRow_eq_ok.mp hr, fun o' b' hdelete => ?_⟩
  obtain ⟨t', id, d, r', ht', hid, hfound, hread, hcatalog', happly'⟩ := Engine.of_delete hdelete
  -- What is deleted is the row that was inserted.
  rw [hcatalog, ht] at ht'
  cases ht'
  cases (Column.read_eq_ok.mp hid).symm.trans hfits.read_id
  have hc₁ := hat.find? hcs₁.nonempty
  have hR₁ : (D.update T (·.insertRow r)).find? T = some (R.insertRow r) :=
    OrdMap.find?_update_of_some hR
  rw [hsound.named T R hR] at hfound happly'
  rw [hcs₁.findOne hc₁ hR₁, Relation.insertRow, OrdMap.find?_insert_self] at hfound
  cases hfound
  rw [Row.ofDocument_document hfits] at hread
  cases hread
  have hundone := Index.writes_undone hstores.collections hsound hstores.content hR hfits hnew hc₁
    hsteps
  obtain ⟨s, hrun, hat'⟩ := Store.apply_at hat hstores.collections.nonempty hundone
  rw [happly'] at hrun
  cases hrun
  have hcontent : b'.store.content = S.backend.store.content := by
    rw [hat'.content, Content.set_self hstores.content hstores.collections.nonempty]
  have hfilled : S.backend.store.content ≠ ∅ := by
    intro hempty
    have hcs := hstores.content
    rw [hempty] at hcs
    cases hcs
  obtain ⟨hstep, hmedium⟩ := h.inStep.apply happly
  obtain ⟨hstep', hmedium'⟩ := hstep.apply happly'
  have hstore := h.inStep.ext hstep' hcontent hfilled (hmedium'.trans hmedium)
  calc b' = ⟨b'.catalog, b'.store⟩ := rfl
    _ = ⟨S.backend.catalog, S.backend.store⟩ := by rw [hcatalog', hcatalog, hstore]
    _ = S.backend := rfl

/-- Of two indexes one has an entry for a value of the row that comes and goes, and one has none. -/
def indexedTwice : List (Nat × String) :=
  [(0, "2 4 d"), (0, "7 d"), (0, "2 5 t 29 id 29 a 29 b"), (0, "10 6 t a"), (0, "10 6 t b"),
    (0, "8 t 1#5#7"), (0, "8 t 2#5#8")]

theorem deletion_undoes_insertion_indexedTwice :
    ∃ o b o', Engine.insert "d" "t" ["3", "5", "9"] (System.asked .inMemory indexedTwice).backend =
        (.ok o, b) ∧
      Engine.delete "d" "t" "3" b = (.ok o', (System.asked .inMemory indexedTwice).backend) := by
  obtain ⟨hreach, hholds⟩ := System.asked_inMemory_holds indexedTwice (by decide)
  generalize System.asked .inMemory indexedTwice = S at hreach hholds ⊢
  have hworld : ∃ D D' R, (World.asked indexedTwice).databases.find? "d" = some D ∧
      D.find? "t" = some R ∧ D.insertRow "t" ["3", "5", "9"] = .ok D' ∧
      (D'.deleteRow "t" "3").isOk ∧
      Constraint.readRow R.table ["3", "5", "9"] = .ok ⟨.int 3, [.int 5, .int 9]⟩ := by
    have hany : ((World.asked indexedTwice).databases.find? "d").any (fun D =>
        (D.find? "t").any fun R => (D.insertRow "t" ["3", "5", "9"]).toOption.any fun D' =>
          (D'.deleteRow "t" "3").isOk ∧
            Constraint.readRow R.table ["3", "5", "9"] = .ok ⟨.int 3, [.int 5, .int 9]⟩) = true := by
      decide +kernel
    simp only [Option.any_eq_true, decide_eq_true_eq] at hany
    obtain ⟨D, hD, R, hR, D', hD', hdelete, hread⟩ := hany
    exact ⟨D, D', R, hD, hR, Except.toOption_eq_some.mp hD', hdelete, hread⟩
  obtain ⟨D, D', R, hD, hR, hD', hdelete, hread⟩ := hworld
  obtain ⟨o, ho⟩ := (hholds.inserts_iff (T := "t") hD (by decide)).mpr ⟨D', hD'⟩
  obtain ⟨b, hinsert⟩ : ∃ b, Engine.insert "d" "t" ["3", "5", "9"] S.backend = (.ok o, b) :=
    ⟨_, Prod.ext ho rfl⟩
  obtain ⟨t, r, ht, hr, hback⟩ := deletion_undoes_insertion hreach (by decide) hinsert
  have hid : r.id.text = "3" := by
    rw [(hholds.reads hD hR).definition] at ht
    cases ht
    rw [← Constraint.readRow_eq_ok, hread] at hr
    cases hr
    decide
  obtain ⟨D'', hD'', hholds'⟩ := hholds.inserted hD (by decide) hinsert
  rw [hD'] at hD''
  cases hD''
  obtain ⟨o', ho'⟩ := (hholds'.deletes_iff (T := "t") (OrdMap.find?_insert_self _ _ _)).mpr
    (Except.isOk_iff.mp hdelete)
  obtain ⟨b', hb'⟩ : ∃ b', Engine.delete "d" "t" "3" b = (.ok o', b') := ⟨_, Prod.ext ho' rfl⟩
  rw [hid] at hback
  rw [hback o' b' hb'] at hb'
  exact ⟨o, b, o', hinsert, hb'⟩

end RelStore

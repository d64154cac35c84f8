import RelStore.Proofs.StoreSteps
/-! Upkeep of indexes. The writes that go with a row keep the collections those of the relations,
and a new index is built from the rows there are. -/
namespace RelStore

section Ids

variable {R : Relation} {r : Row} {i : Nat} {v : Value}

theorem IndexEntry.perm {p : Option Payload} {all all' : List Value} (h : IndexEntry p all)
    (hp : all.Perm all') : IndexEntry p all' := by
  cases h with
  | absent =>
    rw [hp.nil_eq.symm]
    exact .absent
  | present ne perm => exact .present ne (perm.trans hp)

namespace Relation

theorem list_insertRow (hnew : R.rows.find? r.id = none) :
    (R.insertRow r).list.Perm (r :: R.list) := by
  have hr : r ∉ R.list := by
    rw [mem_list, hnew]
    exact fun he => (nomatch he)
  refine (List.perm_ext_iff_of_nodup nodup_list (List.nodup_cons.mpr ⟨hr, nodup_list⟩)).mpr ?_
  intro s
  rw [mem_insertRow hnew, List.mem_cons]

theorem idsAt_insertRow (hnew : R.rows.find? r.id = none) :
    ((R.insertRow r).idsAt i v).Perm
      (if r.get? i = some v then R.idsAt i v ++ [r.id] else R.idsAt i v) := by
  refine (((list_insertRow hnew).filter _).map _).trans ?_
  by_cases hv : r.get? i = some v
  · rw [if_pos hv, List.filter_cons_of_pos (by simpa using hv), List.map_cons]
    exact (List.perm_append_singleton _ _).symm
  · rw [if_neg hv, List.filter_cons_of_neg (by simpa using hv)]
    exact .refl _

theorem list_deleteRow (id : Value) : (R.deleteRow id).list = R.list.filter fun r => r.id ≠ id := by
  rw [list, deleteRow, OrdMap.erase, OrdMap.filter, list, List.filter_map]
  refine congrArg _ (List.filter_congr fun b _ => ?_)
  rw [Bool.eq_iff_iff, bne_iff_ne, ne_eq, Std.compare_eq_iff_eq, Function.comp_apply,
    decide_eq_true_eq]
  exact not_congr eq_comm

theorem idsAt_deleteRow (id : Value) :
    (R.deleteRow id).idsAt i v = (R.idsAt i v).filter (· ≠ id) := by
  rw [idsAt, list_deleteRow, idsAt, List.filter_map, List.filter_filter, List.filter_filter]
  exact congrArg _ (List.filter_congr fun r _ => Bool.and_comm _ _)

end Relation

end Ids

section Entries

variable {R : Relation} {r : Row} {i : Nat} {v : Value} {coll : Collection}

theorem IndexOf.insertRow (h : IndexOf R i coll) (hnew : R.rows.find? r.id = none)
    (hv : r.get? i = some v) {entry : List Value} (hne : entry ≠ [])
    (hentry : entry.Perm (R.idsAt i v ++ [r.id])) :
    IndexOf (R.insertRow r) i (coll.insert v (.rowIds entry)) := by
  intro w
  refine IndexEntry.perm ?_ (Relation.idsAt_insertRow hnew).symm
  by_cases hw : w = v
  · rw [hw, OrdMap.find?_insert_self, if_pos hv]
    exact .present hne hentry
  · have hother : ¬ r.get? i = some w := by
      rw [hv]
      exact fun he => hw (Option.some.inj he).symm
    rw [OrdMap.find?_insert_of_ne hw, if_neg hother]
    exact h w

theorem IndexOf.deleteRow (h : IndexOf R i coll) (hr : r ∈ R.list) (hv : r.get? i = some v)
    {coll' : Collection} (hothers : ∀ w, w ≠ v → coll'.find? w = coll.find? w)
    (hentry : IndexEntry (coll'.find? v) ((R.idsAt i v).filter (· ≠ r.id))) :
    IndexOf (R.deleteRow r.id) i coll' := by
  intro w
  rw [Relation.idsAt_deleteRow]
  by_cases hw : w = v
  · rw [hw]
    exact hentry
  · have hsame : (R.idsAt i w).filter (· ≠ r.id) = R.idsAt i w := by
      apply List.filter_eq_self.mpr
      intro id hid
      obtain ⟨s, hs, rfl, hsv⟩ := Relation.mem_idsAt.mp hid
      rw [decide_eq_true_eq]
      intro he
      rw [Relation.eq_of_id hs hr he, hv] at hsv
      exact hw (Option.some.inj hsv).symm
    rw [hothers w hw, hsame]
    exact h w

end Entries

section Collections

variable {D D' : Database} {cs cs' : Collections} {T : String} {R : Relation}

/-- The collections of one table are exchanged, and those of the others stay. -/
theorem CollectionsOf.replace (h : CollectionsOf D cs) (hD : D.Sound) (hT : isValidName T = true)
    (hsame : ∀ X, X ≠ T → D'.find? X = D.find? X)
    (hplace : cs'.find? Engine.placeholder = if D'.isEmpty then some ∅ else none)
    (hpart : ∀ R, D'.find? T = some R → cs'.find? T = some R.collection ∧
      ∀ c ∈ R.table.secondaryIndexes, ∃ coll,
        cs'.find? (indexCollection T c.name) = some coll ∧ IndexOf R c.position coll)
    (hown : ∀ n coll, cs'.find? n = some coll → (n = T ∨ ∃ x, n = indexCollection T x) →
      ∃ R, D'.find? T = some R ∧
        (n = T ∨ ∃ c ∈ R.table.secondaryIndexes, n = indexCollection T c.name))
    (hothers : ∀ n, n ≠ Engine.placeholder → n ≠ T → (∀ x, n ≠ indexCollection T x) →
      cs'.find? n = cs.find? n) : CollectionsOf D' cs' := by
  refine ⟨hplace, ?_, ?_, ?_⟩
  · intro X R hR
    by_cases hX : X = T
    · subst hX
      exact (hpart R hR).1
    · rw [hsame X hX] at hR
      have hv := hD.valid hR
      rw [hothers X (ne_placeholder hv) hX fun x => (indexCollection_ne hv).symm]
      exact h.base X R hR
  · intro X R hR c hc
    by_cases hX : X = T
    · subst hX
      exact (hpart R hR).2 c hc
    · rw [hsame X hX] at hR
      rw [hothers _ indexCollection_ne_placeholder (indexCollection_ne hT)
        fun x he => hX (indexCollection_inj (hD.valid hR) hT he).1]
      exact h.index X R hR c hc
  · intro n coll hn
    by_cases hp : n = Engine.placeholder
    · exact .inl hp
    by_cases hnT : n = T ∨ ∃ x, n = indexCollection T x
    · obtain ⟨R, hR, hor⟩ := hown n coll hn hnT
      rcases hor with rfl | ⟨c, hc, he⟩
      · exact .inr (.inl ⟨R, hR⟩)
      · exact .inr (.inr ⟨T, R, hR, c, hc, he⟩)
    · rw [not_or, not_exists] at hnT
      rw [hothers n hp hnT.1 hnT.2] at hn
      rcases h.only n coll hn with hp' | ⟨R, hR⟩ | ⟨X, R, hR, c, hc, he⟩
      · exact absurd hp' hp
      · exact .inr (.inl ⟨R, by rwa [hsame n hnT.1]⟩)
      · have hX : X ≠ T := fun hXT => hnT.2 c.name (hXT ▸ he)
        exact .inr (.inr ⟨X, R, by rwa [hsame X hX], c, hc, he⟩)

theorem isEmpty_update (D : Database) (T : String) (f : Relation → Relation) :
    (D.update T f).isEmpty = D.isEmpty := by
  rw [Bool.eq_iff_iff, OrdMap.isEmpty_iff, OrdMap.isEmpty_iff]
  apply forall_congr'
  intro X
  by_cases hX : X = T
  · rw [hX, OrdMap.find?_update_self, Option.map_eq_none_iff]
  · rw [OrdMap.find?_update_of_ne f hX]

/-- Of a table with collections, these are all. -/
theorem CollectionsOf.own (h : CollectionsOf D cs) (hD : D.Sound) (hR : D.find? T = some R)
    {n : String} {coll : Collection} (hn : cs.find? n = some coll)
    (hnT : n = T ∨ ∃ x, n = indexCollection T x) :
    n = T ∨ ∃ c ∈ R.table.secondaryIndexes, n = indexCollection T c.name := by
  have hT := hD.valid hR
  rcases hnT with hnT | ⟨x, rfl⟩
  · exact .inl hnT
  · rcases h.only _ coll hn with hp | ⟨X, hX⟩ | ⟨X, RX, hX, c, hc, he⟩
    · exact absurd hp indexCollection_ne_placeholder
    · exact absurd rfl (indexCollection_ne (hD.valid hX))
    · obtain ⟨rfl, -⟩ := indexCollection_inj hT (hD.valid hX) he
      rw [hR] at hX
      cases hX
      exact .inr ⟨c, hc, he⟩

/-- New rows of one table, with its indexes brought up to date. -/
theorem CollectionsOf.update_rows (h : CollectionsOf D cs) (hD : D.Sound) (hR : D.find? T = some R)
    {f : Relation → Relation} (ht : (f R).table = R.table)
    (hbase : cs'.find? T = some (f R).collection)
    (hindex : ∀ c ∈ R.table.secondaryIndexes, ∃ coll,
      cs'.find? (indexCollection T c.name) = some coll ∧ IndexOf (f R) c.position coll)
    (hothers : ∀ n, n ≠ T → (∀ c ∈ R.table.secondaryIndexes, n ≠ indexCollection T c.name) →
      cs'.find? n = cs.find? n) : CollectionsOf (D.update T f) cs' := by
  have hT := hD.valid hR
  have hnew : (D.update T f).find? T = some (f R) :=
    OrdMap.find?_update_of_some hR
  refine h.replace hD hT (fun X hX => OrdMap.find?_update_of_ne f hX) ?_ ?_ ?_ ?_
  · rw [isEmpty_update, hothers _ (ne_placeholder hT).symm
      fun c _ => indexCollection_ne_placeholder.symm]
    exact h.placeholder
  · intro R' hR'
    rw [hnew] at hR'
    cases hR'
    rw [ht]
    exact ⟨hbase, hindex⟩
  · intro n coll hn hnT
    refine ⟨f R, hnew, ?_⟩
    rw [ht]
    by_cases hown : n = T ∨ ∃ c ∈ R.table.secondaryIndexes, n = indexCollection T c.name
    · exact hown
    · rw [not_or] at hown
      have hcs : cs'.find? n = cs.find? n :=
        hothers n hown.1 fun c hc he => hown.2 ⟨c, hc, he⟩
      rw [hcs] at hn
      exact h.own hD hR hn hnT
  · exact fun n _ hnT hx => hothers n hnT fun c _ => hx c.name

theorem map_filterMap_eq {α β γ : Type} {f : α → Option β} {g : β → γ} {k : α → γ} {l : List α}
    (h : ∀ a ∈ l, ∃ b, f a = some b ∧ g b = k a) : (l.filterMap f).map g = l.map k := by
  induction l with
  | nil => rfl
  | cons a l ih =>
    obtain ⟨⟨b, hb, hg⟩, hl⟩ := List.forall_mem_cons.mp h
    rw [List.filterMap_cons_some hb, List.map_cons, List.map_cons, hg, ih hl]

theorem nodup_collectionNames (hD : D.Sound) (hR : D.find? T = some R) :
    (T :: R.table.secondaryIndexes.map fun c => indexCollection T c.name).Nodup := by
  have hT := hD.valid hR
  have hs := hD.shaped hR
  refine List.nodup_cons.mpr ⟨fun hm => ?_, ?_⟩
  · obtain ⟨c, -, he⟩ := List.mem_map.mp hm
    exact indexCollection_ne hT he
  · have hnames : (R.table.secondaryIndexes.map (·.name)).Nodup := by
      have hd := hs.distinct
      rw [Table.names_eq] at hd
      exact hd.sublist (List.filter_sublist.map _)
    have := hnames.map_on (f := indexCollection T) fun a _ b _ he =>
      (indexCollection_inj hT hT he).2
    rwa [List.map_map] at this

/-- A batch that writes the row and one write for each index. -/
theorem steps_rows (h : CollectionsOf D cs) (hD : D.Sound) (hR : D.find? T = some R)
    {f : Relation → Relation} (ht : (f R).table = R.table) {first : WriteOp}
    {write : Column → Option WriteOp} (hfirst : first.collection = T)
    (hrun : first.run (first.found cs) = .ok (f R).collection)
    (hwrite : ∀ c ∈ R.table.secondaryIndexes, ∃ op coll, write c = some op ∧
      op.collection = indexCollection T c.name ∧ op.run (op.found cs) = .ok coll ∧
      IndexOf (f R) c.position coll) :
    ∃ cs', WriteOp.steps cs (first :: R.table.secondaryIndexes.filterMap write) = .ok cs' ∧
      CollectionsOf (D.update T f) cs' := by
  have hnames : (first :: R.table.secondaryIndexes.filterMap write).map WriteOp.collection =
      T :: R.table.secondaryIndexes.map fun c => indexCollection T c.name := by
    rw [List.map_cons, hfirst, map_filterMap_eq fun c hc => ?_]
    obtain ⟨op, -, hop, hcoll, -⟩ := hwrite c hc
    exact ⟨op, hop, hcoll⟩
  have hnodup : ((first :: R.table.secondaryIndexes.filterMap write).map
      WriteOp.collection).Nodup := by
    rw [hnames]
    exact nodup_collectionNames hD hR
  have hall : ∀ op ∈ first :: R.table.secondaryIndexes.filterMap write,
      ∃ coll, op.run (op.found cs) = .ok coll := by
    intro op hop
    rcases List.mem_cons.mp hop with rfl | hop
    · exact ⟨_, hrun⟩
    · obtain ⟨c, hc, hw⟩ := List.mem_filterMap.mp hop
      obtain ⟨op', coll, hop', -, hok, -⟩ := hwrite c hc
      rw [hw] at hop'
      cases hop'
      exact ⟨coll, hok⟩
  obtain ⟨cs', hsteps⟩ := WriteOp.steps_distinct hnodup hall
  obtain ⟨hothers, hnew⟩ := WriteOp.of_steps hnodup hsteps
  refine ⟨cs', hsteps, h.update_rows hD hR ht ?_ ?_ ?_⟩
  · rw [← hfirst]
    exact hnew first List.mem_cons_self _ hrun
  · intro c hc
    obtain ⟨op, coll, hop, hcoll, hok, hindex⟩ := hwrite c hc
    refine ⟨coll, ?_, hindex⟩
    rw [← hcoll]
    exact hnew op (List.mem_cons_of_mem _ (List.mem_filterMap.mpr ⟨c, hc, hop⟩)) coll hok
  · intro n hnT hni
    refine hothers n ?_
    rw [hnames, List.mem_cons, not_or]
    refine ⟨hnT, fun hm => ?_⟩
    obtain ⟨c, hc, he⟩ := List.mem_map.mp hm
    exact hni c hc he.symm

end Collections

section Rows

variable {c : Content} {db T : String} {D : Database} {cs : Collections} {R : Relation} {r : Row}

theorem Relation.collection_insertRow (R : Relation) (r : Row) :
    (R.insertRow r).collection = R.collection.insert r.id r.document.payload :=
  OrdMap.insert_mapValues _ _ _ _

theorem Relation.collection_deleteRow (R : Relation) (id : Value) :
    (R.deleteRow id).collection = R.collection.erase id := OrdMap.erase_mapValues _ _ _

namespace WriteOp

variable {coll : Collection} {d : Document} {v id : Value} {ids : List Value}

theorem found_of {op : WriteOp} (h : cs.find? op.collection = some coll) : op.found cs = coll := by
  rw [found, h, Option.getD_some]

theorem run_insert (n : String) (hfree : coll.find? d.id = none) :
    (WriteOp.insert n d).run coll = .ok (coll.insert d.id d.payload) := by
  rw [run, OrdMap.contains_eq_false_iff.mpr hfree, if_neg Bool.false_ne_true]

theorem of_run_insert {n : String} {coll' : Collection}
    (h : (WriteOp.insert n d).run coll = .ok coll') :
    coll.find? d.id = none ∧ coll' = coll.insert d.id d.payload := by
  rw [run] at h
  by_cases hc : coll.contains d.id = true
  · rw [if_pos hc] at h
    cases h
  · rw [if_neg hc] at h
    cases h
    exact ⟨OrdMap.contains_eq_false_iff.mp (by simpa using hc), rfl⟩

theorem run_push (n : String) (hentry : coll.find? v = some (.rowIds ids)) :
    (WriteOp.push n v id).run coll = .ok (coll.insert v (.rowIds (ids ++ [id]))) := by
  rw [run, editRowIds, hentry]

theorem run_pull (n : String) (hentry : coll.find? v = some (.rowIds ids)) :
    (WriteOp.pull n v id).run coll = .ok (coll.insert v (.rowIds (ids.filter (· ≠ id)))) := by
  rw [run, editRowIds, hentry]

end WriteOp

namespace Index

/-- What an insertion writes to an index, by what is found for the value. -/
def insertWrite (n : String) (v id : Value) : Option Payload → WriteOp
  | some _ => .push n v id
  | none => .insert n ⟨v, .rowIds [id]⟩

/-- What a deletion writes to an index, by what is found for the value. -/
def deleteWrite (n : String) (v id : Value) (found : Option Payload) : Option WriteOp :=
  (found.bind Payload.rowIds?).map fun ids =>
    if ids.all (· = id) then .delete n v else .pull n v id

theorem collection_insertWrite (n : String) (v id : Value) (found : Option Payload) :
    (insertWrite n v id found).collection = n := by
  cases found <;> rfl

variable {t : Table}

theorem insertWrites_eq (hcs : c.find? db = some cs) :
    insertWrites c db t r = t.secondaryIndexes.filterMap fun column =>
      (r.get? column.position).map fun v =>
        insertWrite (indexCollection t.name column.name) v r.id
          ((cs.find? (indexCollection t.name column.name)).bind (·.find? v)) := by
  refine congrArg (List.filterMap · t.secondaryIndexes) (funext fun column => ?_)
  refine congrArg (Option.map · (r.get? column.position)) (funext fun v => ?_)
  dsimp only
  rw [Content.findOne_eq hcs]
  cases (cs.find? (indexCollection t.name column.name)).bind (·.find? v) <;> rfl

theorem deleteWrites_eq (hcs : c.find? db = some cs) :
    deleteWrites c db t r = t.secondaryIndexes.filterMap fun column =>
      (r.get? column.position).bind fun v =>
        deleteWrite (indexCollection t.name column.name) v r.id
          ((cs.find? (indexCollection t.name column.name)).bind (·.find? v)) := by
  refine congrArg (List.filterMap · t.secondaryIndexes) (funext fun column => ?_)
  refine congrArg (Option.bind (r.get? column.position)) (funext fun v => ?_)
  dsimp only
  rw [Content.findOne_eq hcs, Option.bind_map]
  rfl

end Index

section Writes

variable {i : Nat} {v : Value} {coll : Collection}

/-- What an insertion writes to an index keeps it the index of the rows. -/
theorem IndexOf.run_insertWrite (h : IndexOf R i coll) (hnew : R.rows.find? r.id = none)
    (hv : r.get? i = some v) (n : String) :
    ∃ coll', (Index.insertWrite n v r.id (coll.find? v)).run coll = .ok coll' ∧
      IndexOf (R.insertRow r) i coll' := by
  have hentry := h v
  cases hfind : coll.find? v with
  | none =>
    rw [hfind] at hentry
    have hnone : R.idsAt i v = [] := by
      generalize R.idsAt i v = ids at hentry
      cases hentry
      rfl
    refine ⟨coll.insert v (.rowIds [r.id]), WriteOp.run_insert n hfind,
      h.insertRow hnew hv (List.cons_ne_nil _ _) ?_⟩
    rw [hnone]
    exact .refl _
  | some p =>
    rw [hfind] at hentry
    obtain ⟨entry, rfl, hne, hperm⟩ := hentry.eq_rowIds
    exact ⟨coll.insert v (.rowIds (entry ++ [r.id])), WriteOp.run_push n hfind,
      h.insertRow hnew hv (by simp) (hperm.append_right _)⟩

/-- So does what a deletion writes, of which there is something for each row. -/
theorem IndexOf.run_deleteWrite (h : IndexOf R i coll) (hr : r ∈ R.list) (hv : r.get? i = some v)
    (n : String) :
    ∃ op coll', Index.deleteWrite n v r.id (coll.find? v) = some op ∧ op.collection = n ∧
      op.run coll = .ok coll' ∧ IndexOf (R.deleteRow r.id) i coll' := by
  obtain ⟨p, hfind⟩ := Option.isSome_iff_exists.mp ((h.find?_isSome v).mpr ⟨r, hr, hv⟩)
  have hentry := h v
  rw [hfind] at hentry ⊢
  obtain ⟨entry, rfl, hne, hperm⟩ := hentry.eq_rowIds
  simp only [Index.deleteWrite, Option.map_some, Option.bind_some, Payload.rowIds?]
  by_cases hall : entry.all (· = r.id) = true
  · -- The last id takes its entry along.
    rw [if_pos hall]
    refine ⟨.delete n v, coll.erase v, rfl, rfl, rfl,
      h.deleteRow hr hv (fun w hw => OrdMap.find?_erase_of_ne hw) ?_⟩
    have hnone : (R.idsAt i v).filter (· ≠ r.id) = [] := by
      apply List.filter_eq_nil_iff.mpr
      intro id hmem
      have := List.all_eq_true.mp hall id (hperm.mem_iff.mpr hmem)
      simpa using this
    rw [OrdMap.find?_erase_self, hnone]
    exact .absent
  · rw [if_neg hall]
    refine ⟨.pull n v r.id, coll.insert v (.rowIds (entry.filter (· ≠ r.id))), rfl, rfl,
      WriteOp.run_pull n hfind, h.deleteRow hr hv (fun w hw => OrdMap.find?_insert_of_ne hw) ?_⟩
    rw [OrdMap.find?_insert_self]
    refine .present (fun hnil => hall ?_) (hperm.filter _)
    rw [List.all_eq_true]
    intro id hmem
    have := List.filter_eq_nil_iff.mp hnil id hmem
    simpa using this

end Writes

/-- The batch of an insertion succeeds for a new id. -/
theorem steps_insertRow (h : CollectionsOf D cs) (hD : D.Sound) (hcs : c.find? db = some cs)
    (hR : D.find? T = some R) {p : Column → Value → Prop}
    (hvalues : List.Forall₂ p R.table.columns r.values) (hnew : R.rows.find? r.id = none) :
    ∃ cs', WriteOp.steps cs (.insert T r.document :: Index.insertWrites c db R.table r) = .ok cs' ∧
      CollectionsOf (D.update T (·.insertRow r)) cs' := by
  rw [Index.insertWrites_eq hcs, hD.named T R hR]
  refine steps_rows h hD hR (f := Relation.insertRow r) rfl rfl ?_ fun column hcolumn => ?_
  · have hfree : R.collection.find? r.document.id = none :=
      Relation.find?_collection_eq_none.mpr hnew
    rw [WriteOp.found_of (h.base T R hR), WriteOp.run_insert T hfree]
    exact congrArg _ (R.collection_insertRow r).symm
  · obtain ⟨hmem, -, -⟩ := mem_secondaryIndexes.mp hcolumn
    obtain ⟨v, hv, -⟩ := Row.get?_of_forall₂ hvalues (hD.shaped hR) hmem
    obtain ⟨coll, hcoll, hindex⟩ := h.index T R hR column hcolumn
    obtain ⟨coll', hrun, hindex'⟩ :=
      hindex.run_insertWrite hnew hv (indexCollection T column.name)
    have hname := Index.collection_insertWrite (indexCollection T column.name) v r.id (coll.find? v)
    refine ⟨_, coll', ?_, hname, ?_, hindex'⟩
    · rw [hv, hcoll]
      rfl
    · rw [WriteOp.found_of (hname ▸ hcoll), hrun]

/-- The batch of a deletion succeeds for a row that is there. -/
theorem steps_deleteRow (h : CollectionsOf D cs) (hD : D.Sound) (hcs : c.find? db = some cs)
    (hR : D.find? T = some R) (hr : r ∈ R.list) :
    ∃ cs', WriteOp.steps cs (.delete T r.id :: Index.deleteWrites c db R.table r) = .ok cs' ∧
      CollectionsOf (D.update T (·.deleteRow r.id)) cs' := by
  rw [Index.deleteWrites_eq hcs, hD.named T R hR]
  refine steps_rows h hD hR (f := Relation.deleteRow r.id) rfl rfl ?_ fun column hcolumn => ?_
  · rw [WriteOp.found_of (h.base T R hR), WriteOp.run]
    exact congrArg _ (R.collection_deleteRow r.id).symm
  · obtain ⟨hmem, -, -⟩ := mem_secondaryIndexes.mp hcolumn
    obtain ⟨v, hv, -⟩ := ((hD.relations T R hR).rows r hr).get? (hD.shaped hR) hmem
    obtain ⟨coll, hcoll, hindex⟩ := h.index T R hR column hcolumn
    obtain ⟨op, coll', hop, hname, hrun, hindex'⟩ :=
      hindex.run_deleteWrite hr hv (indexCollection T column.name)
    refine ⟨op, coll', ?_, hname, ?_, hindex'⟩
    · rw [hv, hcoll]
      exact hop
    · rw [WriteOp.found_of (hname ▸ hcoll), hrun]

end Rows

section Building

variable {c : Content} {db T : String} {D : Database} {cs : Collections} {R : Relation}
  {column : Column} {t : Table} {s : Store}

/-- The step of the grouping. -/
def Index.groupRow (i : Nat) (m : OrdMap Value (List Value)) (r : Row) : OrdMap Value (List Value) :=
  match r.get? i with
  | some v => m.insert v ((m.find? v).getD [] ++ [r.id])
  | none => m

theorem Index.find?_group (rows : List Row) (i : Nat) (v : Value) :
    (group rows i).find? v =
      if (rows.filter fun r => r.get? i = some v) = [] then none
      else some ((rows.filter fun r => r.get? i = some v).map (·.id)) := by
  have hfrom (m : OrdMap Value (List Value)) :
      (rows.foldl (groupRow i) m).find? v =
      if (rows.filter fun r => r.get? i = some v) = [] then m.find? v
      else some ((m.find? v).getD [] ++ (rows.filter fun r => r.get? i = some v).map (·.id)) := by
    induction rows generalizing m with
    | nil => simp
    | cons r rows ih =>
      rw [List.foldl_cons, ih, groupRow]
      cases hr : r.get? i with
      | none => rw [List.filter_cons_of_neg (by simp [hr])]
      | some w =>
        by_cases hw : w = v
        · rw [List.filter_cons_of_pos (by simp [hr, hw]), if_neg (List.cons_ne_nil _ _), hw,
            OrdMap.find?_insert_self]
          split
          · next hnil => simp [hnil]
          · simp
        · have hne : ¬ decide (r.get? i = some v) = true := by simpa [hr] using hw
          rw [List.filter_cons_of_neg (p := fun r : Row => decide (r.get? i = some v)) hne,
            OrdMap.find?_insert_of_ne (Ne.symm hw)]
  have hempty := hfrom ∅
  rw [OrdMap.find?_empty, Option.getD_none, List.nil_append] at hempty
  exact hempty

/-- The collection groups the rows by what they hold: each value that occurs has the ids of the rows
that hold it, in the order of the rows. -/
def Index.Groups (rows : List Row) (i : Nat) (coll : Collection) : Prop :=
  ∀ v, coll.find? v = if (rows.filter fun r => r.get? i = some v) = [] then none
    else some (.rowIds ((rows.filter fun r => r.get? i = some v).map (·.id)))

theorem Index.Groups.indexOf {i : Nat} {coll : Collection} (h : Groups R.list i coll) :
    IndexOf R i coll := by
  intro v
  rw [h, Relation.idsAt]
  split
  · next hnil =>
    rw [hnil]
    exact .absent
  · next hne => exact .present (by simpa using hne) (.refl _)

theorem Index.nodup_group (rows : List Row) (i : Nat) :
    (((group rows i).bindings.map fun e => (e.1, Payload.rowIds e.2)).map (·.1)).Nodup := by
  rw [List.map_map]
  exact (group rows i).nodup_keys

theorem Index.build_run (h : s.At c db cs) (hcs : CollectionsOf D cs) (hR : D.find? t.name = some R)
    (hfits : ∀ r ∈ R.list, r.Fits t) (hrow : column.isRowId = false)
    (hnone : cs.find? (indexCollection t.name column.name) = none) :
    ∃ s' coll, build db t column s = (.ok (), s') ∧
      s'.At c db (cs.insert (indexCollection t.name column.name) coll) ∧
      Groups R.list column.position coll := by
  have hne : cs.isEmpty = false := OrdMap.isEmpty_eq_false (hcs.base t.name R hR)
  have hfind : s.content.find? db = some cs := by
    rw [h.content, Content.find?_set_self, hne]
    rfl
  have hscan : Row.scan s.content db t .all = .ok R.list := by
    rw [hcs.scan hfind hR hfits]
    simp [KeyFilter.admits]
  obtain ⟨s₁, hcreate, h₁⟩ := Store.createCollection_at h hnone
  have hentries : (group R.list column.position).bindings.map
      (fun e => WriteOp.insert (indexCollection t.name column.name) ⟨e.1, .rowIds e.2⟩) =
      ((group R.list column.position).bindings.map fun e => (e.1, Payload.rowIds e.2)).map
        fun e => .insert (indexCollection t.name column.name) ⟨e.1, e.2⟩ := by
    rw [List.map_map]
    rfl
  obtain ⟨coll, hsteps, hcoll⟩ := WriteOp.steps_inserts
    (OrdMap.find?_insert_self cs (indexCollection t.name column.name) ∅) (nodup_group _ _)
    fun e _ => OrdMap.find?_empty e.1
  rw [OrdMap.insert_insert, ← hentries] at hsteps
  obtain ⟨s₂, happly, h₂⟩ := Store.apply_at h₁ (OrdMap.isEmpty_insert _ _ _) hsteps
  refine ⟨s₂, coll, ?_, h₂, fun v => ?_⟩
  · simp only [build, hrow, Bool.false_eq_true, if_false, Store.getContent, Step.bind_run,
      Step.get_run, Step.pure_run, hscan, Step.lift_run, hcreate, happly]
  · have hv : coll.find? v = ((group R.list column.position).find? v).map .rowIds := by
      apply Option.ext
      intro p
      rw [hcoll, Option.map_eq_some_iff]
      simp only [OrdMap.find?_empty, reduceCtorEq, or_false, List.mem_map, Prod.mk.injEq,
        Prod.exists, OrdMap.find?_eq_some_iff]
      constructor
      · rintro ⟨_, ids, hm, rfl, rfl⟩
        exact ⟨ids, hm, rfl⟩
      · rintro ⟨ids, hm, rfl⟩
        exact ⟨v, ids, hm, rfl, rfl⟩
    rw [hv, find?_group]
    split <;> rfl

end Building

section Dropping

variable {c : Content} {db T : String} {D : Database} {cs : Collections} {R : Relation} {s : Store}

theorem dropCollections_run {names : List String} (h : s.At c db cs) (hd : names.Nodup)
    (hin : ∀ n ∈ names, (cs.find? n).isSome = true) :
    ∃ s' cs', (names.forM fun n => do let _ ← Store.dropCollection db n : Step Store Unit) s =
        (.ok (), s') ∧ s'.At c db cs' ∧
      (∀ n ∈ names, cs'.find? n = none) ∧ ∀ n, n ∉ names → cs'.find? n = cs.find? n := by
  induction names generalizing s cs with
  | nil => exact ⟨s, cs, rfl, h, fun _ hn => (List.not_mem_nil hn).elim, fun _ _ => rfl⟩
  | cons n names ih =>
    obtain ⟨hfirst, hd⟩ := List.nodup_cons.mp hd
    obtain ⟨coll, hcoll⟩ := Option.isSome_iff_exists.mp (hin n List.mem_cons_self)
    obtain ⟨s₁, hdrop, h₁⟩ := Store.dropCollection_at (n := n) h (OrdMap.isEmpty_eq_false hcoll)
    obtain ⟨s', cs', hrest, h', hgone, hothers⟩ := ih h₁ hd fun m hm => by
      have hne : m ≠ n := fun he => hfirst (he ▸ hm)
      rw [OrdMap.find?_erase_of_ne hne]
      exact hin m (List.mem_cons_of_mem _ hm)
    refine ⟨s', cs', ?_, h', ?_, ?_⟩
    · change ((Store.dropCollection db n >>= fun _ => pure ()) >>= fun _ => _) s = _
      rw [Step.bind_run, Step.bind_run_ok hdrop, Step.pure_run]
      exact hrest
    · intro m hm
      rcases List.mem_cons.mp hm with rfl | hm
      · rw [hothers _ hfirst, OrdMap.find?_erase_self]
      · exact hgone m hm
    · intro m hm
      rw [List.mem_cons, not_or] at hm
      rw [hothers m hm.2, OrdMap.find?_erase_of_ne hm.1]

end Dropping

end RelStore

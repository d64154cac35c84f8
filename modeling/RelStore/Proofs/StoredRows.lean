import RelStore.Proofs.Batches
import RelStore.Proofs.Lookups
import RelStore.Proofs.RowChanges
/-! What comes back of a stored row. The values after the id share one text, so a delimiter within
one of them makes a field more, and the row is refused when it is read; without one it is given back.
An insertion does not look for the delimiter. It is the requests that cannot carry it. -/
namespace RelStore

namespace Row

/-- No string after the row id has the delimiter in it. -/
def Storable (r : Row) : Prop := ∀ s, Value.string s ∈ r.fields → fieldDelimiter ∉ s.toList

def delimiters (r : Row) : Nat := (r.fields.map fun v => v.chars.count fieldDelimiter).sum

/-- A stored row does not have one field for each column after the first. -/
def miscounted (t : Table) (id : Value) (fields : Nat) : Error :=
  .storage ("row " ++ Error.quoted id.text ++ " in table " ++ Error.quoted t.name ++ " has " ++
    toString fields ++ " fields, expected " ++ toString (t.width - 1))

section Documents

variable {t : Table} {r : Row}

theorem delimiters_eq_zero : r.delimiters = 0 ↔ ∀ v ∈ r.fields, fieldDelimiter ∉ v.chars := by
  simp [delimiters, List.sum_eq_zero_iff, List.count_eq_zero]

/-- Each delimiter within a value makes one field more. -/
theorem length_splitBlob_document (hlen : r.fields.length + 1 = t.width) :
    (splitBlob t (String.ofList (Text.joinFields fieldDelimiter (r.fields.map Value.chars)))).length
      = r.fields.length + r.delimiters := by
  rw [splitBlob_document hlen, List.length_map, List.length_flatMap, delimiters]
  simp only [Text.length_splitFields, List.sum_map_add]
  simp [Nat.add_comm]

theorem ofDocument_document_of_delimiters (hlen : r.fields.length + 1 = t.width)
    (hd : r.delimiters ≠ 0) :
    ofDocument t r.document = .error (miscounted t r.id (r.fields.length + r.delimiters)) := by
  have hcount := length_splitBlob_document hlen
  have hne : r.fields.length + r.delimiters + 1 ≠ t.width := by omega
  simp only [ofDocument, document, hcount, ne_eq, hne, not_false_iff, if_true]
  rfl

end Documents

namespace ReadFrom

variable {t : Table} {literals : List String} {r : Row}

theorem fields (h : r.ReadFrom t literals) :
    List.Forall₂ (fun c v => c.type.Denotes v) t.columns.tail r.fields := by
  have hall := Constraint.denotes_of_readRow (Constraint.readRow_eq_ok.mpr h)
  rw [columns_eq t] at hall
  exact (List.forall₂_cons.mp hall).2

/-- Of the values of a row only strings can have the delimiter in them. -/
theorem storable_iff (h : r.ReadFrom t literals) : r.Storable ↔ r.delimiters = 0 := by
  rw [delimiters_eq_zero]
  constructor
  · intro hs v hv
    obtain ⟨c, -, hc⟩ := exists_of_mem_right h.fields hv
    by_cases hstring : c.type = .string
    · rw [hstring] at hc
      cases hc with
      | string s => exact hs s hv
    · obtain ⟨-, hword⟩ := hc.word hstring
      intro hmem
      exact (hword _ (v.toList_text ▸ hmem)).1 rfl
  · intro hd s hs
    exact hd _ hs

theorem storable_of_values (h : r.ReadFrom t literals)
    (hd : ∀ s ∈ literals, fieldDelimiter ∉ s.toList) : r.Storable := by
  have hfits := Constraint.of_readRow (Constraint.readRow_eq_ok.mpr h) hd
  rw [h.storable_iff, delimiters_eq_zero]
  intro v hv
  obtain ⟨c, -, hc⟩ := exists_of_mem_right hfits.fields hv
  exact hc.2

theorem ofDocument_of_storable (h : r.ReadFrom t literals) (hs : r.Storable) :
    ofDocument t r.document = .ok r :=
  ofDocument_document_of_fields (h.fields.imp fun _ _ hc => hc.read?_text)
    (delimiters_eq_zero.mp (h.storable_iff.mp hs))

theorem ofDocument_of_not_storable (h : r.ReadFrom t literals) (hs : ¬ r.Storable) :
    ofDocument t r.document = .error (miscounted t r.id (r.fields.length + r.delimiters)) :=
  ofDocument_document_of_delimiters (length_fields h.fields) fun hd => hs (h.storable_iff.mpr hd)

theorem exists_ofDocument_iff (h : r.ReadFrom t literals) :
    (∃ q, ofDocument t r.document = .ok q) ↔ r.Storable := by
  constructor
  · rintro ⟨q, hq⟩
    by_contra hs
    rw [h.ofDocument_of_not_storable hs] at hq
    cases hq
  · intro hs
    exact ⟨r, h.ofDocument_of_storable hs⟩

end ReadFrom

end Row

/-- A row that was read from literals is given back by its document exactly if no string after the
row id has the delimiter in it. Otherwise the document is refused for the number of its fields, which
every delimiter adds to, so that another row never comes back. -/
theorem stored_row_reads_back {t : Table} {literals : List String} {r : Row}
    (h : Constraint.readRow t literals = .ok r) :
    (Row.ofDocument t r.document = .ok r ↔ r.Storable) ∧
      (∀ q, Row.ofDocument t r.document = .ok q → q = r) ∧
      (¬ r.Storable → Row.ofDocument t r.document =
        .error (Row.miscounted t r.id (r.fields.length + r.delimiters))) := by
  have hr := Constraint.readRow_eq_ok.mp h
  refine ⟨⟨fun hback => ?_, hr.ofDocument_of_storable⟩, fun q hq => ?_,
    hr.ofDocument_of_not_storable⟩
  · exact hr.exists_ofDocument_iff.mp ⟨r, hback⟩
  · have hs := hr.exists_ofDocument_iff.mp ⟨q, hq⟩
    rw [hr.ofDocument_of_storable hs] at hq
    cases hq
    rfl

/-- Of a row of the first table there is nothing but the id. -/
def tagsTable : Table :=
  ⟨"tags", [.declared "tag" .string 0], [("tag", 0)], [], [], List.cons_ne_nil _ _⟩

def notesTable : Table :=
  ⟨"notes", [.declared "title" .string 0, .declared "first" .string 1, .declared "pinned" .bit 2,
    .declared "last" .string 3], [("title", 0)], [], [], List.cons_ne_nil _ _⟩

/-- In the row id the delimiter does no harm, nor does an empty string in front or behind. -/
theorem stored_row_reads_back_notes :
    Row.ofDocument tagsTable (Row.document ⟨.string "#", []⟩) = .ok ⟨.string "#", []⟩ ∧
    (∃ r, Constraint.readRow notesTable ["a#b", "", "1", ""] = .ok r ∧
      Row.ofDocument notesTable r.document = .ok r) ∧
    ∃ r, Constraint.readRow notesTable ["", "#a", "1", ""] = .ok r ∧
      Row.ofDocument notesTable r.document =
        .error (.storage "row '' in table 'notes' has 4 fields, expected 3") := by
  have htag : Constraint.readRow tagsTable ["#"] = .ok ⟨.string "#", []⟩ := rfl
  have hempty : Constraint.readRow notesTable ["a#b", "", "1", ""] =
      .ok ⟨.string "a#b", [.string "", .bit true, .string ""]⟩ := by
    rfl
  have hwithin : Constraint.readRow notesTable ["", "#a", "1", ""] =
      .ok ⟨.string "", [.string "#a", .bit true, .string ""]⟩ := by
    rfl
  obtain ⟨⟨-, hback⟩, -⟩ := stored_row_reads_back htag
  obtain ⟨⟨-, hback'⟩, -⟩ := stored_row_reads_back hempty
  obtain ⟨-, -, herror⟩ := stored_row_reads_back hwithin
  refine ⟨hback fun s hs => (List.not_mem_nil hs).elim, ⟨_, hempty, hback' ?_⟩, _, hwithin,
    herror ?_⟩
  · intro s hs
    have he : s = "" := by simpa using hs
    rw [he]
    decide
  · intro hs
    exact absurd (hs "#a" List.mem_cons_self) (by decide)

section Scans

variable {c : Content} {db : String} {t : Table} {f : KeyFilter} {rows : List Row} {q : Row}

theorem Row.exists_scan_iff : (∃ rows, scan c db t f = .ok rows) ↔
    ∀ d ∈ c.find db t.name f, ∃ q, ofDocument t d = .ok q := exists_mapM_eq_ok_iff

theorem Row.mem_iff_of_scan (h : scan c db t f = .ok rows) :
    q ∈ rows ↔ ∃ d ∈ c.find db t.name f, ofDocument t d = .ok q := mem_iff_of_mapM_eq_ok h

theorem Row.scan_congr {c' : Content} (h : c'.collection? db t.name = c.collection? db t.name) :
    scan c' db t f = scan c db t f := by
  rw [scan, scan, Content.find, Content.find, h]

end Scans

/-- A document has come into the collection of a table, and nothing has changed but the collections of
the indexes of the table. -/
structure Content.Gains (c c' : Content) (db T : String) (d : Document) : Prop where
  new : c.findOne db T d.id = none
  found : c'.findOne db T d.id = some d
  kept : ∀ id, id ≠ d.id → c'.findOne db T id = c.findOne db T id
  others : ∀ db' n, db' ≠ db ∨ n ≠ T → (∀ x, n ≠ indexCollection T x) →
    c'.collection? db' n = c.collection? db' n

namespace Content.Gains

variable {c c' : Content} {db T : String} {d e : Document}

theorem mem_find_all (h : c.Gains c' db T d) :
    e ∈ c'.find db T .all ↔ e = d ∨ e ∈ c.find db T .all := by
  rw [Content.mem_find_all, Content.mem_find_all]
  by_cases hid : e.id = d.id
  · rw [hid, h.found, h.new]
    simp [eq_comm]
  · rw [h.kept _ hid]
    have hne : e ≠ d := fun he => hid (congrArg Document.id he)
    simp [hne]

/-- An insertion into a collection, then writes to the indexes of the table. -/
theorem of_writes {ops : List WriteOp} (hT : isValidName T = true)
    (hops : ∀ op ∈ ops, ∃ x, op.collection = indexCollection T x)
    (h : c.writes db (.insert T d :: ops) = some c') : c.Gains c' db T d := by
  obtain ⟨cs', hsteps, rfl⟩ := (writes_eq_some (List.cons_ne_nil _ _)).mp h
  obtain ⟨cs₁, hstep, hsteps⟩ := Except.bind_eq_ok.mp hsteps
  obtain ⟨coll, hrun, rfl⟩ := Except.map_eq_ok.mp hstep
  have hnames : ∀ n, (∀ x, n ≠ indexCollection T x) → n ∉ ops.map WriteOp.collection := by
    intro n hn hmem
    obtain ⟨op, hop, rfl⟩ := List.mem_map.mp hmem
    obtain ⟨x, hx⟩ := hops op hop
    exact hn x hx
  rw [WriteOp.found, WriteOp.collection, ← c.collection?_eq_getD] at hrun
  obtain ⟨hfree, rfl⟩ := WriteOp.of_run_insert hrun
  have htable : collection? (c.insert db cs') db T =
      some (((c.collection? db T).getD ∅).insert d.id d.payload) := by
    rw [collection?_eq (OrdMap.find?_insert_self _ _ _), WriteOp.find?_steps _ hsteps]
    · exact OrdMap.find?_insert_self _ _ _
    · exact hnames T fun x he => indexCollection_ne hT he.symm
  constructor
  · rw [findOne_eq_getD, hfree]
    rfl
  · rw [findOne_eq_getD, htable, Option.getD_some, OrdMap.find?_insert_self]
    rfl
  · intro id hid
    rw [findOne_eq_getD, htable, Option.getD_some, OrdMap.find?_insert_of_ne hid,
      ← findOne_eq_getD]
  · intro db' n hother hn
    by_cases hdb : db' = db
    · subst hdb
      have hne : n ≠ T := hother.resolve_left (not_not_intro rfl)
      rw [collection?_eq (OrdMap.find?_insert_self _ _ _), collection?_eq_getD,
        WriteOp.find?_steps (hnames n hn) hsteps]
      exact OrdMap.find?_insert_of_ne hne
    · rw [collection?, collection?, OrdMap.find?_insert_of_ne hdb]

end Content.Gains

theorem Index.collection_of_mem_insertWrites {c : Content} {db : String} {t : Table} {r : Row}
    {op : WriteOp} (h : op ∈ insertWrites c db t r) :
    ∃ x, op.collection = indexCollection t.name x := by
  obtain ⟨column, -, hop⟩ := List.mem_filterMap.mp h
  obtain ⟨v, -, rfl⟩ := Option.map_eq_some_iff.mp hop
  refine ⟨column.name, ?_⟩
  dsimp only
  cases c.findOne db (indexCollection t.name column.name) v <;> rfl

section Insertions

variable {b b' : Backend} {o : Outcome} {db T : String} {values : List String} {t : Table}
  {rows rows' : List Row} {r : Row}

theorem Engine.gains_of_insert (h : insert db T values b = (.ok o, b')) :
    ∃ (t : Table) (r : Row), b.catalog.table db T = .ok t ∧ r.ReadFrom t values ∧
      b'.catalog = b.catalog ∧ b.store.content.Gains b'.store.content db T r.document := by
  obtain ⟨t, r, ht, hr, hcatalog, happly⟩ := of_insert h
  obtain ⟨hT, -⟩ := Catalog.of_table ht
  obtain rfl := Catalog.name_of_table ht
  obtain ⟨hwrites, -⟩ := Store.apply_ok happly
  exact ⟨t, r, ht, Constraint.readRow_eq_ok.mp hr, hcatalog,
    .of_writes hT (fun op hop => Index.collection_of_mem_insertWrites hop) hwrites⟩

namespace Backend

theorem ChangesRowsOf.of_gains {d : Document} (hcatalog : b'.catalog = b.catalog)
    (h : b.store.content.Gains b'.store.content db T d) : b.ChangesRowsOf db T b' := by
  refine ⟨hcatalog, fun db' X t hother ht => ?_⟩
  obtain ⟨hX, -⟩ := Catalog.of_table ht
  obtain rfl := Catalog.name_of_table ht
  exact Row.scan_congr (h.others db' t.name hother fun x he => indexCollection_ne hX he.symm)

/-- The table is read again exactly if the new document is. -/
theorem Reads.exists_iff (h : b.Reads db T t rows) (hcatalog : b'.catalog = b.catalog)
    (hgains : b.store.content.Gains b'.store.content db T r.document) :
    (∃ rows', b'.Reads db T t rows') ↔ ∃ q, Row.ofDocument t r.document = .ok q := by
  have hname := Catalog.name_of_table h.definition
  have hold := Row.exists_scan_iff.mp ⟨rows, h.scan⟩
  constructor
  · rintro ⟨rows', h'⟩
    refine Row.exists_scan_iff.mp ⟨rows', h'.scan⟩ r.document ?_
    rw [hname, hgains.mem_find_all]
    exact .inl rfl
  · intro hnew
    have hall : ∀ d ∈ b'.store.content.find db t.name .all, ∃ q, Row.ofDocument t d = .ok q := by
      intro d hd
      rw [hname, hgains.mem_find_all] at hd
      rcases hd with rfl | hd
      · exact hnew
      · exact hold d (hname ▸ hd)
    obtain ⟨rows', hscan⟩ := Row.exists_scan_iff.mpr hall
    exact ⟨rows', hcatalog ▸ h.definition, hscan⟩

theorem Reads.mem_iff (h : b.Reads db T t rows) (h' : b'.Reads db T t rows')
    (hgains : b.store.content.Gains b'.store.content db T r.document)
    (hback : Row.ofDocument t r.document = .ok r) (q : Row) : q ∈ rows' ↔ q = r ∨ q ∈ rows := by
  have hname := Catalog.name_of_table h.definition
  rw [Row.mem_iff_of_scan h'.scan, Row.mem_iff_of_scan h.scan, hname]
  constructor
  · rintro ⟨d, hd, hq⟩
    rcases hgains.mem_find_all.mp hd with rfl | hd
    · rw [hback] at hq
      cases hq
      exact .inl rfl
    · exact .inr ⟨d, hd, hq⟩
  · rintro (rfl | ⟨d, hd, hq⟩)
    · exact ⟨_, hgains.mem_find_all.mpr (.inl rfl), hback⟩
    · exact ⟨d, hgains.mem_find_all.mpr (.inr hd), hq⟩

end Backend

theorem Backend.Reads.exists_iff_storable (h : b.Reads db T t rows)
    (hinsert : Engine.insert db T values b = (.ok o, b')) (hr : r.ReadFrom t values) :
    (∃ rows', b'.Reads db T t rows') ↔ r.Storable := by
  obtain ⟨t', r', ht', hr', hcatalog, hgains⟩ := Engine.gains_of_insert hinsert
  cases h.definition.symm.trans ht'
  cases (Constraint.readRow_eq_ok.mpr hr).symm.trans (Constraint.readRow_eq_ok.mpr hr')
  rw [h.exists_iff hcatalog hgains, hr.exists_ofDocument_iff]

theorem Service.execute_insert_eq_ok {s s' : Service} (hdb : s.session.database = some db) :
    s.execute (.insert T values) = (.ok o, s') ↔
      Engine.insert db T values s.backend = (.ok o, s'.backend) ∧ s'.session = s.session := by
  have hrun : s.session.run (.insert T values) s.backend = Engine.insert db T values s.backend := by
    rw [Session.run, Session.selected, hdb]
    rfl
  rw [execute, hrun]
  rcases Engine.insert db T values s.backend with ⟨e | o', b⟩
  · constructor
    · intro h
      cases h
    · rintro ⟨h, -⟩
      cases h
  · constructor
    · intro h
      cases h
      exact ⟨rfl, rfl⟩
    · rintro ⟨h, hsession⟩
      cases h
      rw [← hsession]
      rfl

end Insertions

/-- An accepted insertion into a table that can be read stores the row, and leaves the other tables as
they are. The table can be read after it exactly if no string after the row id has the delimiter in
it, and then the row has come to the others. The values of a request are free of the delimiter. -/
theorem insertion_readable_iff {s s' : Service} {db T : String} {t : Table} {rows : List Row}
    {values : List String} {o : Outcome} (hdb : s.session.database = some db)
    (hreads : s.backend.Reads db T t rows)
    (hrun : s.execute (.insert T values) = (.ok o, s')) :
    ∃ r : Row, r.ReadFrom t values ∧
      s'.backend.store.content.findOne db T r.id = some r.document ∧
      s.backend.ChangesRowsOf db T s'.backend ∧
      ((∃ rows', s'.backend.Reads db T t rows') ↔ r.Storable) ∧
      (∀ rows', s'.backend.Reads db T t rows' → ∀ q, q ∈ rows' ↔ q = r ∨ q ∈ rows) ∧
      ∀ request, Command.decode request = .ok (.insert T values) → r.Storable := by
  obtain ⟨hinsert, -⟩ := (Service.execute_insert_eq_ok hdb).mp hrun
  obtain ⟨t', r, ht', hr, hcatalog, hgains⟩ := Engine.gains_of_insert hinsert
  cases hreads.definition.symm.trans ht'
  have hiff := hreads.exists_iff_storable hinsert hr
  refine ⟨r, hr, hgains.found, .of_gains hcatalog hgains, hiff, ?_, ?_⟩
  · intro rows' h'
    exact hreads.mem_iff h' hgains (hr.ofDocument_of_storable (hiff.mp ⟨rows', h'⟩))
  · intro request hrequest
    obtain ⟨hsafe, -⟩ := Command.decode_eq_ok_iff.mp hrequest
    exact hr.storable_of_values fun v hv => (hsafe.2.2.2 v hv).2

/-- A table with a string beside the row id. -/
def delimited : List (Nat × String) := [(0, "2 4 d"), (0, "7 d"), (0, "2 5 t 29 id 34 a")]

/-- The first session has the database selected, and inserts what the world takes in. -/
theorem delimited_accepts (values : List String) (r : Row)
    (h : ((World.asked delimited).databases.find? "d").any (fun D =>
      (D.insertRow "t" values).isOk ∧
        (D.find? "t").any fun R => Constraint.readRow R.table values = .ok r) = true) :
    (System.asked .inMemory delimited).Reachable ∧
      ((System.asked .inMemory delimited).sessions 0).database = some "d" ∧
      ∃ t rows o s', (System.asked .inMemory delimited).backend.Reads "d" "t" t rows ∧
        r.ReadFrom t values ∧
        Service.execute ⟨(System.asked .inMemory delimited).backend,
          (System.asked .inMemory delimited).sessions 0⟩ (.insert "t" values) = (.ok o, s') := by
  obtain ⟨hreach, hholds⟩ := System.asked_inMemory_holds delimited (by decide)
  generalize System.asked .inMemory delimited = S at hreach hholds ⊢
  have hdb : (S.sessions 0).database = some "d" := by
    rw [hholds.sessions]
    decide +kernel
  simp only [Option.any_eq_true, decide_eq_true_eq, Except.isOk_iff] at h
  obtain ⟨D, hD, ⟨D', hD'⟩, R, hR, hr⟩ := h
  obtain ⟨o, ho⟩ := hholds.insert_ok hD hD'
  obtain ⟨b, hinsert⟩ : ∃ b, Engine.insert "d" "t" values S.backend = (.ok o, b) :=
    ⟨_, Prod.ext ho rfl⟩
  exact ⟨hreach, hdb, R.table, R.list, o, ⟨b, S.sessions 0⟩, hholds.reads hD hR,
    Constraint.readRow_eq_ok.mp hr, (Service.execute_insert_eq_ok hdb).mpr ⟨hinsert, rfl⟩⟩

/-- A row that a request can ask for comes to the others. -/
theorem insertion_readable_iff_delimited : ∃ t rows rows' o s' r,
    (System.asked .inMemory delimited).backend.Reads "d" "t" t rows ∧
      Command.decode "8 t 1#ab" = .ok (.insert "t" ["1", "ab"]) ∧
      Service.execute ⟨(System.asked .inMemory delimited).backend,
        (System.asked .inMemory delimited).sessions 0⟩ (.insert "t" ["1", "ab"]) = (.ok o, s') ∧
      s'.backend.Reads "d" "t" t rows' ∧ ∀ q, q ∈ rows' ↔ q = r ∨ q ∈ rows := by
  obtain ⟨-, hdb, t, rows, o, s', hreads, -, hrun⟩ :=
    delimited_accepts ["1", "ab"] ⟨.int 1, [.string "ab"]⟩ (by decide +kernel)
  have hrequest : Command.decode "8 t 1#ab" = .ok (.insert "t" ["1", "ab"]) := by decide +kernel
  obtain ⟨r, -, -, -, hreadable, hrows, hsafe⟩ := insertion_readable_iff hdb hreads hrun
  obtain ⟨rows', h'⟩ := hreadable.mpr (hsafe _ hrequest)
  exact ⟨t, rows, rows', o, s', r, hreads, hrequest, hrun, h', hrows rows' h'⟩

/-- With a delimiter in its string a row is taken in, and then the table cannot be read. -/
theorem not_insertion_readable : ¬ ∀ (S : System) (i : Nat) (db T : String) (t : Table)
    (rows : List Row) (values : List String) (o : Outcome) (s' : Service), S.Reachable →
    (S.sessions i).database = some db → S.backend.Reads db T t rows →
    Service.execute ⟨S.backend, S.sessions i⟩ (.insert T values) = (.ok o, s') →
    ∃ rows', s'.backend.Reads db T t rows' := by
  intro hall
  obtain ⟨hreach, hdb, t, rows, o, s', hreads, hr, hrun⟩ :=
    delimited_accepts ["1", "a#b"] ⟨.int 1, [.string "a#b"]⟩ (by decide +kernel)
  have hreadable := hall _ 0 "d" "t" t rows _ o s' hreach hdb hreads hrun
  obtain ⟨hinsert, -⟩ := (Service.execute_insert_eq_ok hdb).mp hrun
  have hstorable := (hreads.exists_iff_storable hinsert hr).mp hreadable
  exact absurd (hstorable "a#b" List.mem_cons_self) (by decide)

end RelStore

import RelStore.Proofs.RowChanges
import RelStore.Proofs.SelectAnswers
import RelStore.Proofs.SelectedDatabase
/-! Printed values read back. Literals of one type may differ and stand for the same value, which has
one text; that text is again a literal of it, so a cell of an answer says which value is stored. -/
namespace RelStore

/-- In each column the cell is the text of the value in the row, and what the type of the column reads
there is this value. -/
def Row.PrintedAs (r : Row) (columns : List Column) (cells : List String) : Prop :=
  List.Forall₂ (fun c cell => ∃ v, r.get? c.position = some v ∧ cell = v.text ∧
    c.type.read? cell = some v) columns cells

theorem Row.Fits.printedAs {t : Table} {r : Row} (h : r.Fits t) (hs : t.Shaped)
    {columns : List Column} (hc : ∀ c ∈ columns, c ∈ t.columns) :
    r.PrintedAs columns ((r.project (columns.map (·.position))).map Value.text) := by
  induction columns with
  | nil => exact .nil
  | cons c columns ih =>
    obtain ⟨hc, hrest⟩ := List.forall_mem_cons.mp hc
    obtain ⟨v, hv, hread, -⟩ := h.get? hs hc
    rw [project, List.map_cons, List.filterMap_cons_some hv, List.map_cons]
    exact .cons ⟨v, hv, rfl, hread⟩ (ih hrest)

section Answers

variable {S : System} {i : Nat} {request T : String} {projection : Projection}
  {predicates : List Predicate} {names : List String} {cells : List (List String)}

/-- A selection that is answered has been carried out in the selected database. -/
theorem System.of_selection
    (hc : Command.decode request = .ok (.select T projection predicates))
    (ha : (S.handle i request).1 = .table names cells) :
    ∃ db o, (S.sessions i).database = some db ∧
      (Engine.select db T projection predicates S.backend).1 = .ok o ∧
      o.response = .table names cells := by
  have ha : (Service.handleRequest ⟨S.backend, S.sessions i⟩ request).1 = .table names cells := ha
  obtain ⟨o, hrun, hresponse⟩ := Service.run_of_answered hc (by rw [ha]; rfl)
  obtain ⟨db, hdb, hselect⟩ := (Step.bind_eq_ok_of_read (Step.lift_run _ _)).mp hrun
  refine ⟨db, o, ?_, congrArg Prod.fst hselect, hresponse.symm.trans ha⟩
  rw [Session.selected] at hdb
  split at hdb
  · next hsome =>
    cases hdb
    exact hsome
  · cases hdb

/-- Every line of an answer prints a row of the table. -/
theorem System.Reachable.answer_printed (h : S.Reachable)
    (hc : Command.decode request = .ok (.select T projection predicates))
    (ha : (S.handle i request).1 = .table names cells) :
    ∃ db t rows columns, (S.sessions i).database = some db ∧ S.backend.Reads db T t rows ∧
      (∀ c ∈ columns, c ∈ t.columns) ∧ names = columns.map (·.name) ∧
      ∀ line ∈ cells, ∃ r ∈ rows, r.PrintedAs columns line := by
  obtain ⟨W, hW⟩ := h.holds
  obtain ⟨db, o, hdb, hselect, hresponse⟩ := System.of_selection hc ha
  rw [hW.select_eq] at hselect
  obtain ⟨D, hD, -⟩ := Except.bind_eq_ok.mp hselect
  have hD := Databases.of_database hD
  have hsound := hW.sound.databases db D hD
  obtain ⟨R, answer, hR, hanswer, rfl⟩ := (Databases.select_eq_ok hD).mp hselect
  obtain ⟨-, hR⟩ := Database.of_relation hR
  have hshaped := hsound.shaped hR
  have hfits := (hsound.relations T R hR).rows
  obtain ⟨columns, found, rfl, hexact⟩ := of_select hshaped hfits hanswer
  have hcolumns (c : Column) (hc : c ∈ columns) : c ∈ R.table.columns := ((hexact.asked c).mp hc).1
  obtain ⟨rfl, rfl⟩ := Response.table.inj hresponse
  refine ⟨db, R.table, R.list, columns, hdb, hW.reads hD hR, hcolumns, rfl, ?_⟩
  intro line hline
  rw [List.map_map] at hline
  obtain ⟨r, hr, rfl⟩ := List.mem_map.mp hline
  obtain ⟨hrow, -⟩ := (hexact.exact r).mp hr
  exact ⟨r, hrow, (hfits r hrow).printedAs hshaped hcolumns⟩

end Answers

/-- The text of a value that a literal stands for reads as this value, and is a single word unless it
is a string. This takes in every integer, every finite float but the negative zero, every date and
every time in whole seconds. So each cell of an answer to a selection, sent back as a literal of its
column, stands for the value that is stored. -/
theorem printed_values_read_back :
    (∀ (t : ColumnType) literal v, t.read? literal = some v → t.read? v.text = some v ∧
      (t ≠ .string → v.text ≠ "" ∧
        ∀ c ∈ v.text.toList, c ≠ fieldDelimiter ∧ Text.isBlank c = false)) ∧
    (∀ (t : ColumnType) v, (∃ literal, t.read? literal = some v) ↔ t.Denotes v) ∧
    ∀ S : System, S.Reachable → ∀ i request T projection predicates names cells,
      Command.decode request = .ok (.select T projection predicates) →
      (S.handle i request).1 = .table names cells →
      ∃ db t rows columns, (S.sessions i).database = some db ∧ S.backend.Reads db T t rows ∧
        (∀ c ∈ columns, c ∈ t.columns) ∧ names = columns.map (·.name) ∧
        ∀ line ∈ cells, ∃ r ∈ rows, r.PrintedAs columns line := by
  refine ⟨fun t literal v h => ⟨ColumnType.read?_text h, (ColumnType.denotes_of_read? h).word⟩,
    fun t v => ColumnType.denotes_iff.symm, ?_⟩
  intro S hreach i request T projection predicates names cells hc ha
  exact hreach.answer_printed hc ha

/-- Literals that are not written as their values are: signs, no padding, a leap second and a zero. -/
def stamped : List (Nat × String) :=
  [(0, "2 4 d"), (0, "7 d"), (0, "2 5 t 29 id 33 at 30 size"), (0, "8 t +7#-5-6-7_23:59:60#-0")]

theorem printed_values_read_back_stamped :
    (∃ v, ColumnType.dateTime.read? "-5-6-7_23:59:60" = some v ∧ v.text = "-0005-06-07_23:59:60" ∧
      ColumnType.dateTime.read? v.text = some v ∧ ColumnType.dateTime.Denotes v) ∧
    ∃ db t rows columns, ((System.asked .inMemory stamped).sessions 0).database = some db ∧
      (System.asked .inMemory stamped).backend.Reads db "t" t rows ∧
      columns.map (·.name) = ["id", "at", "size"] ∧
      ∃ r ∈ rows, r.PrintedAs columns ["7", "-0005-06-07_23:59:60", "0"] := by
  obtain ⟨hback, hdenotes, hanswers⟩ := printed_values_read_back
  obtain ⟨hreach, hholds⟩ := System.asked_inMemory_holds stamped (by decide)
  generalize System.asked .inMemory stamped = S at hreach hholds ⊢
  have hanswer : (S.handle 0 "19 18 16 t").1 =
      .table ["id", "at", "size"] [["7", "-0005-06-07_23:59:60", "0"]] := by
    rw [(hholds.handle 0 (by decide)).1]
    decide +kernel
  constructor
  · have hread : (ColumnType.dateTime.read? "-5-6-7_23:59:60").any
        (fun v => v.text = "-0005-06-07_23:59:60") = true := by
      decide +kernel
    simp only [Option.any_eq_true, decide_eq_true_eq] at hread
    obtain ⟨v, hv, htext⟩ := hread
    exact ⟨v, hv, htext, (hback _ _ v hv).1, (hdenotes _ v).mp ⟨_, hv⟩⟩
  · obtain ⟨db, t, rows, columns, hdb, hreads, -, hnames, hlines⟩ :=
      hanswers S hreach 0 "19 18 16 t" "t" .all [] _ _ (by decide +kernel) hanswer
    exact ⟨db, t, rows, columns, hdb, hreads, hnames.symm, hlines _ List.mem_cons_self⟩

end RelStore

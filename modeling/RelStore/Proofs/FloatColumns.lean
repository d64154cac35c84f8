import RelStore.Proofs.FloatLiterals
import RelStore.Proofs.IndexContents
import RelStore.Proofs.SelectAnswers
/-! Comparison of floats by their numbers. What a column of floats keeps apart, what its index lists and
what a selection finds is told by the numbers that the patterns denote. -/
namespace RelStore

/-- What an operator says of two numbers. -/
def Operator.orders : Operator → ℚ → ℚ → Bool
  | .eq, p, q => p = q
  | .lt, p, q => p < q
  | .gt, p, q => q < p
  | .le, p, q => p ≤ q
  | .ge, p, q => q ≤ p
  | .ne, p, q => p ≠ q

/-- The number that a row holds in a column of floats. -/
def Row.number? (r : Row) (c : Column) : Option ℚ :=
  match r.get? c.position with
  | some (.float x) => some x.number
  | _ => none

section Values

variable {x y a b : Binary64} {op : Operator}

theorem Value.compare_literals (hx : x.IsLiteral) (hy : y.IsLiteral) :
    compare (Value.float x) (.float y) = compare x.number y.number :=
  (Value.compare_float x y).trans (hx.compare_eq hy)

theorem Operator.holds_float (hx : x.IsLiteral) (hy : y.IsLiteral) (op : Operator) :
    op.holds (.float x) (.float y) = op.orders x.number y.number := by
  have hcompare := Value.compare_literals hx hy
  rcases lt_trichotomy x.number y.number with hlt | heq | hgt
  · rw [compare_lt_iff_lt.mpr hlt] at hcompare
    cases op <;> simp [holds, orders, hcompare, hlt, hlt.le, hlt.ne, hlt.not_ge, hlt.not_gt]
  · rw [compare_eq_iff_eq.mpr heq] at hcompare
    cases op <;> simp [holds, orders, hcompare, heq]
  · rw [compare_gt_iff_gt.mpr hgt] at hcompare
    cases op <;> simp [holds, orders, hcompare, hgt, hgt.le, hgt.ne', hgt.not_ge, hgt.not_gt]

theorem ColumnType.read?_float {literal : String} {v : Value} :
    ColumnType.float.read? literal = some v ↔
      ∃ a, Binary64.ofDigits? literal.toList = some a ∧ a.isFinite = true ∧
        v = .float a.unsignZero := by
  rw [read?, Binary64.ofLiteral?_eq]
  simp only [Option.map_map, Option.map_eq_some_iff, Option.filter_eq_some_iff, Function.comp_apply]
  refine exists_congr fun a => ?_
  rw [and_assoc, eq_comm (b := v)]

end Values

namespace Row

variable {t : Table} {r : Row} {c : Column} {a : Binary64} {q : ℚ}

/-- What a row of the table holds in a column of floats is a value that some literal stands for. -/
theorem Fits.float (h : r.Fits t) (hs : t.Shaped) (hc : c ∈ t.columns) (hf : c.type = .float) :
    ∃ x : Binary64, r.get? c.position = some (.float x) ∧ x.IsLiteral ∧
      r.number? c = some x.number := by
  obtain ⟨v, hv, hholds⟩ := h.get? hs hc
  have hdenotes := ColumnType.denotes_of_read? hholds.1
  rw [hf] at hdenotes
  cases hdenotes with
  | float hx => exact ⟨_, hv, hx, by rw [number?, hv]⟩

/-- A row holds the value that a number is stored as just if it holds that number. -/
theorem Fits.get?_eq_iff (h : r.Fits t) (hs : t.Shaped) (hc : c ∈ t.columns)
    (hf : c.type = .float) (ha : a.isFinite = true) :
    r.get? c.position = some (.float a.unsignZero) ↔ r.number? c = some a.number := by
  obtain ⟨x, hv, hx, hnumber⟩ := h.float hs hc hf
  rw [hv, hnumber, Option.some.injEq, Option.some.injEq, Value.float.injEq,
    ← hx.number_inj (Binary64.isLiteral_unsignZero ha), Binary64.number_unsignZero]

/-- A row compares with the value as its number does. -/
theorem Fits.meets_float (h : r.Fits t) (hs : t.Shaped) (hc : c ∈ t.columns)
    (hf : c.type = .float) (ha : a.isFinite = true) (op : Operator) :
    Relation.meets r (c, op, .float a.unsignZero) =
      (r.number? c).any fun q => op.orders q a.number := by
  obtain ⟨x, hv, hx, hnumber⟩ := h.float hs hc hf
  rw [Relation.meets, hv, hnumber, Option.any_some, Option.any_some,
    Operator.holds_float hx (Binary64.isLiteral_unsignZero ha), Binary64.number_unsignZero]

end Row

/-- A column of floats by its numbers: each row holds one, and no two rows the same if the column is
unique; an index has entries for the numbers that rows hold, and lists the rows under theirs; lookups
and selections find the rows whose numbers compare so. -/
structure NumericColumn (S : System) (db T : String) (t : Table) (rows : List Row) (c : Column) :
    Prop where
  numbers : ∀ r ∈ rows, ∃ q, r.number? c = some q
  distinct : c.unique = true → rows.Pairwise fun r s => r.number? c ≠ s.number? c
  entries : c.indexed = true → c.isRowId = false → ∃ coll,
    S.backend.store.content.collection? db (indexCollection T c.name) = some coll ∧
      ∀ a : Binary64, a.isFinite = true →
        ((∃ p, coll.find? (.float a.unsignZero) = some p) ↔
          ∃ r ∈ rows, r.number? c = some a.number) ∧
        ∀ ids, coll.find? (.float a.unsignZero) = some (.rowIds ids) →
          ∀ id, id ∈ ids ↔ ∃ r ∈ rows, r.id = id ∧ r.number? c = some a.number
  lookups : c.indexed = true → ∀ op (a : Binary64), a.isFinite = true → ∀ id,
    id ∈ (Index.lookup S.backend.store.content db t c op (.float a.unsignZero)).keys ↔
      ∃ r ∈ rows, r.id = id ∧ ∃ q, r.number? c = some q ∧ op.orders q a.number = true
  answers : ∀ op literal a, Binary64.ofDigits? literal.toList = some a → a.isFinite = true →
    (Engine.select db T .all [⟨c.name, op, literal⟩] S.backend).1 =
      .ok (.table (t.columns.map (·.name))
        ((rows.filter fun r => (r.number? c).any fun q => op.orders q a.number).map fun r =>
          r.project (t.columns.map (·.position))))

namespace System.Holds

variable {S : System} {W : World} {db T : String} {D : Database} {R : Relation} {c : Column}

/-- The index of a column of floats has entries under the stored forms of the numbers that rows hold. -/
theorem float_entries (h : S.Holds W) (hD : W.databases.find? db = some D) (hR : D.find? T = some R)
    (hc : c ∈ R.table.columns) (hf : c.type = .float) (hi : c.indexed = true)
    (hrow : c.isRowId = false) : ∃ coll,
      S.backend.store.content.collection? db (indexCollection T c.name) = some coll ∧
        ∀ a : Binary64, a.isFinite = true →
          ((∃ p, coll.find? (.float a.unsignZero) = some p) ↔
            ∃ r ∈ R.list, r.number? c = some a.number) ∧
          ∀ ids, coll.find? (.float a.unsignZero) = some (.rowIds ids) →
            ∀ id, id ∈ ids ↔ ∃ r ∈ R.list, r.id = id ∧ r.number? c = some a.number := by
  have hsound := (h.sound.databases db D hD).relations T R hR
  obtain ⟨es, cs, hstores⟩ := h.backend.stores hD
  obtain ⟨coll, hcoll, hindex⟩ := hstores.collections.index T R hR c
    (mem_secondaryIndexes.mpr ⟨hc, hi, hrow⟩)
  have hexact := hindex.exact
  have hholds (a : Binary64) (ha : a.isFinite = true) (r : Row) (hr : r ∈ R.list) :=
    (hsound.rows r hr).get?_eq_iff hsound.table.shaped hc hf ha
  refine ⟨coll, by rw [Content.collection?_eq hstores.content, hcoll], fun a ha => ⟨?_, ?_⟩⟩
  · rw [hexact.entry]
    exact exists_congr fun r => and_congr_right (hholds a ha r)
  · intro ids hids id
    obtain ⟨ids', he, -, -, hmem⟩ := hexact.ids _ _ hids
    cases he
    rw [hmem]
    exact exists_congr fun r => and_congr_right fun hr => and_congr_right fun _ => hholds a ha r hr

/-- A selection by one predicate on a column of floats finds the rows whose numbers compare so. -/
theorem select_float (h : S.Holds W) (hD : W.databases.find? db = some D) (hR : D.find? T = some R)
    (hc : c ∈ R.table.columns) (hf : c.type = .float) (op : Operator) {literal : String}
    {a : Binary64} (hl : Binary64.ofDigits? literal.toList = some a) (ha : a.isFinite = true) :
    (Engine.select db T .all [⟨c.name, op, literal⟩] S.backend).1 =
      .ok (.table (R.table.columns.map (·.name))
        ((R.list.filter fun r => (r.number? c).any fun q => op.orders q a.number).map fun r =>
          r.project (R.table.columns.map (·.position)))) := by
  have hsound := h.sound.databases db D hD
  have hrows := (hsound.relations T R hR).rows
  have hs := hsound.shaped hR
  have hread : c.type.read? literal = some (.float a.unsignZero) := by
    rw [hf]
    exact ColumnType.read?_float.mpr ⟨a, hl, ha, rfl⟩
  have hcondition : Relation.condition R.table ⟨c.name, op, literal⟩ =
      .ok (c, op, .float a.unsignZero) := (condition_eq_ok hs).mpr ⟨⟨hc, rfl, hread⟩, rfl⟩
  have hfound : (R.list.filter fun r => (r.number? c).any fun q => op.orders q a.number) =
      R.list.filter fun r => [(c, op, .float a.unsignZero)].all (Relation.meets r) := by
    refine List.filter_congr fun r hr => ?_
    rw [List.all_cons, List.all_nil, Bool.and_true, (hrows r hr).meets_float hs hc hf ha]
  rw [h.select_eq, Databases.select_eq_ok hD, hfound]
  refine ⟨R, (_, _), hsound.relation hR, ?_, rfl⟩
  rw [Relation.select, SelectPlan.planProjection, Except.ok_bind, List.mapM_cons, hcondition]
  rfl

theorem numericColumn (h : S.Holds W) (hD : W.databases.find? db = some D)
    (hR : D.find? T = some R) (hc : c ∈ R.table.columns) (hf : c.type = .float) :
    NumericColumn S db T R.table R.list c := by
  have hsound := h.sound.databases db D hD
  have hsoundR := hsound.relations T R hR
  have hs := hsoundR.table.shaped
  obtain ⟨es, cs, hstores⟩ := h.backend.stores hD
  refine ⟨fun r hr => ?_, fun hu => ?_, fun hi hrow => h.float_entries hD hR hc hf hi hrow,
    fun hi op a ha id => ?_, fun op literal a hl ha => h.select_float hD hR hc hf op hl ha⟩
  · obtain ⟨x, -, -, hnumber⟩ := (hsoundR.rows r hr).float hs hc hf
    exact ⟨x.number, hnumber⟩
  · refine Relation.nodup_list.imp_of_mem fun {r s} hr hs' hne he => hne ?_
    obtain ⟨x, hv, hx, hnumber⟩ := (hsoundR.rows r hr).float hs hc hf
    obtain ⟨y, hw, hy, hnumber'⟩ := (hsoundR.rows s hs').float hs hc hf
    rw [hnumber, hnumber', Option.some.injEq, hx.number_inj hy] at he
    exact hsoundR.unique c hc hu r hr s hs' _ hv (he ▸ hw)
  · rw [hstores.collections.mem_lookup hsound hstores.content hR hc hi]
    refine exists_congr fun r => and_congr_right fun hr => and_congr_right fun _ => ?_
    rw [(hsoundR.rows r hr).meets_float hs hc hf ha, Option.any_eq_true]

end System.Holds

/-- Any two finite patterns are stored as values that compare as the numbers they denote, which is what
adding zero is for. What is read are the literals, and each as the value of the number that it writes,
the same one for all that write this number, if it is legible. So the operators say of two values what
they say of the numbers, and the unique columns, the indexes and the answers of every reachable state
know floats by their numbers alone. -/
theorem float_order_numeric :
    (∀ a b : Binary64, a.isFinite = true → b.isFinite = true →
      compare (Value.float a.unsignZero) (.float b.unsignZero) = compare a.number b.number ∧
      a.unsignZero = a.add .zero ∧
      ∀ op, Operator.holds op (.float a.unsignZero) (.float b.unsignZero) =
        op.orders a.number b.number) ∧
    (∀ literal v, ColumnType.float.read? literal = some v ↔
      ∃ a, Binary64.ofDigits? literal.toList = some a ∧ a.isFinite = true ∧
        v = .float a.unsignZero) ∧
    (∀ literal : String, (∃ a, Binary64.ofDigits? literal.toList = some a) ↔
      ∃ l : FloatLiteral, l.Spells literal.toList) ∧
    (∀ (literal : String) (l : FloatLiteral), l.Spells literal.toList → l.Legible →
      ColumnType.float.read? literal =
        if (Binary64.ofNumber l.number).isFinite then
          some (.float (Binary64.ofNumber l.number).unsignZero)
        else none) ∧
    ∀ (S : System) (db T : String), S.Reachable → S.backend.catalog.tableExists db T = true →
      ∃ t rows, S.backend.catalog.table db T = .ok t ∧
        Row.scan S.backend.store.content db t .all = .ok rows ∧
        ∀ c ∈ t.columns, c.type = .float → NumericColumn S db T t rows c := by
  refine ⟨fun a b ha hb => ⟨?_, (Binary64.add_zero_eq ha).symm, fun op => ?_⟩,
    fun literal v => ColumnType.read?_float, fun literal => ?_,
    fun literal l h hl => FloatLiteral.read?_eq h hl, fun S db T hS hT => ?_⟩
  · rw [Value.compare_literals (Binary64.isLiteral_unsignZero ha)
      (Binary64.isLiteral_unsignZero hb), Binary64.number_unsignZero, Binary64.number_unsignZero]
  · rw [Operator.holds_float (Binary64.isLiteral_unsignZero ha)
      (Binary64.isLiteral_unsignZero hb), Binary64.number_unsignZero, Binary64.number_unsignZero]
  · simp only [Binary64.ofDigits?_eq_some]
    rw [exists_comm]
    exact exists_congr fun l => exists_and_left.trans (and_iff_left ⟨_, rfl⟩)
  · obtain ⟨W, hW⟩ := hS.holds
    obtain ⟨D, R, hD, hR⟩ := hW.tableExists_iff.mp hT
    obtain ⟨ht, hrows⟩ := hW.table_and_rows hD hR
    exact ⟨R.table, R.list, ht, hrows, fun c hc hf => hW.numericColumn hD hR hc hf⟩

namespace FloatLiteral

/-- The literal `-0`. -/
def minusZero : FloatLiteral where
  negative := true
  whole := ['0']
  fraction := []
  exponent := none
  digits := by simp
  digits_ne := by simp
  exponent_digits := by simp

/-- The literal `.0E+7`. -/
def scaledZero : FloatLiteral where
  negative := false
  whole := []
  fraction := ['0']
  exponent := some (false, ['7'])
  digits := by simp
  digits_ne := by simp
  exponent_digits := by simp

theorem spells_minusZero : minusZero.Spells "-0".toList :=
  @Spells.intro minusZero ['-'] [] [] .minus .none .none

theorem spells_scaledZero : scaledZero.Spells ".0E+7".toList :=
  @Spells.intro scaledZero [] ['.', '0'] ['E', '+', '7'] .none (.point _)
    (.marked ['7'] (.inr rfl) .plus)

end FloatLiteral

/-- Zeros under both signs as keys and as values, before and after the column is indexed; a zero that is
already a key is refused under either sign. -/
def signedZeros : List (Nat × String) :=
  [(0, "2 4 d"), (0, "7 d"), (0, "2 5 t 30 x 30 y"), (0, "8 t 0#-0"), (0, "10 6 t y"), (1, "7 d"),
    (1, "8 t -0.0#1"), (1, "8 t 25e-1#0.0")]

theorem float_order_numeric_zeros :
    let least : Binary64 := ⟨0x8000000000000001⟩
    let minus : Binary64 := ⟨0x8000000000000000⟩
    compare (Value.float least.unsignZero) (.float minus.unsignZero) = .lt ∧
    Operator.eq.holds (.float minus.unsignZero) (.float Binary64.zero.unsignZero) = true ∧
    ColumnType.float.read? "-0" = ColumnType.float.read? ".0E+7" ∧
    ∃ t rows c, (System.asked .inMemory signedZeros).backend.catalog.table "d" "t" = .ok t ∧
      Row.scan (System.asked .inMemory signedZeros).backend.store.content "d" t .all = .ok rows ∧
      rows.length = 2 ∧ c ∈ t.columns ∧ c.name = "y" ∧ c.indexed = true ∧
      NumericColumn (System.asked .inMemory signedZeros) "d" "t" t rows c := by
  intro least minus
  obtain ⟨horder, -, -, hread, hcolumns⟩ := float_order_numeric
  obtain ⟨hcompare, -, -⟩ := horder least minus (by decide) (by decide)
  obtain ⟨-, -, hholds⟩ := horder minus .zero (by decide) (by decide)
  have hzeros : ColumnType.float.read? "-0" = ColumnType.float.read? ".0E+7" := by
    have hnumber : FloatLiteral.minusZero.number = FloatLiteral.scaledZero.number := by
      simp [FloatLiteral.minusZero, FloatLiteral.scaledZero, FloatLiteral.number,
        FloatLiteral.magnitude, Nat.ofDigitChars]
    rw [hread _ _ FloatLiteral.spells_minusZero (.inl (by decide)),
      hread _ _ FloatLiteral.spells_scaledZero (.inl (by decide)), hnumber]
  refine ⟨hcompare.trans (by decide +kernel), (hholds .eq).trans (by decide +kernel), hzeros, ?_⟩
  obtain ⟨hreach, hworld⟩ := System.asked_inMemory_holds signedZeros (by decide)
  obtain ⟨t, rows, ht, hrows, hnumeric⟩ := hcolumns _ "d" "t" hreach
    (hworld.tableExists_eq.trans (by decide +kernel))
  obtain ⟨D, R, hD, hR, rfl, hlist⟩ := hworld.of_table ht
  have hfound : ((World.asked signedZeros).databases.find? "d").any (fun D => (D.find? "t").any fun R =>
      R.list.length = 2 ∧ R.table.columns.any fun c =>
        c.name = "y" ∧ c.type = .float ∧ c.indexed = true) = true := by decide +kernel
  simp only [hD, hR, Option.any_some, List.any_eq_true, decide_eq_true_eq] at hfound
  obtain ⟨hlength, c, hc, hname, hf, hi⟩ := hfound
  rw [hrows] at hlist
  cases hlist
  exact ⟨R.table, R.list, c, ht, hrows, hlength, hc, hname, hi, hnumeric c hc hf⟩

namespace FloatLiteral

/-- A power of ten, written with zeros and an exponent below zero. -/
def power (zeros exponent : ℕ) : FloatLiteral where
  negative := false
  whole := '1' :: List.replicate zeros '0'
  fraction := []
  exponent := some (true, Text.natDigits exponent)
  digits := by
    intro c hc
    rw [List.append_nil, List.mem_cons, List.mem_replicate] at hc
    rcases hc with rfl | ⟨-, rfl⟩ <;> rfl
  digits_ne := List.cons_ne_nil _ _
  exponent_digits := by
    rintro _ ⟨⟩
    refine ⟨Text.natDigits_ne_nil _, fun c hc => ?_⟩
    rw [← Text.isDigit_eq]
    exact Text.isDigit_of_mem_natDigits hc

variable {zeros exponent : ℕ}

theorem spells_power : (power zeros exponent).Spells
    ('1' :: List.replicate zeros '0' ++ 'e' :: '-' :: Text.natDigits exponent) :=
  @Spells.intro (power zeros exponent) [] [] ('e' :: (['-'] ++ Text.natDigits exponent)) .none .none
    (.marked _ (.inl rfl) .minus)

theorem coefficient_power :
    Text.digitsValue 0 ((power zeros exponent).whole ++ (power zeros exponent).fraction) =
      1 * 10 ^ zeros := by
  have happend : (power zeros exponent).whole ++ (power zeros exponent).fraction =
      ['1'] ++ List.replicate zeros '0' := List.append_nil _
  rw [happend, Text.digitsValue_zeros_behind]
  rfl

theorem number_power : (power zeros exponent).number = 10 ^ ((zeros : ℤ) - exponent) := by
  have hscale : (power zeros exponent).scale - (power zeros exponent).fraction.length =
      -(exponent : ℤ) :=
    (Int.sub_zero _).trans (congrArg (fun n : ℕ => -(n : ℤ)) (Text.digitsValue_natDigits exponent))
  have hmagnitude : (power zeros exponent).magnitude = 10 ^ ((zeros : ℤ) - exponent) := by
    rw [magnitude, hscale, ← Text.digitsValue_eq, coefficient_power, one_mul, sub_eq_add_neg,
      zpow_add₀ (by norm_num), zpow_natCast, Nat.cast_pow, Nat.cast_ofNat]
  exact hmagnitude

/-- As far as its digits are counted, the exponent takes the zeros away. -/
theorem magnitude_power : (power zeros exponent).decimal.magnitude =
    Decimal.magnitude ⟨1, -(Decimal.exponentValue 0 (Text.natDigits exponent) : ℤ) + zeros⟩ := by
  have hdecimal : (power zeros exponent).decimal =
      ⟨1 * 10 ^ zeros, -(Decimal.exponentValue 0 (Text.natDigits exponent) : ℤ)⟩ := by
    rw [decimal, coefficient_power]
    exact congrArg (Decimal.mk _) (Int.sub_zero _)
  rw [hdecimal, Decimal.magnitude_shift]

end FloatLiteral

/-- Of two literals of the number `10 ^ -589824` the one is read as zero and the other as one, since
the last digit of its exponent is not counted. -/
theorem not_equal_numbers_one_value :
    ¬ ∀ (literal literal' : String) (l l' : FloatLiteral) (v v' : Value),
      l.Spells literal.toList → l'.Spells literal'.toList → l.number = l'.number →
      ColumnType.float.read? literal = some v → ColumnType.float.read? literal' = some v' →
      compare v v' = .eq := by
  intro h
  have hspells (zeros exponent : ℕ) : (FloatLiteral.power zeros exponent).Spells (String.ofList
      ('1' :: List.replicate zeros '0' ++ 'e' :: '-' :: Text.natDigits exponent)).toList := by
    rw [String.toList_ofList]
    exact FloatLiteral.spells_power
  have hread {zeros exponent m : ℕ} (hm : (FloatLiteral.power zeros exponent).decimal.magnitude = m)
      (hfinite : m < Binary64.infinity) : ColumnType.float.read? (String.ofList
        ('1' :: List.replicate zeros '0' ++ 'e' :: '-' :: Text.natDigits exponent)) =
          some (.float (Binary64.ofMagnitude false m).unsignZero) := by
    have hdigits := Binary64.ofDigits?_eq_some.mpr ⟨_, hspells zeros exponent, rfl⟩
    rw [hm] at hdigits
    refine ColumnType.read?_float.mpr ⟨_, hdigits, ?_, rfl⟩
    rw [Binary64.isFinite_ofMagnitude _ hfinite.le, decide_eq_true hfinite]
  have hzero : (FloatLiteral.power 0 589824).decimal.magnitude = 0 := by
    rw [FloatLiteral.magnitude_power]
    refine Decimal.magnitude_of_low (k := 1) (by decide) ?_
    decide +kernel
  have hone : (FloatLiteral.power 65536 655360).decimal.magnitude = 0x3FF0000000000000 := by
    have hcounted : Decimal.exponentValue 0 (Text.natDigits 655360) = 65536 := by decide +kernel
    rw [FloatLiteral.magnitude_power, hcounted]
    decide +kernel
  have hnumber : (FloatLiteral.power 0 589824).number = (FloatLiteral.power 65536 655360).number := by
    rw [FloatLiteral.number_power, FloatLiteral.number_power]
    norm_num
  have hequal := h _ _ _ _ _ _ (hspells 0 589824) (hspells 65536 655360) hnumber
    (hread hzero (by decide)) (hread hone (by decide))
  revert hequal
  decide +kernel

end RelStore

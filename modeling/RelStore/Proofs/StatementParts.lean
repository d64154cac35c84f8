import RelStore.Proofs.CommandLineRequests
/-! The parts of a statement. Which tokens a statement has for a command is told part by part: a
keyword is any token that spells it, a literal any token at all, and only the place of a token tells
which of them it is. Tokens are a statement of a command just if they are its parts in a row. -/
namespace RelStore.CommandLine

/-- What is said by one token of a statement. -/
inductive Part where
  | keyword (k : Keyword)
  | name (n : String)
  | literal (v : String)
  deriving DecidableEq

namespace Part

def Admits : Part → Token → Prop
  | keyword k, t => t.keyword? = some k
  | name n, t => t = .word n ∧ isValidName n = true
  | literal v, t => t ≠ .ending ∧ t.text = v

theorem Admits.ne_ending {a : Part} {t : Token} (h : a.Admits t) : t ≠ .ending := by
  rintro rfl
  cases a with
  | keyword k => cases h
  | name n => cases h.1
  | literal v => exact h.1 rfl

end Part

/-- What a predicate says behind the keyword that leads it. -/
def ledParts (p : Predicate) : List Part :=
  [.name p.column, .keyword (.operator p.op), .literal p.literal]

def predicateParts (lead : Keyword) : List Predicate → List Part
  | [] => []
  | p :: rest => .keyword lead :: (ledParts p ++ predicateParts .and rest)

def columnParts (columns : List (String × ColumnType)) : List Part :=
  columns.flatMap fun c => [.keyword (.type c.2), .name c.1]

def projectionParts : Projection → List Part
  | .all => [.keyword .all]
  | .columns names => names.map .name

/-- What a statement says of a command, token by token. -/
def parts : Command → List Part
  | .createDatabase n => [.keyword .create, .keyword .database, .name n]
  | .dropDatabase n => [.keyword .drop, .keyword .database, .name n]
  | .useDatabase n => [.keyword .use, .name n]
  | .createTable n columns =>
    .keyword .create :: .keyword .table :: .name n :: columnParts columns
  | .dropTable n => [.keyword .drop, .keyword .table, .name n]
  | .insert t values =>
    .keyword .insert :: .keyword .into :: .name t :: .keyword .values :: values.map .literal
  | .delete t id =>
    [.keyword .delete, .keyword .fromWord, .name t, .keyword .whereWord, .literal id]
  | .addPrimaryKey t c => [.keyword .add, .keyword .pk, .name t, .name c]
  | .addForeignKey t c p pc =>
    [.keyword .add, .keyword .fk, .name t, .name c, .name p, .name pc]
  | .addUnique t c => [.keyword .add, .keyword .uq, .name t, .name c]
  | .addIndex t c => [.keyword .add, .keyword .index, .name t, .name c]
  | .select t projection predicates =>
    .keyword .select :: (projectionParts projection ++
      .keyword .fromWord :: .name t :: predicateParts .whereWord predicates)

/-- What a statement checks beyond its parts: lists that must not be empty, columns declared once,
and the values that a request could not tell apart. -/
def Arranged : Command → Prop
  | .createTable _ columns => columns ≠ [] ∧ (columns.map (·.1)).Nodup
  | .insert _ values =>
    values ≠ [] ∧ values ≠ [""] ∧ ∀ v ∈ values, fieldDelimiter ∉ v.toList
  | .delete _ id => id ≠ ""
  | .select _ projection predicates =>
    projection ≠ .columns [] ∧ ∀ p ∈ predicates, p.literal ≠ ""
  | _ => True

/-- The tokens of some parts come first, and the rest is left. -/
def Reads : List Part → List Token → List Token → Prop
  | [], ts, rest => ts = rest
  | a :: as, ts, rest => ∃ t mid, ts = t :: mid ∧ a.Admits t ∧ Reads as mid rest

section Reading

variable {as bs : List Part} {ts mid rest : List Token} {k : Keyword} {n v : String}
  {columns : List (String × ColumnType)} {names values : List String} {predicates : List Predicate}

theorem reads_append :
    Reads (as ++ bs) ts rest ↔ ∃ mid, Reads as ts mid ∧ Reads bs mid rest := by
  induction as generalizing ts with
  | nil => simp [Reads]
  | cons a as ih =>
    simp only [List.cons_append, Reads, ih]
    constructor
    · rintro ⟨t, ts, rfl, ha, mid, has, hbs⟩
      exact ⟨mid, ⟨t, ts, rfl, ha, has⟩, hbs⟩
    · rintro ⟨mid, ⟨t, ts, rfl, ha, has⟩, hbs⟩
      exact ⟨t, ts, rfl, ha, mid, has, hbs⟩

theorem length_of_reads (h : Reads as ts rest) : ts.length = as.length + rest.length := by
  induction as generalizing ts with
  | nil =>
    have hts : ts = rest := h
    rw [hts, List.length_nil, Nat.zero_add]
  | cons a as ih =>
    obtain ⟨t, mid, rfl, -, h⟩ := h
    rw [List.length_cons, ih h, List.length_cons]
    omega

theorem atEnd_cons (t : Token) (ts : List Token) : atEnd (t :: ts) = decide (t = .ending) := rfl

theorem starts_cons (k : Keyword) (t : Token) (ts : List Token) :
    starts k (t :: ts) = decide (t.keyword? = some k) := rfl

theorem atEnd_iff : atEnd ts = true ↔ ts = [] ∨ ∃ rest, ts = .ending :: rest := by
  rw [atEnd, decide_eq_true_eq]
  cases ts <;> simp [current]

/-- Up to the end, the tokens of the parts are all the tokens there are. -/
theorem exists_reads_iff (hts : .ending ∉ ts) :
    (∃ rest, Reads as (ts ++ [.ending]) rest ∧ atEnd rest = true) ↔
      List.Forall₂ Part.Admits as ts := by
  induction as generalizing ts with
  | nil =>
    rw [List.forall₂_nil_left_iff]
    constructor
    · rintro ⟨rest, hrest, hend⟩
      have hrest : ts ++ [.ending] = rest := hrest
      rw [← hrest, atEnd_iff] at hend
      cases ts with
      | nil => rfl
      | cons t ts =>
        rcases hend with hnil | ⟨rest, hcons⟩
        · cases hnil
        · exact absurd (List.mem_cons.mpr (.inl (List.cons.inj hcons).1.symm)) hts
    · rintro rfl
      exact ⟨[.ending], rfl, rfl⟩
  | cons a as ih =>
    rw [List.forall₂_cons_left_iff]
    constructor
    · rintro ⟨rest, ⟨t, mid, hcons, ha, has⟩, hend⟩
      cases ts with
      | nil =>
        cases hcons
        exact absurd rfl ha.ne_ending
      | cons t' ts =>
        cases hcons
        rw [List.mem_cons, not_or] at hts
        exact ⟨t, ts, ha, (ih hts.2).mp ⟨rest, has, hend⟩, rfl⟩
    · rintro ⟨t, ts, ha, has, rfl⟩
      rw [List.mem_cons, not_or] at hts
      obtain ⟨rest, has, hend⟩ := (ih hts.2).mpr has
      exact ⟨rest, ⟨t, _, rfl, ha, has⟩, hend⟩

theorem starts_iff : starts k ts = true ↔ ∃ t mid, ts = t :: mid ∧ t.keyword? = some k := by
  rw [starts, decide_eq_true_eq]
  cases ts <;> simp [current, Token.keyword?]

theorem not_starts_of_starts {k' : Keyword} (hne : k ≠ k') (h : starts k ts = true) :
    starts k' ts = false := by
  obtain ⟨t, mid, rfl, ht⟩ := starts_iff.mp h
  simp [starts, current, ht, hne]

theorem not_starts_of_atEnd (h : atEnd ts = true) : starts k ts = false := by
  rcases atEnd_iff.mp h with rfl | ⟨rest, rfl⟩
  · rfl
  · rfl

theorem expect_iff : expect k ts = .ok rest ↔ Reads [.keyword k] ts rest := by
  rw [expect]
  split
  · next hk =>
    obtain ⟨t, mid, rfl, ht⟩ := starts_iff.mp hk
    simp [Reads, Part.Admits, ht]
  · next hk =>
    refine iff_of_false (fun h => by cases h) ?_
    rintro ⟨t, mid, rfl, ht, -⟩
    exact hk (starts_iff.mpr ⟨t, mid, rfl, ht⟩)

theorem nameOf_iff {t : Token} : nameOf t = .ok n ↔ (Part.name n).Admits t := by
  cases t with
  | word w =>
    simp only [nameOf, Except.map_eq_ok, Part.Admits, Token.word.injEq]
    constructor
    · rintro ⟨⟨⟩, hw, rfl⟩
      exact ⟨rfl, Table.checkName_eq_ok.mp hw⟩
    · rintro ⟨rfl, hw⟩
      exact ⟨⟨⟩, Table.checkName_eq_ok.mpr hw, rfl⟩
  | keyword | ending => simp [nameOf, Part.Admits]

theorem name_iff : name ts = .ok (n, rest) ↔ Reads [.name n] ts rest := by
  simp only [name, Except.map_eq_ok, nameOf_iff, Prod.mk.injEq]
  cases ts with
  | nil => simp [Reads, current, Part.Admits]
  | cons t ts => simp [Reads, current, and_comm]

theorem literal_iff : literal ts = .ok (v, rest) ↔ Reads [.literal v] ts rest := by
  cases ts with
  | nil => simp [literal, atEnd, current, Reads]
  | cons t ts =>
    by_cases ht : t = .ending
    · simp [literal, atEnd, current, ht, Reads, Part.Admits]
    · simp [literal, atEnd, current, ht, Reads, Part.Admits, and_comm]

theorem reads_expect {as : List Part} (h : expect k ts = .ok mid) (has : Reads as mid rest) :
    Reads (.keyword k :: as) ts rest := reads_append.mpr ⟨mid, expect_iff.mp h, has⟩

theorem reads_name (h : name ts = .ok (n, mid)) (has : Reads as mid rest) :
    Reads (.name n :: as) ts rest := reads_append.mpr ⟨mid, name_iff.mp h, has⟩

theorem expect_bind {α : Type} {f : List Token → Except Error α} {t : Token}
    (ht : (Part.keyword k).Admits t) : (expect k (t :: ts) >>= f) = f ts := by
  rw [expect_iff.mpr ⟨t, ts, rfl, ht, rfl⟩, Except.ok_bind]

theorem name_bind {α : Type} {f : String × List Token → Except Error α} {t : Token}
    (ht : (Part.name n).Admits t) : (name (t :: ts) >>= f) = f (n, ts) := by
  rw [name_iff.mpr ⟨t, ts, rfl, ht, rfl⟩, Except.ok_bind]

theorem literal_bind {α : Type} {f : String × List Token → Except Error α} {t : Token}
    (ht : (Part.literal v).Admits t) : (literal (t :: ts) >>= f) = f (v, ts) := by
  rw [literal_iff.mpr ⟨t, ts, rfl, ht, rfl⟩, Except.ok_bind]

end Reading

section Lists

variable {ts mid rest : List Token} {columns : List (String × ColumnType)}
  {names values : List String} {table : String} {seen : List String} {p : Predicate}
  {predicates : List Predicate}

theorem type?_iff {t : Token} {type : ColumnType} :
    t.keyword?.bind Keyword.type? = some type ↔ (Part.keyword (.type type)).Admits t := by
  rw [Option.bind_eq_some_iff]
  constructor
  · rintro ⟨k, hk, htype⟩
    exact Keyword.of_type? htype ▸ hk
  · intro ht
    exact ⟨_, ht, rfl⟩

theorem operator?_iff {t : Token} {op : Operator} :
    t.keyword?.bind Keyword.operator? = some op ↔ (Part.keyword (.operator op)).Admits t := by
  rw [Option.bind_eq_some_iff]
  constructor
  · rintro ⟨k, hk, hop⟩
    exact Keyword.of_operator? hop ▸ hk
  · intro ht
    exact ⟨_, ht, rfl⟩

theorem reads_columnList (h : columnList table seen ts = .ok columns) :
    ((∀ c ∈ columns, c.1 ∉ seen) ∧ (columns.map (·.1)).Nodup) ∧
      ∃ rest, Reads (columnParts columns) ts rest ∧ atEnd rest = true := by
  fun_induction columnList table seen ts generalizing columns with
  | case1 =>
    cases h
    exact ⟨⟨List.forall_mem_nil _, .nil⟩, [], rfl, rfl⟩
  | case2 seen ts =>
    cases h
    exact ⟨⟨List.forall_mem_nil _, .nil⟩, _, rfl, rfl⟩
  | case3 | case4 => cases h
  | case5 seen t _ type t' ts htype ih =>
    obtain ⟨n, hn, h⟩ := Except.bind_eq_ok.mp h
    dsimp only at h
    split at h
    · cases h
    · next hseen =>
      obtain ⟨more, hmore, he⟩ := Except.bind_eq_ok.mp h
      cases he
      obtain ⟨⟨hnew, hnodup⟩, rest, hreads, hend⟩ := ih n hmore
      have hlater : ∀ c ∈ more, c.1 ∉ seen ∧ c.1 ≠ n := fun c hc => by
        simpa using hnew c hc
      refine ⟨⟨List.forall_mem_cons.mpr ⟨hseen, fun c hc => (hlater c hc).1⟩, ?_⟩, rest, ?_, hend⟩
      · refine List.nodup_cons.mpr ⟨fun hmem => ?_, hnodup⟩
        obtain ⟨c, hc, he⟩ := List.mem_map.mp hmem
        exact (hlater c hc).2 he
      · exact ⟨t, _, rfl, type?_iff.mp htype, t', ts, rfl, nameOf_iff.mp hn, hreads⟩

theorem columnList_of_reads (hseen : ∀ c ∈ columns, c.1 ∉ seen)
    (hnodup : (columns.map (·.1)).Nodup) (h : Reads (columnParts columns) ts rest)
    (hend : atEnd rest = true) : columnList table seen ts = .ok columns := by
  induction columns generalizing seen ts with
  | nil =>
    have hts : ts = rest := h
    rcases atEnd_iff.mp hend with rfl | ⟨rest, rfl⟩
    · rw [hts, columnList]
    · rw [hts, columnList]
  | cons c columns ih =>
    obtain ⟨n, type⟩ := c
    obtain ⟨t, _, rfl, ht, t', ts, rfl, hn, h⟩ := h
    obtain ⟨hn', hnodup⟩ := List.nodup_cons.mp hnodup
    obtain ⟨hnew, hseen⟩ := List.forall_mem_cons.mp hseen
    have hmore : columnList table (seen ++ [n]) ts = .ok columns := by
      refine ih (fun c hc => ?_) hnodup h
      rw [List.mem_append, List.mem_singleton, not_or]
      exact ⟨hseen c hc, fun he => hn' (List.mem_map.mpr ⟨c, hc, he⟩)⟩
    rw [columnList.eq_def]
    split
    · next he => cases he
    · next he => exact absurd (List.cons.inj he).1 ht.ne_ending
    · next he =>
      cases he
      simp only [type?_iff.mpr ht, nameOf_iff.mpr hn, Except.ok_bind, if_neg hnew, hmore]
      rfl

/-- A list of names goes on up to the end or to FROM. -/
theorem nameList_iff : nameList ts = .ok (names, rest) ↔
    Reads (names.map .name) ts rest ∧ (atEnd rest = true ∨ starts .fromWord rest = true) := by
  constructor
  · intro h
    fun_induction nameList ts generalizing names with
    | case1 =>
      cases h
      exact ⟨rfl, .inl rfl⟩
    | case2 t ts ht =>
      cases h
      refine ⟨rfl, ?_⟩
      simpa [atEnd_cons, starts_cons] using ht
    | case3 t ts ht ih =>
      obtain ⟨n, hn, h⟩ := Except.bind_eq_ok.mp h
      obtain ⟨⟨more, rest⟩, hmore, he⟩ := Except.bind_eq_ok.mp h
      cases he
      obtain ⟨hreads, hstop⟩ := ih hmore
      exact ⟨⟨t, ts, rfl, nameOf_iff.mp hn, hreads⟩, hstop⟩
  · rintro ⟨hreads, hstop⟩
    induction names generalizing ts with
    | nil =>
      have hts : ts = rest := hreads
      rw [hts]
      cases rest with
      | nil => rfl
      | cons t rest =>
        rw [nameList, if_pos]
        simpa [atEnd_cons, starts_cons] using hstop
    | cons n names ih =>
      obtain ⟨t, mid, rfl, hn, hreads⟩ := hreads
      have hword : t = .word n := hn.1
      rw [nameList, if_neg (by simp [hword, Token.keyword?]), nameOf_iff.mpr hn, Except.ok_bind,
        ih hreads]
      rfl

/-- Values go on up to the end, whatever they spell. -/
theorem valueList_iff : valueList ts = .ok values ↔
    (∀ v ∈ values, fieldDelimiter ∉ v.toList) ∧
      ∃ rest, Reads (values.map .literal) ts rest ∧ atEnd rest = true := by
  constructor
  · intro h
    fun_induction valueList ts generalizing values with
    | case1 | case2 =>
      cases h
      exact ⟨List.forall_mem_nil _, _, rfl, rfl⟩
    | case3 => cases h
    | case4 =>
      rename_i t ts ht _ hdelimiter ih
      obtain ⟨more, hmore, he⟩ := Except.bind_eq_ok.mp h
      cases he
      obtain ⟨hvalues, rest, hreads, hend⟩ := ih hmore
      exact ⟨List.forall_mem_cons.mpr ⟨hdelimiter, hvalues⟩, rest,
        ⟨t, ts, rfl, ⟨ht, rfl⟩, hreads⟩, hend⟩
  · rintro ⟨hvalues, rest, hreads, hend⟩
    induction values generalizing ts with
    | nil =>
      have hts : ts = rest := hreads
      rcases atEnd_iff.mp hend with rfl | ⟨rest, rfl⟩
      · rw [hts, valueList]
      · rw [hts, valueList]
    | cons v values ih =>
      obtain ⟨t, mid, rfl, ⟨ht, rfl⟩, hreads⟩ := hreads
      obtain ⟨hdelimiter, hvalues⟩ := List.forall_mem_cons.mp hvalues
      rw [valueList.eq_def]
      split
      · next he => cases he
      · next he => exact absurd (List.cons.inj he).1 ht
      · next he =>
        cases he
        rw [if_neg hdelimiter, ih hvalues hreads]
        rfl

theorem predicate_iff : predicate ts = .ok (p, rest) ↔
    p.literal ≠ "" ∧ Reads (ledParts p) ts rest := by
  constructor
  · intro h
    obtain ⟨⟨n, ts₁⟩, hn, h⟩ := Except.bind_eq_ok.mp h
    obtain ⟨t, mid, rfl, hcolumn, rfl⟩ := name_iff.mp hn
    dsimp only at h
    split at h
    · cases h
    · next op hop =>
      cases mid with
      | nil => cases hop
      | cons t₁ mid =>
        obtain ⟨⟨v, ts₂⟩, hv, h⟩ := Except.bind_eq_ok.mp h
        dsimp only at h
        split at h
        · cases h
        · next hne =>
          cases h
          exact ⟨hne, t, _, rfl, hcolumn, t₁, mid, rfl, operator?_iff.mp hop, literal_iff.mp hv⟩
  · rintro ⟨hne, t, _, rfl, hcolumn, t₁, _, rfl, hop, t₂, rest, rfl, hliteral, rfl⟩
    have hname := name_iff.mpr ⟨t, t₁ :: t₂ :: rest, rfl, hcolumn, rfl⟩
    have hvalue := literal_iff.mpr ⟨t₂, rest, rfl, hliteral, rfl⟩
    simp only [predicate, hname, Except.ok_bind, current, operator?_iff.mpr hop, List.tail_cons, hvalue,
      if_neg hne]
    rfl

/-- Only a word can stand for a join. -/
theorem rejectJoin_eq_ok (h : ∀ w, current ts ≠ .word w) : rejectJoin ts = .ok () := by
  rw [rejectJoin]
  split
  · next w hw => exact absurd hw (h w)
  · rfl

theorem rejectJoin_of_atEnd (h : atEnd ts = true) : rejectJoin ts = .ok () := by
  refine rejectJoin_eq_ok fun w hw => ?_
  rw [atEnd, hw] at h
  cases h

theorem rejectJoin_of_starts {k : Keyword} (h : starts k ts = true) : rejectJoin ts = .ok () := by
  refine rejectJoin_eq_ok fun w hw => ?_
  rw [starts, hw] at h
  cases h

theorem reads_predicateList {fuel : Nat} (hfuel : ts.length < fuel)
    (h : predicateList fuel ts = .ok (predicates, rest)) :
    ∃ p more, predicates = p :: more ∧ (∀ q ∈ predicates, q.literal ≠ "") ∧
      Reads (ledParts p ++ predicateParts .and more) ts rest := by
  induction fuel generalizing ts predicates with
  | zero => exact absurd hfuel (Nat.not_lt_zero _)
  | succ fuel ih =>
    obtain ⟨⟨p, ts₁⟩, hp, h⟩ := Except.bind_eq_ok.mp h
    obtain ⟨hne, hreads⟩ := predicate_iff.mp hp
    have hlength := length_of_reads hreads
    dsimp only at h
    split at h
    · cases h
    · obtain ⟨⟨⟩, -, h⟩ := Except.bind_eq_ok.mp h
      split at h
      · next hand =>
        obtain ⟨⟨more, ts₂⟩, hmore, he⟩ := Except.bind_eq_ok.mp h
        cases he
        obtain ⟨t, mid, rfl, ht⟩ := starts_iff.mp hand
        rw [List.length_cons] at hlength
        obtain ⟨q, more, rfl, hliterals, hmore⟩ := ih (by rw [List.tail_cons]; omega) hmore
        exact ⟨p, _, rfl, List.forall_mem_cons.mpr ⟨hne, hliterals⟩,
          reads_append.mpr ⟨_, hreads, t, mid, rfl, ht, hmore⟩⟩
      · cases h
        exact ⟨p, [], rfl, List.forall_mem_singleton.mpr hne, reads_append.mpr ⟨_, hreads, rfl⟩⟩

theorem predicateList_of_reads {fuel : Nat} {more : List Predicate} (hfuel : ts.length < fuel)
    (hliterals : ∀ q ∈ p :: more, q.literal ≠ "")
    (h : Reads (ledParts p ++ predicateParts .and more) ts rest) (hend : atEnd rest = true) :
    predicateList fuel ts = .ok (p :: more, rest) := by
  induction fuel generalizing ts p more with
  | zero => exact absurd hfuel (Nat.not_lt_zero _)
  | succ fuel ih =>
    obtain ⟨hne, hliterals⟩ := List.forall_mem_cons.mp hliterals
    obtain ⟨ts₁, hreads, hmore⟩ := reads_append.mp h
    have hlength := length_of_reads hreads
    rw [predicateList, predicate_iff.mpr ⟨hne, hreads⟩, Except.ok_bind]
    cases more with
    | nil =>
      have hts₁ : ts₁ = rest := hmore
      simp only [hts₁, not_starts_of_atEnd hend, rejectJoin_of_atEnd hend, Except.ok_bind,
        Bool.false_eq_true, if_false]
      rfl
    | cons q more =>
      obtain ⟨t, mid, rfl, ht, hmore⟩ := hmore
      have hand : starts .and (t :: mid) = true := starts_iff.mpr ⟨t, mid, rfl, ht⟩
      rw [List.length_cons] at hlength
      have hrest := ih (by omega) hliterals hmore
      have hor : starts .or (t :: mid) = false := not_starts_of_starts (by decide) hand
      simp only [hor, rejectJoin_of_starts hand, hand, List.tail_cons, hrest, Except.ok_bind,
        Bool.false_eq_true, if_false, if_true]
      rfl

end Lists

section Forms

variable {ts mid rest : List Token} {c : Command} {k : Keyword}
  {form : List Token → Except Error (Command × List Token)}

/-- Up to the end, the form reads just the commands that a keyword leads, behind that keyword. -/
def Exact (lead : Keyword) (form : List Token → Except Error (Command × List Token)) : Prop :=
  ∀ ts c, (∃ rest, form ts = .ok (c, rest) ∧ atEnd rest = true) ↔
    Arranged c ∧ ∃ as, parts c = .keyword lead :: as ∧ ∃ rest, Reads as ts rest ∧ atEnd rest = true

theorem not_database {t : Token} (ht : (Part.keyword .table).Admits t) :
    ¬ starts .database (t :: ts) = true := by
  have htable := starts_iff.mpr ⟨t, ts, rfl, ht⟩
  rw [not_starts_of_starts (by decide) htable]
  exact Bool.false_ne_true

theorem exact_use : Exact .use fun ts => (name ts).map fun (n, ts) => (.useDatabase n, ts) := by
  intro ts c
  constructor
  · rintro ⟨rest, h, hend⟩
    obtain ⟨⟨n, ts₁⟩, hn, he⟩ := Except.map_eq_ok.mp h
    cases he
    exact ⟨trivial, _, rfl, rest, name_iff.mp hn, hend⟩
  · rintro ⟨-, as, hparts, rest, hreads, hend⟩
    cases c with
    | useDatabase n =>
      cases hparts
      exact ⟨rest, Except.map_eq_ok.mpr ⟨_, name_iff.mpr hreads, rfl⟩, hend⟩
    | _ => cases hparts

theorem exact_drop : Exact .drop dropStatement := by
  intro ts c
  constructor
  · rintro ⟨rest, h, hend⟩
    rw [dropStatement] at h
    split at h
    · next hdatabase =>
      obtain ⟨t, mid, rfl, ht⟩ := starts_iff.mp hdatabase
      obtain ⟨⟨n, ts₁⟩, hn, he⟩ := Except.bind_eq_ok.mp h
      cases he
      exact ⟨trivial, _, rfl, rest, ⟨t, mid, rfl, ht, name_iff.mp hn⟩, hend⟩
    · obtain ⟨ts₁, htable, h⟩ := Except.bind_eq_ok.mp h
      obtain ⟨⟨n, ts₂⟩, hn, he⟩ := Except.bind_eq_ok.mp h
      cases he
      exact ⟨trivial, _, rfl, rest, reads_expect htable (name_iff.mp hn), hend⟩
  · rintro ⟨-, as, hparts, rest, hreads, hend⟩
    cases c with
    | dropDatabase n =>
      cases hparts
      obtain ⟨t, mid, rfl, ht, t₁, ts, rfl, hn, rfl⟩ := hreads
      refine ⟨ts, ?_, hend⟩
      rw [dropStatement, if_pos (starts_iff.mpr ⟨t, _, rfl, ht⟩)]
      exact name_bind hn
    | dropTable n =>
      cases hparts
      obtain ⟨t, mid, rfl, ht, t₁, ts, rfl, hn, rfl⟩ := hreads
      refine ⟨ts, ?_, hend⟩
      rw [dropStatement, if_neg (not_database ht), expect_bind ht]
      exact name_bind hn
    | _ => cases hparts

theorem exact_create : Exact .create createStatement := by
  intro ts c
  constructor
  · rintro ⟨rest, h, hend⟩
    rw [createStatement] at h
    split at h
    · next hdatabase =>
      obtain ⟨t, mid, rfl, ht⟩ := starts_iff.mp hdatabase
      obtain ⟨⟨n, ts₁⟩, hn, he⟩ := Except.bind_eq_ok.mp h
      cases he
      exact ⟨trivial, _, rfl, rest, ⟨t, mid, rfl, ht, name_iff.mp hn⟩, hend⟩
    · obtain ⟨ts₁, htable, h⟩ := Except.bind_eq_ok.mp h
      obtain ⟨⟨n, ts₂⟩, hn, h⟩ := Except.bind_eq_ok.mp h
      obtain ⟨columns, hcolumns, h⟩ := Except.bind_eq_ok.mp h
      obtain ⟨⟨-, hnodup⟩, rest', hreads, hend'⟩ := reads_columnList hcolumns
      cases columns with
      | nil => cases h
      | cons column columns =>
        cases h
        exact ⟨⟨List.cons_ne_nil _ _, hnodup⟩, _, rfl, rest',
          reads_expect htable (reads_name hn hreads), hend'⟩
  · rintro ⟨harranged, as, hparts, rest, hreads, hend⟩
    cases c with
    | createDatabase n =>
      cases hparts
      obtain ⟨t, mid, rfl, ht, t₁, ts, rfl, hn, rfl⟩ := hreads
      refine ⟨ts, ?_, hend⟩
      rw [createStatement, if_pos (starts_iff.mpr ⟨t, _, rfl, ht⟩)]
      exact name_bind hn
    | createTable n columns =>
      cases hparts
      obtain ⟨t, mid, rfl, ht, t₁, ts, rfl, hn, hcolumns⟩ := hreads
      obtain ⟨hne, hnodup⟩ := harranged
      refine ⟨[], ?_, rfl⟩
      rw [createStatement, if_neg (not_database ht), expect_bind ht, name_bind hn]
      have hlist : columnList n [] ts = .ok columns :=
        columnList_of_reads (fun _ _ => List.not_mem_nil) hnodup hcolumns hend
      obtain ⟨column, columns, rfl⟩ := List.exists_cons_of_ne_nil hne
      simp only [hlist, Except.ok_bind]
      rfl
    | _ => cases hparts

theorem exact_add : Exact .add addStatement := by
  intro ts c
  constructor
  · rintro ⟨rest, h, hend⟩
    cases ts with
    | nil => cases h
    | cons t ts =>
      obtain ⟨⟨n, ts₁⟩, hn, h⟩ := Except.bind_eq_ok.mp h
      obtain ⟨⟨m, ts₂⟩, hm, h⟩ := Except.bind_eq_ok.mp h
      have hreads {as : List Part} {rest : List Token} (has : Reads as ts₂ rest) :
          Reads (.name n :: .name m :: as) ts rest := reads_name hn (reads_name hm has)
      dsimp only at h
      split at h
      · next ht =>
        cases h
        exact ⟨trivial, _, rfl, rest, ⟨t, ts, rfl, ht, hreads rfl⟩, hend⟩
      · next ht =>
        cases h
        exact ⟨trivial, _, rfl, rest, ⟨t, ts, rfl, ht, hreads rfl⟩, hend⟩
      · next ht =>
        cases h
        exact ⟨trivial, _, rfl, rest, ⟨t, ts, rfl, ht, hreads rfl⟩, hend⟩
      · next ht =>
        obtain ⟨⟨p, ts₃⟩, hp, h⟩ := Except.bind_eq_ok.mp h
        obtain ⟨⟨pc, ts₄⟩, hpc, he⟩ := Except.bind_eq_ok.mp h
        cases he
        exact ⟨trivial, _, rfl, ts₄,
          ⟨t, ts, rfl, ht, hreads (reads_name hp (name_iff.mp hpc))⟩, hend⟩
      · cases h
      · cases h
  · rintro ⟨-, as, hparts, rest, hreads, hend⟩
    cases c with
    | addPrimaryKey n m | addUnique n m | addIndex n m =>
      cases hparts
      obtain ⟨t, _, rfl, ht, t₁, _, rfl, hn, t₂, ts, rfl, hm, rfl⟩ := hreads
      have hkind : t.keyword? = some _ := ht
      refine ⟨ts, ?_, hend⟩
      simp only [addStatement, List.tail_cons, name_bind hn, name_bind hm, current, hkind]
      rfl
    | addForeignKey n m p pc =>
      cases hparts
      obtain ⟨t, _, rfl, ht, t₁, _, rfl, hn, t₂, _, rfl, hm, t₃, _, rfl, hp, t₄, ts, rfl, hpc, rfl⟩ :=
        hreads
      have hkind : t.keyword? = some _ := ht
      refine ⟨ts, ?_, hend⟩
      simp only [addStatement, List.tail_cons, name_bind hn, name_bind hm, current, hkind,
        name_bind hp, name_bind hpc]
      rfl
    | _ => cases hparts

theorem exact_insert : Exact .insert insertStatement := by
  intro ts c
  constructor
  · rintro ⟨rest, h, hend⟩
    obtain ⟨ts₁, hinto, h⟩ := Except.bind_eq_ok.mp h
    obtain ⟨⟨n, ts₂⟩, hn, h⟩ := Except.bind_eq_ok.mp h
    obtain ⟨ts₃, hkeyword, h⟩ := Except.bind_eq_ok.mp h
    obtain ⟨values, hvalues, h⟩ := Except.bind_eq_ok.mp h
    obtain ⟨hdelimiter, rest', hreads, hend'⟩ := valueList_iff.mp hvalues
    split at h
    · cases h
    · cases h
    · next hnil hempty =>
      cases h
      exact ⟨⟨hnil, hempty, hdelimiter⟩, _, rfl, rest',
        reads_expect hinto (reads_name hn (reads_expect hkeyword hreads)), hend'⟩
  · rintro ⟨harranged, as, hparts, rest, hreads, hend⟩
    cases c with
    | insert n values =>
      cases hparts
      obtain ⟨t, _, rfl, hinto, t₁, _, rfl, hn, t₂, ts, rfl, hkeyword, hvalues⟩ := hreads
      obtain ⟨hnil, hempty, hdelimiter⟩ := harranged
      refine ⟨[], ?_, rfl⟩
      have hlist := valueList_iff.mpr ⟨hdelimiter, rest, hvalues, hend⟩
      simp only [insertStatement, expect_bind hinto, name_bind hn, expect_bind hkeyword, hlist,
        Except.ok_bind]
      rfl
    | _ => cases hparts

theorem exact_delete : Exact .delete deleteStatement := by
  intro ts c
  constructor
  · rintro ⟨rest, h, hend⟩
    obtain ⟨ts₁, hfrom, h⟩ := Except.bind_eq_ok.mp h
    obtain ⟨⟨n, ts₂⟩, hn, h⟩ := Except.bind_eq_ok.mp h
    obtain ⟨ts₃, hwhere, h⟩ := Except.bind_eq_ok.mp h
    obtain ⟨⟨id, ts₄⟩, hid, h⟩ := Except.bind_eq_ok.mp h
    dsimp only at h
    split at h
    · cases h
    · next hne =>
      cases h
      exact ⟨hne, _, rfl, rest,
        reads_expect hfrom (reads_name hn (reads_expect hwhere (literal_iff.mp hid))), hend⟩
  · rintro ⟨harranged, as, hparts, rest, hreads, hend⟩
    cases c with
    | delete n id =>
      cases hparts
      obtain ⟨t, _, rfl, hfrom, t₁, _, rfl, hn, t₂, _, rfl, hwhere, t₃, ts, rfl, hid, rfl⟩ := hreads
      have hne : id ≠ "" := harranged
      refine ⟨ts, ?_, hend⟩
      simp only [deleteStatement, expect_bind hfrom, name_bind hn, expect_bind hwhere,
        literal_bind hid, if_neg hne]
      rfl
    | _ => cases hparts

theorem projection_iff {p : Projection} (hfrom : starts .fromWord rest = true) :
    projection ts = .ok (p, rest) ↔ p ≠ .columns [] ∧ Reads (projectionParts p) ts rest := by
  constructor
  · intro h
    rw [projection] at h
    split at h
    · next hall =>
      obtain ⟨t, mid, rfl, ht⟩ := starts_iff.mp hall
      cases h
      exact ⟨fun he => (by cases he), t, _, rfl, ht, rfl⟩
    · obtain ⟨⟨names, ts₁⟩, hnames, h⟩ := Except.bind_eq_ok.mp h
      cases names with
      | nil => cases h
      | cons n names =>
        cases h
        exact ⟨fun he => (by cases he), (nameList_iff.mp hnames).1⟩
  · rintro ⟨hne, hreads⟩
    cases p with
    | all =>
      obtain ⟨t, mid, rfl, ht, rfl⟩ := hreads
      rw [projection, if_pos (starts_iff.mpr ⟨t, mid, rfl, ht⟩)]
      rfl
    | columns names =>
      cases names with
      | nil => exact absurd rfl hne
      | cons n names =>
        have hnames := nameList_iff.mpr ⟨hreads, .inr hfrom⟩
        obtain ⟨t, mid, rfl, ⟨rfl, -⟩, -⟩ := hreads
        have hall : ¬ starts .all (Token.word n :: mid) = true := by
          simp [starts_cons, Token.keyword?]
        rw [projection, if_neg hall, hnames]
        rfl

theorem exact_select : Exact .select selectStatement := by
  intro ts c
  constructor
  · rintro ⟨rest, h, hend⟩
    obtain ⟨⟨p, ts₁⟩, hp, h⟩ := Except.bind_eq_ok.mp h
    obtain ⟨ts₂, hfrom, h⟩ := Except.bind_eq_ok.mp h
    obtain ⟨⟨n, ts₃⟩, hn, h⟩ := Except.bind_eq_ok.mp h
    obtain ⟨⟨⟩, -, h⟩ := Except.bind_eq_ok.mp h
    have hstarts : starts .fromWord ts₁ = true := by
      obtain ⟨t, mid, hts₁, ht, -⟩ := expect_iff.mp hfrom
      exact starts_iff.mpr ⟨t, mid, hts₁, ht⟩
    obtain ⟨hne, hreads⟩ := (projection_iff hstarts).mp hp
    have hall (predicates : List Predicate)
        (hpredicates : Reads (predicateParts .whereWord predicates) ts₃ rest) :
        Reads (projectionParts p ++ .keyword .fromWord :: .name n ::
          predicateParts .whereWord predicates) ts rest :=
      reads_append.mpr ⟨_, hreads, reads_expect hfrom (reads_name hn hpredicates)⟩
    dsimp only at h
    split at h
    · next hwhere =>
      obtain ⟨⟨predicates, ts₄⟩, hpredicates, he⟩ := Except.bind_eq_ok.mp h
      cases he
      obtain ⟨t₃, mid, rfl, ht₃⟩ := starts_iff.mp hwhere
      have hfuel : mid.length < (t₃ :: mid).length := Nat.lt_succ_self _
      obtain ⟨q, more, rfl, hliterals, hmore⟩ := reads_predicateList hfuel hpredicates
      exact ⟨⟨hne, hliterals⟩, _, rfl, ts₄, hall (q :: more) ⟨t₃, mid, rfl, ht₃, hmore⟩,
        hend⟩
    · cases h
      exact ⟨⟨hne, List.forall_mem_nil _⟩, _, rfl, rest, hall [] rfl, hend⟩
  · rintro ⟨harranged, as, hparts, rest, hreads, hend⟩
    cases c with
    | select n p predicates =>
      cases hparts
      obtain ⟨hne, hliterals⟩ := harranged
      obtain ⟨ts₁, hp, t, _, rfl, hfrom, t₁, ts₃, rfl, hn, hpredicates⟩ := reads_append.mp hreads
      have hprojection := (projection_iff (starts_iff.mpr ⟨t, _, rfl, hfrom⟩)).mpr ⟨hne, hp⟩
      refine ⟨rest, ?_, hend⟩
      simp only [selectStatement, hprojection, Except.ok_bind, expect_bind hfrom, name_bind hn]
      cases predicates with
      | nil =>
        have hts₃ : ts₃ = rest := hpredicates
        simp only [hts₃, rejectJoin_of_atEnd hend, Except.ok_bind, not_starts_of_atEnd hend,
          Bool.false_eq_true, if_false]
        rfl
      | cons q more =>
        obtain ⟨t₃, mid, rfl, ht₃, hmore⟩ := hpredicates
        have hwhere : starts .whereWord (t₃ :: mid) = true := starts_iff.mpr ⟨t₃, mid, rfl, ht₃⟩
        have hfuel : mid.length < (t₃ :: mid).length := Nat.lt_succ_self _
        have hlist := predicateList_of_reads hfuel hliterals hmore hend
        simp only [rejectJoin_of_starts hwhere, Except.ok_bind, hwhere, if_true, List.tail_cons, hlist]
        rfl
    | _ => cases hparts

/-- The form of a statement that a keyword leads. -/
def form? : Keyword → Option (List Token → Except Error (Command × List Token))
  | .use => some fun ts => (name ts).map fun (n, ts) => (.useDatabase n, ts)
  | .create => some createStatement
  | .drop => some dropStatement
  | .add => some addStatement
  | .insert => some insertStatement
  | .delete => some deleteStatement
  | .select => some selectStatement
  | _ => none

theorem exact_of_form? (h : form? k = some form) : Exact k form := by
  cases k with
  | use =>
    cases h
    exact exact_use
  | create =>
    cases h
    exact exact_create
  | drop =>
    cases h
    exact exact_drop
  | add =>
    cases h
    exact exact_add
  | insert =>
    cases h
    exact exact_insert
  | delete =>
    cases h
    exact exact_delete
  | select =>
    cases h
    exact exact_select
  | _ => cases h

theorem statement_cons {t : Token} {ts : List Token} : statement (t :: ts) = .ok (.command c, rest) ↔
    ∃ k form, t.keyword? = some k ∧ form? k = some form ∧ form ts = .ok (c, rest) := by
  have hcurrent : current (t :: ts) = t := rfl
  simp only [statement, hcurrent, List.tail_cons]
  cases hk : t.keyword? with
  | none => simp
  | some k => cases k <;> simp [form?, Except.map_eq_ok]

theorem exists_form (c : Command) :
    ∃ k as form, parts c = .keyword k :: as ∧ form? k = some form := by
  cases c <;> exact ⟨_, _, _, rfl, rfl⟩

/-- Tokens are a statement of a command just if they are its parts, up to the end. -/
theorem statement_iff : (∃ rest, statement ts = .ok (.command c, rest) ∧ atEnd rest = true) ↔
    Arranged c ∧ ∃ rest, Reads (parts c) ts rest ∧ atEnd rest = true := by
  constructor
  · rintro ⟨rest, h, hend⟩
    cases ts with
    | nil => cases h
    | cons t ts =>
      obtain ⟨k, form, hk, hform, h⟩ := statement_cons.mp h
      obtain ⟨harranged, as, hparts, rest, hreads, hend⟩ :=
        (exact_of_form? hform ts c).mp ⟨rest, h, hend⟩
      exact ⟨harranged, rest, hparts ▸ ⟨t, ts, rfl, hk, hreads⟩, hend⟩
  · rintro ⟨harranged, rest, hreads, hend⟩
    obtain ⟨k, as, form, hparts, hform⟩ := exists_form c
    rw [hparts] at hreads
    obtain ⟨t, ts, rfl, hk, hreads⟩ := hreads
    obtain ⟨rest, h, hend⟩ :=
      (exact_of_form? hform ts c).mpr ⟨harranged, as, hparts, rest, hreads, hend⟩
    exact ⟨rest, statement_cons.mpr ⟨k, form, hk, hform, h⟩, hend⟩

end Forms

end RelStore.CommandLine

import RelStore.Proofs.RowText
import RelStore.Proofs.Words
import RelStore.Wire.Request
/-! The places of a request. Which words a request has for a command is told place by place, and
words are read as just the command whose places they are in. -/
namespace RelStore

/-- A place in a request: for a keyword, or for one text. -/
inductive Place where
  | keyword (k : Keyword)
  | word (w : Word)
  deriving DecidableEq

namespace Place

def token : Place → Word
  | keyword k => k.token
  | word w => w

/-- A keyword may have its code in any form, a text is as it is. -/
def Admits : Place → Word → Prop
  | keyword k, w => Keyword.ofToken? w = some k
  | word v, w => w = v

theorem admits_token (a : Place) : a.Admits a.token := by
  cases a with
  | keyword k => exact k.ofToken?_token
  | word w => rfl

theorem isWord_of_admits {places : List Place} {ws : List Word} (h : List.Forall₂ Admits places ws)
    (hws : ∀ w ∈ ws, Text.IsWord w) : ∀ w ∈ places.map token, Text.IsWord w := by
  induction h with
  | nil => exact hws
  | @cons a w places ws ha _ ih =>
    obtain ⟨hw, hws⟩ := List.forall_mem_cons.mp hws
    refine List.forall_mem_cons.mpr ⟨?_, ih hws⟩
    cases a with
    | keyword k => exact k.isWord_token
    | word v =>
      have hwv : w = v := ha
      exact hwv ▸ hw

end Place

def predicatePlaces (lead : Keyword) : List Predicate → List Place
  | [] => []
  | p :: rest =>
    [.keyword lead, .word p.column.toList, .keyword (.operator p.op), .word p.literal.toList] ++
      predicatePlaces .and rest

def columnPlaces (columns : List (String × ColumnType)) : List Place :=
  columns.flatMap fun c => [.keyword (.type c.2), .word c.1.toList]

def Projection.places : Projection → List Place
  | .all => [.keyword .all]
  | .columns names => .keyword .columns :: names.map fun n => .word n.toList

namespace Command

def places : Command → List Place
  | createDatabase n => [.keyword .create, .keyword .database, .word n.toList]
  | dropDatabase n => [.keyword .drop, .keyword .database, .word n.toList]
  | useDatabase n => [.keyword .use, .word n.toList]
  | createTable n columns =>
    [.keyword .create, .keyword .table, .word n.toList] ++ columnPlaces columns
  | dropTable n => [.keyword .drop, .keyword .table, .word n.toList]
  | insert t values =>
    [.keyword .insert, .word t.toList,
      .word (Text.joinFields fieldDelimiter (values.map String.toList))]
  | delete t id =>
    [.keyword .delete, .keyword .fromWord, .word t.toList, .keyword .whereWord, .word id.toList]
  | addPrimaryKey t c => [.keyword .add, .keyword .pk, .word t.toList, .word c.toList]
  | addForeignKey t c p pc =>
    [.keyword .add, .keyword .fk, .word t.toList, .word c.toList, .word p.toList, .word pc.toList]
  | addUnique t c => [.keyword .add, .keyword .uq, .word t.toList, .word c.toList]
  | addIndex t c => [.keyword .add, .keyword .index, .word t.toList, .word c.toList]
  | select t projection predicates =>
    .keyword .select :: (projection.places ++
      .keyword .fromWord :: .word t.toList :: predicatePlaces .whereWord predicates)

end Command

/-- A text that is a word of a request: not empty, and without white space. -/
abbrev Carried (s : String) : Prop := Text.IsWord s.toList

def Projection.WireSafe : Projection → Prop
  | .all => True
  | .columns names =>
    names ≠ [] ∧ ∀ n ∈ names, Carried n ∧ Keyword.ofToken? n.toList ≠ some .fromWord

/-- A command that a request can say. Values are packed into one word, and a list of columns ends at
what reads as FROM. -/
def Command.WireSafe : Command → Prop
  | createDatabase n | dropDatabase n | useDatabase n | dropTable n => Carried n
  | createTable n columns => Carried n ∧ columns ≠ [] ∧ ∀ c ∈ columns, Carried c.1
  | insert t values =>
    Carried t ∧ values ≠ [] ∧ values ≠ [""] ∧
      ∀ v ∈ values, Text.Unbroken Text.isBlank v.toList ∧ fieldDelimiter ∉ v.toList
  | delete t id => Carried t ∧ Carried id
  | addPrimaryKey t c | addUnique t c | addIndex t c => Carried t ∧ Carried c
  | addForeignKey t c p pc => Carried t ∧ Carried c ∧ Carried p ∧ Carried pc
  | select t projection predicates =>
    Carried t ∧ projection.WireSafe ∧ ∀ p ∈ predicates, Carried p.column ∧ Carried p.literal

instance : (p : Projection) → Decidable p.WireSafe
  | .all => inferInstanceAs (Decidable True)
  | .columns _ => inferInstanceAs (Decidable (_ ∧ _))

instance : (c : Command) → Decidable c.WireSafe
  | .createDatabase _ | .dropDatabase _ | .useDatabase _ | .dropTable _ =>
    inferInstanceAs (Decidable (Carried _))
  | .createTable _ _ | .insert _ _ | .delete _ _ | .addPrimaryKey _ _ | .addUnique _ _
  | .addIndex _ _ | .addForeignKey _ _ _ _ | .select _ _ _ => inferInstanceAs (Decidable (_ ∧ _))

/-- What reading words in their places guarantees, whatever characters they have. -/
def Command.Regular : Command → Prop
  | createTable _ columns => columns ≠ []
  | insert _ values => values ≠ [] ∧ ∀ v ∈ values, fieldDelimiter ∉ v.toList
  | select _ (.columns names) _ =>
    names ≠ [] ∧ ∀ n ∈ names, Keyword.ofToken? n.toList ≠ some .fromWord
  | _ => True

section Words

theorem words_predicatePlaces (lead : Keyword) (predicates : List Predicate) :
    Command.predicateWords lead predicates = (predicatePlaces lead predicates).map Place.token := by
  induction predicates generalizing lead with
  | nil => rfl
  | cons p rest ih => rw [Command.predicateWords, predicatePlaces, List.map_append, ← ih]; rfl

theorem words_columnPlaces (columns : List (String × ColumnType)) :
    (columns.flatMap fun c => [(Keyword.type c.2).token, c.1.toList]) =
      (columnPlaces columns).map Place.token := by
  rw [columnPlaces, List.map_flatMap]
  rfl

theorem Command.words_eq (c : Command) : c.words = c.places.map Place.token := by
  cases c with
  | createTable n columns =>
    rw [words, places, List.map_append, ← words_columnPlaces]
    rfl
  | select t projection predicates =>
    rw [places, List.map_cons, List.map_append, List.map_cons, List.map_cons, ← words_predicatePlaces]
    cases projection with
    | all => rfl
    | columns names =>
      simp only [words, Projection.places, List.map_cons, List.map_map, List.append_assoc]
      rfl
  | _ => rfl

theorem isWord_packed {values : List String} (hne : values ≠ []) :
    Text.IsWord (Text.joinFields fieldDelimiter (values.map String.toList)) ↔
      values ≠ [""] ∧ ∀ v ∈ values, Text.Unbroken Text.isBlank v.toList := by
  change ¬ _ = [] ∧ _ ↔ _
  rw [Text.joinFields_eq_nil (by simpa using hne), Text.unbroken_joinFields (by decide),
    List.forall_mem_map]
  simp [List.map_eq_singleton_iff]

theorem forall_isWord_predicateWords {lead : Keyword} {predicates : List Predicate} :
    (∀ w ∈ Command.predicateWords lead predicates, Text.IsWord w) ↔
      ∀ p ∈ predicates, Carried p.column ∧ Carried p.literal := by
  induction predicates generalizing lead with
  | nil => simp [Command.predicateWords]
  | cons p rest ih => simp [Command.predicateWords, ih, Keyword.isWord_token, and_assoc]

theorem forall_isWord_columnWords {columns : List (String × ColumnType)} :
    (∀ w ∈ columns.flatMap fun c => [(Keyword.type c.2).token, c.1.toList], Text.IsWord w) ↔
      ∀ c ∈ columns, Carried c.1 := by
  rw [List.forall_mem_flatMap]
  refine forall₂_congr fun c _ => ?_
  simp [Keyword.isWord_token]

/-- What a request cannot say is against its places, or is no word. -/
theorem Command.wireSafe_iff (c : Command) :
    c.WireSafe ↔ c.Regular ∧ ∀ w ∈ c.words, Text.IsWord w := by
  have htoken (k : Keyword) : Text.IsWord k.token := k.isWord_token
  cases c with
  | insert t values =>
    by_cases hne : values = []
    · simp [WireSafe, Regular, hne]
    · simp only [WireSafe, Regular, words, kw, List.forall_mem_cons, htoken, isWord_packed hne,
        forall_and]
      tauto
  | createTable n columns =>
    simp only [WireSafe, Regular, words, kw, List.forall_mem_append, List.forall_mem_cons, htoken,
      forall_isWord_columnWords, List.not_mem_nil, false_implies, implies_true, true_and, and_true]
    exact and_left_comm
  | select t projection predicates =>
    cases projection with
    | all =>
      simp [WireSafe, Projection.WireSafe, Regular, words, kw, htoken, forall_isWord_predicateWords]
    | columns names =>
      simp only [WireSafe, Projection.WireSafe, Regular, words, kw, List.forall_mem_append,
        List.forall_mem_cons, htoken, forall_isWord_predicateWords, List.forall_mem_map, forall_and,
        List.not_mem_nil, false_implies, implies_true, true_and, and_true]
      tauto
  | _ => simp [WireSafe, Regular, words, kw, htoken]

end Words

/-- The words of some places come first, and the rest is left. -/
inductive Reads : List Place → List Word → List Word → Prop where
  | done (ws : List Word) : Reads [] ws ws
  | next {a : Place} {places : List Place} {w : Word} {ws rest : List Word} (h : a.Admits w)
    (hs : Reads places ws rest) : Reads (a :: places) (w :: ws) rest

namespace Reads

variable {places more : List Place} {ws mid rest : List Word} {what n : String} {k : Keyword}

theorem append (h : Reads places ws mid) (hmore : Reads more mid rest) :
    Reads (places ++ more) ws rest := by
  induction h with
  | done => exact hmore
  | next h _ ih => exact .next h (ih hmore)

theorem forall₂ (h : Reads places ws rest) (hrest : rest = []) :
    List.Forall₂ Place.Admits places ws := by
  induction h with
  | done =>
    rw [hrest]
    exact .nil
  | next h _ ih => exact .cons h (ih hrest)

theorem of_append (h : Reads (places ++ more) ws rest) :
    ∃ mid, Reads places ws mid ∧ Reads more mid rest := by
  induction places generalizing ws with
  | nil => exact ⟨ws, .done ws, h⟩
  | cons a places ih =>
    cases h with
    | next ha h =>
      obtain ⟨mid, hplaces, hmore⟩ := ih h
      exact ⟨mid, .next ha hplaces, hmore⟩

theorem of_forall₂ (h : List.Forall₂ Place.Admits places ws) : Reads places ws [] := by
  induction h with
  | nil => exact .done []
  | cons h _ ih => exact .next h ih

theorem word (h : Request.takeWord what ws = .ok (n, mid)) (hs : Reads places mid rest) :
    Reads (.word n.toList :: places) ws rest := by
  cases ws with
  | nil => cases h
  | cons w ws =>
    cases h
    exact .next String.toList_ofList.symm hs

theorem keyword (h : Request.takeKeyword what ws = .ok (k, mid)) (hs : Reads places mid rest) :
    Reads (.keyword k :: places) ws rest := by
  cases ws with
  | nil => cases h
  | cons w ws =>
    rw [Request.takeKeyword] at h
    split at h
    · next hk =>
      cases h
      exact .next hk hs
    · cases h

theorem expected (h : Request.expect k ws = .ok mid) (hs : Reads places mid rest) :
    Reads (.keyword k :: places) ws rest := by
  cases ws with
  | nil => cases h
  | cons w ws =>
    rw [Request.expect] at h
    split at h
    · next hk =>
      cases h
      exact .next hk hs
    · cases h

end Reads

theorem Keyword.of_type? {k : Keyword} {t : ColumnType} (h : k.type? = some t) : k = .type t := by
  cases k with
  | type t' =>
    cases h
    rfl
  | _ => cases h

theorem Keyword.of_operator? {k : Keyword} {o : Operator} (h : k.operator? = some o) :
    k = .operator o := by
  cases k with
  | operator o' =>
    cases h
    rfl
  | _ => cases h

namespace Request

variable {ws rest : List Word} {c : Command} {k lead : Keyword} {w : Word}
  {columns : List (String × ColumnType)} {names : List String} {predicates : List Predicate}

theorem reads_columnList (h : columnList ws = .ok columns) : Reads (columnPlaces columns) ws [] := by
  fun_induction columnList ws generalizing columns with
  | case1 =>
    cases h
    exact .done []
  | case2 | case3 | case4 => cases h
  | case5 w k hk t name rest ht ih =>
    obtain ⟨more, hmore, he⟩ := Except.bind_eq_ok.mp h
    cases he
    rw [Keyword.of_type? ht] at hk
    exact .next hk (.next String.toList_ofList.symm (ih hmore))

theorem reads_nameList (h : nameList ws = (names, rest)) :
    Reads (names.map fun n => .word n.toList) ws rest ∧
      ∀ n ∈ names, Keyword.ofToken? n.toList ≠ some .fromWord := by
  fun_induction nameList ws generalizing names rest with
  | case1 =>
    cases h
    exact ⟨.done _, fun _ hn => (nomatch hn)⟩
  | case2 w ws hw =>
    cases h
    exact ⟨.done _, fun _ hn => (nomatch hn)⟩
  | case3 w ws hw names rest hmore ih =>
    cases h
    obtain ⟨hreads, hnames⟩ := ih hmore
    refine ⟨.next String.toList_ofList.symm hreads, List.forall_mem_cons.mpr ⟨?_, hnames⟩⟩
    rwa [shown, String.toList_ofList]

/-- The checks of a word that leads a predicate. -/
def checkLead (lead : Keyword) (w : Word) : Except Error Unit :=
  if lead = .and ∧ Keyword.ofToken? w = some .or then
    .error (.protocol "OR conditions are not supported")
  else if lead = .and ∧ isJoin w = true then .error (.protocol "joins are not supported")
  else if Keyword.ofToken? w = some lead then .ok ()
  else .error (.unexpectedToken lead.title (shown w))

/-- A predicate after the word that leads it, and the predicates that follow. -/
def ledPredicates : List Word → Except Error (List Predicate)
  | [] => throw (.unexpectedEnd "column name")
  | [_] => throw (.unexpectedEnd "comparison operator")
  | column :: op :: rest =>
    match Keyword.ofToken? op with
    | none => throw (.unexpectedToken "comparison operator" (shown op))
    | some k =>
      match k.operator?, rest with
      | none, _ => throw (.unexpectedToken "comparison operator" k.title)
      | some _, [] => throw (.unexpectedEnd "literal")
      | some o, literal :: rest => do
        let predicates ← predicateList .and rest
        return ⟨shown column, o, shown literal⟩ :: predicates

theorem predicateList_cons :
    predicateList lead (w :: ws) = (checkLead lead w >>= fun _ => ledPredicates ws) := by
  rw [predicateList.eq_def]
  dsimp only
  -- the cases follow the order of the checks, of which the first that fails decides
  by_cases hand : lead = .and
  · rw [if_pos hand]
    by_cases hor : Keyword.ofToken? w = some .or
    · rw [if_pos hor, checkLead, if_pos (And.intro hand hor)]
      rfl
    · rw [if_neg hor, checkLead, if_neg (not_and_of_not_right _ hor), rejectJoin]
      by_cases hjoin : isJoin w = true
      · rw [if_pos hjoin, if_pos (And.intro hand hjoin)]
        rfl
      · rw [if_neg hjoin, if_neg (not_and_of_not_right _ hjoin), Except.ok_bind, ite_not]
        split <;> rfl
  · rw [if_neg hand, checkLead, if_neg (not_and_of_not_left _ hand),
      if_neg (not_and_of_not_left _ hand), ite_not]
    split <;> rfl

theorem checkLead_eq_ok : checkLead lead w = .ok () ↔ Keyword.ofToken? w = some lead := by
  rw [checkLead]
  constructor
  · intro h
    split at h
    · cases h
    · split at h
      · cases h
      · split at h
        · assumption
        · cases h
  · intro hlead
    rw [if_neg, if_neg, if_pos hlead]
    · rw [Keyword.isJoin_eq_false hlead]
      exact fun h => Bool.noConfusion h.2
    · rintro ⟨rfl, hor⟩
      rw [hlead] at hor
      cases hor

theorem ledPredicates_eq_ok : ledPredicates ws = .ok predicates ↔
    ∃ column op literal o rest more, ws = column :: op :: literal :: rest ∧
      Keyword.ofToken? op = some (.operator o) ∧ predicateList .and rest = .ok more ∧
      predicates = ⟨shown column, o, shown literal⟩ :: more := by
  constructor
  · intro h
    rcases ws with _ | ⟨column, _ | ⟨op, rest⟩⟩
    · cases h
    · cases h
    · rw [ledPredicates] at h
      cases hk : Keyword.ofToken? op with
      | none =>
        rw [hk] at h
        cases h
      | some k =>
        rw [hk] at h
        dsimp only at h
        split at h
        · cases h
        · cases h
        · next o literal rest ho =>
          obtain ⟨more, hmore, he⟩ := Except.bind_eq_ok.mp h
          cases he
          rw [Keyword.of_operator? ho] at hk
          exact ⟨column, op, literal, o, rest, more, rfl, hk, hmore, rfl⟩
  · rintro ⟨column, op, literal, o, rest, more, rfl, hop, hmore, rfl⟩
    simp only [ledPredicates, hop, Keyword.operator?, hmore]
    rfl

theorem reads_predicateList (h : predicateList lead ws = .ok predicates) :
    Reads (predicatePlaces lead predicates) ws [] := by
  -- not by the words: a predicate takes four of them, so the result is what gets smaller by one
  induction predicates generalizing lead ws with
  | nil =>
    cases ws with
    | nil => exact .done []
    | cons w ws =>
      rw [predicateList_cons] at h
      obtain ⟨⟨⟩, -, h⟩ := Except.bind_eq_ok.mp h
      obtain ⟨column, op, literal, o, rest, more, -, -, -, he⟩ := ledPredicates_eq_ok.mp h
      cases he
  | cons p rest ih =>
    cases ws with
    | nil => cases h
    | cons w ws =>
      rw [predicateList_cons] at h
      obtain ⟨⟨⟩, hlead, h⟩ := Except.bind_eq_ok.mp h
      obtain ⟨column, op, literal, o, rest, more, rfl, hop, hmore, he⟩ := ledPredicates_eq_ok.mp h
      cases he
      exact .next (checkLead_eq_ok.mp hlead) (.next String.toList_ofList.symm (.next hop
        (.next String.toList_ofList.symm (ih hmore))))

theorem reads_create (hw : Keyword.ofToken? w = some .create)
    (h : createCommand ws = .ok (c, rest)) : c.Regular ∧ Reads c.places (w :: ws) rest := by
  obtain ⟨⟨k, ws₁⟩, hk, h⟩ := Except.bind_eq_ok.mp h
  cases k with
  | database =>
    obtain ⟨⟨n, ws₂⟩, hn, he⟩ := Except.bind_eq_ok.mp h
    cases he
    exact ⟨trivial, .next hw (.keyword hk (.word hn (.done _)))⟩
  | table =>
    obtain ⟨⟨n, ws₂⟩, hn, h⟩ := Except.bind_eq_ok.mp h
    obtain ⟨columns, hcolumns, h⟩ := Except.bind_eq_ok.mp h
    cases columns with
    | nil => cases h
    | cons column columns =>
      cases h
      exact ⟨List.cons_ne_nil _ _, .next hw (.keyword hk (.word hn (reads_columnList hcolumns)))⟩
  | _ => cases h

theorem reads_drop (hw : Keyword.ofToken? w = some .drop) (h : dropCommand ws = .ok (c, rest)) :
    c.Regular ∧ Reads c.places (w :: ws) rest := by
  obtain ⟨⟨k, ws₁⟩, hk, h⟩ := Except.bind_eq_ok.mp h
  cases k with
  | database | table =>
    obtain ⟨⟨n, ws₂⟩, hn, he⟩ := Except.bind_eq_ok.mp h
    cases he
    exact ⟨trivial, .next hw (.keyword hk (.word hn (.done _)))⟩
  | _ => cases h

theorem reads_insert (hw : Keyword.ofToken? w = some .insert) (h : insertCommand ws = .ok (c, rest)) :
    c.Regular ∧ Reads c.places (w :: ws) rest := by
  obtain ⟨⟨t, ws₁⟩, ht, h⟩ := Except.bind_eq_ok.mp h
  obtain ⟨⟨packed, ws₂⟩, hpacked, he⟩ := Except.bind_eq_ok.mp h
  cases he
  have hjoined : Text.joinFields fieldDelimiter
      (((Text.splitFields fieldDelimiter packed.toList).map String.ofList).map String.toList) =
      packed.toList := by
    have hid : String.toList ∘ String.ofList = id := funext fun _ => String.toList_ofList
    rw [List.map_map, hid, List.map_id]
    exact List.intercalate_splitOn _
  refine ⟨⟨?_, ?_⟩, .next hw (.word ht ?_)⟩
  · exact fun hnil => List.splitOn_ne_nil _ _ (List.map_eq_nil_iff.mp hnil)
  · refine List.forall_mem_map.mpr fun field hfield => ?_
    rw [String.toList_ofList]
    exact Text.notMem_splitFields hfield
  · rw [hjoined]
    exact .word hpacked (.done _)

theorem reads_delete (hw : Keyword.ofToken? w = some .delete) (h : deleteCommand ws = .ok (c, rest)) :
    c.Regular ∧ Reads c.places (w :: ws) rest := by
  obtain ⟨ws₁, hfrom, h⟩ := Except.bind_eq_ok.mp h
  obtain ⟨⟨t, ws₂⟩, ht, h⟩ := Except.bind_eq_ok.mp h
  obtain ⟨ws₃, hwhere, h⟩ := Except.bind_eq_ok.mp h
  obtain ⟨⟨id, ws₄⟩, hid, he⟩ := Except.bind_eq_ok.mp h
  cases he
  exact ⟨trivial, .next hw (.expected hfrom (.word ht (.expected hwhere (.word hid (.done _)))))⟩

theorem reads_add (hw : Keyword.ofToken? w = some .add) (h : addCommand ws = .ok (c, rest)) :
    c.Regular ∧ Reads c.places (w :: ws) rest := by
  obtain ⟨⟨kind, ws₁⟩, hk, h⟩ := Except.bind_eq_ok.mp h
  obtain ⟨⟨t, ws₂⟩, ht, h⟩ := Except.bind_eq_ok.mp h
  obtain ⟨⟨c, ws₃⟩, hc, h⟩ := Except.bind_eq_ok.mp h
  cases kind with
  | pk | uq | index =>
    cases h
    exact ⟨trivial, .next hw (.keyword hk (.word ht (.word hc (.done _))))⟩
  | fk =>
    obtain ⟨⟨p, ws₄⟩, hp, h⟩ := Except.bind_eq_ok.mp h
    obtain ⟨⟨pc, ws₅⟩, hpc, he⟩ := Except.bind_eq_ok.mp h
    cases he
    exact ⟨trivial, .next hw (.keyword hk (.word ht (.word hc (.word hp (.word hpc (.done _))))))⟩
  | _ => cases h

theorem reads_projection {p : Projection} (h : projection ws = .ok (p, rest)) :
    Reads p.places ws rest ∧ ∀ t predicates, (Command.select t p predicates).Regular := by
  obtain ⟨⟨k, ws₁⟩, hk, h⟩ := Except.bind_eq_ok.mp h
  cases k with
  | all =>
    cases h
    exact ⟨.keyword hk (.done _), fun _ _ => trivial⟩
  | columns =>
    cases hnames : nameList ws₁ with
    | mk names ws₂ =>
      obtain ⟨hreads, hfrom⟩ := reads_nameList hnames
      cases names with
      | nil =>
        simp only [hnames] at h
        cases h
      | cons n names =>
        simp only [hnames] at h
        cases h
        exact ⟨.keyword hk hreads, fun _ _ => ⟨List.cons_ne_nil _ _, hfrom⟩⟩
  | _ => cases h

theorem reads_select (hw : Keyword.ofToken? w = some .select) (h : selectCommand ws = .ok (c, rest)) :
    c.Regular ∧ Reads c.places (w :: ws) rest := by
  obtain ⟨⟨p, ws₁⟩, hp, h⟩ := Except.bind_eq_ok.mp h
  obtain ⟨ws₂, hfrom, h⟩ := Except.bind_eq_ok.mp h
  obtain ⟨⟨t, ws₃⟩, ht, h⟩ := Except.bind_eq_ok.mp h
  obtain ⟨⟨⟩, -, h⟩ := Except.bind_eq_ok.mp h
  obtain ⟨predicates, hpredicates, he⟩ := Except.bind_eq_ok.mp h
  cases he
  obtain ⟨hreads, hregular⟩ := reads_projection hp
  exact ⟨hregular t predicates, .next hw (hreads.append
    (.expected hfrom (.word ht (reads_predicateList hpredicates))))⟩

theorem reads_command (hw : Keyword.ofToken? w = some k) (h : command k w ws = .ok (c, rest)) :
    c.Regular ∧ Reads c.places (w :: ws) rest := by
  cases k with
  | create => exact reads_create hw h
  | drop => exact reads_drop hw h
  | use =>
    obtain ⟨⟨n, ws₁⟩, hn, he⟩ := Except.bind_eq_ok.mp h
    cases he
    exact ⟨trivial, .next hw (.word hn (.done _))⟩
  | insert => exact reads_insert hw h
  | delete => exact reads_delete hw h
  | add => exact reads_add hw h
  | select => exact reads_select hw h
  | _ => cases h

/-- Words that are a command are in its places. -/
theorem reads_of_ofWords (h : ofWords ws = .ok c) : c.Regular ∧ Reads c.places ws [] := by
  cases ws with
  | nil => cases h
  | cons w ws =>
    rw [ofWords] at h
    cases hk : Keyword.ofToken? w with
    | none =>
      rw [hk] at h
      cases h
    | some k =>
      rw [hk] at h
      obtain ⟨⟨c', rest⟩, hc, h⟩ := Except.bind_eq_ok.mp h
      cases rest with
      | nil =>
        cases h
        exact reads_command hk hc
      | cons w' rest => cases h

section Complete

variable {what n : String} {α : Type} {r : Except Error α}

theorem takeWord_bind {f : String × List Word → Except Error α} (h : (Place.word n.toList).Admits w)
    (hf : f (n, ws) = r) : (takeWord what (w :: ws) >>= f) = r := by
  have hw : w = n.toList := h
  rw [hw, takeWord, shown, String.ofList_toList]
  exact hf

theorem takeKeyword_bind {f : Keyword × List Word → Except Error α} (h : (Place.keyword k).Admits w)
    (hf : f (k, ws) = r) : (takeKeyword what (w :: ws) >>= f) = r := by
  have hw : Keyword.ofToken? w = some k := h
  rw [takeKeyword, hw]
  exact hf

theorem expect_bind {f : List Word → Except Error α} (h : (Place.keyword k).Admits w)
    (hf : f ws = r) : (expect k (w :: ws) >>= f) = r := by
  have hw : Keyword.ofToken? w = some k := h
  rw [expect, if_pos hw]
  exact hf

theorem columnList_of_reads (h : Reads (columnPlaces columns) ws []) : columnList ws = .ok columns := by
  induction columns generalizing ws with
  | nil =>
    cases h
    rfl
  | cons c columns ih =>
    obtain _ | ⟨ht, _ | ⟨hn, h⟩⟩ := h
    have htype : Keyword.ofToken? _ = some (Keyword.type c.2) := ht
    have hname : _ = c.1.toList := hn
    simp only [columnList, htype, Keyword.type?, hname, shown, String.ofList_toList, ih h]
    rfl

theorem nameList_of_reads (h : Reads (names.map fun n => .word n.toList) ws rest)
    (hnames : ∀ n ∈ names, Keyword.ofToken? n.toList ≠ some .fromWord)
    (hrest : ∃ w ws, rest = w :: ws ∧ Keyword.ofToken? w = some .fromWord) :
    nameList ws = (names, rest) := by
  induction names generalizing ws with
  | nil =>
    obtain ⟨w, ws', rfl, hw⟩ := hrest
    cases h
    rw [nameList, if_pos hw]
  | cons n names ih =>
    obtain ⟨hn, hnames⟩ := List.forall_mem_cons.mp hnames
    obtain _ | ⟨hw, h⟩ := h
    have hname : _ = n.toList := hw
    rw [hname, nameList, if_neg hn, ih h hnames, shown, String.ofList_toList]

theorem predicateList_of_reads (h : Reads (predicatePlaces lead predicates) ws []) :
    predicateList lead ws = .ok predicates := by
  induction predicates generalizing lead ws with
  | nil =>
    cases h
    rfl
  | cons p rest ih =>
    obtain _ | ⟨hlead, _ | ⟨hcolumn, _ | ⟨hop, _ | ⟨hliteral, h⟩⟩⟩⟩ := h
    rw [predicateList_cons, checkLead_eq_ok.mpr hlead, Except.ok_bind, ledPredicates_eq_ok]
    refine ⟨_, _, _, _, _, _, rfl, hop, ih h, ?_⟩
    have hcolumn : _ = p.column.toList := hcolumn
    have hliteral : _ = p.literal.toList := hliteral
    rw [hcolumn, hliteral, shown, shown, String.ofList_toList, String.ofList_toList]

/-- A join is no keyword, so no predicate is taken for one. -/
theorem rejectJoin_of_reads (h : Reads (predicatePlaces lead predicates) ws []) :
    rejectJoin ws = .ok () := by
  cases predicates with
  | nil =>
    cases h
    rfl
  | cons p rest =>
    obtain _ | ⟨hlead, -⟩ := h
    rw [rejectJoin, Keyword.isJoin_eq_false hlead]
    rfl

theorem ofWords_cons (h : (Place.keyword k).Admits w) (hc : command k w ws = .ok (c, [])) :
    ofWords (w :: ws) = .ok c := by
  have hw : Keyword.ofToken? w = some k := h
  rw [ofWords, hw]
  simp only [hc]
  rfl

theorem ofWords_createTable {t : String} (hne : columns ≠ [])
    (h : Reads (Command.createTable t columns).places ws []) :
    ofWords ws = .ok (.createTable t columns) := by
  obtain _ | ⟨h₀, _ | ⟨h₁, _ | ⟨h₂, h⟩⟩⟩ := h
  refine ofWords_cons h₀ (takeKeyword_bind h₁ (takeWord_bind h₂ ?_))
  obtain ⟨c, columns, rfl⟩ := List.exists_cons_of_ne_nil hne
  simp only [columnList_of_reads h]
  rfl

theorem ofWords_insert {t : String} {values : List String} (hne : values ≠ [])
    (hvalues : ∀ v ∈ values, fieldDelimiter ∉ v.toList)
    (h : Reads (Command.insert t values).places ws []) : ofWords ws = .ok (.insert t values) := by
  obtain _ | ⟨h₀, _ | ⟨h₁, _ | ⟨h₂, ⟨⟩⟩⟩⟩ := h
  have hpacked : _ = Text.joinFields fieldDelimiter (values.map String.toList) := h₂
  have hfields : Text.splitFields fieldDelimiter
      (Text.joinFields fieldDelimiter (values.map String.toList)) = values.map String.toList :=
    Text.splitFields_joinFields (by simpa using hne) (List.forall_mem_map.mpr hvalues)
  have hid : String.ofList ∘ String.toList = id := funext fun _ => String.ofList_toList
  refine ofWords_cons h₀ (takeWord_bind h₁ ?_)
  rw [hpacked]
  simp only [takeWord, shown, Except.ok_bind, String.toList_ofList, hfields, List.map_map, hid,
    List.map_id]
  rfl

theorem projection_of_reads {p : Projection} {t : String}
    (hp : (Command.select t p predicates).Regular) (h : Reads p.places ws rest)
    (hrest : ∃ w ws, rest = w :: ws ∧ Keyword.ofToken? w = some .fromWord) :
    projection ws = .ok (p, rest) := by
  cases p with
  | all =>
    obtain _ | ⟨h₀, ⟨⟩⟩ := h
    exact takeKeyword_bind h₀ rfl
  | columns names =>
    obtain _ | ⟨h₀, h⟩ := h
    obtain ⟨n, names, rfl⟩ := List.exists_cons_of_ne_nil hp.1
    refine takeKeyword_bind h₀ ?_
    simp only [nameList_of_reads h hp.2 hrest]
    rfl

theorem ofWords_select {t : String} {p : Projection} (hp : (Command.select t p predicates).Regular)
    (h : Reads (Command.select t p predicates).places ws []) :
    ofWords ws = .ok (.select t p predicates) := by
  obtain _ | ⟨h₀, h⟩ := h
  obtain ⟨mid, hprojection, _ | ⟨h₁, _ | ⟨h₂, h⟩⟩⟩ := h.of_append
  refine ofWords_cons h₀ (Except.bind_eq_ok.mpr
    ⟨_, projection_of_reads hp hprojection ⟨_, _, rfl, h₁⟩, expect_bind h₁ (takeWord_bind h₂ ?_)⟩)
  simp only [rejectJoin_of_reads h, predicateList_of_reads h]
  rfl

/-- Words in the places of a command are read as that command. -/
theorem ofWords_of_reads (hc : c.Regular) (h : Reads c.places ws []) : ofWords ws = .ok c := by
  cases c with
  | createDatabase n | dropDatabase n | dropTable n =>
    obtain _ | ⟨h₀, _ | ⟨h₁, _ | ⟨h₂, ⟨⟩⟩⟩⟩ := h
    exact ofWords_cons h₀ (takeKeyword_bind h₁ (takeWord_bind h₂ rfl))
  | useDatabase n =>
    obtain _ | ⟨h₀, _ | ⟨h₁, ⟨⟩⟩⟩ := h
    exact ofWords_cons h₀ (takeWord_bind h₁ rfl)
  | createTable n columns => exact ofWords_createTable hc h
  | insert t values => exact ofWords_insert hc.1 hc.2 h
  | delete t id =>
    obtain _ | ⟨h₀, _ | ⟨h₁, _ | ⟨h₂, _ | ⟨h₃, _ | ⟨h₄, ⟨⟩⟩⟩⟩⟩⟩ := h
    exact ofWords_cons h₀ (expect_bind h₁ (takeWord_bind h₂ (expect_bind h₃ (takeWord_bind h₄ rfl))))
  | addPrimaryKey t c | addUnique t c | addIndex t c =>
    obtain _ | ⟨h₀, _ | ⟨h₁, _ | ⟨h₂, _ | ⟨h₃, ⟨⟩⟩⟩⟩⟩ := h
    exact ofWords_cons h₀ (takeKeyword_bind h₁ (takeWord_bind h₂ (takeWord_bind h₃ rfl)))
  | addForeignKey t c p pc =>
    obtain _ | ⟨h₀, _ | ⟨h₁, _ | ⟨h₂, _ | ⟨h₃, _ | ⟨h₄, _ | ⟨h₅, ⟨⟩⟩⟩⟩⟩⟩⟩ := h
    exact ofWords_cons h₀ (takeKeyword_bind h₁ (takeWord_bind h₂ (takeWord_bind h₃
      (takeWord_bind h₄ (takeWord_bind h₅ rfl)))))
  | select t p predicates => exact ofWords_select hc h

end Complete

end Request

end RelStore

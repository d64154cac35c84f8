import RelStore.CommandLine.Statement
import RelStore.Proofs.LineTokens
import RelStore.Proofs.Names
import RelStore.Proofs.RequestText
import RelStore.Proofs.Tables
/-! What a command line asks for, as a request. All its names and values can be said in one, but a
selected column whose name reads as FROM ends the list of columns: then the request is refused. -/
namespace RelStore

def Projection.names : Projection → List String
  | .all => []
  | .columns names => names

namespace Command

/-- The columns that a selection names. -/
def selected : Command → List String
  | select _ projection _ => projection.names
  | _ => []

/-- What a line says can be said in a request, but for what the selected columns read as. -/
def Stated : Command → Prop
  | select t projection predicates =>
    Carried t ∧ ((∀ n ∈ projection.names, Carried n) ∧ (projection = .all ∨ projection.names ≠ [])) ∧
      ∀ p ∈ predicates, Carried p.column ∧ Carried p.literal
  | c => c.WireSafe

variable {c : Command}

theorem Stated.wireSafe_iff (h : c.Stated) :
    c.WireSafe ↔ ∀ n ∈ c.selected, Keyword.ofToken? n.toList ≠ some .fromWord := by
  cases c with
  | select t projection predicates =>
    obtain ⟨ht, ⟨hcarried, hne⟩, hpredicates⟩ := h
    cases projection with
    | all => exact ⟨fun _ _ hn => (nomatch hn), fun _ => ⟨ht, trivial, hpredicates⟩⟩
    | columns names =>
      constructor
      · rintro ⟨-, ⟨-, hnames⟩, -⟩ n hn
        exact (hnames n hn).2
      · intro hfrom
        exact ⟨ht, ⟨hne.resolve_left (by simp), fun n hn => ⟨hcarried n hn, hfrom n hn⟩⟩, hpredicates⟩
  | _ => exact ⟨fun _ _ hn => (nomatch hn), fun _ => h⟩

theorem Stated.isWord (h : c.Stated) : ∀ w ∈ c.words, Text.IsWord w := by
  cases c with
  | select t projection predicates =>
    have htoken (k : Keyword) : Text.IsWord k.token := k.isWord_token
    obtain ⟨ht, ⟨hcarried, -⟩, hpredicates⟩ := h
    have hrest : ∀ w ∈ predicateWords .whereWord predicates, Text.IsWord w :=
      forall_isWord_predicateWords.mpr hpredicates
    cases projection with
    | all =>
      simp only [words, kw, List.forall_mem_append, List.forall_mem_cons, htoken]
      simpa using ⟨ht, hrest⟩
    | columns names =>
      simp only [words, kw, List.forall_mem_append, List.forall_mem_cons, htoken,
        List.forall_mem_map]
      simpa using ⟨⟨hcarried, ht⟩, hrest⟩
  | _ =>
    have hsafe := h.wireSafe_iff.mpr (by intro _ hn; cases hn)
    exact ((Command.wireSafe_iff _).mp hsafe).2

theorem WireSafe.stated (h : c.WireSafe) : c.Stated := by
  cases c with
  | select t projection predicates =>
    obtain ⟨ht, hprojection, hpredicates⟩ := h
    refine ⟨ht, ?_, hpredicates⟩
    cases projection with
    | all => exact ⟨fun _ hn => (nomatch hn), .inl rfl⟩
    | columns names => exact ⟨fun n hn => (hprojection.2 n hn).1, .inr hprojection.1⟩
  | _ => exact h

end Command

theorem code_of_isNameChar {c : Char} (h : isNameChar c = true) : 48 ≤ c.toNat ∧ c.toNat ≤ 122 := by
  have hle (a b : Char) : a ≤ b ↔ a.toNat ≤ b.toNat := UInt32.le_iff_toNat_le
  simp only [isNameChar, Bool.or_eq_true, Bool.and_eq_true, decide_eq_true_eq, hle,
    Char.reduceToNat] at h
  rcases h with ((h | h) | h) | rfl
  · omega
  · omega
  · omega
  · decide

theorem isBlank_of_isNameChar {c : Char} (h : isNameChar c = true) : Text.isBlank c = false := by
  have hapart : ∀ r ∈ Text.blankRanges, r.2 < 48 ∨ 122 < r.1 := by decide
  have hcode := code_of_isNameChar h
  simp only [Text.isBlank, List.any_eq_false, Bool.and_eq_true, decide_eq_true_eq]
  intro r hr hin
  have := hapart r hr
  omega

theorem carried_of_isValidName {n : String} (h : isValidName n = true) : Carried n :=
  ⟨fun hnil => ne_empty_of_isValidName h (String.toList_eq_nil_iff.mp hnil),
    fun _ hc => isBlank_of_isNameChar (isNameChar_of_mem h hc)⟩

namespace CommandLine

/-- The texts of the tokens are without white space. -/
def Plain (ts : List Token) : Prop := ∀ t ∈ ts, Text.Unbroken Text.isBlank t.text.toList

variable {ts rest : List Token} {k : Keyword} {n v : String} {c : Command}

theorem plain_tokenize (line : String) : Plain (tokenize line) := by
  intro t ht c hc
  rcases List.mem_append.mp ht with ht | ht
  · obtain ⟨piece, hpiece, rfl⟩ := List.mem_map.mp ht
    rw [text_ofPiece, String.toList_ofList] at hc
    have hsep := (Text.isPiece_of_mem_pieces hpiece).2 c (Text.mem_of_mem_trimWhile hc)
    simp only [isSeparator, Bool.or_eq_false_iff] at hsep
    exact hsep.1.1.1.1
  · rw [List.mem_singleton.mp ht] at hc
    cases hc

theorem Plain.tail (h : Plain ts) : Plain ts.tail := fun t ht => h t (List.mem_of_mem_tail ht)

theorem Plain.current (h : Plain ts) : Text.Unbroken Text.isBlank (current ts).text.toList := by
  cases ts with
  | nil => exact fun c hc => (nomatch hc)
  | cons t ts => exact h t List.mem_cons_self

theorem of_expect (h : expect k ts = .ok rest) : rest = ts.tail := by
  rw [expect] at h
  split at h
  · cases h
    rfl
  · cases h

theorem carried_of_nameOf {t : Token} (h : nameOf t = .ok n) : Carried n := by
  cases t with
  | word text =>
    obtain ⟨⟨⟩, hcheck, rfl⟩ := Except.map_eq_ok.mp h
    exact carried_of_isValidName (Table.checkName_eq_ok.mp hcheck)
  | keyword | ending => cases h

theorem of_name (h : name ts = .ok (n, rest)) : Carried n ∧ rest = ts.tail := by
  obtain ⟨m, hm, he⟩ := Except.map_eq_ok.mp h
  cases he
  exact ⟨carried_of_nameOf hm, rfl⟩

theorem of_literal (hts : Plain ts) (h : literal ts = .ok (v, rest)) :
    Text.Unbroken Text.isBlank v.toList ∧ rest = ts.tail := by
  rw [literal] at h
  split at h
  · cases h
  · cases h
    exact ⟨hts.current, rfl⟩

theorem carried_of_columnList {table : String} {seen : List String}
    {columns : List (String × ColumnType)} (h : columnList table seen ts = .ok columns) :
    ∀ c ∈ columns, Carried c.1 := by
  fun_induction columnList table seen ts generalizing columns with
  | case1 | case2 =>
    cases h
    exact fun _ hc => (nomatch hc)
  | case3 | case4 => cases h
  | case5 seen t _ type t' rest _ ih =>
    obtain ⟨n, hn, h⟩ := Except.bind_eq_ok.mp h
    dsimp only at h
    split at h
    · cases h
    · obtain ⟨more, hmore, he⟩ := Except.bind_eq_ok.mp h
      cases he
      exact List.forall_mem_cons.mpr ⟨carried_of_nameOf hn, ih n hmore⟩

theorem of_nameList {names : List String} (hts : Plain ts) (h : nameList ts = .ok (names, rest)) :
    (∀ n ∈ names, Carried n) ∧ Plain rest := by
  fun_induction nameList ts generalizing names rest with
  | case1 | case2 =>
    cases h
    exact ⟨fun _ hn => (nomatch hn), hts⟩
  | case3 t ts ht ih =>
    obtain ⟨n, hn, h⟩ := Except.bind_eq_ok.mp h
    obtain ⟨⟨more, rest⟩, hmore, he⟩ := Except.bind_eq_ok.mp h
    cases he
    obtain ⟨hnames, hrest⟩ := ih hts.tail hmore
    exact ⟨List.forall_mem_cons.mpr ⟨carried_of_nameOf hn, hnames⟩, hrest⟩

theorem of_valueList {values : List String} (hts : Plain ts) (h : valueList ts = .ok values) :
    ∀ v ∈ values, Text.Unbroken Text.isBlank v.toList ∧ fieldDelimiter ∉ v.toList := by
  fun_induction valueList ts generalizing values with
  | case1 | case2 =>
    cases h
    exact fun _ hv => (nomatch hv)
  | case3 => cases h
  | case4 =>
    rename_i t ts _ _ hdelimiter ih
    obtain ⟨more, hmore, he⟩ := Except.bind_eq_ok.mp h
    cases he
    exact List.forall_mem_cons.mpr ⟨⟨hts t List.mem_cons_self, hdelimiter⟩, ih hts.tail hmore⟩

theorem carried_of_ne_empty (hv : Text.Unbroken Text.isBlank v.toList) (hne : v ≠ "") :
    Carried v := ⟨fun hnil => hne (String.toList_eq_nil_iff.mp hnil), hv⟩

theorem of_predicate {p : Predicate} (hts : Plain ts) (h : predicate ts = .ok (p, rest)) :
    (Carried p.column ∧ Carried p.literal) ∧ Plain rest := by
  obtain ⟨⟨n, ts₁⟩, hn, h⟩ := Except.bind_eq_ok.mp h
  obtain ⟨hcolumn, rfl⟩ := of_name hn
  dsimp only at h
  split at h
  · cases h
  · obtain ⟨⟨v, ts₂⟩, hv, h⟩ := Except.bind_eq_ok.mp h
    obtain ⟨hblank, rfl⟩ := of_literal hts.tail.tail hv
    dsimp only at h
    split at h
    · cases h
    · next hne =>
      cases h
      exact ⟨⟨hcolumn, carried_of_ne_empty hblank hne⟩, hts.tail.tail.tail⟩

theorem of_predicateList {fuel : Nat} {predicates : List Predicate} (hts : Plain ts)
    (h : predicateList fuel ts = .ok (predicates, rest)) :
    ∀ p ∈ predicates, Carried p.column ∧ Carried p.literal := by
  induction fuel generalizing ts predicates with
  | zero =>
    cases h
    exact fun _ hp => (nomatch hp)
  | succ fuel ih =>
    obtain ⟨⟨p, ts₁⟩, hp, h⟩ := Except.bind_eq_ok.mp h
    obtain ⟨hcarried, hts₁⟩ := of_predicate hts hp
    dsimp only at h
    split at h
    · cases h
    · obtain ⟨⟨⟩, -, h⟩ := Except.bind_eq_ok.mp h
      split at h
      · obtain ⟨⟨more, ts₂⟩, hmore, he⟩ := Except.bind_eq_ok.mp h
        cases he
        exact List.forall_mem_cons.mpr ⟨hcarried, ih hts₁.tail hmore⟩
      · cases h
        exact List.forall_mem_singleton.mpr hcarried

theorem wireSafe_of_create (h : createStatement ts = .ok (c, rest)) : c.WireSafe := by
  rw [createStatement] at h
  split at h
  · obtain ⟨⟨n, ts₁⟩, hn, he⟩ := Except.bind_eq_ok.mp h
    cases he
    exact (of_name hn).1
  · obtain ⟨ts₁, -, h⟩ := Except.bind_eq_ok.mp h
    obtain ⟨⟨n, ts₂⟩, hn, h⟩ := Except.bind_eq_ok.mp h
    obtain ⟨columns, hcolumns, h⟩ := Except.bind_eq_ok.mp h
    cases columns with
    | nil => cases h
    | cons column columns =>
      cases h
      exact ⟨(of_name hn).1, List.cons_ne_nil _ _, carried_of_columnList hcolumns⟩

theorem wireSafe_of_drop (h : dropStatement ts = .ok (c, rest)) : c.WireSafe := by
  rw [dropStatement] at h
  split at h
  · obtain ⟨⟨n, ts₁⟩, hn, he⟩ := Except.bind_eq_ok.mp h
    cases he
    exact (of_name hn).1
  · obtain ⟨ts₁, -, h⟩ := Except.bind_eq_ok.mp h
    obtain ⟨⟨n, ts₂⟩, hn, he⟩ := Except.bind_eq_ok.mp h
    cases he
    exact (of_name hn).1

theorem wireSafe_of_add (h : addStatement ts = .ok (c, rest)) : c.WireSafe := by
  obtain ⟨⟨t, ts₁⟩, ht, h⟩ := Except.bind_eq_ok.mp h
  obtain ⟨⟨n, ts₂⟩, hn, h⟩ := Except.bind_eq_ok.mp h
  have hsafe : Carried t ∧ Carried n := ⟨(of_name ht).1, (of_name hn).1⟩
  dsimp only at h
  split at h
  · cases h
    exact hsafe
  · cases h
    exact hsafe
  · cases h
    exact hsafe
  · obtain ⟨⟨p, ts₃⟩, hp, h⟩ := Except.bind_eq_ok.mp h
    obtain ⟨⟨pc, ts₄⟩, hpc, he⟩ := Except.bind_eq_ok.mp h
    cases he
    exact ⟨hsafe.1, hsafe.2, (of_name hp).1, (of_name hpc).1⟩
  · cases h
  · cases h

theorem wireSafe_of_insert (hts : Plain ts) (h : insertStatement ts = .ok (c, rest)) :
    c.WireSafe := by
  obtain ⟨ts₁, hinto, h⟩ := Except.bind_eq_ok.mp h
  obtain ⟨⟨t, ts₂⟩, ht, h⟩ := Except.bind_eq_ok.mp h
  obtain ⟨ts₃, hvalues, h⟩ := Except.bind_eq_ok.mp h
  obtain ⟨values, hv, h⟩ := Except.bind_eq_ok.mp h
  obtain ⟨hcarried, hts₂⟩ := of_name ht
  rw [of_expect hvalues, hts₂, of_expect hinto] at hv
  split at h
  · cases h
  · cases h
  · next hnil hempty =>
    cases h
    exact ⟨hcarried, hnil, hempty, of_valueList hts.tail.tail.tail hv⟩

theorem wireSafe_of_delete (hts : Plain ts) (h : deleteStatement ts = .ok (c, rest)) :
    c.WireSafe := by
  obtain ⟨ts₁, hfrom, h⟩ := Except.bind_eq_ok.mp h
  obtain ⟨⟨t, ts₂⟩, ht, h⟩ := Except.bind_eq_ok.mp h
  obtain ⟨ts₃, hwhere, h⟩ := Except.bind_eq_ok.mp h
  obtain ⟨⟨id, ts₄⟩, hid, h⟩ := Except.bind_eq_ok.mp h
  obtain ⟨hcarried, hts₂⟩ := of_name ht
  rw [of_expect hwhere, hts₂, of_expect hfrom] at hid
  dsimp only at h
  split at h
  · cases h
  · next hne =>
    cases h
    exact ⟨hcarried, carried_of_ne_empty (of_literal hts.tail.tail.tail hid).1 hne⟩

theorem of_projection {p : Projection} (hts : Plain ts) (h : projection ts = .ok (p, rest)) :
    (∀ n ∈ p.names, Carried n) ∧ (p = .all ∨ p.names ≠ []) ∧ Plain rest := by
  rw [projection] at h
  split at h
  · cases h
    exact ⟨fun _ hn => (nomatch hn), .inl rfl, hts.tail⟩
  · obtain ⟨⟨names, ts₁⟩, hnames, h⟩ := Except.bind_eq_ok.mp h
    obtain ⟨hcarried, hts₁⟩ := of_nameList hts hnames
    cases names with
    | nil => cases h
    | cons n names =>
      cases h
      exact ⟨hcarried, .inr (List.cons_ne_nil _ _), hts₁⟩

theorem stated_of_select (hts : Plain ts) (h : selectStatement ts = .ok (c, rest)) : c.Stated := by
  obtain ⟨⟨p, ts₁⟩, hp, h⟩ := Except.bind_eq_ok.mp h
  obtain ⟨ts₂, hfrom, h⟩ := Except.bind_eq_ok.mp h
  obtain ⟨⟨t, ts₃⟩, ht, h⟩ := Except.bind_eq_ok.mp h
  obtain ⟨⟨⟩, -, h⟩ := Except.bind_eq_ok.mp h
  obtain ⟨hcarried, hne, hts₁⟩ := of_projection hts hp
  obtain ⟨htable, hts₃⟩ := of_name ht
  split at h
  · obtain ⟨⟨predicates, ts₄⟩, hpredicates, he⟩ := Except.bind_eq_ok.mp h
    cases he
    rw [hts₃, of_expect hfrom] at hpredicates
    exact ⟨htable, ⟨hcarried, hne⟩, of_predicateList hts₁.tail.tail.tail hpredicates⟩
  · cases h
    exact ⟨htable, ⟨hcarried, hne⟩, fun _ hp => (nomatch hp)⟩

theorem stated_of_statement (hts : Plain ts) (h : statement ts = .ok (.command c, rest)) :
    c.Stated := by
  have hform {form : List Token → Except Error (Command × List Token)}
      (hf : ∀ c rest, form ts.tail = .ok (c, rest) → c.Stated)
      (h : (form ts.tail).map (fun x => (Statement.command x.1, x.2)) = .ok (.command c, rest)) :
      c.Stated := by
    obtain ⟨⟨c', rest'⟩, hc, he⟩ := Except.map_eq_ok.mp h
    cases he
    exact hf _ _ hc
  rw [statement] at h
  split at h
  · cases h
  · obtain ⟨x, hx, he⟩ := Except.map_eq_ok.mp h
    obtain ⟨⟨n, ts₁⟩, hn, rfl⟩ := Except.map_eq_ok.mp hx
    cases he
    exact (of_name hn).1
  · exact hform (fun c rest hc => (wireSafe_of_create hc).stated) h
  · exact hform (fun c rest hc => (wireSafe_of_drop hc).stated) h
  · exact hform (fun c rest hc => (wireSafe_of_add hc).stated) h
  · exact hform (fun c rest hc => (wireSafe_of_insert hts.tail hc).stated) h
  · exact hform (fun c rest hc => (wireSafe_of_delete hts.tail hc).stated) h
  · exact hform (fun c rest hc => stated_of_select hts.tail hc) h
  · cases h

theorem stated_of_parseLine {line : String} (h : parseLine line = .ok (some (.command c))) :
    c.Stated := by
  rw [parseLine, readTokens_eq, Except.ok_bind] at h
  split at h
  · cases h
  · obtain ⟨⟨s, rest⟩, hs, h⟩ := Except.bind_eq_ok.mp h
    dsimp only at h
    split at h
    · cases h
    · cases h
      exact stated_of_statement (plain_tokenize line) hs

end CommandLine

section Misread

variable {lead : Keyword} {predicates : List Predicate} {names names' : List String} {t : String}
  {front behind ws : List Word} {places : List Place} {c : Command}

theorem length_predicatePlaces (lead : Keyword) (predicates : List Predicate) :
    (predicatePlaces lead predicates).length = 4 * predicates.length := by
  induction predicates generalizing lead with
  | nil => rfl
  | cons p rest ih =>
    rw [predicatePlaces, List.length_append, ih]
    simp only [List.length_cons, List.length_nil]
    omega

theorem ofToken?_ne {k k' : Keyword} (hne : k ≠ k') : Keyword.ofToken? k.token ≠ some k' := by
  rw [k.ofToken?_token]
  exact fun he => hne (Option.some.inj he)

/-- Whole predicates behind it put FROM and a table in the place of an operator or of a word that leads
a predicate. -/
theorem not_predicates (hlead : lead ≠ .fromWord) (hbehind : behind.length % 4 = 0) {w : Word} :
    ¬ List.Forall₂ Place.Admits (predicatePlaces lead predicates)
      (front ++ Keyword.fromWord.token :: w :: behind) := by
  intro h
  have hlength := h.length_eq
  simp only [length_predicatePlaces, List.length_append, List.length_cons] at hlength
  induction predicates generalizing lead front with
  | nil =>
    simp only [List.length_nil] at hlength
    omega
  | cons p rest ih =>
    -- FROM is in one of the four places of this predicate, or further back; its length leaves only
    -- the places of the two keywords
    rcases front with _ | ⟨a, _ | ⟨b, _ | ⟨d, _ | ⟨e, front⟩⟩⟩⟩
    · obtain _ | ⟨hfirst, -⟩ := h
      exact ofToken?_ne (Ne.symm hlead) hfirst
    · simp only [List.length_cons, List.length_nil] at hlength
      omega
    · obtain _ | ⟨-, _ | ⟨-, _ | ⟨hop, -⟩⟩⟩ := h
      exact ofToken?_ne (fun he => Keyword.noConfusion he) hop
    · simp only [List.length_cons, List.length_nil] at hlength
      omega
    · obtain _ | ⟨-, _ | ⟨-, _ | ⟨-, _ | ⟨-, h⟩⟩⟩⟩ := h
      simp only [List.length_cons] at hlength
      exact ih (by decide) h (by omega)

/-- A list of columns is read up to the first that reads as FROM. -/
theorem exists_names_behind (hfrom : ∃ n ∈ names, Keyword.ofToken? n.toList = some .fromWord)
    (hnames : ∀ n ∈ names', Keyword.ofToken? n.toList ≠ some .fromWord)
    (h : List.Forall₂ Place.Admits
      ((names'.map fun n => .word n.toList) ++ .keyword .fromWord :: places)
      (names.map String.toList ++ ws)) :
    ∃ rest : List String, List.Forall₂ Place.Admits places (rest.map String.toList ++ ws) := by
  induction names generalizing names' with
  | nil =>
    obtain ⟨n, hn, -⟩ := hfrom
    cases hn
  | cons n names ih =>
    cases names' with
    | nil =>
      obtain _ | ⟨-, h⟩ := h
      exact ⟨names, h⟩
    | cons n' names' =>
      obtain _ | ⟨hn, h⟩ := h
      obtain ⟨hn', hnames⟩ := List.forall_mem_cons.mp hnames
      have hsame : n.toList = n'.toList := hn
      refine ih ?_ hnames h
      obtain ⟨m, hm, hread⟩ := hfrom
      rcases List.mem_cons.mp hm with rfl | hm
      · exact absurd (hsame ▸ hread) hn'
      · exact ⟨m, hm, hread⟩

theorem length_predicateWords (lead : Keyword) (predicates : List Predicate) :
    (Command.predicateWords lead predicates).length = 4 * predicates.length := by
  rw [words_predicatePlaces, List.length_map, length_predicatePlaces]

/-- With a column that reads as FROM, the words of a selection are not those of any command. -/
theorem not_places_of_selected {c : Command} (hc : c.Regular)
    (hfrom : ∃ n ∈ names, Keyword.ofToken? n.toList = some .fromWord) :
    ¬ List.Forall₂ Place.Admits c.places (Command.select t (.columns names) predicates).words := by
  have hwords : (Command.select t (.columns names) predicates).words =
      Keyword.select.token :: Keyword.columns.token :: (names.map String.toList ++
        Keyword.fromWord.token :: t.toList :: Command.predicateWords .whereWord predicates) := by
    simp [Command.words, Command.kw]
  rw [hwords]
  intro h
  cases c with
  | select t' p predicates' =>
    obtain _ | ⟨-, h⟩ := h
    cases p with
    | all =>
      obtain _ | ⟨hall, -⟩ := h
      exact ofToken?_ne (by decide) hall
    | columns names' =>
      obtain _ | ⟨-, h⟩ := h
      obtain ⟨rest, hrest⟩ := exists_names_behind hfrom hc.2 h
      have hwhole : (Command.predicateWords .whereWord predicates).length % 4 = 0 := by
        rw [length_predicateWords]
        omega
      cases rest with
      | nil =>
        obtain _ | ⟨-, h⟩ := hrest
        have hlength := h.length_eq
        rw [length_predicatePlaces, List.length_cons, length_predicateWords] at hlength
        omega
      | cons n rest =>
        obtain _ | ⟨-, h⟩ := hrest
        exact not_predicates (by decide) hwhole h
  | _ =>
    obtain _ | ⟨hfirst, -⟩ := h
    exact ofToken?_ne (by decide) hfirst

theorem decode_error_of_selected {c : Command} (h : c.Stated)
    (hfrom : ∃ n ∈ c.selected, Keyword.ofToken? n.toList = some .fromWord) :
    ∃ e, Command.decode c.encode = .error e := by
  cases hd : Command.decode c.encode with
  | error e => exact ⟨e, rfl⟩
  | ok c' =>
    obtain ⟨hsafe, hplaces⟩ := Command.decode_eq_ok_iff.mp hd
    rw [Command.encode, String.toList_ofList, Text.words_joinFields h.isWord] at hplaces
    obtain ⟨n, hn, hread⟩ := hfrom
    cases c with
    | select t p predicates =>
      cases p with
      | all => cases hn
      | columns names =>
        exact absurd hplaces (not_places_of_selected (c'.wireSafe_iff.mp hsafe).1 ⟨n, hn, hread⟩)
    | _ => cases hn

end Misread

/-- The request for a line is decoded to what the line says unless it selects a column whose name reads
as FROM; then it is refused, and never taken for another command. -/
theorem parseLine_decode {line : String} {c : Command}
    (h : CommandLine.parseLine line = .ok (some (.command c))) :
    (Command.decode c.encode = .ok c ↔
      ∀ n ∈ c.selected, Keyword.ofToken? n.toList ≠ some .fromWord) ∧
    ((∃ n ∈ c.selected, Keyword.ofToken? n.toList = some .fromWord) →
      ∃ e, Command.decode c.encode = .error e ∧ e.errorClass = .protocol) := by
  have hstated := CommandLine.stated_of_parseLine h
  rw [← hstated.wireSafe_iff]
  refine ⟨⟨fun hd => (Command.decode_eq_ok_iff.mp hd).1, Command.decode_encode⟩, fun hfrom => ?_⟩
  obtain ⟨e, he⟩ := decode_error_of_selected hstated hfrom
  exact ⟨e, he, Request.ofWords_onlyProtocol e he⟩

theorem parseLine_decode_digits :
    (∃ c, CommandLine.parseLine "select 17, 7 from 16 where 16 = 'join' and 27 <> (16);" =
        .ok (some (.command c)) ∧ Command.decode c.encode = .ok c) ∧
      ∃ c e, CommandLine.parseLine "select a, 0016 from 17" = .ok (some (.command c)) ∧
        Command.decode c.encode = .error e ∧ e.errorClass = .protocol := by
  have haccepted : CommandLine.parseLine "select 17, 7 from 16 where 16 = 'join' and 27 <> (16);" =
      .ok (some (.command (.select "16" (.columns ["17", "7"])
        [⟨"16", .eq, "join"⟩, ⟨"27", .ne, "16"⟩]))) := by
    decide +kernel
  have hrefused : CommandLine.parseLine "select a, 0016 from 17" =
      .ok (some (.command (.select "17" (.columns ["a", "0016"]) []))) := by
    decide +kernel
  refine ⟨⟨_, haccepted, (parseLine_decode haccepted).1.mpr (by decide +kernel)⟩, ?_⟩
  obtain ⟨e, he, hprotocol⟩ := (parseLine_decode hrefused).2 ⟨"0016", by decide +kernel⟩
  exact ⟨_, e, hrefused, he, hprotocol⟩

/-- The column may be one that the table has: all digits are a name. -/
theorem not_parseLine_decode :
    ¬ ∀ line c, CommandLine.parseLine line = .ok (some (.command c)) →
      Command.decode c.encode = .ok c := by
  intro h
  have hdecoded := h "select 16 from t" (.select "t" (.columns ["16"]) []) (by decide +kernel)
  revert hdecoded
  decide +kernel

end RelStore

import RelStore.Proofs.StatementParts
/-! The grammar of command lines. The commands that a line can say are told by their names and
literals, and a line says a command just if its pieces spell the parts of the command in turn: keywords
in any case, whatever stands in quotes without them, and separators between the pieces in any number.
-/
namespace RelStore

namespace CommandLine

theorem of_isNameChar {c : Char} (h : isNameChar c = true) :
    isSeparator c = false ∧ isQuote c = false := by
  have hother (d : Char) (hd : isNameChar d = false) : c ≠ d := by
    rintro rfl
    rw [h] at hd
    cases hd
  constructor
  · simp [isSeparator, isBlank_of_isNameChar h, hother ',' (by decide), hother '(' (by decide),
      hother ')' (by decide), hother ';' (by decide)]
  · simp [isQuote, hother '\'' (by decide), hother '"' (by decide)]

/-- Only letters have another lower case. -/
theorem lowerChar_eq_self {c : Char} (h : isSeparator c = true ∨ isQuote c = true) :
    Keyword.lowerChar c = c := by
  have hletter {P : Prop} (hc : isSeparator c = false ∧ isQuote c = false) : P := by
    rw [hc.1, hc.2] at h
    simp at h
  rw [Keyword.lowerChar]
  split
  · next hkelvin => exact hletter (hkelvin ▸ by decide)
  · delta Char.toLower
    split
    · next hupper =>
      have hcapital : 'A' ≤ c ∧ c ≤ 'Z' := hupper
      exact hletter (of_isNameChar (by simp [isNameChar, hcapital]))
    · rfl

/-- The words of keywords have neither separators nor quotes, in whatever case. -/
theorem unbroken_of_spells {k : Keyword} {s : List Char}
    (h : String.ofList (Keyword.lower s) ∈ k.spellings) :
    Text.Unbroken isSeparator s ∧ Text.Unbroken isQuote s := by
  have hall : (Keyword.list.all fun k => k.spellings.all fun word => word.toList.all fun c =>
      !isSeparator c && !isQuote c) = true := by decide +kernel
  simp only [List.all_eq_true, Bool.and_eq_true, Bool.not_eq_true'] at hall
  have hlower (c : Char) (hc : c ∈ s) :
      isSeparator (Keyword.lowerChar c) = false ∧ isQuote (Keyword.lowerChar c) = false := by
    refine hall k k.mem_list _ h _ ?_
    rw [String.toList_ofList]
    exact List.mem_map_of_mem hc
  have hneither (c : Char) (hc : c ∈ s) (hany : isSeparator c = true ∨ isQuote c = true) : False := by
    have hself := hlower c hc
    rw [lowerChar_eq_self hany] at hself
    simp [hself] at hany
  exact ⟨fun c hc => Bool.eq_false_iff.mpr fun hsep => hneither c hc (.inl hsep),
    fun c hc => Bool.eq_false_iff.mpr fun hquote => hneither c hc (.inr hquote)⟩

/-- A name that a line can say: it has the characters of a name, and no keyword is spelled so in any
case. -/
def IsName (n : String) : Prop :=
  isValidName n = true ∧ ∀ k : Keyword, String.ofList (Keyword.lower n.toList) ∉ k.spellings

/-- A literal that a line can say: no separator in it, no quote at either end. -/
def IsLiteral (v : String) : Prop :=
  Text.Unbroken isSeparator v.toList ∧ Text.Bare isQuote v.toList

instance (n : String) : Decidable (IsName n) :=
  decidable_of_iff
    (isValidName n = true ∧ Keyword.ofWord? (String.ofList (Keyword.lower n.toList)) = none)
    (and_congr_right fun _ => Keyword.ofWord?_eq_none_iff)

instance (v : String) : Decidable (IsLiteral v) := inferInstanceAs (Decidable (_ ∧ _))

/-- A command that a line can say. -/
def Spellable : Command → Prop
  | .createDatabase n | .dropDatabase n | .useDatabase n | .dropTable n => IsName n
  | .createTable n columns =>
    IsName n ∧ columns ≠ [] ∧ (∀ c ∈ columns, IsName c.1) ∧ (columns.map (·.1)).Nodup
  | .insert t values =>
    IsName t ∧ values ≠ [] ∧ values ≠ [""] ∧
      ∀ v ∈ values, IsLiteral v ∧ fieldDelimiter ∉ v.toList
  | .delete t id => IsName t ∧ IsLiteral id ∧ id ≠ ""
  | .addPrimaryKey t c | .addUnique t c | .addIndex t c => IsName t ∧ IsName c
  | .addForeignKey t c p pc => IsName t ∧ IsName c ∧ IsName p ∧ IsName pc
  | .select t projection predicates =>
    IsName t ∧ (projection ≠ .columns [] ∧ ∀ n ∈ projection.names, IsName n) ∧
      ∀ p ∈ predicates, IsName p.column ∧ IsLiteral p.literal ∧ p.literal ≠ ""

namespace Part

def Fits : Part → Prop
  | keyword _ => True
  | name n => IsName n
  | literal v => IsLiteral v

@[simp] theorem fits_keyword (k : Keyword) : (keyword k).Fits ↔ True := Iff.rfl

@[simp] theorem fits_name (n : String) : (name n).Fits ↔ IsName n := Iff.rfl

@[simp] theorem fits_literal (v : String) : (literal v).Fits ↔ IsLiteral v := Iff.rfl

/-- What says a part: a word of the keyword in any case, or the name or the literal itself. -/
def SaidBy : Part → List Char → Prop
  | keyword k, s => String.ofList (Keyword.lower s) ∈ k.spellings
  | name n, s => s = n.toList
  | literal v, s => s = v.toList

/-- A piece that says a part in quotes; none are needed, but for an empty literal. -/
def Spells (a : Part) (w : List Char) : Prop :=
  ∃ front s behind, w = front ++ s ++ behind ∧ a.SaidBy s ∧ (∀ c ∈ front, isQuote c = true) ∧
    ∀ c ∈ behind, isQuote c = true

variable {a : Part} {w s : List Char}

theorem unbroken_of_saidBy (ha : a.Fits) (h : a.SaidBy s) :
    Text.Unbroken isSeparator s ∧ Text.Bare isQuote s := by
  cases a with
  | keyword k =>
    obtain ⟨hsep, hquote⟩ := unbroken_of_spells h
    exact ⟨hsep, Text.bare_of_unbroken hquote⟩
  | name n =>
    have hs : s = n.toList := h
    have hchars (c : Char) (hc : c ∈ s) : isSeparator c = false ∧ isQuote c = false :=
      of_isNameChar (isNameChar_of_mem ha.1 (hs ▸ hc))
    exact ⟨fun c hc => (hchars c hc).1, Text.bare_of_unbroken fun c hc => (hchars c hc).2⟩
  | literal v =>
    have hs : s = v.toList := h
    exact hs ▸ ha

/-- Quotes separate nothing. -/
theorem isPiece_of_spells (ha : a.Fits) (h : a.Spells w) (hw : w ≠ []) :
    Text.IsPiece isSeparator w := by
  have hquotes (c : Char) (hc : isQuote c = true) : isSeparator c = false := by
    simp only [isQuote, Bool.or_eq_true, decide_eq_true_eq] at hc
    rcases hc with rfl | rfl
    · decide
    · decide
  obtain ⟨front, s, behind, rfl, hs, hfront, hbehind⟩ := h
  refine ⟨hw, List.forall_mem_append.mpr ⟨List.forall_mem_append.mpr ⟨?_, ?_⟩, ?_⟩⟩
  · exact fun c hc => hquotes c (hfront c hc)
  · exact (unbroken_of_saidBy ha hs).1
  · exact fun c hc => hquotes c (hbehind c hc)

theorem trimWhile_of_spells (ha : a.Fits) (h : a.Spells w) :
    a.SaidBy (Text.trimWhile isQuote w) := by
  obtain ⟨front, s, behind, rfl, hs, hfront, hbehind⟩ := h
  rwa [Text.trimWhile_around (unbroken_of_saidBy ha hs).2 hfront hbehind]

theorem spells_of_trimWhile (h : a.SaidBy (Text.trimWhile isQuote w)) : a.Spells w := by
  obtain ⟨front, behind, hw, hfront, hbehind⟩ := Text.exists_around_trimWhile isQuote w
  exact ⟨front, _, behind, hw, h, hfront, hbehind⟩

end Part

section Pieces

variable {a : Part} {w : List Char} {n : String} {ws : List (List Char)} {line : String} {c : Command}

theorem ofPiece_eq_word_iff : Token.ofPiece w = .word n ↔
    (Token.ofPiece w).keyword? = none ∧ (Token.ofPiece w).text = n := by
  cases h : Token.ofPiece w with
  | keyword k text => simp [Token.keyword?]
  | word text => simp [Token.keyword?, Token.text]
  | ending => exact absurd h (ofPiece_ne_ending w)

/-- A token says what its piece says without the quotes around it. -/
theorem admits_ofPiece_iff (hw : Text.Unbroken isSeparator w) :
    a.Admits (Token.ofPiece w) ↔ a.Fits ∧ a.SaidBy (Text.trimWhile isQuote w) := by
  have htext (v : String) :
      (Token.ofPiece w).text = v ↔ Text.trimWhile isQuote w = v.toList := by
    rw [text_ofPiece, ← String.toList_inj, String.toList_ofList]
  cases a with
  | keyword k =>
    rw [Part.Admits, keyword?_ofPiece, Keyword.ofWord?_eq_some_iff]
    exact (and_iff_right trivial).symm
  | name n =>
    rw [Part.Admits, ofPiece_eq_word_iff, htext, keyword?_ofPiece, Keyword.ofWord?_eq_none_iff]
    constructor
    · rintro ⟨⟨hkeyword, hn⟩, hvalid⟩
      exact ⟨⟨hvalid, hn ▸ hkeyword⟩, hn⟩
    · rintro ⟨⟨hvalid, hkeyword⟩, hn⟩
      have hn : Text.trimWhile isQuote w = n.toList := hn
      exact ⟨⟨hn ▸ hkeyword, hn⟩, hvalid⟩
  | literal v =>
    rw [Part.Admits, and_iff_right (ofPiece_ne_ending w), htext]
    refine ⟨fun hv => ⟨?_, hv⟩, fun h => h.2⟩
    rw [Part.Fits, IsLiteral, ← hv]
    exact ⟨fun c hc => hw c (Text.mem_of_mem_trimWhile hc), Text.bare_trimWhile isQuote w⟩

theorem admits_tokens_iff {as : List Part} (hws : ∀ w ∈ ws, Text.Unbroken isSeparator w) :
    List.Forall₂ Part.Admits as (ws.map Token.ofPiece) ↔
      (∀ a ∈ as, a.Fits) ∧ List.Forall₂ Part.Spells as ws := by
  rw [List.forall₂_map_right_iff]
  constructor
  · intro h
    induction h with
    | nil => exact ⟨List.forall_mem_nil _, .nil⟩
    | cons ha _ ih =>
      obtain ⟨hw, hws⟩ := List.forall_mem_cons.mp hws
      obtain ⟨hfits, hsaid⟩ := (admits_ofPiece_iff hw).mp ha
      obtain ⟨hall, hspells⟩ := ih hws
      exact ⟨List.forall_mem_cons.mpr ⟨hfits, hall⟩, .cons (Part.spells_of_trimWhile hsaid) hspells⟩
  · rintro ⟨hall, h⟩
    induction h with
    | nil => exact .nil
    | cons ha _ ih =>
      obtain ⟨hw, hws⟩ := List.forall_mem_cons.mp hws
      obtain ⟨hfits, hall⟩ := List.forall_mem_cons.mp hall
      exact .cons ((admits_ofPiece_iff hw).mpr ⟨hfits, Part.trimWhile_of_spells hfits ha⟩)
        (ih hws hall)

theorem parseLine_eq_command_iff : parseLine line = .ok (some (.command c)) ↔
    ∃ rest, statement (tokenize line) = .ok (.command c, rest) ∧ atEnd rest = true := by
  rw [parseLine, readTokens_eq, Except.ok_bind]
  constructor
  · intro h
    split at h
    · cases h
    · obtain ⟨⟨s, rest⟩, hs, h⟩ := Except.bind_eq_ok.mp h
      cases hend : atEnd rest with
      | false =>
        simp only [hend] at h
        cases h
      | true =>
        simp only [hend] at h
        cases h
        exact ⟨rest, hs, hend⟩
  · rintro ⟨rest, hs, hend⟩
    have hstart : atEnd (tokenize line) = false := by
      by_contra hnone
      rw [Bool.not_eq_false] at hnone
      rcases atEnd_iff.mp hnone with hnil | ⟨ts, hnil⟩
      · rw [hnil] at hs
        cases hs
      · rw [hnil] at hs
        cases hs
    simp only [hstart, hs, Except.ok_bind, hend]
    rfl

theorem fits_predicateParts {lead : Keyword} {predicates : List Predicate} :
    (∀ a ∈ predicateParts lead predicates, a.Fits) ↔
      ∀ p ∈ predicates, IsName p.column ∧ IsLiteral p.literal := by
  induction predicates generalizing lead with
  | nil => simp [predicateParts]
  | cons p rest ih => simp [predicateParts, ledParts, ih, and_assoc]

theorem fits_columnParts {columns : List (String × ColumnType)} :
    (∀ a ∈ columnParts columns, a.Fits) ↔ ∀ c ∈ columns, IsName c.1 := by
  rw [columnParts, List.forall_mem_flatMap]
  exact forall₂_congr fun c _ => by simp

theorem fits_projectionParts {p : Projection} :
    (∀ a ∈ projectionParts p, a.Fits) ↔ ∀ n ∈ p.names, IsName n := by
  cases p with
  | all => simp [projectionParts, Projection.names]
  | columns names => exact List.forall_mem_map

/-- What a line cannot say is against the arrangement, or no name or literal for it. -/
theorem spellable_iff (c : Command) : Spellable c ↔ Arranged c ∧ ∀ a ∈ parts c, a.Fits := by
  cases c with
  | createTable n columns =>
    simp only [Spellable, Arranged, parts, List.forall_mem_cons, Part.fits_keyword, Part.fits_name,
      fits_columnParts]
    tauto
  | insert t values =>
    simp only [Spellable, Arranged, parts, List.forall_mem_cons, List.forall_mem_map,
      Part.fits_keyword, Part.fits_name, Part.fits_literal, forall_and]
    tauto
  | delete t id =>
    simp only [Spellable, Arranged, parts, List.forall_mem_cons, Part.fits_keyword, Part.fits_name,
      Part.fits_literal, List.not_mem_nil, false_implies, implies_true]
    tauto
  | select t projection predicates =>
    simp only [Spellable, Arranged, parts, List.forall_mem_cons, List.forall_mem_append,
      Part.fits_keyword, Part.fits_name, fits_projectionParts, fits_predicateParts, forall_and]
    tauto
  | _ => simp [Spellable, Arranged, parts]

/-- A line says a command just if its pieces spell the parts of one that a line can say. -/
theorem parseLine_iff : parseLine line = .ok (some (.command c)) ↔
    Spellable c ∧ List.Forall₂ Part.Spells (parts c) (Text.pieces isSeparator line.toList) := by
  have hending : Token.ending ∉ (Text.pieces isSeparator line.toList).map Token.ofPiece := by
    rw [List.mem_map]
    rintro ⟨w, -, hw⟩
    exact ofPiece_ne_ending w hw
  have hpieces : ∀ w ∈ Text.pieces isSeparator line.toList, Text.Unbroken isSeparator w :=
    fun w hw => (Text.isPiece_of_mem_pieces hw).2
  rw [parseLine_eq_command_iff, statement_iff, tokenize, exists_reads_iff hending,
    admits_tokens_iff hpieces, spellable_iff, and_assoc]

end Pieces

end CommandLine

open CommandLine (parseLine isSeparator isQuote Spellable Part parts)

/-- A command line says a command just if the pieces between its separators spell the parts of that
command, and then the command is one that a line can say. Every such command is read from every line
that strings pieces for its parts, with keywords in any case and literals in quotes, whatever the
literals spell. -/
theorem grammar_exact :
    (∀ line c, parseLine line = .ok (some (.command c)) ↔
      Spellable c ∧ List.Forall₂ Part.Spells (parts c) (Text.pieces isSeparator line.toList)) ∧
    ∀ c : Command, Spellable c → ∀ ws line, List.Forall₂ Part.Spells (parts c) ws →
      (∀ w ∈ ws, w ≠ []) → Text.Strung isSeparator ws line.toList →
      parseLine line = .ok (some (.command c)) := by
  refine ⟨fun line c => CommandLine.parseLine_iff, ?_⟩
  intro c hc ws line hspells hne hline
  have hpieces : ∀ w ∈ ws, Text.IsPiece isSeparator w := by
    intro w hw
    obtain ⟨a, ha, hspell⟩ := exists_of_mem_right hspells hw
    exact Part.isPiece_of_spells (((CommandLine.spellable_iff c).mp hc).2 a ha) hspell (hne w hw)
  rw [CommandLine.parseLine_iff, Text.pieces_of_strung hline hpieces]
  exact ⟨hc, hspells⟩

/-- Literals that spell keywords, a column called like a join, capitals, and what may separate. -/
theorem grammar_exact_keywordsAsValues :
    let c : Command := .select "t" (.columns ["a", "join"]) [⟨"a", .eq, "or"⟩, ⟨"b", .ne, "From"⟩]
    let line := "SELECT a join From t Where a == 'or' AND b <> \"From\""
    let other := " SELECT,(a;join)\tFrom t;Where(a,==,'or') AND b <>,\"From\";"
    parseLine line = .ok (some (.command c)) ∧ Spellable c ∧
      parseLine other = .ok (some (.command c)) := by
  intro c line other
  obtain ⟨hexact, hread⟩ := grammar_exact
  have hparsed : parseLine line = .ok (some (.command c)) := by decide +kernel
  obtain ⟨hc, hspells⟩ := (hexact line c).mp hparsed
  have hsame : Text.pieces isSeparator line.toList = Text.pieces isSeparator other.toList := by
    decide +kernel
  refine ⟨hparsed, hc, hread c hc _ other hspells (fun w hw => (Text.isPiece_of_mem_pieces hw).1) ?_⟩
  rw [hsame]
  exact Text.strung_pieces isSeparator other.toList

example : ¬ CommandLine.IsName "Values" := by decide +kernel

end RelStore

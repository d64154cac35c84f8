import RelStore.Json.Print
import RelStore.Json.Read
import RelStore.Proofs.Numerals
/-! Printed JSON reads back. Both sides meet at the tokens of a value: the text is cut into them,
and they make up the value again. A numeral ends where no character of a numeral follows. -/
namespace RelStore.Json

open Text (isDigit)

section Strings

/-- The unit that a character of a string is read as. -/
def unitOf (c : Char) : StringUnit :=
  if c.toNat < 0x20 ∧ c ∉ ['\n', '\t', '\r', '\x08', '\x0c'] then .escaped c.toNat else .char c

theorem hexValue_hexDigit {n : Nat} (h : n < 16) : hexValue (hexDigit n) = some n := by
  revert n
  decide

theorem stringBody_simple {c e : Char} (hu : c ≠ 'u') (he : simpleEscape c = some e)
    (s : List Char) :
    stringBody ('\\' :: c :: s) = (stringBody s).map fun p => (.char e :: p.1, p.2) := by
  rw [stringBody.eq_def]
  split
  · next h => cases h
  · next h => cases h
  · next h => cases h; exact absurd rfl hu
  · next h =>
    cases h
    rw [he]
    cases stringBody s <;> rfl
  · next c' rest _ hplain h =>
    cases h
    exact (hplain _ _ rfl rfl).elim

theorem stringBody_plain {c : Char} (hquote : c ≠ '"') (hback : c ≠ '\\') (hc : 0x20 ≤ c.toNat)
    (s : List Char) : stringBody (c :: s) = (stringBody s).map fun p => (.char c :: p.1, p.2) := by
  have hlt : ¬ c.toNat < 0x20 := by omega
  rw [stringBody.eq_def]
  split
  · next h => cases h
  · next h => cases h; exact absurd rfl hquote
  · next h => cases h; exact absurd rfl hback
  · next h => cases h; exact absurd rfl hback
  · next h => cases h; simp [hlt, hback]

theorem stringBody_escape (c : Char) (s : List Char) :
    stringBody (escape c ++ s) = (stringBody s).map fun p => (unitOf c :: p.1, p.2) := by
  rw [escape.eq_def]
  split
  · exact stringBody_simple (by decide) rfl s
  · exact stringBody_simple (by decide) rfl s
  · exact stringBody_simple (by decide) rfl s
  · exact stringBody_simple (by decide) rfl s
  · exact stringBody_simple (by decide) rfl s
  · exact stringBody_simple (by decide) rfl s
  · exact stringBody_simple (by decide) rfl s
  · next hquote hback hn ht hr hb hf =>
    split
    · next hlt =>
      have hhi := hexValue_hexDigit (n := c.toNat / 16) (by omega)
      have hlo := hexValue_hexDigit (n := c.toNat % 16) (by omega)
      have hval : 0 * 0x1000 + 0 * 0x100 + c.toNat / 16 * 0x10 + c.toNat % 16 = c.toNat := by omega
      have hunit : unitOf c = .escaped c.toNat := by
        rw [unitOf, if_pos]
        simp_all
      have hzero : hexValue '0' = some 0 := rfl
      simp only [List.cons_append, List.nil_append, stringBody, hzero, hhi, hlo, hval, hunit,
        Option.bind_eq_bind, Option.bind_some]
      cases stringBody s <;> rfl
    · next hlt =>
      have hunit : unitOf c = .char c := by
        rw [unitOf, if_neg]
        exact fun h => hlt h.1
      rw [List.singleton_append, hunit]
      exact stringBody_plain hquote hback (Nat.le_of_not_lt hlt) s

theorem stringBody_text (s rest : List Char) :
    stringBody (s.flatMap escape ++ '"' :: rest) = some (s.map unitOf, rest) := by
  induction s with
  | nil => rfl
  | cons c s ih =>
    rw [List.flatMap_cons, List.append_assoc, stringBody_escape, ih]
    rfl

theorem chars_escaped {n : Nat} (h : n < 0x20) (us : List StringUnit) :
    StringUnit.chars (.escaped n :: us) = (StringUnit.chars us).map (Char.ofNat n :: ·) := by
  have hhigh : isHighSurrogate n = false := by simp [isHighSurrogate]; omega
  have hlow : isLowSurrogate n = false := by simp [isLowSurrogate]; omega
  cases us with
  | nil => simp [StringUnit.chars, hhigh, hlow]
  | cons u us =>
    cases u with
    | char c => simp [StringUnit.chars, hhigh, hlow]
    | escaped lo => rw [StringUnit.chars]; simp [hhigh, hlow]

theorem chars_unitOf (s : List Char) : StringUnit.chars (s.map unitOf) = some s := by
  induction s with
  | nil => rfl
  | cons c s ih =>
    rw [List.map_cons, unitOf]
    split
    · next h => simp [chars_escaped h.1, ih]
    · rw [StringUnit.chars, ih]
      rfl

theorem takeToken_quote (s : String) (rest : List Char) :
    takeToken '"' (s.toList.flatMap escape ++ '"' :: rest) = some (.string (some s), rest) := by
  show (stringBody _).map _ = _
  rw [stringBody_text]
  simp [chars_unitOf]

end Strings

section Numbers

/-- A character that may go on a numeral. -/
def isNumeralChar (c : Char) : Bool := isDigit c || c = '.' || c = 'e' || c = 'E'

def Delimited (rest : List Char) : Prop := ∀ c ∈ rest.head?, isNumeralChar c = false

theorem Delimited.digit {rest : List Char} (h : Delimited rest) :
    ∀ c ∈ rest.head?, isDigit c = false := by
  intro c hc
  have := h c hc
  simp only [isNumeralChar, Bool.or_eq_false_iff] at this
  exact this.1.1.1

/-- A digit run in its place, not empty. -/
def IsDigits (ds : List Char) : Prop := ds ≠ [] ∧ ∀ c ∈ ds, isDigit c = true

structure Number.WellFormed (n : Number) : Prop where
  whole : IsDigits n.whole
  needless : ¬ (n.whole.head? = some '0' ∧ 1 < n.whole.length)
  fraction : ∀ ds, n.fraction = some ds → IsDigits ds
  exponent : ∀ e, n.exponent = some e → IsDigits e.2

theorem takeDigits_append {ds rest : List Char} (hd : ∀ c ∈ ds, isDigit c = true)
    (hr : ∀ c ∈ rest.head?, isDigit c = false) : takeDigits (ds ++ rest) = (ds, rest) := by
  rw [takeDigits, List.takeWhile_append_of_pos hd, List.dropWhile_append_of_pos hd]
  cases rest with
  | nil => simp
  | cons c rest =>
    have hc : isDigit c = false := hr c rfl
    simp [hc]

def Number.fractionText : Option (List Char) → List Char
  | none => []
  | some ds => '.' :: ds

def Number.exponentText : Option (Bool × List Char) → List Char
  | none => []
  | some (down, ds) => 'e' :: (if down then '-' else '+') :: ds

theorem Number.text_eq (n : Number) :
    n.text = (if n.negative then ['-'] else []) ++ (n.whole ++ (fractionText n.fraction ++
      exponentText n.exponent)) := by
  obtain ⟨negative, whole, fraction, exponent⟩ := n
  cases fraction <;> cases exponent <;> simp [text, fractionText, exponentText]

theorem Number.takeExponent_text {e : Option (Bool × List Char)} {rest : List Char}
    (he : ∀ p, e = some p → IsDigits p.2) (hr : Delimited rest) :
    takeExponent (exponentText e ++ rest) = some (e, rest) := by
  cases e with
  | none =>
    cases rest with
    | nil => rfl
    | cons c rest =>
      have hc := hr c rfl
      simp only [isNumeralChar, Bool.or_eq_false_iff, decide_eq_false_iff_not] at hc
      simp [exponentText, takeExponent, hc]
  | some p =>
    obtain ⟨down, ds⟩ := p
    obtain ⟨hne, hd⟩ := he _ rfl
    have hds := takeDigits_append hd hr.digit
    obtain ⟨c, ds, rfl⟩ := List.exists_cons_of_ne_nil hne
    cases down <;> simp_all [exponentText, takeExponent, Text.splitSign]

theorem Number.head_exponentText (e : Option (Bool × List Char)) {rest : List Char}
    (hr : Delimited rest) :
    ∀ c ∈ (exponentText e ++ rest).head?, isDigit c = false ∧ c ≠ '.' := by
  intro c hc
  cases e with
  | none =>
    have := hr c hc
    simp only [isNumeralChar, Bool.or_eq_false_iff, decide_eq_false_iff_not] at this
    exact this.1.1
  | some p =>
    cases hc
    exact ⟨rfl, by decide⟩

theorem Number.takeFraction_text {f : Option (List Char)} {rest : List Char}
    (hf : ∀ ds, f = some ds → IsDigits ds) (hr : ∀ c ∈ rest.head?, isDigit c = false ∧ c ≠ '.') :
    takeFraction (fractionText f ++ rest) = some (f, rest) := by
  cases f with
  | none =>
    cases rest with
    | nil => rfl
    | cons c rest =>
      have hc := (hr c rfl).2
      simp [fractionText, takeFraction, hc]
  | some ds =>
    obtain ⟨hne, hd⟩ := hf _ rfl
    have hds := takeDigits_append hd fun c hc => (hr c hc).1
    obtain ⟨c, ds, rfl⟩ := List.exists_cons_of_ne_nil hne
    simp_all [fractionText, takeFraction]

theorem Number.head_fractionText (f : Option (List Char)) {rest : List Char}
    (hr : ∀ c ∈ rest.head?, isDigit c = false ∧ c ≠ '.') :
    ∀ c ∈ (fractionText f ++ rest).head?, isDigit c = false := by
  intro c hc
  cases f with
  | none => exact (hr c hc).1
  | some ds => cases hc; rfl

/-- The sign in front, then the whole part: what is left is fraction and exponent. -/
theorem Number.take_text {n : Number} (h : n.WellFormed) {rest : List Char} (hr : Delimited rest) :
    Number.take (n.text ++ rest) = some (n, rest) := by
  obtain ⟨negative, whole, fraction, exponent⟩ := n
  obtain ⟨⟨hne, hd⟩, hneedless, hf, he⟩ := h
  have hexp := takeExponent_text he hr
  have hfrac := takeFraction_text hf (head_exponentText exponent hr)
  have hwhole := takeDigits_append hd (head_fractionText fraction (head_exponentText exponent hr))
  obtain ⟨c, ds, rfl⟩ := List.exists_cons_of_ne_nil hne
  have hminus : c ≠ '-' := by
    rintro rfl
    cases hd '-' List.mem_cons_self
  rw [text_eq]
  simp only [List.append_assoc] at *
  cases negative <;> simp_all [take]

end Numbers

section Tokens

mutual

/-- The tokens of a value. -/
def tokenList : Json → List Token
  | .null => [.null]
  | .bool b => [.bool b]
  | .number n => [.number n]
  | .string s => [.string s]
  | .array items => .openArray :: (itemTokens items ++ [.closeArray])
  | .object fields => .openObject :: (fieldTokens fields ++ [.closeObject])

def itemTokens : List Json → List Token
  | [] => []
  | [item] => tokenList item
  | item :: items => tokenList item ++ .comma :: itemTokens items

def fieldTokens : List (Option String × Json) → List Token
  | [] => []
  | [(key, value)] => .string key :: .colon :: tokenList value
  | (key, value) :: fields =>
    .string key :: .colon :: (tokenList value ++ .comma :: fieldTokens fields)

end

mutual

/-- Values with a text: numerals are well formed, and strings are no lone surrogates. -/
def Printable : Json → Prop
  | .null => True
  | .bool _ => True
  | .number n => n.WellFormed
  | .string s => s.isSome
  | .array items => PrintableItems items
  | .object fields => PrintableFields fields

def PrintableItems : List Json → Prop
  | [] => True
  | item :: items => Printable item ∧ PrintableItems items

def PrintableFields : List (Option String × Json) → Prop
  | [] => True
  | (key, value) :: fields => key.isSome ∧ Printable value ∧ PrintableFields fields

end

/-- The whole text is cut into these tokens, given enough fuel. -/
def Lexed (s : List Char) (ts : List Token) : Prop := ∀ fuel, s.length ≤ fuel → tokens fuel s = some ts

theorem lexed_nil : Lexed [] [] := by
  intro fuel _
  cases fuel <;> rfl

theorem lexed_space {c : Char} {s : List Char} {ts : List Token} (hc : isSpace c = true)
    (h : Lexed s ts) : Lexed (c :: s) ts := by
  intro fuel hf
  cases fuel with
  | zero => simp at hf
  | succ fuel =>
    rw [tokens, if_pos hc]
    exact h fuel (by simpa using hf)

theorem lexed_token {c : Char} {s rest : List Char} {t : Token} {ts : List Token}
    (hc : isSpace c = false) (ht : takeToken c s = some (t, rest)) (hlen : rest.length ≤ s.length)
    (h : Lexed rest ts) : Lexed (c :: s) (t :: ts) := by
  intro fuel hf
  cases fuel with
  | zero => simp at hf
  | succ fuel =>
    have hs : s.length ≤ fuel := by simpa using hf
    rw [tokens, if_neg (by simp [hc]), ht]
    simp [h fuel (Nat.le_trans hlen hs)]

theorem lexed_newline (level : Nat) {s : List Char} {ts : List Token} (h : Lexed s ts) :
    Lexed (newline level ++ s) ts := by
  refine lexed_space rfl ?_
  generalize 2 * level = n
  induction n with
  | zero => exact h
  | succ n ih => exact lexed_space rfl ih

theorem lexed_quote {s : String} {rest : List Char} {ts : List Token} (h : Lexed rest ts) :
    Lexed (quote s ++ rest) (.string (some s) :: ts) := by
  have ht := takeToken_quote s rest
  have hq : quote s ++ rest = '"' :: (s.toList.flatMap escape ++ '"' :: rest) := by simp [quote]
  rw [hq]
  exact lexed_token rfl ht (by simp; omega) h

theorem takeToken_numeral {c : Char} (h : isDigit c = true ∨ c = '-') (s : List Char) :
    isSpace c = false ∧ takeToken c s = (Number.take (c :: s)).map fun p => (.number p.1, p.2) := by
  constructor
  · rcases h with h | rfl
    · apply Bool.eq_false_iff.mpr
      intro hs
      simp only [isSpace, Bool.or_eq_true, decide_eq_true_eq] at hs
      rcases hs with ((rfl | rfl) | rfl) | rfl <;> cases h
    · rfl
  · rw [takeToken.eq_def]
    split <;> first | rfl | (rcases h with h | h <;> cases h)

theorem lexed_number {n : Number} (hn : n.WellFormed) {rest : List Char} {ts : List Token}
    (hd : Delimited rest) (h : Lexed rest ts) : Lexed (n.text ++ rest) (.number n :: ts) := by
  have htake := Number.take_text hn hd
  obtain ⟨c, s, hs, hc⟩ : ∃ c s, n.text = c :: s ∧ (isDigit c = true ∨ c = '-') := by
    rw [Number.text_eq]
    obtain ⟨c, ds, hw⟩ := List.exists_cons_of_ne_nil hn.whole.1
    cases n.negative with
    | true => exact ⟨'-', _, rfl, .inr rfl⟩
    | false =>
      rw [hw]
      exact ⟨c, _, rfl, .inl (hn.whole.2 c (by rw [hw]; exact List.mem_cons_self))⟩
  rw [hs, List.cons_append] at htake ⊢
  obtain ⟨hspace, htoken⟩ := takeToken_numeral hc (s ++ rest)
  refine lexed_token hspace ?_ (by simp) h
  rw [htoken, htake]
  rfl

theorem delimited_cons {c : Char} {s : List Char} (h : isNumeralChar c = false) :
    Delimited (c :: s) := by
  intro c' hc'
  cases hc'
  exact h

theorem delimited_newline (level : Nat) (s : List Char) : Delimited (newline level ++ s) :=
  delimited_cons rfl

mutual

theorem lexed_pretty : ∀ (j : Json) (level : Nat) {rest : List Char} {ts : List Token},
    Printable j → Delimited rest → Lexed rest ts →
      Lexed (pretty level j ++ rest) (tokenList j ++ ts)
  | .null, level, rest, ts, _, _, h => lexed_token rfl rfl (by simp; omega) h
  | .bool true, level, rest, ts, _, _, h => lexed_token rfl rfl (by simp; omega) h
  | .bool false, level, rest, ts, _, _, h => lexed_token rfl rfl (by simp; omega) h
  | .number n, level, rest, ts, hn, hd, h => by
    rw [pretty, tokenList]
    exact lexed_number hn hd h
  | .string none, level, rest, ts, hs, _, h => by cases hs
  | .string (some s), level, rest, ts, _, _, h => by
    rw [pretty, tokenList]
    exact lexed_quote h
  | .array [], level, rest, ts, _, _, h => by
    rw [pretty, tokenList, itemTokens]
    exact lexed_token rfl rfl (by simp) (lexed_token rfl rfl (by simp) h)
  | .array (item :: items), level, rest, ts, hj, _, h => by
    rw [pretty, tokenList]
    · simp only [List.cons_append, List.append_assoc, List.nil_append]
      refine lexed_token rfl rfl (Nat.le_refl _) (lexed_newline _ ?_)
      exact lexed_prettyItems (item :: items) _ hj (delimited_newline _ _)
        (lexed_newline _ (lexed_token rfl rfl (Nat.le_refl _) h))
    · simp
  | .object [], level, rest, ts, _, _, h => by
    rw [pretty, tokenList, fieldTokens]
    exact lexed_token rfl rfl (by simp) (lexed_token rfl rfl (by simp) h)
  | .object (field :: fields), level, rest, ts, hj, _, h => by
    rw [pretty, tokenList]
    · simp only [List.cons_append, List.append_assoc, List.nil_append]
      refine lexed_token rfl rfl (Nat.le_refl _) (lexed_newline _ ?_)
      exact lexed_prettyFields (field :: fields) _ hj (delimited_newline _ _)
        (lexed_newline _ (lexed_token rfl rfl (Nat.le_refl _) h))
    · simp

theorem lexed_prettyItems : ∀ (items : List Json) (level : Nat) {rest : List Char}
    {ts : List Token}, PrintableItems items → Delimited rest → Lexed rest ts →
      Lexed (prettyItems level items ++ rest) (itemTokens items ++ ts)
  | [], level, rest, ts, _, _, h => h
  | [item], level, rest, ts, hj, hd, h => by
    rw [prettyItems, itemTokens]
    exact lexed_pretty item level hj.1 hd h
  | item :: item' :: items, level, rest, ts, hj, hd, h => by
    rw [prettyItems, itemTokens]
    · simp only [List.cons_append, List.append_assoc]
      refine lexed_pretty item level hj.1 (delimited_cons rfl)
        (lexed_token rfl rfl (Nat.le_refl _) (lexed_newline _ ?_))
      exact lexed_prettyItems (item' :: items) level hj.2 hd h
    all_goals simp

theorem lexed_prettyFields : ∀ (fields : List (Option String × Json)) (level : Nat)
    {rest : List Char} {ts : List Token}, PrintableFields fields → Delimited rest → Lexed rest ts →
      Lexed (prettyFields level fields ++ rest) (fieldTokens fields ++ ts)
  | [], level, rest, ts, _, _, h => h
  | (none, _) :: _, level, rest, ts, hj, _, h => by cases hj.1
  | [(some key, value)], level, rest, ts, hj, hd, h => by
    rw [prettyFields, fieldTokens]
    simp only [List.cons_append, List.append_assoc]
    refine lexed_quote (lexed_token rfl rfl (Nat.le_refl _) (lexed_space rfl ?_))
    exact lexed_pretty value level hj.2.1 hd h
  | (some key, value) :: field :: fields, level, rest, ts, hj, hd, h => by
    rw [prettyFields, fieldTokens]
    · simp only [List.cons_append, List.append_assoc]
      refine lexed_quote (lexed_token rfl rfl (Nat.le_refl _) (lexed_space rfl ?_))
      refine lexed_pretty value level hj.2.1 (delimited_cons rfl)
        (lexed_token rfl rfl (Nat.le_refl _) (lexed_newline _ ?_))
      exact lexed_prettyFields (field :: fields) level hj.2.2 hd h
    all_goals simp

end

mutual

theorem lexed_compact : ∀ (j : Json) {rest : List Char} {ts : List Token},
    Printable j → Delimited rest → Lexed rest ts →
      Lexed (compact j ++ rest) (tokenList j ++ ts)
  | .null, rest, ts, _, _, h => lexed_token rfl rfl (by simp; omega) h
  | .bool true, rest, ts, _, _, h => lexed_token rfl rfl (by simp; omega) h
  | .bool false, rest, ts, _, _, h => lexed_token rfl rfl (by simp; omega) h
  | .number n, rest, ts, hn, hd, h => by
    rw [compact, tokenList]
    exact lexed_number hn hd h
  | .string none, rest, ts, hs, _, h => by cases hs
  | .string (some s), rest, ts, _, _, h => by
    rw [compact, tokenList]
    exact lexed_quote h
  | .array items, rest, ts, hj, _, h => by
    rw [compact, tokenList]
    simp only [List.cons_append, List.append_assoc, List.nil_append]
    refine lexed_token rfl rfl (Nat.le_refl _) ?_
    exact lexed_compactItems items hj (delimited_cons rfl) (lexed_token rfl rfl (Nat.le_refl _) h)
  | .object fields, rest, ts, hj, _, h => by
    rw [compact, tokenList]
    simp only [List.cons_append, List.append_assoc, List.nil_append]
    refine lexed_token rfl rfl (Nat.le_refl _) ?_
    exact lexed_compactFields fields hj (delimited_cons rfl)
      (lexed_token rfl rfl (Nat.le_refl _) h)

theorem lexed_compactItems : ∀ (items : List Json) {rest : List Char} {ts : List Token},
    PrintableItems items → Delimited rest → Lexed rest ts →
      Lexed (compactItems items ++ rest) (itemTokens items ++ ts)
  | [], rest, ts, _, _, h => h
  | [item], rest, ts, hj, hd, h => by
    rw [compactItems, itemTokens]
    exact lexed_compact item hj.1 hd h
  | item :: item' :: items, rest, ts, hj, hd, h => by
    rw [compactItems, itemTokens]
    · simp only [List.cons_append, List.append_assoc]
      refine lexed_compact item hj.1 (delimited_cons rfl)
        (lexed_token rfl rfl (Nat.le_refl _) ?_)
      exact lexed_compactItems (item' :: items) hj.2 hd h
    all_goals simp

theorem lexed_compactFields : ∀ (fields : List (Option String × Json)) {rest : List Char}
    {ts : List Token}, PrintableFields fields → Delimited rest → Lexed rest ts →
      Lexed (compactFields fields ++ rest) (fieldTokens fields ++ ts)
  | [], rest, ts, _, _, h => h
  | (none, _) :: _, rest, ts, hj, _, h => by cases hj.1
  | [(some key, value)], rest, ts, hj, hd, h => by
    rw [compactFields, fieldTokens]
    simp only [List.cons_append, List.append_assoc]
    refine lexed_quote (lexed_token rfl rfl (Nat.le_refl _) ?_)
    exact lexed_compact value hj.2.1 hd h
  | (some key, value) :: field :: fields, rest, ts, hj, hd, h => by
    rw [compactFields, fieldTokens]
    · simp only [List.cons_append, List.append_assoc]
      refine lexed_quote (lexed_token rfl rfl (Nat.le_refl _) ?_)
      refine lexed_compact value hj.2.1 (delimited_cons rfl)
        (lexed_token rfl rfl (Nat.le_refl _) ?_)
      exact lexed_compactFields (field :: fields) hj.2.2 hd h
    all_goals simp

end

end Tokens

section Values

theorem tokenList_open (j : Json) (ts : List Token) :
    ∀ rest, tokenList j ++ ts ≠ .closeArray :: rest := by
  intro rest h
  cases j <;> rw [tokenList] at h <;> cases h

theorem itemTokens_open (item : Json) (items : List Json) (ts : List Token) :
    ∀ rest, itemTokens (item :: items) ++ ts ≠ .closeArray :: rest := by
  intro rest h
  cases items with
  | nil =>
    rw [itemTokens] at h
    exact tokenList_open _ _ _ h
  | cons item' items =>
    rw [itemTokens, List.append_assoc] at h
    · exact tokenList_open _ _ _ h
    · simp

theorem fieldTokens_open (field : Option String × Json) (fields : List (Option String × Json))
    (ts : List Token) : ∀ rest, fieldTokens (field :: fields) ++ ts ≠ .closeObject :: rest := by
  intro rest h
  obtain ⟨key, j⟩ := field
  cases fields with
  | nil =>
    rw [fieldTokens] at h
    cases h
  | cons field' fields =>
    rw [fieldTokens] at h
    · cases h
    · simp

mutual

theorem value_tokenList : ∀ (j : Json) {fuel : Nat} (rest : List Token),
    (tokenList j).length ≤ fuel → value fuel (tokenList j ++ rest) = some (j, rest)
  | .null, 0, _, h => by simp [tokenList] at h
  | .null, fuel + 1, rest, _ => rfl
  | .bool b, 0, _, h => by simp [tokenList] at h
  | .bool b, fuel + 1, rest, _ => rfl
  | .number n, 0, _, h => by simp [tokenList] at h
  | .number n, fuel + 1, rest, _ => rfl
  | .string s, 0, _, h => by simp [tokenList] at h
  | .string s, fuel + 1, rest, _ => rfl
  | .array items, 0, _, h => by simp [tokenList] at h
  | .array [], fuel + 1, rest, _ => rfl
  | .array (item :: items), fuel + 1, rest, h => by
    rw [tokenList, List.length_cons, List.length_append, List.length_singleton] at h
    rw [tokenList, List.cons_append, List.append_assoc, value]
    · rw [List.singleton_append, items_itemTokens item items rest (Nat.le_of_succ_le_succ h)]
      rfl
    · exact itemTokens_open item items _
  | .object fields, 0, _, h => by simp [tokenList] at h
  | .object [], fuel + 1, rest, _ => rfl
  | .object (field :: fields), fuel + 1, rest, h => by
    rw [tokenList, List.length_cons, List.length_append, List.length_singleton] at h
    rw [tokenList, List.cons_append, List.append_assoc, value]
    · rw [List.singleton_append, fields_fieldTokens field fields rest (Nat.le_of_succ_le_succ h)]
      rfl
    · exact fieldTokens_open field fields _

theorem items_itemTokens : ∀ (item : Json) (items : List Json) {fuel : Nat} (rest : List Token),
    (itemTokens (item :: items)).length + 1 ≤ fuel →
      Json.items fuel (itemTokens (item :: items) ++ .closeArray :: rest) =
        some (item :: items, rest)
  | item, _, 0, _, h => by simp at h
  | item, [], fuel + 1, rest, h => by
    rw [itemTokens] at h ⊢
    rw [Json.items, value_tokenList item _ (by omega)]
  | item, item' :: items, fuel + 1, rest, h => by
    rw [itemTokens, List.length_append, List.length_cons] at h
    · rw [itemTokens, List.append_assoc, Json.items, value_tokenList item _ (by omega)]
      · rw [List.cons_append]
        simp only
        rw [items_itemTokens item' items rest (by omega)]
        rfl
      · simp
    · simp

theorem fields_fieldTokens : ∀ (field : Option String × Json)
    (fields : List (Option String × Json)) {fuel : Nat} (rest : List Token),
    (fieldTokens (field :: fields)).length + 1 ≤ fuel →
      Json.fields fuel (fieldTokens (field :: fields) ++ .closeObject :: rest) =
        some (field :: fields, rest)
  | _, _, 0, _, h => by simp at h
  | (key, j), [], fuel + 1, rest, h => by
    rw [fieldTokens, List.length_cons, List.length_cons] at h
    rw [fieldTokens, List.cons_append, List.cons_append, Json.fields,
      value_tokenList j _ (by omega)]
  | (key, j), field' :: fields, fuel + 1, rest, h => by
    rw [fieldTokens, List.length_cons, List.length_cons, List.length_append, List.length_cons] at h
    · rw [fieldTokens, List.cons_append, List.cons_append, List.append_assoc, Json.fields,
        value_tokenList j _ (by omega)]
      · rw [List.cons_append]
        simp only
        rw [fields_fieldTokens field' fields rest (by omega)]
        rfl
      · simp
    · simp

end

theorem read?_of_lexed {j : Json} {s : List Char} (h : Lexed s (tokenList j)) :
    read? s = some j := by
  have hvalue := value_tokenList j [] (Nat.le_refl _)
  rw [List.append_nil] at hvalue
  rw [read?, h _ (Nat.le_refl _)]
  simp [hvalue]

theorem read?_pretty {j : Json} (h : Printable j) (level : Nat) :
    read? (pretty level j) = some j := by
  have hlex := @lexed_pretty j level [] _ h (by simp [Delimited]) lexed_nil
  rw [List.append_nil, List.append_nil] at hlex
  exact read?_of_lexed hlex

theorem read?_compact {j : Json} (h : Printable j) : read? (compact j) = some j := by
  have hlex := @lexed_compact j [] _ h (by simp [Delimited]) lexed_nil
  rw [List.append_nil, List.append_nil] at hlex
  exact read?_of_lexed hlex

end Values

end RelStore.Json

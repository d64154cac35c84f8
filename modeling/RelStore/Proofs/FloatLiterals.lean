import RelStore.Proofs.FloatNumbers
import RelStore.Value.Literal
/-! Literals of floats. A literal writes a number by its sign, the digits around its point and its
exponent, and is read as the pattern nearest to that number. Of an exponent only so many digits are
counted, so that a literal whose digits make up for a very large one is read as another number. -/
namespace RelStore

open Text (isDigit digitsValue)

/-- A literal taken apart: its sign, `true` for minus, the digits on both sides of the point, and the
sign and the digits of the exponent, if it has one. -/
structure FloatLiteral where
  negative : Bool
  whole : List Char
  fraction : List Char
  exponent : Option (Bool × List Char)
  digits : ∀ c ∈ whole ++ fraction, c.isDigit = true
  digits_ne : whole ++ fraction ≠ []
  exponent_digits : ∀ p ∈ exponent, p.2 ≠ [] ∧ ∀ c ∈ p.2, c.isDigit = true

namespace FloatLiteral

inductive SignText : Bool → List Char → Prop where
  | none : SignText false []
  | plus : SignText false ['+']
  | minus : SignText true ['-']

/-- The point may be there without a digit behind it. -/
inductive FractionText : List Char → List Char → Prop where
  | none : FractionText [] []
  | point (ds : List Char) : FractionText ds ('.' :: ds)

inductive ExponentText : Option (Bool × List Char) → List Char → Prop where
  | none : ExponentText none []
  | marked {mark : Char} {negative : Bool} {sign : List Char} (ds : List Char)
    (hmark : mark = 'e' ∨ mark = 'E') (hsign : SignText negative sign) :
    ExponentText (some (negative, ds)) (mark :: (sign ++ ds))

/-- The texts of a literal. -/
inductive Spells (l : FloatLiteral) : List Char → Prop where
  | intro {sign fraction exponent : List Char} (hsign : SignText l.negative sign)
    (hfraction : FractionText l.fraction fraction) (hexponent : ExponentText l.exponent exponent) :
    Spells l (sign ++ (l.whole ++ (fraction ++ exponent)))

/-- What a sign and digits stand for, if the digits stand for `value`. -/
def signed (value : List Char → ℕ) : Option (Bool × List Char) → ℤ
  | none => 0
  | some (negative, ds) => if negative then -(value ds : ℤ) else value ds

/-- The exponent that is written. -/
def scale (l : FloatLiteral) : ℤ := signed (Nat.ofDigitChars 10 · 0) l.exponent

/-- The number that is written, without its sign. -/
def magnitude (l : FloatLiteral) : ℚ :=
  Nat.ofDigitChars 10 (l.whole ++ l.fraction) 0 * 10 ^ (l.scale - l.fraction.length)

def number (l : FloatLiteral) : ℚ := if l.negative then -l.magnitude else l.magnitude

/-- Either the exponent is so small that all its digits are counted, or the other digits are so few that
this does not matter: nothing is left within the range of numbers, whatever a large exponent is taken
for. -/
def Legible (l : FloatLiteral) : Prop :=
  l.scale.natAbs < 655360 ∨ (l.whole ++ l.fraction).length ≤ 65212

/-- The decimal that a literal is read as, with the exponent as far as it is counted. -/
def decimal (l : FloatLiteral) : Decimal :=
  ⟨digitsValue 0 (l.whole ++ l.fraction),
    signed (Decimal.exponentValue 0) l.exponent - l.fraction.length⟩

section Texts

variable {negative : Bool} {sign ds text rest s : List Char} {e : Option (Bool × List Char)} {n : ℤ}

theorem SignText.splitSign (h : SignText negative sign)
    (hrest : ∀ c ∈ rest.head?, c ≠ '-' ∧ c ≠ '+') :
    Text.splitSign (sign ++ rest) = (negative, rest) := by
  cases h with
  | none =>
    cases rest with
    | nil => rfl
    | cons c rest =>
      obtain ⟨hminus, hplus⟩ := hrest c rfl
      simp [Text.splitSign, hminus, hplus]
  | plus => rfl
  | minus => rfl

theorem signText_splitSign (s : List Char) :
    ∃ sign, SignText (Text.splitSign s).1 sign ∧ s = sign ++ (Text.splitSign s).2 := by
  unfold Text.splitSign
  split
  · exact ⟨_, .minus, rfl⟩
  · exact ⟨_, .plus, rfl⟩
  · exact ⟨_, .none, rfl⟩

theorem FractionText.splitFraction (h : FractionText ds text) (hd : ∀ c ∈ ds, isDigit c = true)
    (hrest : ∀ c ∈ rest.head?, c ≠ '.' ∧ isDigit c = false) :
    Decimal.splitFraction (text ++ rest) = (ds, rest) := by
  cases h with
  | none =>
    cases rest with
    | nil => rfl
    | cons c rest =>
      obtain ⟨hpoint, -⟩ := hrest c rfl
      simp [Decimal.splitFraction, hpoint]
  | point =>
    obtain ⟨htake, hdrop⟩ := Decimal.takeWhile_digits hd rest fun c hc => (hrest c hc).2
    rw [List.cons_append, Decimal.splitFraction, htake, hdrop]

theorem fractionText_splitFraction (s : List Char) : ∃ text,
    FractionText (Decimal.splitFraction s).1 text ∧ s = text ++ (Decimal.splitFraction s).2 ∧
      ∀ c ∈ (Decimal.splitFraction s).1, isDigit c = true := by
  unfold Decimal.splitFraction
  split
  · next rest =>
    refine ⟨_, .point _, ?_, fun c hc => List.all_eq_true.mp List.all_takeWhile c hc⟩
    rw [List.cons_append, List.takeWhile_append_dropWhile]
  · exact ⟨_, .none, rfl, fun _ hc => nomatch hc⟩

theorem ExponentText.head (h : ExponentText e text) :
    ∀ c ∈ text.head?, c ≠ '-' ∧ c ≠ '+' ∧ c ≠ '.' ∧ isDigit c = false := by
  cases h with
  | none => exact fun _ hc => nomatch hc
  | marked ds hmark hsign =>
    intro c hc
    cases hc
    rcases hmark with rfl | rfl <;> decide

theorem readExponent_eq_some : Decimal.readExponent s = some n ↔
    ∃ e, ExponentText e s ∧ (∀ p ∈ e, p.2 ≠ [] ∧ ∀ c ∈ p.2, isDigit c = true) ∧
      signed (Decimal.exponentValue 0) e = n := by
  constructor
  · intro h
    cases s with
    | nil =>
      cases h
      exact ⟨none, .none, (fun _ hp => nomatch hp), rfl⟩
    | cons mark rest =>
      rw [Decimal.readExponent] at h
      split at h
      · next hmark =>
        obtain ⟨sign, hsign, hrest⟩ := signText_splitSign rest
        obtain ⟨⟨negative, ds⟩, hsplit⟩ : ∃ p, p = Text.splitSign rest := ⟨_, rfl⟩
        rw [← hsplit] at h hsign hrest
        dsimp only at h
        split at h
        · next hds =>
          rw [Bool.and_eq_true, decide_eq_true_eq, List.all_eq_true] at hds
          cases h
          refine ⟨some (negative, ds), ?_, ?_, rfl⟩
          · rw [hrest]
            exact .marked ds (by simpa using hmark) hsign
          · rintro _ ⟨⟩
            exact hds
        · cases h
      · cases h
  · rintro ⟨e, htext, hdigits, rfl⟩
    cases htext with
    | none => rfl
    | @marked mark negative sign ds hmark hsign =>
      obtain ⟨hne, hds⟩ := hdigits _ rfl
      have hhead : ∀ c ∈ ds.head?, c ≠ '-' ∧ c ≠ '+' := by
        intro c hc
        have hdigit := hds c (List.mem_of_mem_head? hc)
        constructor <;> rintro rfl <;> cases hdigit
      have hmark' : (decide (mark = 'e') || decide (mark = 'E')) = true := by simpa using hmark
      rw [Decimal.readExponent, if_pos hmark', hsign.splitSign hhead]
      dsimp only
      rw [if_pos (by simp [hne, List.all_eq_true.mpr hds])]
      rfl

end Texts

section Reading

variable {l : FloatLiteral} {sign fraction exponent s : List Char} {d : Decimal}

theorem whole_digits (l : FloatLiteral) : ∀ c ∈ l.whole, isDigit c = true := fun c hc => by
  rw [Text.isDigit_eq]
  exact l.digits c (List.mem_append_left _ hc)

theorem fraction_digits (l : FloatLiteral) : ∀ c ∈ l.fraction, isDigit c = true := fun c hc => by
  rw [Text.isDigit_eq]
  exact l.digits c (List.mem_append_right _ hc)

theorem head_fraction {ds : List Char} {e : Option (Bool × List Char)}
    (hfraction : FractionText ds fraction) (hexponent : ExponentText e exponent) :
    ∀ c ∈ (fraction ++ exponent).head?, c ≠ '-' ∧ c ≠ '+' ∧ isDigit c = false := by
  intro c hc
  cases hfraction with
  | none =>
    obtain ⟨hminus, hplus, -, hdigit⟩ := hexponent.head c hc
    exact ⟨hminus, hplus, hdigit⟩
  | point =>
    cases hc
    decide

theorem head_unsigned (hfraction : FractionText l.fraction fraction)
    (hexponent : ExponentText l.exponent exponent) :
    ∀ c ∈ (l.whole ++ (fraction ++ exponent)).head?, c ≠ '-' ∧ c ≠ '+' := by
  intro c hc
  cases hwhole : l.whole with
  | nil =>
    rw [hwhole] at hc
    obtain ⟨hminus, hplus, -⟩ := head_fraction hfraction hexponent c hc
    exact ⟨hminus, hplus⟩
  | cons digit rest =>
    rw [hwhole] at hc
    cases hc
    have hdigit := l.whole_digits c (hwhole ▸ List.mem_cons_self)
    constructor <;> rintro rfl <;> cases hdigit

theorem read?_unsigned (hfraction : FractionText l.fraction fraction)
    (hexponent : ExponentText l.exponent exponent) :
    Decimal.read? (l.whole ++ (fraction ++ exponent)) = some l.decimal := by
  obtain ⟨htake, hdrop⟩ := Decimal.takeWhile_digits l.whole_digits (fraction ++ exponent)
    fun c hc => (head_fraction hfraction hexponent c hc).2.2
  have hsplit := hfraction.splitFraction l.fraction_digits fun c hc => (hexponent.head c hc).2.2
  have hread : Decimal.readExponent exponent =
      some (signed (Decimal.exponentValue 0) l.exponent) := by
    refine readExponent_eq_some.mpr ⟨l.exponent, hexponent, fun p hp => ?_, rfl⟩
    simpa only [Text.isDigit_eq] using l.exponent_digits p hp
  have hne : (l.whole.isEmpty && l.fraction.isEmpty) = false := by
    have hdigits := l.digits_ne
    rw [ne_eq, List.append_eq_nil_iff] at hdigits
    simpa using hdigits
  rw [Decimal.read?]
  simp only [htake, hdrop, hsplit, hread, hne, Bool.false_eq_true, if_false, Option.map_some]
  rfl

theorem exists_of_read? {negative : Bool} (hsign : SignText negative sign)
    (h : Decimal.read? s = some d) :
    ∃ l : FloatLiteral, l.Spells (sign ++ s) ∧ l.negative = negative ∧ l.decimal = d := by
  obtain ⟨fraction, hfraction, hrest, hdigits⟩ := fractionText_splitFraction (s.dropWhile isDigit)
  rw [Decimal.read?] at h
  dsimp only at h
  split at h
  · cases h
  · next hne =>
    obtain ⟨n, hn, rfl⟩ := Option.map_eq_some_iff.mp h
    obtain ⟨e, hexponent, he, rfl⟩ := readExponent_eq_some.mp hn
    have hs : sign ++ (s.takeWhile isDigit ++ (fraction ++
        (Decimal.splitFraction (s.dropWhile isDigit)).2)) = sign ++ s := by
      rw [← hrest, List.takeWhile_append_dropWhile]
    refine ⟨⟨negative, s.takeWhile isDigit, _, e, ?_, ?_, ?_⟩, ?_, rfl, rfl⟩
    · refine List.forall_mem_append.mpr ⟨fun c hc => ?_, fun c hc => ?_⟩
      · rw [← Text.isDigit_eq]
        exact List.all_eq_true.mp List.all_takeWhile c hc
      · rw [← Text.isDigit_eq]
        exact hdigits c hc
    · rw [ne_eq, List.append_eq_nil_iff]
      simpa using hne
    · simpa only [Text.isDigit_eq] using he
    · rw [← hs]
      exact .intro hsign hfraction hexponent

end Reading

end FloatLiteral

namespace Decimal

variable {start : ℕ} {ds : List Char}

theorem exponentValue_eq (h : digitsValue start ds < 10 * exponentLimit) :
    exponentValue start ds = digitsValue start ds := by
  induction ds generalizing start with
  | nil => rfl
  | cons c rest ih =>
    have hstart : start < exponentLimit := by
      have hle := Text.le_digitsValue (10 * start + Text.digitValue c) rest
      have hlt : digitsValue (10 * start + Text.digitValue c) rest < 10 * exponentLimit := h
      omega
    rw [exponentValue, List.foldl_cons, if_pos hstart]
    exact ih h

/-- An exponent that is too large to be counted is at least taken for a large one. -/
theorem le_exponentValue (h : exponentLimit ≤ digitsValue start ds) :
    exponentLimit ≤ exponentValue start ds := by
  induction ds generalizing start with
  | nil => exact h
  | cons c rest ih =>
    rw [exponentValue, List.foldl_cons]
    split
    · exact ih h
    · next hstart => exact ih ((Nat.not_lt.mp hstart).trans (Text.le_digitsValue start rest))

end Decimal

namespace FloatLiteral

section Values

variable {l : FloatLiteral}

/-- The decimal that is written. -/
def written (l : FloatLiteral) : Decimal :=
  ⟨digitsValue 0 (l.whole ++ l.fraction), l.scale - l.fraction.length⟩

theorem number_written (l : FloatLiteral) : l.written.number = l.magnitude := rfl

theorem magnitude_nonneg (l : FloatLiteral) : 0 ≤ l.magnitude := l.written.number_nonneg

theorem coefficient_lt (l : FloatLiteral) :
    digitsValue 0 (l.whole ++ l.fraction) < 10 ^ (l.whole ++ l.fraction).length := by
  have hlt := Text.digitsValue_lt 0 (List.forall_mem_append.mpr ⟨l.whole_digits, l.fraction_digits⟩)
  rwa [Nat.one_mul] at hlt

theorem natAbs_signed (value : List Char → ℕ) (negative : Bool) (ds : List Char) :
    (signed value (some (negative, ds))).natAbs = value ds := by
  cases negative
  · exact Int.natAbs_natCast _
  · exact Int.natAbs_neg _

theorem decimal_eq_written (h : l.scale.natAbs < 655360) : l.decimal = l.written := by
  have hsigned : signed (Decimal.exponentValue 0) l.exponent = l.scale := by
    rw [scale] at h ⊢
    cases he : l.exponent with
    | none => rfl
    | some p =>
      obtain ⟨negative, ds⟩ := p
      rw [he, natAbs_signed] at h
      rw [signed, signed, Decimal.exponentValue_eq h]
      rfl
  rw [decimal, written, hsigned]

/-- With so few digits all that a large exponent leaves is an infinity or a zero. -/
theorem magnitude_of_short (hlength : (l.whole ++ l.fraction).length ≤ 65212)
    (h : 655360 ≤ l.scale.natAbs) : l.decimal.magnitude = l.written.magnitude := by
  by_cases hzero : digitsValue 0 (l.whole ++ l.fraction) = 0
  · rw [Decimal.magnitude_of_number, Decimal.magnitude_of_number]
    · rw [Decimal.number, written, hzero, Nat.cast_zero, zero_mul]
    · rw [Decimal.number, decimal, hzero, Nat.cast_zero, zero_mul]
  have hcoefficient := l.coefficient_lt
  have hfraction : l.fraction.length ≤ (l.whole ++ l.fraction).length := by
    rw [List.length_append]
    exact Nat.le_add_left _ _
  rw [scale] at h
  cases he : l.exponent with
  | none =>
    rw [he] at h
    cases h
  | some p =>
    obtain ⟨negative, ds⟩ := p
    rw [he, natAbs_signed, ← Text.digitsValue_eq] at h
    have hkept : 0x10000 ≤ Decimal.exponentValue 0 ds :=
      Decimal.le_exponentValue (le_trans (by decide) h)
    have hscale : l.scale = signed (digitsValue 0) (some (negative, ds)) := by rw [scale, he]; rfl
    rw [decimal, written, hscale, he]
    cases negative with
    | true =>
      rw [Decimal.magnitude_of_low hcoefficient, Decimal.magnitude_of_low hcoefficient]
      all_goals simp only [signed, if_true]; omega
    | false =>
      rw [Decimal.magnitude_of_high hzero, Decimal.magnitude_of_high hzero]
      all_goals simp only [signed, Bool.false_eq_true, if_false]; omega

theorem magnitude_decimal (hl : l.Legible) :
    l.decimal.magnitude = Binary64.nearest l.magnitude.num.natAbs l.magnitude.den := by
  rw [← number_written, ← Decimal.magnitude_eq_nearest]
  rcases hl with hsmall | hshort
  · rw [decimal_eq_written hsmall]
  · by_cases hsmall : l.scale.natAbs < 655360
    · rw [decimal_eq_written hsmall]
    · exact magnitude_of_short hshort (Nat.not_lt.mp hsmall)

end Values

end FloatLiteral

namespace Binary64

/-- What digits are read as before the zeros are made one: the pattern nearest to the decimal, under
its sign. A decimal too large for a number is read as an infinity. -/
def ofDigits? (s : List Char) : Option Binary64 :=
  (Decimal.read? (Text.splitSign s).2).map fun d => ofMagnitude (Text.splitSign s).1 d.magnitude

theorem nearest_le_infinity (num den : Nat) : nearest num den ≤ infinity := by
  rw [nearest]
  split
  · exact Nat.zero_le _
  · exact Nat.min_le_left _ _

theorem magnitude_decimal_le (d : Decimal) : d.magnitude ≤ infinity := by
  rw [Decimal.magnitude_eq]
  exact nearest_le_infinity _ _

theorem isFinite_ofMagnitude (negative : Bool) {m : Nat} (h : m ≤ infinity) :
    (ofMagnitude negative m).isFinite = decide (m < infinity) := by
  rcases h.lt_or_eq with hlt | rfl
  · rw [isFinite, magnitude_ofMagnitude _ hlt]
  · cases negative <;> rfl

theorem ofLiteral?_eq (s : List Char) :
    ofLiteral? s = ((ofDigits? s).filter isFinite).map unsignZero := by
  rw [ofDigits?]
  simp only [ofLiteral?]
  cases Decimal.read? (Text.splitSign s).2 with
  | none => rfl
  | some d =>
    have hfinite := isFinite_ofMagnitude (Text.splitSign s).1 (magnitude_decimal_le d)
    by_cases hlt : d.magnitude < infinity
    · simp [hlt, hfinite]
    · simp [hlt, hfinite]

theorem unsignZero_ofMagnitude_zero (negative : Bool) :
    (ofMagnitude negative 0).unsignZero = zero := by
  rw [unsignZero, magnitude_ofMagnitude negative (by decide), if_pos rfl]

/-- What is read are the literals, each as its decimal. -/
theorem ofDigits?_eq_some {s : List Char} {x : Binary64} : ofDigits? s = some x ↔
    ∃ l : FloatLiteral, l.Spells s ∧ x = ofMagnitude l.negative l.decimal.magnitude := by
  constructor
  · intro h
    obtain ⟨d, hd, rfl⟩ := Option.map_eq_some_iff.mp h
    obtain ⟨sign, hsign, hs⟩ := FloatLiteral.signText_splitSign s
    obtain ⟨l, hl, hnegative, rfl⟩ := FloatLiteral.exists_of_read? hsign hd
    exact ⟨l, hs ▸ hl, by rw [hnegative]⟩
  · rintro ⟨l, ⟨hsign, hfraction, hexponent⟩, rfl⟩
    rw [ofDigits?, hsign.splitSign (FloatLiteral.head_unsigned hfraction hexponent),
      FloatLiteral.read?_unsigned hfraction hexponent]
    rfl

end Binary64

namespace FloatLiteral

variable {l : FloatLiteral} {literal : String}

theorem nearest_number (l : FloatLiteral) :
    Binary64.nearest l.number.num.natAbs l.number.den =
      Binary64.nearest l.magnitude.num.natAbs l.magnitude.den := by
  rw [number]
  split
  · rw [Rat.neg_num, Rat.neg_den, Int.natAbs_neg]
  · rfl

/-- A sign does not keep a zero apart, be it written or all that is left of a number. -/
theorem unsignZero_ofNumber (l : FloatLiteral) :
    (Binary64.ofMagnitude l.negative
      (Binary64.nearest l.magnitude.num.natAbs l.magnitude.den)).unsignZero =
        (Binary64.ofNumber l.number).unsignZero := by
  rw [Binary64.ofNumber, nearest_number]
  by_cases hzero : Binary64.nearest l.magnitude.num.natAbs l.magnitude.den = 0
  · rw [hzero, Binary64.unsignZero_ofMagnitude_zero, Binary64.unsignZero_ofMagnitude_zero]
  · have hpos : 0 < l.magnitude := by
      refine lt_of_le_of_ne l.magnitude_nonneg fun he => hzero ?_
      rw [← he]
      rfl
    have hsign : decide (l.number < 0) = l.negative := by
      rw [number]
      cases l.negative
      · exact decide_eq_false hpos.not_gt
      · exact decide_eq_true (neg_neg_of_pos hpos)
    rw [hsign]

/-- A literal is read as the pattern nearest to the number that it writes. -/
theorem read?_eq (h : l.Spells literal.toList) (hl : l.Legible) :
    ColumnType.float.read? literal =
      if (Binary64.ofNumber l.number).isFinite then
        some (.float (Binary64.ofNumber l.number).unsignZero)
      else none := by
  have hread := Binary64.ofDigits?_eq_some.mpr ⟨l, h, rfl⟩
  have hle (q : ℚ) := Binary64.nearest_le_infinity q.num.natAbs q.den
  have hfinite : (Binary64.ofMagnitude l.negative
      (Binary64.nearest l.magnitude.num.natAbs l.magnitude.den)).isFinite =
        (Binary64.ofNumber l.number).isFinite := by
    rw [Binary64.ofNumber, Binary64.isFinite_ofMagnitude _ (hle _),
      Binary64.isFinite_ofMagnitude _ (hle _), nearest_number]
  rw [ColumnType.read?, Binary64.ofLiteral?_eq, hread, magnitude_decimal hl, ← hfinite,
    ← unsignZero_ofNumber, Option.filter_some]
  split <;> rfl

end FloatLiteral

end RelStore

import RelStore.Text.Numeral
/-! Decimal numerals read back. A digit run stands for one number, leading zeros count for nothing
and trailing ones for powers of ten. -/
namespace RelStore.Text

theorem isDigit_eq (c : Char) : isDigit c = c.isDigit := by
  simp only [isDigit, Char.isDigit]
  rfl

theorem digitsValue_eq (start : Nat) (ds : List Char) :
    digitsValue start ds = Nat.ofDigitChars 10 ds start := rfl

theorem digitsValue_zeros (n : Nat) (ds : List Char) :
    digitsValue 0 (List.replicate n '0' ++ ds) = digitsValue 0 ds := by
  rw [digitsValue_eq, Nat.ofDigitChars_append, Nat.ofDigitChars_replicate_zero, Nat.mul_zero]
  rfl

theorem digitsValue_zeros_behind (n : Nat) (ds : List Char) :
    digitsValue 0 (ds ++ List.replicate n '0') = digitsValue 0 ds * 10 ^ n := by
  rw [digitsValue_eq, Nat.ofDigitChars_append, Nat.ofDigitChars_replicate_zero, Nat.mul_comm]
  rfl

theorem le_digitsValue (start : Nat) (ds : List Char) : start ≤ digitsValue start ds := by
  induction ds generalizing start with
  | nil => exact Nat.le_refl start
  | cons c rest ih =>
    calc start ≤ 10 * start + digitValue c := by omega
      _ ≤ digitsValue start (c :: rest) := ih _

theorem digitsValue_lt (start : Nat) {ds : List Char} (h : ∀ c ∈ ds, isDigit c = true) :
    digitsValue start ds < (start + 1) * 10 ^ ds.length := by
  induction ds generalizing start with
  | nil => simp [digitsValue]
  | cons c rest ih =>
    rw [List.forall_mem_cons] at h
    have hc : digitValue c ≤ 9 := by
      have hle := h.1
      simp only [isDigit, Bool.and_eq_true, decide_eq_true_eq] at hle
      exact Nat.sub_le_of_le_add (UInt32.le_iff_toNat_le.mp (Char.le_def.mp hle.2))
    calc digitsValue start (c :: rest) = digitsValue (10 * start + digitValue c) rest := rfl
      _ < (10 * start + digitValue c + 1) * 10 ^ rest.length := ih _ h.2
      _ ≤ ((start + 1) * 10) * 10 ^ rest.length := Nat.mul_le_mul_right _ (by omega)
      _ = (start + 1) * 10 ^ (c :: rest).length := by
        rw [Nat.mul_assoc, ← Nat.pow_succ', List.length_cons]

@[simp]
theorem digitsValue_natDigits (n : Nat) : digitsValue 0 (natDigits n) = n :=
  Nat.ofDigitChars_ten_toDigits

theorem natDigits_ne_nil (n : Nat) : natDigits n ≠ [] := Nat.toDigits_ne_nil

theorem isDigit_of_mem_natDigits {n : Nat} {c : Char} (h : c ∈ natDigits n) : isDigit c = true := by
  rw [isDigit_eq]
  exact Nat.isDigit_of_mem_toDigits (by decide) (by decide) h

theorem readNat_of_digits {ds : List Char} (hne : ds ≠ []) (hd : ∀ c ∈ ds, isDigit c = true) :
    readNat ds = some (digitsValue 0 ds) := by
  simp [readNat, hne, List.all_eq_true.mpr hd]

theorem readNat_natDigits (n : Nat) : readNat (natDigits n) = some n := by
  rw [readNat_of_digits (natDigits_ne_nil n) fun _ => isDigit_of_mem_natDigits,
    digitsValue_natDigits]

/-- A text that begins with a digit has no sign. -/
theorem splitSign_of_digit {s : List Char} (h : ∀ c ∈ s.head?, isDigit c = true) :
    splitSign s = (false, s) := by
  cases s with
  | nil => rfl
  | cons c rest =>
    have hc : isDigit c = true := h c rfl
    have hminus : c ≠ '-' := by rintro rfl; simp [isDigit] at hc
    have hplus : c ≠ '+' := by rintro rfl; simp [isDigit] at hc
    simp [splitSign, hminus, hplus]

theorem splitSign_natDigits (n : Nat) : splitSign (natDigits n) = (false, natDigits n) :=
  splitSign_of_digit fun _ hc => isDigit_of_mem_natDigits (List.mem_of_mem_head? hc)

theorem readInt_intText (i : Int) : readInt (intText i) = some i := by
  cases i with
  | ofNat n => simp [readInt, intText, splitSign_natDigits, readNat_natDigits]
  | negSucc n =>
    simp only [readInt, intText, splitSign, readNat_natDigits, ↓reduceIte]
    rfl

theorem isDigit_of_mem_zeros {n : Nat} {c : Char} (h : c ∈ List.replicate n '0') :
    isDigit c = true := by
  rw [List.eq_of_mem_replicate h]
  rfl

theorem isDigit_of_mem_paddedDigits {width n : Nat} {c : Char} (h : c ∈ paddedDigits width n) :
    isDigit c = true := by
  rcases List.mem_append.mp h with h | h
  · exact isDigit_of_mem_zeros h
  · exact isDigit_of_mem_natDigits h

@[simp]
theorem digitsValue_paddedDigits (width n : Nat) : digitsValue 0 (paddedDigits width n) = n := by
  rw [paddedDigits, digitsValue_zeros, digitsValue_natDigits]

theorem paddedDigits_ne_nil (width n : Nat) : paddedDigits width n ≠ [] := by
  simp [paddedDigits, natDigits_ne_nil]

theorem length_paddedDigits {width n : Nat} (hw : 0 < width) (hn : n < 10 ^ width) :
    (paddedDigits width n).length = width := by
  have hlen : (natDigits n).length ≤ width :=
    (Nat.length_toDigits_le_iff (by decide) hw).mpr hn
  simp only [paddedDigits, List.length_append, List.length_replicate]
  omega

theorem isDigit_of_mem_intText {i : Int} {c : Char} (h : c ∈ intText i) :
    isDigit c = true ∨ c = '-' := by
  cases i with
  | ofNat n => exact .inl (isDigit_of_mem_natDigits h)
  | negSucc n =>
    rcases List.mem_cons.mp h with h | h
    · exact .inr h
    · exact .inl (isDigit_of_mem_natDigits h)

end RelStore.Text

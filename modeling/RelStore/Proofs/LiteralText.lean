import RelStore.Proofs.CalendarText
import RelStore.Proofs.DecimalText
import RelStore.Row
/-! The text of a value is a literal of it, for every value that some literal stands for. A row is
stored in this form, so what is read back from the store is what was written. -/
namespace RelStore

open Text (isDigit)

@[simp]
theorem Value.toList_text (v : Value) : v.text.toList = v.chars := String.toList_ofList

theorem readInt64_intText (i : Int64) : readInt64 (Text.intText i.toInt) = some i := by
  have hmin : Int64.minValue.toInt ≤ i.toInt := Int64.minValue_le_toInt i
  have hmax : i.toInt ≤ Int64.maxValue.toInt := Int64.toInt_le i
  rw [readInt64, Text.readInt_intText, Option.bind_some, if_pos ⟨hmin, hmax⟩, Int64.ofInt_toInt]

namespace ColumnType

variable {t : ColumnType} {literal : String} {v : Value}

/-- The values that literals of the type stand for: of the floats the finite ones but the negative
zero, and of the times those without a fraction of a second, leap seconds included. -/
inductive Denotes : ColumnType → Value → Prop where
  | int (i : Int64) : Denotes .int (.int i)
  | float {x : Binary64} (h : x.IsLiteral) : Denotes .float (.float x)
  | bit (b : Bool) : Denotes .bit (.bit b)
  | date (d : Date) : Denotes .date (.date d)
  | dateTime {d : DateTime} (h : CalendarFormat.IsLiteralTime d.time) :
    Denotes .dateTime (.dateTime d)
  | string (s : String) : Denotes .string (.string s)

theorem denotes_of_read? (h : t.read? literal = some v) : t.Denotes v := by
  cases t with
  | int =>
    obtain ⟨i, -, rfl⟩ := Option.map_eq_some_iff.mp h
    exact .int i
  | float =>
    obtain ⟨x, hx, rfl⟩ := Option.map_eq_some_iff.mp h
    exact .float (Binary64.isLiteral_of_ofLiteral? hx)
  | bit =>
    simp only [read?] at h
    split at h
    · cases h
      exact .bit false
    · split at h
      · cases h
        exact .bit true
      · cases h
  | date =>
    obtain ⟨d, -, rfl⟩ := Option.map_eq_some_iff.mp h
    exact .date d
  | dateTime =>
    obtain ⟨d, hd, rfl⟩ := Option.map_eq_some_iff.mp h
    exact .dateTime (CalendarFormat.isLiteralTime_of_readDateTime hd)
  | string =>
    cases h
    exact .string literal

theorem Denotes.read?_text (h : t.Denotes v) : t.read? v.text = some v := by
  cases h with
  | int i => simp [read?, Value.chars, readInt64_intText]
  | float h => simp [read?, Value.chars, Binary64.ofLiteral?_text h]
  | bit b => cases b <;> rfl
  | date d => simp [read?, Value.chars, CalendarFormat.readDate_dateText]
  | dateTime h =>
    have hread := CalendarFormat.readDateTime_dateTimeText (f := .literal) (by decide) (.inr h)
    simp [read?, Value.chars, hread]
  | string s => simp [read?, Value.text, Value.chars]

/-- The text of a value that was read is read as the same value. -/
theorem read?_text (h : t.read? literal = some v) : t.read? v.text = some v :=
  (denotes_of_read? h).read?_text

theorem denotes_iff : t.Denotes v ↔ ∃ literal, t.read? literal = some v :=
  ⟨fun h => ⟨v.text, h.read?_text⟩, fun ⟨_, h⟩ => denotes_of_read? h⟩

/-- Only strings have characters other than digits, signs and the joints of numbers and dates. -/
theorem Denotes.mem_chars {c : Char} (h : t.Denotes v) (ht : t ≠ .string) (hc : c ∈ v.chars) :
    isDigit c = true ∨ c ∈ ['.', '-', '+', ':', '_'] := by
  cases h with
  | int i => exact (Text.isDigit_of_mem_intText hc).imp_right fun h => by simp [h]
  | float h => rcases Binary64.mem_text h.1 hc with h | h | h <;> simp [h]
  | bit b =>
    rw [List.mem_singleton.mp hc]
    cases b <;> exact .inl rfl
  | date d => rcases CalendarFormat.mem_dateText hc with h | h | h <;> simp [h]
  | dateTime h => rcases CalendarFormat.mem_dateTimeText hc with h | h | h | h | h <;> simp [h]
  | string s => exact absurd rfl ht

theorem read?_empty (ht : t ≠ .string) : t.read? "" = none := by
  cases t with
  | string => exact absurd rfl ht
  | _ => rfl

/-- A value that is no string is a single word, and can be a field of a row. -/
theorem Denotes.word (h : t.Denotes v) (ht : t ≠ .string) :
    v.text ≠ "" ∧ ∀ c ∈ v.text.toList, c ≠ fieldDelimiter ∧ Text.isBlank c = false := by
  have hjoints : ∀ c ∈ ['.', '-', '+', ':', '_'], c ≠ fieldDelimiter ∧ Text.isBlank c = false := by
    simp [fieldDelimiter, Text.isBlank, Text.blankRanges]
  refine ⟨fun he => ?_, fun c hc => ?_⟩
  · have hread := h.read?_text
    rw [he, read?_empty ht] at hread
    cases hread
  · rw [Value.toList_text] at hc
    rcases h.mem_chars ht hc with hdigit | hjoint
    · refine ⟨fun he => ?_, Text.isBlank_of_isDigit hdigit⟩
      rw [he] at hdigit
      cases hdigit
    · exact hjoints c hjoint

/-- The values that a column of the type may hold in the store. -/
def Holds (t : ColumnType) (v : Value) : Prop :=
  t.read? v.text = some v ∧ fieldDelimiter ∉ v.chars

theorem holds_of_read? (h : t.read? literal = some v) (hd : fieldDelimiter ∉ literal.toList) :
    t.Holds v := by
  refine ⟨read?_text h, fun hc => ?_⟩
  by_cases ht : t = .string
  · subst ht
    cases h
    exact hd hc
  · obtain ⟨-, hchars⟩ := (denotes_of_read? h).word ht
    exact (hchars _ (v.toList_text ▸ hc)).1 rfl

end ColumnType

end RelStore

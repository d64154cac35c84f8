import RelStore.Calendar.Format
import RelStore.Proofs.Numerals
/-! Written dates and times read back. A number ends where its width or its digits end, and a year
that does not have four digits is written with a sign. -/
namespace RelStore

open Text (isDigit isBlank digitsValue paddedDigits)

theorem Text.isBlank_of_isDigit {c : Char} (h : isDigit c = true) : isBlank c = false := by
  simp only [isDigit, Bool.and_eq_true, decide_eq_true_eq, Char.le_def] at h
  have h₁ : 48 ≤ c.toNat := h.1
  have h₂ : c.toNat ≤ 57 := h.2
  simp only [isBlank, blankRanges, List.any_cons, List.any_nil, Bool.or_false, Bool.or_eq_false_iff,
    Bool.and_eq_false_iff, decide_eq_false_iff_not]
  omega

namespace CalendarFormat

theorem takeDigits_append {ds rest : List Char} {width : Nat}
    (hd : ∀ c ∈ ds, isDigit c = true) (hw : ds.length ≤ width)
    (hr : ds.length = width ∨ ∀ c ∈ rest.head?, isDigit c = false) :
    takeDigits width (ds ++ rest) = (ds, rest) := by
  induction ds generalizing width with
  | nil =>
    cases width with
    | zero => rfl
    | succ width =>
      cases rest with
      | nil => rfl
      | cons c rest =>
        have hc : isDigit c = false := hr.resolve_left (by simp) c rfl
        simp [takeDigits, hc]
  | cons c ds ih =>
    cases width with
    | zero => simp at hw
    | succ width =>
      have hc := hd c List.mem_cons_self
      have htail : takeDigits width (ds ++ rest) = (ds, rest) :=
        ih (fun c h => hd c (List.mem_cons_of_mem _ h)) (by simpa using hw) (by simpa using hr)
      simp [takeDigits, hc, htail]

theorem number_append {ds rest : List Char} {width : Nat} (hne : ds ≠ [])
    (hd : ∀ c ∈ ds, isDigit c = true) (hw : ds.length ≤ width)
    (hr : ds.length = width ∨ ∀ c ∈ rest.head?, isDigit c = false) :
    number width (ds ++ rest) = some (digitsValue 0 ds, rest) := by
  rw [number, takeDigits_append hd hw hr]
  obtain ⟨c, ds, rfl⟩ := List.exists_cons_of_ne_nil hne
  rfl

theorem dropWhile_isBlank_digits {ds rest : List Char} (hne : ds ≠ [])
    (hd : ∀ c ∈ ds, isDigit c = true) : (ds ++ rest).dropWhile isBlank = ds ++ rest := by
  obtain ⟨c, ds, rfl⟩ := List.exists_cons_of_ne_nil hne
  simp [Text.isBlank_of_isDigit (hd c List.mem_cons_self)]

theorem field_paddedDigits {n : Nat} (hn : n < 100) (rest : List Char) :
    field (paddedDigits 2 n ++ rest) = some (n, rest) := by
  have hlen : (paddedDigits 2 n).length = 2 := Text.length_paddedDigits (by decide) hn
  rw [field, dropWhile_isBlank_digits (Text.paddedDigits_ne_nil 2 n)
    fun _ => Text.isDigit_of_mem_paddedDigits, number_append (Text.paddedDigits_ne_nil 2 n)
    (fun _ => Text.isDigit_of_mem_paddedDigits) (Nat.le_of_eq hlen) (.inl hlen),
    Text.digitsValue_paddedDigits]

theorem year_unsigned {ds rest : List Char} (hne : ds ≠ []) (hd : ∀ c ∈ ds, isDigit c = true) :
    year (ds ++ rest) = (number 4 (ds ++ rest)).map fun (n, rest) => ((n : Int), rest) := by
  rw [year, dropWhile_isBlank_digits hne hd]
  obtain ⟨c, ds, rfl⟩ := List.exists_cons_of_ne_nil hne
  have hc := hd c List.mem_cons_self
  split
  · next h => cases h; cases hc
  · next h => cases h; cases hc
  · rfl

/-- Behind a year comes no digit. -/
theorem year_yearText (y : Int) {rest : List Char} (hr : ∀ c ∈ rest.head?, isDigit c = false) :
    year (yearText y ++ rest) = some (y, rest) := by
  have hread (n : Nat) (width : Nat) (hw : (paddedDigits 4 n).length ≤ width) :
      number width (paddedDigits 4 n ++ rest) = some (n, rest) := by
    rw [number_append (Text.paddedDigits_ne_nil 4 n)
      (fun _ => Text.isDigit_of_mem_paddedDigits) hw (.inr hr), Text.digitsValue_paddedDigits]
  rw [yearText]
  split
  · next h =>
    have hlen : (paddedDigits 4 y.toNat).length = 4 :=
      Text.length_paddedDigits (by decide) (by omega)
    rw [year_unsigned (Text.paddedDigits_ne_nil 4 _) fun _ => Text.isDigit_of_mem_paddedDigits,
      hread _ 4 (Nat.le_of_eq hlen)]
    simp [Int.toNat_of_nonneg h.1]
  · next h =>
    by_cases hneg : y < 0
    · rw [if_pos hneg, List.cons_append, year, List.dropWhile_cons_of_neg (by decide)]
      simp only [hread _ _ (show (paddedDigits 4 y.natAbs).length ≤
        (paddedDigits 4 y.natAbs ++ rest).length by simp), Option.map_some]
      congr 2
      omega
    · rw [if_neg hneg, List.cons_append, year, List.dropWhile_cons_of_neg (by decide)]
      simp only [hread _ _ (show (paddedDigits 4 y.natAbs).length ≤
        (paddedDigits 4 y.natAbs ++ rest).length by simp), Option.map_some]
      congr 2
      omega

theorem expect_cons (f : CalendarFormat) {c : Char} (hc : isBlank c = false) (rest : List Char) :
    f.expect c (c :: rest) = some rest := by
  have hgap : f.gap (c :: rest) = c :: rest := by simp [gap, hc]
  simp [expect, hgap]

theorem ofDate (d : Date) : Date.of? d.year d.month d.day = some d := by
  rw [Date.of?, dif_pos ⟨d.year_mem, d.month_mem, d.day_mem⟩]

theorem daysInMonth_le (y : Int) (m : Nat) : daysInMonth y m ≤ 31 := by
  rw [daysInMonth.eq_def]
  repeat' split
  all_goals decide

theorem date_dateText (f : CalendarFormat) (d : Date) (rest : List Char) :
    f.date (dateText d ++ rest) = some (d, rest) := by
  have hm : d.month < 100 := by have := d.month_mem; omega
  have hd : d.day < 100 := by
    have := d.day_mem
    have := daysInMonth_le d.year d.month
    omega
  have hdash : isBlank '-' = false := by decide
  have hyear (rest : List Char) :
      year (yearText d.year ++ '-' :: rest) = some (d.year, '-' :: rest) :=
    year_yearText d.year (by simp [isDigit])
  simp only [date, dateText, List.append_assoc, List.cons_append, hyear]
  simp [expect_cons f hdash, field_paddedDigits hm, field_paddedDigits hd, ofDate]

theorem atEnd_nil (f : CalendarFormat) : f.atEnd [] = true := by
  cases hs : f.spaced <;> simp [atEnd, gap, hs]

theorem readDate_dateText (f : CalendarFormat) (d : Date) : f.readDate (dateText d) = some d := by
  have h : f.date (dateText d) = some (d, []) := by
    have h := date_dateText f d []
    rwa [List.append_nil] at h
  rw [readDate, h]
  simp [f.atEnd_nil]

/-- What a literal can stand for: a time in whole seconds. -/
def IsLiteralTime (t : TimeOfDay) : Prop := t.nanos % nanosPerSecond = 0

/-- A leap second is written as the second after the 59th. -/
theorem of?_parts (t : TimeOfDay) :
    TimeOfDay.of? t.hour t.minute (t.second + t.nanos / nanosPerSecond) (t.nanos % nanosPerSecond) =
      some t := by
  obtain ⟨hour, minute, second, nanos, hh, hm, hs, hn⟩ := t
  by_cases hlt : nanos < nanosPerSecond
  · have hdiv : nanos / nanosPerSecond = 0 := Nat.div_eq_of_lt hlt
    simp [TimeOfDay.of?, hh, hm, hs, hdiv, Nat.mod_eq_of_lt hlt, hlt]
  · obtain ⟨hs59, hn2⟩ := hn.resolve_left hlt
    have hdiv : nanos / nanosPerSecond = 1 := by
      unfold nanosPerSecond at *
      omega
    have hmod : nanosPerSecond + nanos % nanosPerSecond = nanos := by
      unfold nanosPerSecond at *
      omega
    have hpos : nanos % nanosPerSecond < nanosPerSecond := Nat.mod_lt _ (by decide)
    subst hs59
    simp [TimeOfDay.of?, hh, hm, hdiv, hmod, hpos]

theorem isLiteralTime_of_of? {h m s : Nat} {t : TimeOfDay} (ht : TimeOfDay.of? h m s 0 = some t) :
    IsLiteralTime t := by
  rw [TimeOfDay.of?] at ht
  split at ht
  · split at ht
    · cases ht; rfl
    · split at ht
      · cases ht; exact Nat.mod_self nanosPerSecond
      · cases ht
  · cases ht

theorem second_lt (t : TimeOfDay) : t.second + t.nanos / nanosPerSecond < 100 := by
  have h₁ := t.second_lt
  have h₂ := t.nanos_lt
  simp only [nanosPerSecond] at *
  omega

theorem fraction_paddedDigits {f : CalendarFormat} (hf : f.fractions = true) {width n : Nat}
    (hw : 0 < width) (hw9 : width ≤ 9) (hn : n < 10 ^ width) {rest : List Char}
    (hr : ∀ c ∈ rest.head?, isDigit c = false) :
    f.fraction ('.' :: paddedDigits width n ++ rest) = some (n * 10 ^ (9 - width), rest) := by
  have hdigits : ∀ c ∈ paddedDigits width n, isDigit c = true :=
    fun _ => Text.isDigit_of_mem_paddedDigits
  have hlen := Text.length_paddedDigits hw hn
  have htake := takeDigits_append hdigits (hlen ▸ hw9) (.inr hr)
  have hvalue := Text.digitsValue_paddedDigits width n
  obtain ⟨c, ds, hds⟩ := List.exists_cons_of_ne_nil (Text.paddedDigits_ne_nil width n)
  rw [hds] at htake hvalue hlen
  simp only [fraction, hf, hds, List.cons_append] at htake ⊢
  simp only [htake, hvalue, hlen]
  cases rest with
  | nil => rfl
  | cons c rest => rw [List.dropWhile_cons_of_neg (by simp [hr c rfl])]

/-- What follows the decimals is neither a digit nor, where there are none, a point. -/
theorem fraction_fractionText {f : CalendarFormat} {n : Nat} (hn : n < nanosPerSecond)
    (h : f.fractions = true ∨ n = 0) {rest : List Char}
    (hr : ∀ c ∈ rest.head?, isDigit c = false ∧ c ≠ '.') :
    f.fraction ((if f.fractions then fractionText n else []) ++ rest) = some (n, rest) := by
  have hplain : f.fraction rest = some (0, rest) := by
    rw [fraction.eq_def]
    split
    · next h => exact absurd rfl (hr '.' (by simp)).2
    · rfl
  by_cases hz : n = 0
  · subst hz
    simpa [fractionText] using hplain
  · have hf := h.resolve_right hz
    have hd : ∀ c ∈ rest.head?, isDigit c = false := fun c hc => (hr c hc).1
    unfold nanosPerSecond at hn
    rw [if_pos hf, fractionText, if_neg hz]
    split
    · next hm =>
      rw [fraction_paddedDigits hf (by decide) (by decide) (by omega) hd]
      congr 2
      omega
    · split
      · next hm =>
        rw [fraction_paddedDigits hf (by decide) (by decide) (by omega) hd]
        congr 2
        omega
      · rw [fraction_paddedDigits hf (by decide) (by decide) hn hd]
        simp

theorem time_timeText {f : CalendarFormat} {t : TimeOfDay}
    (h : f.fractions = true ∨ IsLiteralTime t) {rest : List Char}
    (hr : ∀ c ∈ rest.head?, isDigit c = false ∧ c ≠ '.') :
    f.time (f.timeText t ++ rest) = some (t, rest) := by
  have hh : t.hour < 100 := by have := t.hour_lt; omega
  have hm : t.minute < 100 := by have := t.minute_lt; omega
  have hcolon : isBlank ':' = false := by decide
  have hfraction := fraction_fractionText (f := f) (Nat.mod_lt t.nanos (by decide)) h hr
  simp only [time, timeText, List.append_assoc, List.cons_append]
  simp [expect_cons _ hcolon, field_paddedDigits hh, field_paddedDigits hm,
    field_paddedDigits (second_lt t), hfraction, of?_parts]

theorem readDateTime_dateTimeText {f : CalendarFormat} {t : DateTime}
    (hjoint : isBlank f.joint = false) (h : f.fractions = true ∨ IsLiteralTime t.time) :
    f.readDateTime (f.dateTimeText t) = some t := by
  have htime : f.time (f.timeText t.time ++ []) = some (t.time, []) := time_timeText h (by simp)
  rw [List.append_nil] at htime
  rw [readDateTime, dateTimeText, date_dateText]
  simp only [Option.bind_eq_bind, Option.bind_some, expect_cons f hjoint, htime, f.atEnd_nil, if_true]

theorem isLiteralTime_of_readDateTime {s : List Char} {t : DateTime}
    (h : literal.readDateTime s = some t) : IsLiteralTime t.time := by
  simp only [readDateTime, time, fraction, literal, Option.bind_eq_bind, Option.pure_def,
    Option.bind_eq_some_iff] at h
  obtain ⟨⟨d, s₁⟩, -, s₂, -, ⟨tod, s₃⟩, htime, hend⟩ := h
  obtain ⟨⟨hr, s₄⟩, -, s₅, -, ⟨mi, s₆⟩, -, s₇, -, ⟨sec, s₈⟩, -, ⟨n, s₉⟩, hn, tod', hof, he⟩ := htime
  cases he
  cases hn
  obtain ⟨-, he⟩ := Option.ite_none_right_eq_some.mp hend
  cases he
  exact isLiteralTime_of_of? hof

theorem mem_yearText {y : Int} {c : Char} (h : c ∈ yearText y) :
    isDigit c = true ∨ c = '-' ∨ c = '+' := by
  rw [yearText] at h
  split at h
  · exact .inl (Text.isDigit_of_mem_paddedDigits h)
  · rcases List.mem_cons.mp h with h | h
    · split at h
      · exact .inr (.inl h)
      · exact .inr (.inr h)
    · exact .inl (Text.isDigit_of_mem_paddedDigits h)

theorem mem_dateText {d : Date} {c : Char} (h : c ∈ dateText d) :
    isDigit c = true ∨ c = '-' ∨ c = '+' := by
  simp only [dateText, List.mem_append, List.mem_cons] at h
  rcases h with (h | rfl | h) | rfl | h
  · exact mem_yearText h
  · exact .inr (.inl rfl)
  · exact .inl (Text.isDigit_of_mem_paddedDigits h)
  · exact .inr (.inl rfl)
  · exact .inl (Text.isDigit_of_mem_paddedDigits h)

theorem mem_dateTimeText {t : DateTime} {c : Char} (h : c ∈ literal.dateTimeText t) :
    isDigit c = true ∨ c = '-' ∨ c = '+' ∨ c = ':' ∨ c = '_' := by
  simp only [dateTimeText, timeText, List.mem_append, List.mem_cons] at h
  rcases h with h | rfl | (((h | rfl | h) | rfl | h) | h)
  · exact (mem_dateText h).imp_right fun h => h.imp_right .inl
  · exact .inr (.inr (.inr (.inr rfl)))
  · exact .inl (Text.isDigit_of_mem_paddedDigits h)
  · exact .inr (.inr (.inr (.inl rfl)))
  · exact .inl (Text.isDigit_of_mem_paddedDigits h)
  · exact .inr (.inr (.inr (.inl rfl)))
  · exact .inl (Text.isDigit_of_mem_paddedDigits h)
  · cases h

end CalendarFormat

end RelStore

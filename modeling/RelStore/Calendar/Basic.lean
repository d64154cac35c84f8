/-! Calendar dates of the proleptic Gregorian calendar and times of day. A time inside a leap
second is written as the second before it with a nanosecond count from one second up. -/
namespace RelStore

def isLeapYear (y : Int) : Bool := y % 4 = 0 && (y % 100 ≠ 0 || y % 400 = 0)

def daysInMonth (y : Int) (month : Nat) : Nat :=
  match month with
  | 2 => if isLeapYear y then 29 else 28
  | 4 | 6 | 9 | 11 => 30
  | _ => 31

def minYear : Int := -262143

def maxYear : Int := 262142

structure Date where
  year : Int
  month : Nat
  day : Nat
  year_mem : minYear ≤ year ∧ year ≤ maxYear
  month_mem : 1 ≤ month ∧ month ≤ 12
  day_mem : 1 ≤ day ∧ day ≤ daysInMonth year month
  deriving DecidableEq

def Date.of? (year : Int) (month day : Nat) : Option Date :=
  if h : (minYear ≤ year ∧ year ≤ maxYear) ∧ (1 ≤ month ∧ month ≤ 12) ∧
      1 ≤ day ∧ day ≤ daysInMonth year month then
    some ⟨year, month, day, h.1, h.2.1, h.2.2⟩
  else none

instance : Ord Date where
  compare :=
    compareLex (compareOn (·.year)) (compareLex (compareOn (·.month)) (compareOn (·.day)))

theorem Date.compare_def :
    compare (α := Date) =
      compareLex (compareOn (·.year)) (compareLex (compareOn (·.month)) (compareOn (·.day))) :=
  rfl

instance : Std.TransOrd Date := inferInstanceAs <| Std.TransCmp (compareLex _ _)

instance : Std.LawfulEqOrd Date where
  eq_of_compare {a b} h := by
    simp only [Date.compare_def, compareLex_eq_eq] at h
    obtain ⟨hy, hm, hd⟩ := h
    cases a
    cases b
    cases Std.LawfulEqOrd.eq_of_compare hy
    cases Std.LawfulEqOrd.eq_of_compare hm
    cases Std.LawfulEqOrd.eq_of_compare hd
    rfl

def nanosPerSecond : Nat := 1000000000

structure TimeOfDay where
  hour : Nat
  minute : Nat
  second : Nat
  nanos : Nat
  hour_lt : hour < 24
  minute_lt : minute < 60
  second_lt : second < 60
  nanos_lt : nanos < nanosPerSecond ∨ second = 59 ∧ nanos < 2 * nanosPerSecond
  deriving DecidableEq

/-- Second 60 is the leap second. -/
def TimeOfDay.of? (hour minute second nanos : Nat) : Option TimeOfDay :=
  if h : hour < 24 ∧ minute < 60 ∧ nanos < nanosPerSecond then
    if hs : second < 60 then
      some ⟨hour, minute, second, nanos, h.1, h.2.1, hs, .inl h.2.2⟩
    else if second = 60 then
      some ⟨hour, minute, 59, nanosPerSecond + nanos, h.1, h.2.1, by decide,
        .inr ⟨rfl, by unfold nanosPerSecond at *; omega⟩⟩
    else none
  else none

instance : Ord TimeOfDay where
  compare :=
    compareLex (compareOn (·.hour)) (compareLex (compareOn (·.minute))
      (compareLex (compareOn (·.second)) (compareOn (·.nanos))))

theorem TimeOfDay.compare_def :
    compare (α := TimeOfDay) =
      compareLex (compareOn (·.hour)) (compareLex (compareOn (·.minute))
        (compareLex (compareOn (·.second)) (compareOn (·.nanos)))) :=
  rfl

instance : Std.TransOrd TimeOfDay := inferInstanceAs <| Std.TransCmp (compareLex _ _)

instance : Std.LawfulEqOrd TimeOfDay where
  eq_of_compare {a b} h := by
    simp only [TimeOfDay.compare_def, compareLex_eq_eq] at h
    obtain ⟨hh, hm, hs, hn⟩ := h
    cases a
    cases b
    cases Std.LawfulEqOrd.eq_of_compare hh
    cases Std.LawfulEqOrd.eq_of_compare hm
    cases Std.LawfulEqOrd.eq_of_compare hs
    cases Std.LawfulEqOrd.eq_of_compare hn
    rfl

structure DateTime where
  date : Date
  time : TimeOfDay
  deriving DecidableEq

instance : Ord DateTime where
  compare := compareLex (compareOn (·.date)) (compareOn (·.time))

theorem DateTime.compare_def :
    compare (α := DateTime) = compareLex (compareOn (·.date)) (compareOn (·.time)) :=
  rfl

instance : Std.TransOrd DateTime := inferInstanceAs <| Std.TransCmp (compareLex _ _)

instance : Std.LawfulEqOrd DateTime where
  eq_of_compare {a b} h := by
    simp only [DateTime.compare_def, compareLex_eq_eq] at h
    obtain ⟨hd, ht⟩ := h
    cases a
    cases b
    cases Std.LawfulEqOrd.eq_of_compare hd
    cases Std.LawfulEqOrd.eq_of_compare ht
    rfl

end RelStore

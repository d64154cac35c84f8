import RelStore.Binary64.Literal
import RelStore.Proofs.Numerals
import RelStore.Proofs.Rounding
/-! The text of a binary64 number reads back to it. The written digits stand for a decimal that is
nearest to the number, whichever way zeros are placed. -/
namespace RelStore

theorem Binary64.nearest_congr {num den num' den' : Nat} (hd : 0 < den) (hd' : 0 < den')
    (h : num * den' = num' * den) : nearest num den = nearest num' den' := by
  calc nearest num den = nearest (den' * num) (den' * den) := (nearest_mul_left hd' num hd).symm
    _ = nearest (den * num') (den * den') := by
        rw [Nat.mul_comm den' num, h, Nat.mul_comm num' den, Nat.mul_comm den' den]
    _ = nearest num' den' := nearest_mul_left hd num' hd'

namespace Decimal

theorem magnitude_eq (d : Decimal) :
    d.magnitude =
      Binary64.nearest (d.coefficient * 10 ^ d.exponent.toNat) (10 ^ (-d.exponent).toNat) := by
  rw [magnitude]
  split
  · next h => rw [show (-d.exponent).toNat = 0 by omega, Nat.pow_zero]
  · next h => rw [show d.exponent.toNat = 0 by omega, Nat.pow_zero, Nat.mul_one]

/-- Zeros may move from the coefficient to the exponent. -/
theorem magnitude_shift (c k : Nat) (e : Int) :
    magnitude ⟨c * 10 ^ k, e⟩ = magnitude ⟨c, e + k⟩ := by
  rw [magnitude_eq, magnitude_eq]
  apply Binary64.nearest_congr (Nat.pow_pos (by decide)) (Nat.pow_pos (by decide))
  have hexp : k + e.toNat + (-(e + k)).toNat = (e + k).toNat + (-e).toNat := by omega
  simp only [Nat.mul_assoc, ← Nat.pow_add]
  rw [hexp]

theorem magnitude_exact {m : Nat} (h : m < Binary64.infinity) : (exact m).magnitude = m := by
  have hpos := Binary64.ratio_pos m
  obtain ⟨p, hp⟩ : ∃ p, (Binary64.ratio m).2 = 2 ^ p := by
    simp only [Binary64.ratio]
    split
    · exact ⟨0, rfl⟩
    · exact ⟨_, rfl⟩
  rw [exact]
  by_cases hn : (Binary64.ratio m).1 = 0
  · have hm : m = 0 := by
      have hr := Binary64.nearest_ratio h
      rw [hn] at hr
      exact hr.symm
    subst hm
    rfl
  · have hr := Binary64.nearest_ratio h
    simp only [hn, if_false]
    rw [magnitude_eq, hp, Nat.log2_two_pow]
    rw [hp] at hr
    refine (Binary64.nearest_congr (Nat.pow_pos (by decide)) (Nat.pow_pos (by decide)) ?_).trans hr
    have h10 : (10 : Nat) ^ p = 5 ^ p * 2 ^ p := Nat.mul_pow 5 2 p
    simp only [Int.neg_neg, Int.toNat_natCast, Int.toNat_neg_natCast, Nat.pow_zero, Nat.mul_one]
    rw [h10, Nat.mul_assoc]

theorem magnitude_of_first {m : Nat} {p : Decimal × Decimal} {c : Decimal}
    (h : (if p.1.magnitude = m then some p.1 else if p.2.magnitude = m then some p.2 else none) =
      some c) : c.magnitude = m := by
  split at h
  · next hm => cases h; exact hm
  · split at h
    · next hm => cases h; exact hm
    · cases h

theorem magnitude_of_candidate {tie : Tie} {m : Nat} {d c : Decimal} {places : Nat}
    (h : candidate? tie m d places = some c) : c.magnitude = m := magnitude_of_first h

theorem magnitude_search {tie : Tie} {m : Nat} {d : Decimal} (hd : d.magnitude = m)
    (places : Nat) : (search tie m d places).magnitude = m := by
  induction places with
  | zero => exact hd
  | succ n ih =>
    rw [search]
    cases hc : candidate? tie m d (n + 1) with
    | none => exact ih
    | some c => exact magnitude_of_candidate hc

theorem magnitude_shortest (tie : Tie) {m : Nat} (h : m < Binary64.infinity) :
    (shortest tie m).magnitude = m := magnitude_search (magnitude_exact h) _

section Positional

open Text (isDigit digitsValue)

theorem trailing_zeros (ds : List Char) :
    ∃ z, ds = (ds.reverse.dropWhile fun c => decide (c = '0')).reverse ++ List.replicate z '0' := by
  have hzeros : ds.reverse.takeWhile (fun c => decide (c = '0')) =
      List.replicate (ds.reverse.takeWhile fun c => decide (c = '0')).length '0' := by
    refine List.eq_replicate_iff.mpr ⟨rfl, fun c hc => ?_⟩
    exact of_decide_eq_true (List.all_eq_true.mp List.all_takeWhile c hc)
  have hsplit := List.takeWhile_append_dropWhile (p := fun c => decide (c = '0')) (l := ds.reverse)
  rw [hzeros] at hsplit
  have hds := congrArg List.reverse hsplit
  rw [List.reverse_append, List.reverse_replicate, List.reverse_reverse] at hds
  exact ⟨_, hds.symm⟩

/-- What the scientific form says: its digits, some zeros behind them, and where the first digit
stands. -/
theorem scientific_spec (d : Decimal) :
    ∃ z : Nat, d.scientific.1 ≠ [] ∧ (∀ c ∈ d.scientific.1, isDigit c = true) ∧
      digitsValue 0 d.scientific.1 * 10 ^ z = d.coefficient ∧
      d.scientific.2 = d.exponent + d.scientific.1.length + z - 1 := by
  obtain ⟨ds, hds⟩ : ∃ ds, ds = Text.natDigits d.coefficient := ⟨_, rfl⟩
  have hall : ∀ c ∈ ds, isDigit c = true := by
    intro c hc
    rw [hds] at hc
    exact Text.isDigit_of_mem_natDigits hc
  have hval : digitsValue 0 ds = d.coefficient := by rw [hds, Text.digitsValue_natDigits]
  obtain ⟨kept, hkept⟩ : ∃ kept, kept = (ds.reverse.dropWhile fun c => decide (c = '0')).reverse :=
    ⟨_, rfl⟩
  obtain ⟨z, hdecomp⟩ := trailing_zeros ds
  rw [← hkept] at hdecomp
  simp only [scientific, ← hds, ← hkept]
  by_cases hk : kept = []
  · have hzero : d.coefficient = 0 := by
      rw [← hval, hdecomp, hk, Text.digitsValue_zeros_behind]
      exact Nat.zero_mul _
    have hone : ds = ['0'] := by rw [hds, hzero]; rfl
    refine ⟨0, by simp [hk], ?_, ?_, ?_⟩
    · intro c hc
      rw [if_pos hk, List.mem_singleton] at hc
      rw [hc]; rfl
    · rw [if_pos hk, hzero]; rfl
    · rw [if_pos hk, hone]
      simp
  · refine ⟨z, by rwa [if_neg hk], ?_, ?_, ?_⟩
    · intro c hc
      rw [if_neg hk] at hc
      exact hall c (by rw [hdecomp]; exact List.mem_append_left _ hc)
    · rw [if_neg hk, ← hval, hdecomp, Text.digitsValue_zeros_behind]
    · have hlen := congrArg List.length hdecomp
      rw [List.length_append, List.length_replicate] at hlen
      rw [if_neg hk, hlen]
      omega

theorem takeWhile_digits {ds : List Char} (hd : ∀ c ∈ ds, isDigit c = true) (rest : List Char)
    (hr : ∀ c ∈ rest.head?, isDigit c = false) :
    (ds ++ rest).takeWhile isDigit = ds ∧ (ds ++ rest).dropWhile isDigit = rest := by
  rw [List.takeWhile_append_of_pos hd, List.dropWhile_append_of_pos hd]
  cases rest with
  | nil => simp
  | cons c rest =>
    have hc : isDigit c = false := hr c rfl
    simp [hc]

theorem read?_digits {ds : List Char} (hne : ds ≠ []) (hd : ∀ c ∈ ds, isDigit c = true) :
    read? ds = some ⟨digitsValue 0 ds, 0⟩ := by
  obtain ⟨ht, hdrop⟩ := takeWhile_digits hd [] (by simp)
  rw [List.append_nil] at ht hdrop
  simp [read?, ht, hdrop, splitFraction, readExponent, hne]

theorem read?_point {whole fraction : List Char} (hne : whole ≠ [])
    (hw : ∀ c ∈ whole, isDigit c = true) (hf : ∀ c ∈ fraction, isDigit c = true) :
    read? (whole ++ '.' :: fraction) =
      some ⟨digitsValue 0 (whole ++ fraction), -(fraction.length : Int)⟩ := by
  obtain ⟨ht, hdrop⟩ := takeWhile_digits hw ('.' :: fraction) (by simp [isDigit])
  obtain ⟨ht', hdrop'⟩ := takeWhile_digits hf [] (by simp)
  rw [List.append_nil] at ht' hdrop'
  simp [read?, ht, hdrop, splitFraction, ht', hdrop', readExponent, hne]

/-- Positional notation reads back to a decimal nearest to the same number. -/
theorem read?_positional (d : Decimal) :
    ∃ d', read? d.positional = some d' ∧ d'.magnitude = d.magnitude := by
  obtain ⟨z, hne, hdig, hval, hfirst⟩ := scientific_spec d
  obtain ⟨⟨ds, first⟩, hs⟩ : ∃ p, p = d.scientific := ⟨_, rfl⟩
  rw [← hs] at hne hdig hval hfirst
  have hd : d.magnitude = magnitude ⟨digitsValue 0 ds, d.exponent + z⟩ := by
    rw [← magnitude_shift, hval]
  have hlen : 0 < ds.length := List.length_pos_iff.mpr hne
  simp only at hfirst
  simp only [positional, ← hs]
  split
  · next hneg =>
    obtain ⟨n, hn⟩ : ∃ n, n = (-first - 1).toNat := ⟨_, rfl⟩
    have hread := @read?_point ['0'] (List.replicate n '0' ++ ds) (by simp) (by simp [isDigit])
    rw [← hn]
    refine ⟨_, hread ?_, ?_⟩
    · exact List.forall_mem_append.mpr ⟨fun _ => Text.isDigit_of_mem_zeros, hdig⟩
    · rw [hd, List.length_append, List.length_replicate,
        show ['0'] ++ (List.replicate n '0' ++ ds) = List.replicate (n + 1) '0' ++ ds by
          simp [List.replicate_succ],
        Text.digitsValue_zeros]
      congr 2
      omega
  · next hpos =>
    split
    · next hshort =>
      refine ⟨_, read?_digits (by simp [hne]) ?_, ?_⟩
      · exact List.forall_mem_append.mpr ⟨hdig, fun _ => Text.isDigit_of_mem_zeros⟩
      · rw [Text.digitsValue_zeros_behind, magnitude_shift, hd]
        congr 2
        omega
    · next hlong =>
      refine ⟨_, read?_point ?_ ?_ ?_, ?_⟩
      · simp [hne]
      · exact fun c hc => hdig c (List.mem_of_mem_take hc)
      · exact fun c hc => hdig c (List.mem_of_mem_drop hc)
      · rw [hd, List.take_append_drop, List.length_drop]
        congr 2
        omega

/-- The characters of positional notation. -/
theorem mem_positional {d : Decimal} {c : Char} (h : c ∈ d.positional) :
    isDigit c = true ∨ c = '.' := by
  obtain ⟨z, -, hdig, -, -⟩ := scientific_spec d
  obtain ⟨⟨ds, first⟩, hs⟩ : ∃ p, p = d.scientific := ⟨_, rfl⟩
  rw [← hs] at hdig
  simp only [positional, ← hs] at h
  split at h
  · simp only [List.cons_append, List.mem_cons, List.mem_append] at h
    rcases h with rfl | rfl | h | h
    · exact .inl rfl
    · exact .inr rfl
    · exact .inl (Text.isDigit_of_mem_zeros h)
    · exact .inl (hdig c h)
  · split at h
    · rcases List.mem_append.mp h with h | h
      · exact .inl (hdig c h)
      · exact .inl (Text.isDigit_of_mem_zeros h)
    · rcases List.mem_append.mp h with h | h
      · exact .inl (hdig c (List.mem_of_mem_take h))
      · rcases List.mem_cons.mp h with rfl | h
        · exact .inr rfl
        · exact .inl (hdig c (List.mem_of_mem_drop h))

theorem isDigit_head_positional (d : Decimal) :
    ∃ c rest, d.positional = c :: rest ∧ isDigit c = true := by
  obtain ⟨z, hne, hdig, -, -⟩ := scientific_spec d
  obtain ⟨⟨ds, first⟩, hs⟩ : ∃ p, p = d.scientific := ⟨_, rfl⟩
  rw [← hs] at hne hdig
  obtain ⟨c, rest, rfl⟩ := List.exists_cons_of_ne_nil hne
  simp only [positional, ← hs]
  split
  · exact ⟨'0', _, rfl, rfl⟩
  · split
    · exact ⟨c, _, rfl, hdig c List.mem_cons_self⟩
    · exact ⟨c, _, rfl, hdig c List.mem_cons_self⟩

end Positional

end Decimal

namespace Binary64

open Text (isDigit)

theorem ofMagnitude_magnitude (x : Binary64) : ofMagnitude x.negative x.magnitude = x := by
  obtain ⟨bits⟩ := x
  have hb := bits.toNat_lt
  simp only [ofMagnitude, negative, magnitude]
  congr 1
  apply UInt64.toNat_inj.mp
  rw [UInt64.toNat_ofNat']
  by_cases h : 2 ^ 63 ≤ bits.toNat
  · simp only [h, decide_true, if_true]
    omega
  · simp only [h, decide_false, Bool.false_eq_true, if_false]
    omega

theorem magnitude_ofMagnitude (negative : Bool) {m : Nat} (h : m < infinity) :
    (ofMagnitude negative m).magnitude = m := by
  have hm : m < 2 ^ 63 := h.trans (by decide)
  simp only [ofMagnitude, magnitude]
  rw [UInt64.toNat_ofNat']
  cases negative <;> simp <;> omega

/-- What a literal can stand for: a finite number, and of the two zeros the one without sign. -/
def IsLiteral (x : Binary64) : Prop := x.magnitude < infinity ∧ (x.magnitude = 0 → x = zero)

theorem isLiteral_of_ofLiteral? {s : List Char} {x : Binary64} (h : ofLiteral? s = some x) :
    x.IsLiteral := by
  simp only [ofLiteral?] at h
  obtain ⟨d, -, hd⟩ := Option.bind_eq_some_iff.mp h
  by_cases hm : d.magnitude < infinity
  · rw [if_pos hm] at hd
    cases hd
    have hmag := magnitude_ofMagnitude (Text.splitSign s).1 hm
    by_cases hz : d.magnitude = 0
    · rw [unsignZero, if_pos (by rw [hmag, hz])]
      exact ⟨by decide, fun _ => rfl⟩
    · rw [unsignZero, if_neg (by rw [hmag]; exact hz)]
      exact ⟨by rwa [hmag], fun h => absurd (hmag.symm.trans h) hz⟩
  · rw [if_neg hm] at hd
    cases hd

theorem text_eq {x : Binary64} (h : x.magnitude < infinity) :
    x.text = (if x.negative then ['-'] else []) ++
      (Decimal.shortest .up x.magnitude).positional := by
  have hnan : x.isNaN = false := by simp [isNaN, h.le]
  have hfin : x.isFinite = true := by simp [isFinite, h]
  simp [text, hnan, hfin]

theorem splitSign_text {x : Binary64} (h : x.magnitude < infinity) :
    Text.splitSign x.text = (x.negative, (Decimal.shortest .up x.magnitude).positional) := by
  rw [text_eq h]
  by_cases hneg : x.negative
  · simp [hneg, Text.splitSign]
  · obtain ⟨c, rest, hp, hc⟩ := Decimal.isDigit_head_positional (Decimal.shortest .up x.magnitude)
    rw [if_neg hneg, List.nil_append, hp, Text.splitSign_of_digit (by simpa using hc)]
    simp [hneg]

/-- Every number that a literal stands for is written as a literal of it. -/
theorem ofLiteral?_text {x : Binary64} (h : x.IsLiteral) : ofLiteral? x.text = some x := by
  obtain ⟨hfin, hzero⟩ := h
  obtain ⟨d, hd, hmag⟩ := Decimal.read?_positional (Decimal.shortest .up x.magnitude)
  rw [Decimal.magnitude_shortest .up hfin] at hmag
  have hx : (ofMagnitude x.negative x.magnitude).unsignZero = x := by
    rw [ofMagnitude_magnitude, unsignZero]
    split
    · next hz => exact (hzero hz).symm
    · rfl
  simp only [ofLiteral?, splitSign_text hfin, hd, Option.bind_some, hmag, if_pos hfin, hx]

theorem mem_text {x : Binary64} {c : Char} (h : x.magnitude < infinity) (hc : c ∈ x.text) :
    isDigit c = true ∨ c = '.' ∨ c = '-' := by
  rw [text_eq h] at hc
  rcases List.mem_append.mp hc with hc | hc
  · by_cases hneg : x.negative
    · rw [if_pos hneg, List.mem_singleton] at hc
      exact .inr (.inr hc)
    · rw [if_neg hneg] at hc
      cases hc
  · exact (Decimal.mem_positional hc).imp_right .inl

end Binary64

end RelStore

import Mathlib.Algebra.Order.BigOperators.Group.List
import RelStore.Proofs.SelectAnswers
/-! Frames read back. A reader is described by the writer that it undoes and the values that fit
there; what it accepts is then what was written, to the last byte, and no two ways of writing a
response exist. -/
namespace RelStore

namespace Text

theorem ofUtf8_eq_ok {bytes : List UInt8} {s : String} : ofUtf8 bytes = .ok s ↔ utf8Bytes s = bytes := by
  rw [ofUtf8, String.fromUTF8?]
  split
  · next t ht =>
    split at ht
    · cases ht
      rw [Except.ok.injEq, ← String.toByteArray_inj, String.fromUTF8, ByteArray.ext_iff, utf8Bytes,
        eq_comm, ← Array.toList_inj]
    · cases ht
  · next hnone =>
    refine iff_of_false (fun h => by cases h) ?_
    rintro rfl
    have hvalid : (⟨(utf8Bytes s).toArray⟩ : ByteArray).IsValidUTF8 := by
      rw [utf8Bytes, Array.toArray_toList]
      exact s.isValidUTF8
    rw [dif_pos hvalid] at hnone
    cases hnone

end Text

theorem ErrorClass.ofCode?_eq_some {code : UInt8} {c : ErrorClass} :
    ofCode? code = some c ↔ code = c.code := by
  constructor
  · intro h
    have hfound := List.find?_some h
    exact (of_decide_eq_true hfound).symm
  · rintro rfl
    cases c <;> rfl

namespace Frame

section Readers

variable {α : Type} {take : List UInt8 → Except Error (α × List UInt8)} {fits : α → Prop}
  {write : α → List UInt8}

/-- The reader takes what the writer has written of the values that fit, and nothing else. -/
def Exact (take : List UInt8 → Except Error (α × List UInt8)) (fits : α → Prop)
    (write : α → List UInt8) : Prop :=
  ∀ bytes a rest, take bytes = .ok (a, rest) ↔ fits a ∧ bytes = write a ++ rest

theorem Exact.take_write (h : Exact take fits write) {a : α} (ha : fits a) (rest : List UInt8) :
    take (write a ++ rest) = .ok (a, rest) := (h _ _ _).mpr ⟨ha, rfl⟩

theorem takeByte_eq_ok {bytes rest : List UInt8} {b : UInt8} :
    takeByte bytes = .ok (b, rest) ↔ bytes = b :: rest := by
  cases bytes <;> simp [takeByte]

theorem exact_u32 : Exact takeU32 (· < 2 ^ 32) u32Bytes := by
  intro bytes n rest
  constructor
  · intro h
    match bytes, h with
    | a :: b :: c :: d :: _, h =>
      cases h
      have ha := a.toNat_lt
      have hb := b.toNat_lt
      have hc := c.toNat_lt
      have hd := d.toNat_lt
      have hbyte {x : UInt8} {m : Nat} (hm : m % 2 ^ 8 = x.toNat) : UInt8.ofNat m = x :=
        UInt8.toNat_inj.mp (UInt8.toNat_ofNat'.trans hm)
      refine ⟨by omega, ?_⟩
      rw [u32Bytes, hbyte (x := a) (by omega), hbyte (x := b) (by omega),
        hbyte (x := c) (by omega), hbyte (x := d) (by omega)]
      rfl
  · rintro ⟨hn, rfl⟩
    simp only [takeU32, u32Bytes, List.cons_append, List.nil_append, UInt8.toNat_ofNat',
      Except.ok.injEq, Prod.mk.injEq, and_true]
    omega

def TextFits (s : String) : Prop := (Text.utf8Bytes s).length < 2 ^ 32

theorem exact_text : Exact takeText TextFits textBytes := by
  intro bytes s rest
  rw [takeText, Except.bind_eq_ok]
  constructor
  · rintro ⟨⟨n, tail⟩, hn, h⟩
    obtain ⟨hfits, rfl⟩ := (exact_u32 _ _ _).mp hn
    simp only at h
    split at h
    · cases h
    next hlength =>
    split at h
    · next t ht =>
      cases h
      rw [Text.ofUtf8_eq_ok] at ht
      have hsize : (Text.utf8Bytes s).length = n := by
        rw [ht, List.length_take]
        omega
      refine ⟨by rw [TextFits, hsize]; exact hfits, ?_⟩
      rw [textBytes, hsize, List.append_assoc, ht, List.take_append_drop]
    · cases h
  · rintro ⟨hfits, rfl⟩
    refine ⟨((Text.utf8Bytes s).length, Text.utf8Bytes s ++ rest), ?_, ?_⟩
    · rw [textBytes, List.append_assoc]
      exact exact_u32.take_write hfits _
    · have hread := Text.ofUtf8_eq_ok.mpr (rfl : Text.utf8Bytes s = _)
      simp only [List.take_left, List.drop_left, hread, List.length_append]
      rw [if_neg (by omega)]
      rfl

/-- A reader as many times as asked. -/
def takeMany (take : List UInt8 → Except Error (α × List UInt8)) :
    Nat → List UInt8 → Except Error (List α × List UInt8)
  | 0, bytes => .ok ([], bytes)
  | n + 1, bytes => do
    let (a, bytes) ← take bytes
    let (rest, bytes) ← takeMany take n bytes
    return (a :: rest, bytes)

theorem Exact.many (h : Exact take fits write) (n : Nat) :
    Exact (takeMany take n) (fun l => l.length = n ∧ ∀ a ∈ l, fits a) fun l => l.flatMap write := by
  induction n with
  | zero =>
    intro bytes l rest
    rw [takeMany, Except.ok.injEq, Prod.mk.injEq]
    constructor
    · rintro ⟨rfl, rfl⟩
      exact ⟨⟨rfl, List.forall_mem_nil _⟩, rfl⟩
    · rintro ⟨⟨hl, -⟩, rfl⟩
      rw [List.length_eq_zero_iff.mp hl]
      exact ⟨rfl, rfl⟩
  | succ n ih =>
    intro bytes l rest
    rw [takeMany, Except.bind_eq_ok]
    constructor
    · rintro ⟨⟨a, tail⟩, ha, hl⟩
      obtain ⟨⟨l, tail⟩, hl, he⟩ := Except.bind_eq_ok.mp hl
      cases he
      obtain ⟨hfits, rfl⟩ := (h _ _ _).mp ha
      obtain ⟨⟨hn, hall⟩, rfl⟩ := (ih _ _ _).mp hl
      refine ⟨⟨congrArg (· + 1) hn, List.forall_mem_cons.mpr ⟨hfits, hall⟩⟩, ?_⟩
      simp only [List.flatMap_cons, List.append_assoc]
    · rintro ⟨⟨hn, hall⟩, rfl⟩
      obtain ⟨a, l, rfl⟩ := List.exists_cons_of_length_eq_add_one hn
      obtain ⟨hfits, hall⟩ := List.forall_mem_cons.mp hall
      refine ⟨(a, l.flatMap write ++ rest), ?_, ?_⟩
      · simp only [List.flatMap_cons, List.append_assoc]
        exact h.take_write hfits _
      · have hl := ih.take_write ⟨Nat.succ.inj hn, hall⟩ rest
        simp only [hl]
        rfl

theorem takeTexts_eq : takeTexts = takeMany takeText := by
  funext n
  induction n with
  | zero => rfl
  | succ n ih =>
    funext bytes
    rw [takeTexts, takeMany, ih]

theorem takeRows_eq (width : Nat) : takeRows width = takeMany (takeTexts width) := by
  funext n
  induction n with
  | zero => rfl
  | succ n ih =>
    funext bytes
    rw [takeRows, takeMany, ih]

theorem exact_texts (n : Nat) :
    Exact (takeTexts n) (fun l => l.length = n ∧ ∀ s ∈ l, TextFits s) fun l => l.flatMap textBytes :=
  takeTexts_eq ▸ exact_text.many n

theorem exact_rows (width n : Nat) :
    Exact (takeRows width n)
      (fun rows => rows.length = n ∧ ∀ row ∈ rows, row.length = width ∧ ∀ s ∈ row, TextFits s)
      fun rows => rows.flatMap fun row => row.flatMap textBytes :=
  takeRows_eq width ▸ (exact_texts width).many n

end Readers

end Frame

namespace Response

/-- Every row has as many cells as there are columns. -/
def Rectangular : Response → Prop
  | .table columns rows => ∀ row ∈ rows, row.length = columns.length
  | _ => True

instance (r : Response) : Decidable r.Rectangular := by
  cases r <;> unfold Rectangular <;> infer_instance

/-- Lengths and counts are 32-bit numbers, and the width of a row is that of the header. -/
def Encodable : Response → Prop
  | .done => True
  | .error _ message => Frame.TextFits message
  | .table columns rows =>
    (columns.length < 2 ^ 32 ∧ ∀ s ∈ columns, Frame.TextFits s) ∧ rows.length < 2 ^ 32 ∧
      ∀ row ∈ rows, row.length = columns.length ∧ ∀ s ∈ row, Frame.TextFits s

/-- Rows without cells take up no bytes, so only their number can be too large. -/
def RowsCounted : Response → Prop
  | .table [] rows => rows.length < 2 ^ 32
  | _ => True

instance (r : Response) : Decidable r.RowsCounted := by
  unfold RowsCounted
  split <;> infer_instance

end Response

namespace Frame

open Response (Encodable)

theorem of_takeResponse {bytes rest : List UInt8} {r : Response}
    (htake : takeResponse bytes = .ok (r, rest)) : r.Encodable ∧ bytes = body r ++ rest := by
  obtain ⟨⟨tag, bytes₁⟩, htag, h⟩ := Except.bind_eq_ok.mp htake
  clear htake
  obtain rfl := takeByte_eq_ok.mp htag
  simp only at h
  split at h
  · cases h
    exact ⟨trivial, rfl⟩
  · obtain ⟨⟨code, bytes₂⟩, hcode, hclass⟩ := Except.bind_eq_ok.mp h
    obtain rfl := takeByte_eq_ok.mp hcode
    simp only at hclass
    split at hclass
    · cases hclass
    · next c hc =>
      obtain rfl := ErrorClass.ofCode?_eq_some.mp hc
      obtain ⟨⟨message, bytes₃⟩, hmessage, h⟩ := Except.bind_eq_ok.mp hclass
      cases h
      obtain ⟨hfits, rfl⟩ := (exact_text _ _ _).mp hmessage
      exact ⟨hfits, rfl⟩
  · obtain ⟨⟨width, bytes₂⟩, hwidth, h⟩ := Except.bind_eq_ok.mp h
    obtain ⟨⟨columns, bytes₃⟩, hcolumns, h⟩ := Except.bind_eq_ok.mp h
    obtain ⟨⟨height, bytes₄⟩, hheight, h⟩ := Except.bind_eq_ok.mp h
    obtain ⟨⟨rows, bytes₅⟩, hrows, h⟩ := Except.bind_eq_ok.mp h
    cases h
    obtain ⟨hw, rfl⟩ := (exact_u32 _ _ _).mp hwidth
    obtain ⟨⟨rfl, htexts⟩, rfl⟩ := (exact_texts _ _ _ _).mp hcolumns
    obtain ⟨hh, rfl⟩ := (exact_u32 _ _ _).mp hheight
    obtain ⟨⟨rfl, hcells⟩, rfl⟩ := (exact_rows _ _ _ _ _).mp hrows
    refine ⟨⟨⟨hw, htexts⟩, hh, hcells⟩, ?_⟩
    simp only [body, List.cons_append, List.append_assoc]
  · cases h

theorem takeResponse_error {message : String} (h : TextFits message) (c : ErrorClass)
    (rest : List UInt8) :
    takeResponse (body (.error c message) ++ rest) = .ok (.error c message, rest) := by
  have hcode := ErrorClass.ofCode?_eq_some.mpr (rfl : c.code = _)
  have hmessage := exact_text.take_write h rest
  simp only [takeResponse, body, List.cons_append, takeByte, Except.ok_bind, hcode, hmessage]
  rfl

theorem takeResponse_table {columns : List String} {rows : List (List String)}
    (h : (Response.table columns rows).Encodable) (rest : List UInt8) :
    takeResponse (body (.table columns rows) ++ rest) = .ok (.table columns rows, rest) := by
  obtain ⟨⟨hw, htexts⟩, hh, hcells⟩ := h
  have hwidth := exact_u32.take_write hw
  have hcolumns := (exact_texts columns.length).take_write ⟨rfl, htexts⟩
  have hheight := exact_u32.take_write hh
  have hrows := (exact_rows columns.length rows.length).take_write ⟨rfl, hcells⟩
  have hbody : body (.table columns rows) ++ rest =
      2 :: (u32Bytes columns.length ++ (columns.flatMap textBytes ++ (u32Bytes rows.length ++
        (rows.flatMap (fun row => row.flatMap textBytes) ++ rest)))) := by
    simp only [body, List.cons_append, List.append_assoc]
  rw [hbody, takeResponse, Except.bind_eq_ok]
  refine ⟨_, rfl, Except.bind_eq_ok.mpr ⟨_, hwidth _, ?_⟩⟩
  refine Except.bind_eq_ok.mpr ⟨_, hcolumns _, Except.bind_eq_ok.mpr ⟨_, hheight _, ?_⟩⟩
  exact Except.bind_eq_ok.mpr ⟨_, hrows _, rfl⟩

theorem takeResponse_body {r : Response} (h : r.Encodable) (rest : List UInt8) :
    takeResponse (body r ++ rest) = .ok (r, rest) := by
  cases r with
  | done => rfl
  | error c message => exact takeResponse_error h c rest
  | table columns rows => exact takeResponse_table h rest

theorem exact_response : Exact takeResponse Encodable body := by
  refine fun bytes r rest => ⟨of_takeResponse, ?_⟩
  rintro ⟨hfits, rfl⟩
  exact takeResponse_body hfits rest

/-- What decodes is what is written of a response that fits. -/
theorem decode_eq_ok_iff {bytes : List UInt8} {r : Response} :
    decode bytes = .ok r ↔ r.Encodable ∧ bytes = body r := by
  have hexact := exact_response bytes r []
  rw [List.append_nil] at hexact
  rw [← hexact, decode, Except.bind_eq_ok]
  constructor
  · rintro ⟨⟨r', rest⟩, htake, h⟩
    cases rest with
    | nil =>
      cases h
      exact htake
    | cons b rest => cases h
  · intro htake
    exact ⟨_, htake, rfl⟩

/-- No response is written as the beginning of another one. -/
theorem eq_of_begins {b b' : List UInt8} {r r' : Response} (h : decode b = .ok r)
    (h' : decode b' = .ok r') (hbegins : b <+: b') : b = b' := by
  obtain ⟨rest, rfl⟩ := hbegins
  obtain ⟨hfits, rfl⟩ := decode_eq_ok_iff.mp h
  obtain ⟨hfits', hbody⟩ := decode_eq_ok_iff.mp h'
  -- Both reads start with the same bytes, so they agree on what is left over.
  have hshort := takeResponse_body hfits rest
  have hlong := takeResponse_body hfits' []
  rw [List.append_nil, ← hbody, hshort] at hlong
  cases hlong
  exact (List.append_nil _).symm

theorem decode_take {b : List UInt8} {r : Response} {k : Nat} (h : decode b = .ok r)
    (hk : k < b.length) : ∃ e, decode (b.take k) = .error e := by
  cases htake : decode (b.take k) with
  | error e => exact ⟨e, rfl⟩
  | ok r' =>
    have hlength := congrArg List.length (eq_of_begins htake h (List.take_prefix k b))
    rw [List.length_take] at hlength
    omega

theorem decode_append {b rest : List UInt8} {r : Response} (h : decode b = .ok r)
    (hrest : rest ≠ []) : ∃ e, decode (b ++ rest) = .error e := by
  cases happend : decode (b ++ rest) with
  | error e => exact ⟨e, rfl⟩
  | ok r' =>
    have hsame := eq_of_begins h happend (List.prefix_append b rest)
    exact absurd (List.self_eq_append_right.mp hsame) hrest

section Sizes

variable {α : Type} {l : List α} {f : α → List UInt8}

theorem length_le_flatMap {a : α} (ha : a ∈ l) : (f a).length ≤ (l.flatMap f).length := by
  rw [List.length_flatMap]
  exact List.le_sum_of_mem (List.mem_map_of_mem ha)

theorem mul_length_le_flatMap {k : Nat} (h : ∀ a ∈ l, k ≤ (f a).length) :
    l.length * k ≤ (l.flatMap f).length := by
  have hsum := List.card_nsmul_le_sum (l.map fun a => (f a).length) k
    (List.forall_mem_map.mpr h)
  rwa [List.length_map, nsmul_eq_mul, Nat.cast_id, ← List.length_flatMap] at hsum

theorem length_textBytes (s : String) : (textBytes s).length = 4 + (Text.utf8Bytes s).length := by
  rw [textBytes, List.length_append]
  rfl

theorem textFits_of_length {s : String} (h : (textBytes s).length ≤ maxBodyBytes) : TextFits s := by
  rw [length_textBytes, maxBodyBytes] at h
  rw [TextFits]
  omega

theorem length_of_texts {l : List String} (h : (l.flatMap textBytes).length ≤ maxBodyBytes) :
    l.length < 2 ^ 32 ∧ ∀ s ∈ l, TextFits s := by
  refine ⟨?_, fun s hs => textFits_of_length ((length_le_flatMap hs).trans h)⟩
  have hmul := mul_length_le_flatMap (l := l) (f := textBytes) (k := 4)
    fun s _ => by rw [length_textBytes]; omega
  rw [maxBodyBytes] at h
  omega

end Sizes

/-- In a body of the size of a frame no text is too long and nothing too numerous, except rows
without cells. -/
theorem encodable_iff {r : Response} (h : (body r).length ≤ maxBodyBytes) :
    r.Encodable ↔ r.Rectangular ∧ r.RowsCounted := by
  cases r with
  | done => exact ⟨fun _ => ⟨trivial, trivial⟩, fun _ => trivial⟩
  | error c message =>
    refine ⟨fun _ => ⟨trivial, trivial⟩, fun _ => textFits_of_length ?_⟩
    simp only [body, List.length_cons] at h
    omega
  | table columns rows =>
    simp only [body, List.length_append, List.length_cons] at h
    have hcolumns : (columns.flatMap textBytes).length ≤ maxBodyBytes := by omega
    have hrows : (rows.flatMap fun row => row.flatMap textBytes).length ≤ maxBodyBytes := by omega
    constructor
    · rintro ⟨-, hh, hcells⟩
      refine ⟨fun row hrow => (hcells row hrow).1, ?_⟩
      cases columns with
      | nil => exact hh
      | cons _ _ => trivial
    · rintro ⟨hrectangular, hcounted⟩
      have hcells : ∀ row ∈ rows, ∀ s ∈ row, TextFits s := by
        intro row hrow
        exact (length_of_texts ((length_le_flatMap
          (f := fun row => List.flatMap textBytes row) hrow).trans hrows)).2
      refine ⟨length_of_texts hcolumns, ?_, fun row hrow => ⟨hrectangular row hrow, hcells row hrow⟩⟩
      cases columns with
      | nil => exact hcounted
      | cons column columns =>
        -- A row has a cell, and a cell its length in front.
        have hmul := mul_length_le_flatMap (l := rows) (f := fun row => row.flatMap textBytes)
          (k := 4) fun row hrow => by
            have hcell := mul_length_le_flatMap (l := row) (f := textBytes) (k := 4)
              fun s _ => by rw [length_textBytes]; omega
            have hwidth := hrectangular row hrow
            rw [List.length_cons] at hwidth
            omega
        rw [maxBodyBytes] at hrows
        omega

theorem read_encode_eq {r : Response} (h : (body r).length ≤ maxBodyBytes) :
    read (encode r) = decode (body r) := by
  have hlength : (body r).length < 2 ^ 32 := by
    rw [maxBodyBytes] at h
    omega
  rw [read, encode, exact_u32.take_write hlength]
  simp only [if_neg (Nat.not_lt.mpr h), Nat.lt_irrefl, if_false, List.take_length]

/-- A frame that is not too large reads back. -/
theorem read_encode_iff {r : Response} (hr : r.Rectangular) (h : (body r).length ≤ maxBodyBytes) :
    read (encode r) = .ok r ↔ r.RowsCounted := by
  rw [read_encode_eq h, decode_eq_ok_iff, encodable_iff h]
  exact ⟨fun hboth => hboth.1.2, fun hcounted => ⟨⟨hr, hcounted⟩, rfl⟩⟩

theorem encode_of_decode {b : List UInt8} {r : Response} (h : decode b = .ok r) :
    encode r = u32Bytes b.length ++ b := by
  obtain ⟨-, rfl⟩ := decode_eq_ok_iff.mp h
  rfl

/-- An acknowledgement is read from the frame of an acknowledgement only, even from one too large. -/
theorem read_encode_eq_done {r : Response} : read (encode r) = .ok .done ↔ r = .done := by
  constructor
  · intro h
    simp only [read, encode, u32Bytes, List.cons_append, List.nil_append, takeU32] at h
    split at h
    · cases h
    · split at h
      · cases h
      · obtain ⟨-, hbody⟩ := decode_eq_ok_iff.mp h
        cases r with
        | done => rfl
        | _ =>
          rw [body] at hbody
          generalize UInt8.toNat _ * 2 ^ 24 + _ + _ + _ = n at hbody
          cases n with
          | zero => cases hbody
          | succ n => cases hbody
  · rintro rfl
    rw [read_encode_eq (by decide)]
    exact decode_eq_ok_iff.mpr ⟨trivial, rfl⟩

end Frame

section Answers

variable {t : Table} {rows found : List Row} {projection : Projection} {predicates : List Predicate}
  {columns : List Column} {w : Databases} {s : Session}

theorem SelectAnswer.length_project (h : SelectAnswer t rows projection predicates columns found)
    {r : Row} (hr : r ∈ found) :
    (r.project (columns.map (·.position))).length = columns.length := by
  rw [← List.length_map (f := fun c : Column => c.position), Row.project,
    List.filterMap_length_eq_length, List.forall_mem_map]
  intro c hc
  obtain ⟨v, hv⟩ := h.values r hr c hc
  rw [hv]
  rfl

/-- A selection asks for some column. -/
theorem SelectAnswer.columns_ne_nil (h : SelectAnswer t rows projection predicates columns found)
    (hvalid : projection.Valid t) : columns ≠ [] := by
  obtain ⟨c, hc, hasked⟩ : ∃ c ∈ t.columns, projection.asksFor c = true := by
    cases projection with
    | all => exact ⟨t.rowId, List.head_mem t.columns_ne, rfl⟩
    | columns names =>
      obtain ⟨hne, hnames⟩ := hvalid
      obtain ⟨n, hn⟩ := List.exists_mem_of_ne_nil names hne
      obtain ⟨c, hc, rfl⟩ := hnames n hn
      exact ⟨c, hc, decide_eq_true hn⟩
  exact List.ne_nil_of_mem ((h.asked c).mpr ⟨hc, hasked⟩)

theorem Databases.Sound.run_rectangular (h : w.Sound) {c : Command} {answer : Response × Databases}
    (ha : w.run s c = .ok answer) : answer.1.Rectangular ∧ answer.1.RowsCounted := by
  have hchange {op : Database → Except Error Database} (hc : w.change s op = .ok answer) :
      answer.1.Rectangular ∧ answer.1.RowsCounted := by
    obtain ⟨db, -, hc⟩ := Except.bind_eq_ok.mp hc
    obtain ⟨D, -, hc⟩ := Except.bind_eq_ok.mp hc
    obtain ⟨D', -, he⟩ := Except.bind_eq_ok.mp hc
    cases he
    exact ⟨trivial, trivial⟩
  cases c with
  | createDatabase n =>
    obtain ⟨-, rfl⟩ := Databases.of_createDatabase ha
    exact ⟨trivial, trivial⟩
  | dropDatabase n =>
    obtain ⟨⟨⟩, -, ha⟩ := Except.bind_eq_ok.mp ha
    obtain ⟨D, -, he⟩ := Except.bind_eq_ok.mp ha
    cases he
    exact ⟨trivial, trivial⟩
  | useDatabase n =>
    obtain ⟨D, -, he⟩ := Except.bind_eq_ok.mp ha
    cases he
    exact ⟨trivial, trivial⟩
  | select T projection predicates =>
    obtain ⟨db, -, ha⟩ := Except.bind_eq_ok.mp ha
    obtain ⟨D, hD, ha⟩ := Except.bind_eq_ok.mp ha
    obtain ⟨R, hR, ha⟩ := Except.bind_eq_ok.mp ha
    obtain ⟨⟨names, cells⟩, hselect, he⟩ := Except.bind_eq_ok.mp ha
    cases he
    have hsound := h.databases db D (Databases.of_database hD)
    have hfind := (Database.of_relation hR).2
    have hshaped := hsound.shaped hfind
    obtain ⟨columns, found, heq, hanswer⟩ :=
      of_select hshaped (hsound.relations T R hfind).rows hselect
    obtain ⟨hvalid, -⟩ := (exists_select_iff hshaped).mp ⟨_, hselect⟩
    cases heq
    refine ⟨?_, ?_⟩
    · simp only [Response.Rectangular, List.forall_mem_map, List.length_map]
      exact fun r hr => hanswer.length_project hr
    · obtain ⟨c, columns, rfl⟩ := List.exists_cons_of_ne_nil (hanswer.columns_ne_nil hvalid)
      trivial
  | _ => exact hchange ha

theorem Databases.Sound.handle_rectangular (h : w.Sound) (request : String) :
    (w.handle s request).1.Rectangular ∧ (w.handle s request).1.RowsCounted := by
  rw [Databases.handle]
  cases Command.decode request with
  | error e => exact ⟨trivial, trivial⟩
  | ok c =>
    cases ha : w.run s c with
    | error e =>
      simp only [ha]
      exact ⟨trivial, trivial⟩
    | ok answer =>
      simp only [ha]
      exact h.run_rectangular ha

end Answers

/-- A response whose rows have one cell for each column, in a frame that is not too large, reads back;
of rows without cells, which take up no bytes, the number has to fit as well. What decodes was
written so to the last byte, and nothing cut or added decodes. The responses to requests are of this
kind. -/
theorem frames_exact :
    (∀ r : Response, r.Rectangular → (Frame.body r).length ≤ Frame.maxBodyBytes →
      (Frame.read (Frame.encode r) = .ok r ↔ r.RowsCounted)) ∧
    (∀ b r, Frame.decode b = .ok r → Frame.encode r = Frame.u32Bytes b.length ++ b ∧
      (∀ k < b.length, ∃ e, Frame.decode (b.take k) = .error e) ∧
      ∀ rest, rest ≠ [] → ∃ e, Frame.decode (b ++ rest) = .error e) ∧
    ∀ S : System, S.Reachable → ∀ i request, request.utf8ByteSize < 2 ^ 63 →
      (S.handle i request).1.Rectangular ∧
        ((Frame.body (S.handle i request).1).length ≤ Frame.maxBodyBytes →
          Frame.read (Frame.encode (S.handle i request).1) = .ok (S.handle i request).1) := by
  refine ⟨fun r hr h => Frame.read_encode_iff hr h, fun b r h => ⟨Frame.encode_of_decode h,
    fun k => Frame.decode_take h, fun rest => Frame.decode_append h⟩, ?_⟩
  intro S hreach i request size
  obtain ⟨W, hW⟩ := hreach.holds
  obtain ⟨hr, hcounted⟩ := hW.sound.handle_rectangular (s := W.sessions i) request
  rw [(hW.handle i size).1]
  exact ⟨hr, fun h => (Frame.read_encode_iff hr h).mpr hcounted⟩

/-- A row with a character of two bytes, and one with a cell without text. -/
def accented : List (Nat × String) :=
  [(0, "2 4 d"), (0, "7 d"), (0, "2 5 t 29 id 34 a"), (0, "8 t 1#é"), (0, "8 t 2#")]

theorem frames_exact_accented :
    let full := Response.table ["id", "a"] [["1", "é"], ["2", ""]]
    let bare := Response.table [] [[], []]
    ((System.asked .inMemory accented).handle 0 "19 18 16 t").1 = full ∧ full.Rectangular ∧
      Frame.read (Frame.encode full) = .ok full ∧ Frame.read (Frame.encode bare) = .ok bare ∧
      (∃ e, Frame.decode ((Frame.body bare).take 8) = .error e) ∧
      ∃ e, Frame.decode (Frame.body bare ++ [0]) = .error e := by
  intro full bare
  obtain ⟨hreach, hholds⟩ := System.asked_inMemory_holds accented (by decide)
  have hfull : ((System.asked .inMemory accented).handle 0 "19 18 16 t").1 = full := by
    rw [(hholds.handle 0 (by decide)).1]
    decide +kernel
  obtain ⟨hback, hexact, hanswers⟩ := frames_exact
  have hanswer := hanswers _ hreach 0 "19 18 16 t" (by decide)
  rw [hfull] at hanswer
  have hbare : Frame.decode (Frame.body bare) = .ok bare := rfl
  obtain ⟨-, hcut, hadded⟩ := hexact _ _ hbare
  have hcounted : bare.RowsCounted := by decide +kernel
  refine ⟨hfull, hanswer.1, hanswer.2 (by decide +kernel), ?_, hcut 8 (by decide),
    hadded [0] (List.cons_ne_nil _ _)⟩
  exact (hback bare (by decide +kernel) (by decide)).mpr hcounted

/-- Rows without cells can be more than the count of a frame tells: of 2 ^ 32 rows none is read back. -/
theorem not_frames_read_back :
    ¬ ∀ r : Response, r.Rectangular → (Frame.body r).length ≤ Frame.maxBodyBytes →
      Frame.read (Frame.encode r) = .ok r := by
  intro h
  obtain ⟨rows, hlength, hempty⟩ : ∃ rows : List (List String),
      rows.length = 2 ^ 32 ∧ ∀ row ∈ rows, row = [] :=
    ⟨List.replicate (2 ^ 32) [], List.length_replicate, fun _ => List.eq_of_mem_replicate⟩
  have hrectangular : (Response.table [] rows).Rectangular := fun row hrow => by
    rw [hempty row hrow]
  have hsize : (Frame.body (.table [] rows)).length ≤ Frame.maxBodyBytes := by
    have hcells : rows.flatMap (fun row => row.flatMap Frame.textBytes) = [] := by
      refine List.flatMap_eq_nil_iff.mpr fun row hrow => ?_
      rw [hempty row hrow]
      rfl
    rw [Frame.body, hcells]
    exact (by decide : 9 ≤ Frame.maxBodyBytes)
  have hcounted := (Frame.read_encode_iff hrectangular hsize).mp (h _ hrectangular hsize)
  rw [Response.RowsCounted, hlength] at hcounted
  exact absurd hcounted (by decide)

end RelStore

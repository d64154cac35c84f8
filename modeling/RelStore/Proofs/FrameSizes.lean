import RelStore.Proofs.Frames
/-! What a frame pays for. Every text of a table has its length in front, so the columns and the
cells are paid for by bytes of the frame; of the rows only their number is written, and rows without
cells are not paid for at all. -/
namespace RelStore

namespace Frame

/-- The bytes of the texts alone, without the lengths in front of them. -/
def textSize (texts : List String) : Nat :=
  (texts.map fun s => (Text.utf8Bytes s).length).sum

theorem length_texts (texts : List String) :
    (texts.flatMap textBytes).length = 4 * texts.length + textSize texts := by
  induction texts with
  | nil => rfl
  | cons s texts ih =>
    simp only [textSize, List.flatMap_cons, List.length_append, List.length_cons, List.map_cons,
      List.sum_cons, length_textBytes] at ih ⊢
    omega

/-- Where one row ends and the next begins is not written. -/
theorem flatMap_rows (rows : List (List String)) :
    (rows.flatMap fun row => row.flatMap textBytes) = rows.flatten.flatMap textBytes := by
  rw [← List.flatMap_id, List.flatMap_assoc]
  rfl

/-- The tag and the two counts take nine bytes. -/
theorem length_body_table (columns : List String) (rows : List (List String)) :
    (body (.table columns rows)).length =
      9 + 4 * (columns.length + rows.flatten.length) + textSize (columns ++ rows.flatten) := by
  have hcount (n : Nat) : (u32Bytes n).length = 4 := rfl
  have htexts := length_texts (columns ++ rows.flatten)
  rw [List.flatMap_append, List.length_append, List.length_append] at htexts
  simp only [body, flatMap_rows, List.length_append, List.length_cons, hcount]
  omega

variable {b : List UInt8} {columns : List String} {rows : List (List String)}

/-- What a table has taken from a frame, to the last byte. -/
structure Carries (b : List UInt8) (columns : List String) (rows : List (List String)) : Prop where
  rectangular : ∀ row ∈ rows, row.length = columns.length
  size : b.length =
    9 + 4 * (columns.length + rows.flatten.length) + textSize (columns ++ rows.flatten)

theorem carries_of_decode (h : decode b = .ok (.table columns rows)) : Carries b columns rows := by
  obtain ⟨⟨-, -, hcells⟩, rfl⟩ := decode_eq_ok_iff.mp h
  exact ⟨fun row hrow => (hcells row hrow).1, length_body_table columns rows⟩

theorem Carries.length_cells (h : Carries b columns rows) :
    rows.flatten.length = rows.length * columns.length := by
  rw [List.length_flatten, List.sum_eq_card_nsmul _ _ (List.forall_mem_map.mpr h.rectangular),
    List.length_map, nsmul_eq_mul, Nat.cast_id]

/-- A row with a cell is paid for by its first cell. Without columns the frame is nine bytes long,
whatever the number of its rows. -/
theorem Carries.within_iff (h : Carries b columns rows) :
    columns.length + rows.length + rows.flatten.length ≤ b.length ↔
      columns ≠ [] ∨ rows.length ≤ 9 := by
  have hsize := h.size
  have hcells := h.length_cells
  cases columns with
  | nil =>
    have hempty : rows.flatten = [] := List.eq_nil_of_length_eq_zero hcells
    rw [hempty] at hsize ⊢
    simp only [ne_eq, not_true_eq_false, false_or, hsize, List.length_nil, List.append_nil,
      textSize, List.map_nil, List.sum_nil, Nat.zero_add, Nat.add_zero, Nat.mul_zero]
  | cons column columns =>
    refine iff_of_true ?_ (.inl (List.cons_ne_nil _ _))
    have hrows : rows.length ≤ rows.flatten.length := by
      rw [hcells]
      exact Nat.le_mul_of_pos_right _ (Nat.succ_pos _)
    omega

/-- Nine bytes that stand for as many rows as a count can say. -/
def bareRows (n : Nat) : List UInt8 := 2 :: u32Bytes 0 ++ u32Bytes n

theorem decode_bareRows {n : Nat} (hn : n < 2 ^ 32) :
    decode (bareRows n) = .ok (.table [] (List.replicate n [])) := by
  refine decode_eq_ok_iff.mpr ⟨⟨⟨by decide, List.forall_mem_nil _⟩, ?_, ?_⟩, ?_⟩
  · rwa [List.length_replicate]
  · intro row hrow
    obtain rfl := List.eq_of_mem_replicate hrow
    exact ⟨rfl, List.forall_mem_nil _⟩
  · rw [body, flatMap_rows, List.flatten_replicate_nil, List.length_replicate]
    rfl

theorem of_read {stream : List UInt8} {r : Response} (h : read stream = .ok r) :
    ∃ b, b.length ≤ maxBodyBytes ∧ decode b = .ok r := by
  rw [read] at h
  split at h
  · cases h
  · next n bytes _ =>
    split at h
    · cases h
    · split at h
      · cases h
      · next hlimit _ =>
        refine ⟨bytes.take n, ?_, h⟩
        rw [List.length_take]
        omega

end Frame

/-- A table that decodes accounts for every byte of its frame: nine bytes, four for each column and
each cell, and the texts themselves. So the columns, rows and cells are within the length of the
frame exactly if there are columns, or no more than nine rows; what is read from a stream is within
the limit of a frame in that sense. Without columns nine bytes stand for any number of rows. -/
theorem decode_table_size (b : List UInt8) :
    (∀ columns rows, Frame.decode b = .ok (.table columns rows) →
      b.length = 9 + 4 * (columns.length + rows.flatten.length) +
        Frame.textSize (columns ++ rows.flatten) ∧
      (columns.length + rows.length + rows.flatten.length ≤ b.length ↔
        columns ≠ [] ∨ rows.length ≤ 9)) ∧
    (∀ columns rows, Frame.read b = .ok (.table columns rows) → columns ≠ [] →
      columns.length + rows.length + rows.flatten.length ≤ Frame.maxBodyBytes) ∧
    ∀ n < 2 ^ 32, b = Frame.bareRows n →
      b.length = 9 ∧ Frame.decode b = .ok (.table [] (List.replicate n [])) := by
  refine ⟨fun columns rows h => ?_, fun columns rows h hne => ?_, ?_⟩
  · have hcarries := Frame.carries_of_decode h
    exact ⟨hcarries.size, hcarries.within_iff⟩
  · obtain ⟨body, hlimit, hdecode⟩ := Frame.of_read h
    exact ((Frame.carries_of_decode hdecode).within_iff.mpr (.inl hne)).trans hlimit
  · rintro n hn rfl
    exact ⟨rfl, Frame.decode_bareRows hn⟩

/-- Two columns and two rows in thirty-nine bytes, and a thousand rows in nine. -/
theorem decode_table_size_small :
    let columns := ["id", "a"]
    let rows := [["1", "x"], ["2", ""]]
    let b := Frame.body (.table columns rows)
    (b.length = 9 + 4 * 6 + 6 ∧ 2 + 2 + 4 ≤ b.length) ∧
      columns.length + rows.length + rows.flatten.length ≤ Frame.maxBodyBytes ∧
      Frame.decode (Frame.bareRows 1000) = .ok (.table [] (List.replicate 1000 [])) := by
  intro columns rows b
  have hdecode : Frame.decode b = .ok (.table columns rows) := by decide +kernel
  have hread : Frame.read (Frame.encode (.table columns rows)) = .ok (.table columns rows) := by
    decide +kernel
  obtain ⟨hsize, hwithin⟩ := (decode_table_size b).1 columns rows hdecode
  obtain ⟨-, hlimit, -⟩ := decode_table_size (Frame.encode (.table columns rows))
  obtain ⟨-, -, hbare⟩ := decode_table_size (Frame.bareRows 1000)
  exact ⟨⟨hsize, hwithin.mpr (.inl (List.cons_ne_nil _ _))⟩,
    hlimit columns rows hread (List.cons_ne_nil _ _), (hbare 1000 (by decide) rfl).2⟩

/-- A frame of nine bytes decodes to ten rows. -/
theorem not_decode_within_frame : ¬ ∀ b columns rows, b.length ≤ Frame.maxBodyBytes →
    Frame.decode b = .ok (.table columns rows) →
      columns.length + rows.length + rows.flatten.length ≤ b.length := by
  intro h
  have hten := h (Frame.bareRows 10) [] (List.replicate 10 []) (by decide)
    (Frame.decode_bareRows (by decide))
  exact absurd hten (by decide)

end RelStore

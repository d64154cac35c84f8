import RelStore.Proofs.LiteralText
import RelStore.Proofs.Running
/-! Stored rows read back. The delimiter is in no field, so the joined text is split where it was
joined; a table of one column stores nothing but the key. -/
namespace RelStore

theorem Text.splitFields_joinFields {delimiter : Char} {fields : List (List Char)}
    (hne : fields ≠ []) (hd : ∀ s ∈ fields, delimiter ∉ s) :
    splitFields delimiter (joinFields delimiter fields) = fields :=
  List.splitOn_intercalate delimiter hd hne

/-- Whatever is in the fields, each is split for itself. -/
theorem Text.splitFields_joinFields_eq_flatMap {delimiter : Char} {fields : List (List Char)}
    (hne : fields ≠ []) :
    splitFields delimiter (joinFields delimiter fields) =
      fields.flatMap (splitFields delimiter) := by
  induction fields with
  | nil => exact absurd rfl hne
  | cons field rest ih =>
    cases rest with
    | nil => simp [joinFields]
    | cons next rest =>
      have hrest := ih (List.cons_ne_nil next rest)
      rw [splitFields, joinFields] at hrest
      rw [splitFields, joinFields, List.intercalate_cons_cons, List.append_assoc,
        List.singleton_append, List.splitOn_append_cons_self, hrest, List.flatMap_cons]
      rfl

theorem Text.length_splitFields (delimiter : Char) (s : List Char) :
    (splitFields delimiter s).length = s.count delimiter + 1 := by
  induction s with
  | nil => simp [splitFields]
  | cons c s ih =>
    rw [splitFields, List.splitOn_cons_eq_if_modifyHead, List.count_cons]
    split
    · rw [List.length_cons]
      exact congrArg (· + 1) ih
    · rw [List.length_modifyHead]
      exact ih

theorem Text.notMem_splitOnPPrepend {delimiter : Char} {s acc field : List Char}
    (hacc : delimiter ∉ acc) (h : field ∈ s.splitOnPPrepend (· == delimiter) acc) :
    delimiter ∉ field := by
  induction s generalizing acc with
  | nil =>
    rw [List.splitOnPPrepend_nil, List.mem_singleton] at h
    simpa [h] using hacc
  | cons c s ih =>
    rw [List.splitOnPPrepend_cons_eq_if] at h
    split at h
    · rcases List.mem_cons.mp h with h | h
      · simpa [h] using hacc
      · exact ih List.not_mem_nil h
    · next hc =>
      refine ih (fun hm => ?_) h
      rcases List.mem_cons.mp hm with hm | hm
      · exact hc (by simp [hm])
      · exact hacc hm

theorem Text.notMem_splitFields {delimiter : Char} {s field : List Char}
    (h : field ∈ splitFields delimiter s) : delimiter ∉ field :=
  notMem_splitOnPPrepend List.not_mem_nil h

namespace Row

/-- A row fits a table when each of its values is one that the column in its place may hold. -/
def Fits (t : Table) (r : Row) : Prop :=
  List.Forall₂ (fun c v => c.type.Holds v) t.columns r.values

theorem columns_eq (t : Table) : t.columns = t.rowId :: t.columns.tail :=
  (List.cons_head_tail t.columns_ne).symm

theorem Fits.fields {t : Table} {r : Row} (h : r.Fits t) :
    List.Forall₂ (fun c v => c.type.Holds v) t.columns.tail r.fields := by
  rw [Fits, columns_eq t] at h
  exact (List.forall₂_cons.mp h).2

theorem length_fields {t : Table} {r : Row} {p : Column → Value → Prop}
    (h : List.Forall₂ p t.columns.tail r.fields) : r.fields.length + 1 = t.width := by
  have hlen := List.Forall₂.length_eq h
  rw [Table.width, columns_eq t, List.length_cons, hlen]

/-- The stored text has the fields of each value, which is a single one unless the delimiter is in
its text. -/
theorem splitBlob_document {t : Table} {r : Row} (hlen : r.fields.length + 1 = t.width) :
    splitBlob t (String.ofList (Text.joinFields fieldDelimiter (r.fields.map Value.chars))) =
      (r.fields.flatMap fun v => Text.splitFields fieldDelimiter v.chars).map String.ofList := by
  rw [splitBlob]
  split
  · next hw =>
    have hnil : r.fields = [] := List.eq_nil_of_length_eq_zero (by omega)
    rw [hnil]
    rfl
  · next hw =>
    have hne : r.fields.map Value.chars ≠ [] := by
      intro hnil
      have := List.map_eq_nil_iff.mp hnil
      rw [this] at hlen
      exact hw hlen.symm
    rw [String.toList_ofList, Text.splitFields_joinFields_eq_flatMap hne, List.flatMap_map]

theorem splitBlob_document_of_notMem {t : Table} {r : Row} (hlen : r.fields.length + 1 = t.width)
    (hd : ∀ v ∈ r.fields, fieldDelimiter ∉ v.chars) :
    splitBlob t (String.ofList (Text.joinFields fieldDelimiter (r.fields.map Value.chars))) =
      r.fields.map Value.text := by
  have hsingle : ∀ v ∈ r.fields, Text.splitFields fieldDelimiter v.chars = [v.chars] :=
    fun v hv => List.splitOn_eq_singleton (hd v hv)
  rw [splitBlob_document hlen, List.flatMap_congr hsingle, ← List.map_eq_flatMap, List.map_map]
  rfl

theorem forall₂_zip_map {α β γ : Type} {p : α → β → Prop} {q : α × γ → β → Prop} {f : β → γ}
    {l : List α} {r : List β} (h : List.Forall₂ p l r) (hq : ∀ a b, p a b → q (a, f b) b) :
    List.Forall₂ q (l.zip (r.map f)) r := by
  induction h with
  | nil => exact .nil
  | cons hp _ ih => exact .cons (hq _ _ hp) ih

/-- The key of the document holds the row id as it is, so only the other values have to be told
apart and read. -/
theorem ofDocument_document_of_fields {t : Table} {r : Row}
    (h : List.Forall₂ (fun c v => c.type.read? v.text = some v) t.columns.tail r.fields)
    (hd : ∀ v ∈ r.fields, fieldDelimiter ∉ v.chars) : ofDocument t r.document = .ok r := by
  have hlen := length_fields h
  have hread : (t.columns.tail.zip (r.fields.map Value.text)).mapM
      (fun p => readField t r.id p.1 p.2) = .ok r.fields := by
    refine mapM_eq_ok_iff.mpr (forall₂_zip_map h fun c v hc => ?_)
    simp only [readField, hc]
  simp only [ofDocument, document, splitBlob_document_of_notMem hlen hd, List.length_map, hlen,
    hread, ne_eq, not_true, if_false]
  rfl

/-- The document of a row gives the row back. -/
theorem ofDocument_document {t : Table} {r : Row} (h : r.Fits t) :
    ofDocument t r.document = .ok r := by
  refine ofDocument_document_of_fields (h.fields.imp fun _ _ hc => hc.1) fun v hv => ?_
  obtain ⟨c, -, hc⟩ := exists_of_mem_right h.fields hv
  exact hc.2

end Row

end RelStore

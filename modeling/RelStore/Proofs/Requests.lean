import RelStore.Proofs.RequestText
/-! What can be asked for: the fields of a row come without their delimiter, and a table has at most
as many columns as the request has characters. -/
namespace RelStore

/-- What a request in memory guarantees of its command. -/
def Command.Feasible : Command → Prop
  | .insert _ values => ∀ s ∈ values, fieldDelimiter ∉ s.toList
  | .createTable _ columns => columns.length ≤ 2 ^ 64
  | _ => True

theorem Text.length_piecesFrom (sep : Char → Bool) (run s : List Char) :
    (piecesFrom sep run s).length ≤ run.length + s.length := by
  fun_induction piecesFrom sep run s with
  | case1 => exact Nat.zero_le _
  | case2 run hne =>
    have := List.length_pos_of_ne_nil hne
    rw [List.length_singleton]
    omega
  | case3 c s _ ih =>
    rw [List.length_cons]
    omega
  | case4 run c s _ hne ih =>
    have := List.length_pos_of_ne_nil hne
    simp only [List.length_cons, List.length_nil] at ih ⊢
    omega
  | case5 run c s _ ih =>
    simp only [List.length_cons] at ih ⊢
    omega

theorem String.length_ofList_le (s : List Char) : s.length ≤ (String.ofList s).utf8ByteSize := by
  induction s with
  | nil => exact Nat.zero_le _
  | cons c s ih =>
    have hpos := c.utf8Size_pos
    rw [String.ofList_cons, String.utf8ByteSize_append, String.utf8ByteSize_singleton,
      List.length_cons]
    omega

theorem Text.length_words_le (request : String) :
    (words request.toList).length ≤ request.utf8ByteSize := by
  have hwords := length_piecesFrom isBlank [] request.toList
  have hbytes := String.length_ofList_le request.toList
  rw [String.ofList_toList] at hbytes
  rw [List.length_nil, Nat.zero_add] at hwords
  exact hwords.trans hbytes

theorem length_columnPlaces (columns : List (String × ColumnType)) :
    (columnPlaces columns).length = 2 * columns.length := by
  induction columns with
  | nil => rfl
  | cons c columns ih =>
    rw [columnPlaces, List.flatMap_cons, List.length_append, ← columnPlaces, ih]
    simp only [List.length_cons, List.length_nil]
    omega

theorem Command.feasible_of_decode {request : String} {c : Command}
    (hsize : request.utf8ByteSize < 2 ^ 63) (h : Command.decode request = .ok c) : c.Feasible := by
  obtain ⟨hsafe, hplaces⟩ := decode_eq_ok_iff.mp h
  cases c with
  | createTable n columns =>
    have hwords := Text.length_words_le request
    have hlength := hplaces.length_eq
    simp only [places, List.length_append, length_columnPlaces] at hlength
    simp only [Feasible]
    omega
  | insert t values => exact fun v hv => (hsafe.2.2.2 v hv).2
  | _ => trivial

end RelStore

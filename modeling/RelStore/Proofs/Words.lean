import RelStore.Proofs.Numerals
import RelStore.Text.Blank
import RelStore.Wire.Keyword
/-! Pieces of a text, and the words that are keywords. What is joined by a separator falls into the
same pieces again. -/
namespace RelStore

namespace Text

/-- A text without any separator. -/
def Unbroken (sep : Char → Bool) (w : List Char) : Prop := ∀ c ∈ w, sep c = false

/-- A text that `sep` leaves in one piece. -/
def IsPiece (sep : Char → Bool) (w : List Char) : Prop := w ≠ [] ∧ Unbroken sep w

abbrev IsWord : List Char → Prop := IsPiece isBlank

/-- Decided by the characters of the text, not by all that there are. -/
instance (sep : Char → Bool) (w : List Char) : Decidable (Unbroken sep w) :=
  decidable_of_iff ((w.all fun c => !sep c) = true) (by simp [Unbroken])

instance (sep : Char → Bool) (w : List Char) : Decidable (IsPiece sep w) :=
  inferInstanceAs (Decidable (_ ∧ _))

variable {sep : Char → Bool} {run s w : List Char} {ws : List (List Char)} {delimiter : Char}

theorem isPiece_of_mem_piecesFrom (hrun : Unbroken sep run) (h : w ∈ piecesFrom sep run s) :
    IsPiece sep w := by
  have hdone {run : List Char} (hne : run ≠ []) (hrun : Unbroken sep run) :
      IsPiece sep run.reverse :=
    ⟨List.reverse_ne_nil_iff.mpr hne, fun c hc => hrun c (List.mem_reverse.mp hc)⟩
  fun_induction piecesFrom sep run s with
  | case1 => cases h
  | case2 run hne =>
    rw [List.mem_singleton.mp h]
    exact hdone hne hrun
  | case3 c s _ ih => exact ih hrun h
  | case4 run c s _ hne ih =>
    rcases List.mem_cons.mp h with rfl | h
    · exact hdone hne hrun
    · exact ih (fun _ hc => (nomatch hc)) h
  | case5 run c s hc ih =>
    refine ih (fun d hd => ?_) h
    rcases List.mem_cons.mp hd with rfl | hd
    · simpa using hc
    · exact hrun d hd

theorem isPiece_of_mem_pieces (h : w ∈ pieces sep s) : IsPiece sep w := by
  have hrun : Unbroken sep [] := fun _ hc => (nomatch hc)
  exact isPiece_of_mem_piecesFrom hrun h

theorem piecesFrom_of_not_sep {c : Char} (hc : sep c = false) :
    piecesFrom sep run (c :: s) = piecesFrom sep (c :: run) s := by
  cases run <;> simp [piecesFrom, hc]

theorem piecesFrom_sep {c : Char} (hrun : run ≠ []) (hc : sep c = true) :
    piecesFrom sep run (c :: s) = run.reverse :: piecesFrom sep [] s := by
  cases run with
  | nil => exact absurd rfl hrun
  | cons d run => simp [piecesFrom, hc]

theorem piecesFrom_nil (hrun : run ≠ []) : piecesFrom sep run [] = [run.reverse] := by
  cases run with
  | nil => exact absurd rfl hrun
  | cons d run => rfl

/-- Characters that do not separate prolong the piece. -/
theorem piecesFrom_append (hw : Unbroken sep w) :
    piecesFrom sep run (w ++ s) = piecesFrom sep (w.reverse ++ run) s := by
  induction w generalizing run with
  | nil => rfl
  | cons c w ih =>
    obtain ⟨hc, hw⟩ := List.forall_mem_cons.mp hw
    rw [List.cons_append, piecesFrom_of_not_sep hc, ih hw, List.reverse_cons, List.append_assoc]
    rfl

theorem pieces_of_isPiece (hw : IsPiece sep w) : pieces sep w = [w] := by
  have hrun : piecesFrom sep [] (w ++ []) = piecesFrom sep (w.reverse ++ []) [] :=
    piecesFrom_append hw.2
  rw [List.append_nil, List.append_nil] at hrun
  rw [pieces, hrun, piecesFrom_nil (List.reverse_ne_nil_iff.mpr hw.1), List.reverse_reverse]

theorem pieces_isPiece_cons (hw : IsPiece sep w) (hd : sep delimiter = true) :
    pieces sep (w ++ delimiter :: s) = w :: pieces sep s := by
  rw [pieces, piecesFrom_append hw.2, List.append_nil,
    piecesFrom_sep (List.reverse_ne_nil_iff.mpr hw.1) hd, List.reverse_reverse]
  rfl

/-- Separators in front and behind make no difference. -/
theorem pieces_dropWhile (s : List Char) : pieces sep (s.dropWhile sep) = pieces sep s := by
  induction s with
  | nil => rfl
  | cons c s ih =>
    cases hc : sep c with
    | false => rw [List.dropWhile_cons_of_neg (by simp [hc])]
    | true =>
      rw [List.dropWhile_cons_of_pos hc, ih, pieces, pieces, piecesFrom, if_pos hc]

theorem piecesFrom_append_seps {t : List Char} (ht : ∀ c ∈ t, sep c = true) :
    piecesFrom sep run (s ++ t) = piecesFrom sep run s := by
  have hnone : piecesFrom sep [] t = [] := by
    induction t with
    | nil => rfl
    | cons c t ih =>
      obtain ⟨hc, ht⟩ := List.forall_mem_cons.mp ht
      rw [piecesFrom, if_pos hc]
      exact ih ht
  induction s generalizing run with
  | nil =>
    cases t with
    | nil => rfl
    | cons c t =>
      obtain ⟨hc, ht⟩ := List.forall_mem_cons.mp ht
      by_cases hrun : run = []
      · rw [hrun, List.nil_append, hnone]
        rfl
      · rw [piecesFrom, if_pos hc] at hnone
        rw [List.nil_append, piecesFrom_sep hrun hc, hnone, piecesFrom_nil hrun]
  | cons c s ih =>
    rw [List.cons_append]
    cases hc : sep c with
    | false => rw [piecesFrom_of_not_sep hc, piecesFrom_of_not_sep hc, ih]
    | true =>
      by_cases hrun : run = []
      · rw [hrun, piecesFrom, piecesFrom, if_pos hc, if_pos hc, ih]
      · rw [piecesFrom_sep hrun hc, piecesFrom_sep hrun hc, ih]

theorem words_trim (s : List Char) : words (trim s) = words s := by
  obtain ⟨u, hu⟩ : ∃ u, u = s.dropWhile isBlank := ⟨_, rfl⟩
  have hsplit : u = trim s ++ (u.reverse.takeWhile isBlank).reverse := by
    rw [trim, trimWhile, ← hu, ← List.reverse_append, List.takeWhile_append_dropWhile,
      List.reverse_reverse]
  have hbehind : ∀ c ∈ (u.reverse.takeWhile isBlank).reverse, isBlank c = true :=
    fun c hc => List.all_eq_true.mp List.all_takeWhile c (List.mem_reverse.mp hc)
  calc words (trim s) = pieces isBlank (trim s ++ (u.reverse.takeWhile isBlank).reverse) :=
        (piecesFrom_append_seps hbehind).symm
    _ = pieces isBlank u := by rw [← hsplit]
    _ = words s := by rw [hu, pieces_dropWhile, words]

theorem joinFields_cons_cons (w' : List Char) :
    joinFields delimiter (w :: w' :: ws) = w ++ delimiter :: joinFields delimiter (w' :: ws) := by
  rw [joinFields, List.intercalate_cons_cons, List.append_assoc]
  rfl

theorem joinFields_singleton : joinFields delimiter [w] = w := List.intercalate_singleton

theorem joinFields_eq_nil (hne : ws ≠ []) : joinFields delimiter ws = [] ↔ ws = [[]] := by
  cases ws with
  | nil => exact absurd rfl hne
  | cons w ws =>
    cases ws with
    | nil => rw [joinFields_singleton, List.cons_eq_cons, and_iff_left rfl]
    | cons w' ws => simp [joinFields_cons_cons]

theorem unbroken_joinFields (hd : sep delimiter = false) :
    Unbroken sep (joinFields delimiter ws) ↔ ∀ w ∈ ws, Unbroken sep w := by
  unfold Unbroken
  induction ws with
  | nil => simp [joinFields]
  | cons w ws ih =>
    cases ws with
    | nil => rw [joinFields_singleton, List.forall_mem_singleton]
    | cons w' ws =>
      rw [joinFields_cons_cons, List.forall_mem_append, List.forall_mem_cons, ih,
        List.forall_mem_cons (a := w), and_iff_right hd]

theorem pieces_joinFields (hd : sep delimiter = true) (h : ∀ w ∈ ws, IsPiece sep w) :
    pieces sep (joinFields delimiter ws) = ws := by
  induction ws with
  | nil => rfl
  | cons w ws ih =>
    obtain ⟨hw, hws⟩ := List.forall_mem_cons.mp h
    cases ws with
    | nil =>
      rw [joinFields_singleton]
      exact pieces_of_isPiece hw
    | cons w' ws => rw [joinFields_cons_cons, pieces_isPiece_cons hw hd, ih hws]

theorem of_readNat {ds : List Char} {n : Nat} (h : readNat ds = some n) :
    ds ≠ [] ∧ ∀ c ∈ ds, isDigit c = true := by
  rw [readNat] at h
  split at h
  · next hds => simpa using hds
  · cases h

theorem toLower_of_isDigit {c : Char} (h : isDigit c = true) : c.toLower = c := by
  simp only [isDigit, Bool.and_eq_true, decide_eq_true_eq] at h
  have hle : c.val ≤ '9'.val := h.2
  delta Char.toLower
  rw [dif_neg]
  intro hc
  have hlt : 'A'.val ≤ '9'.val := UInt32.le_trans hc.1 hle
  exact absurd hlt (by decide)

theorem words_joinFields (h : ∀ w ∈ ws, IsWord w) : words (joinFields ' ' ws) = ws :=
  pieces_joinFields (by decide) h

end Text

namespace Keyword

theorem mem_list (k : Keyword) : k ∈ list := by
  cases k with
  | operator op => cases op <;> decide
  | type t => cases t <;> decide
  | _ => decide

theorem ofToken?_token (k : Keyword) : ofToken? k.token = some k := by
  have hall : ∀ k ∈ list, ofToken? k.token = some k := by decide +kernel
  exact hall k k.mem_list

theorem isWord_token (k : Keyword) : Text.IsWord k.token := by
  have hall : ∀ k ∈ list, Text.IsWord k.token := by decide +kernel
  exact hall k k.mem_list

theorem exists_digit {w : List Char} {k : Keyword} (h : ofToken? w = some k) :
    ∃ c ∈ w, Text.isDigit c = true := by
  obtain ⟨n, hn, -⟩ := Option.bind_eq_some_iff.mp h
  obtain ⟨hne, hdigits⟩ := Text.of_readNat hn
  obtain ⟨c, rest, hc⟩ := List.exists_cons_of_ne_nil hne
  have hmem : ∀ d ∈ c :: rest, d ∈ w := by
    intro d hd
    rw [← hc] at hd
    split at hd
    · exact List.mem_cons_of_mem _ hd
    · exact hd
  exact ⟨c, hmem c List.mem_cons_self, hdigits c (hc ▸ List.mem_cons_self)⟩

/-- No code spells a join. -/
theorem isJoin_eq_false {w : List Char} {k : Keyword} (h : ofToken? w = some k) :
    isJoin w = false := by
  obtain ⟨c, hc, hdigit⟩ := exists_digit h
  rw [isJoin, decide_eq_false_iff_not]
  intro hletters
  have hm : c.toLower ∈ "join".toList := hletters ▸ List.mem_map_of_mem hc
  rw [Text.toLower_of_isDigit hdigit] at hm
  have hnone : Text.Unbroken Text.isDigit "join".toList := by decide
  rw [hnone c hm] at hdigit
  cases hdigit

end Keyword

end RelStore

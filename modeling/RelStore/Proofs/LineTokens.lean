import Mathlib.Data.List.TakeWhile
import RelStore.CommandLine.Token
import RelStore.Proofs.Running
import RelStore.Proofs.Words
/-! The tokens of a line. The scanners find every piece between the separators and stop behind the last
one, and each piece is classified by what stands between the quotes around it. -/
namespace RelStore

namespace Text

variable {p sep : Char → Bool} {s core front behind w gap : List Char} {ws : List (List Char)}

/-- A text with no character of a kind at either end. -/
def Bare (p : Char → Bool) (s : List Char) : Prop :=
  (∀ c ∈ s.head?, p c = false) ∧ ∀ c ∈ s.getLast?, p c = false

instance (p : Char → Bool) (s : List Char) : Decidable (Bare p s) :=
  inferInstanceAs (Decidable (_ ∧ _))

theorem bare_of_unbroken (h : Unbroken p s) : Bare p s :=
  ⟨fun c hc => h c (List.mem_of_mem_head? hc), fun c hc => h c (List.mem_of_mem_getLast? hc)⟩

theorem not_of_mem_head?_dropWhile {c : Char} (h : c ∈ (s.dropWhile p).head?) : p c = false := by
  have hhead := List.head?_dropWhile_not p s
  rw [Option.mem_def.mp h] at hhead
  exact hhead

theorem bare_trimWhile (p : Char → Bool) (s : List Char) : Bare p (trimWhile p s) := by
  constructor
  · intro c hc
    -- what is left in front is also the first of what was there before the end was trimmed
    have hprefix : trimWhile p s <+: s.dropWhile p := by
      rw [trimWhile, ← List.reverse_suffix, List.reverse_reverse]
      exact List.dropWhile_suffix p
    obtain ⟨rest, hrest⟩ := hprefix
    refine not_of_mem_head?_dropWhile (s := s) ?_
    rw [← hrest, List.head?_append, Option.mem_def.mp hc]
    rfl
  · intro c hc
    rw [trimWhile, List.getLast?_reverse] at hc
    exact not_of_mem_head?_dropWhile hc

theorem mem_of_mem_trimWhile {c : Char} (h : c ∈ trimWhile p s) : c ∈ s := by
  rw [trimWhile, List.mem_reverse] at h
  have hfront := (List.dropWhile_suffix p).subset h
  rw [List.mem_reverse] at hfront
  exact (List.dropWhile_suffix p).subset hfront

/-- What is trimmed away stands around what is left. -/
theorem exists_around_trimWhile (p : Char → Bool) (s : List Char) :
    ∃ front behind, s = front ++ trimWhile p s ++ behind ∧ (∀ c ∈ front, p c = true) ∧
      ∀ c ∈ behind, p c = true := by
  refine ⟨s.takeWhile p, ((s.dropWhile p).reverse.takeWhile p).reverse, ?_, ?_, ?_⟩
  · rw [trimWhile, List.append_assoc, ← List.reverse_append, List.takeWhile_append_dropWhile,
      List.reverse_reverse, List.takeWhile_append_dropWhile]
  · exact fun c hc => List.all_eq_true.mp List.all_takeWhile c hc
  · exact fun c hc => List.all_eq_true.mp List.all_takeWhile c (List.mem_reverse.mp hc)

theorem dropWhile_append_of_bare (hcore : ∀ c ∈ core.head?, p c = false)
    (hfront : ∀ c ∈ front, p c = true) :
    (front ++ core).dropWhile p = core := by
  rw [List.dropWhile_append_of_pos hfront]
  cases core with
  | nil => rfl
  | cons c core => rw [List.dropWhile_cons_of_neg (by simp [hcore c rfl])]

theorem trimWhile_around (hcore : Bare p core) (hfront : ∀ c ∈ front, p c = true)
    (hbehind : ∀ c ∈ behind, p c = true) : trimWhile p (front ++ core ++ behind) = core := by
  obtain ⟨hhead, hlast⟩ := hcore
  rw [trimWhile, List.append_assoc]
  cases core with
  | nil =>
    have hnone : (front ++ ([] ++ behind)).dropWhile p = [] :=
      List.dropWhile_eq_nil_iff.mpr (List.forall_mem_append.mpr ⟨hfront, hbehind⟩)
    rw [hnone]
    rfl
  | cons c core =>
    have hends : (behind.reverse ++ (c :: core).reverse).dropWhile p = (c :: core).reverse := by
      refine dropWhile_append_of_bare (fun d hd => hlast d ?_) fun d hd =>
        hbehind d (List.mem_reverse.mp hd)
      rwa [List.head?_reverse] at hd
    have hbegins : (front ++ (c :: core ++ behind)).dropWhile p = c :: core ++ behind :=
      dropWhile_append_of_bare (fun d hd => hhead d hd) hfront
    rw [hbegins, List.reverse_append, hends, List.reverse_reverse]

/-- Pieces in a row, with separators between them and perhaps in front and behind. -/
inductive Strung (sep : Char → Bool) : List (List Char) → List Char → Prop where
  | none {s : List Char} (h : ∀ c ∈ s, sep c = true) : Strung sep [] s
  | last {front w behind : List Char} (hfront : ∀ c ∈ front, sep c = true)
    (hbehind : ∀ c ∈ behind, sep c = true) : Strung sep [w] (front ++ w ++ behind)
  | next {front w gap s : List Char} {ws : List (List Char)} (hfront : ∀ c ∈ front, sep c = true)
    (hgap : gap ≠ [] ∧ ∀ c ∈ gap, sep c = true) (h : Strung sep ws s) :
    Strung sep (w :: ws) (front ++ w ++ gap ++ s)

theorem pieces_seps_append (hfront : ∀ c ∈ front, sep c = true) :
    pieces sep (front ++ s) = pieces sep s := by
  rw [← pieces_dropWhile (front ++ s), List.dropWhile_append_of_pos hfront, pieces_dropWhile]

theorem pieces_isPiece_append (hw : IsPiece sep w) (hs : ∀ c ∈ s.head?, sep c = true) :
    pieces sep (w ++ s) = w :: pieces sep s := by
  cases s with
  | nil =>
    rw [List.append_nil, pieces_of_isPiece hw]
    rfl
  | cons d s =>
    have hd : sep d = true := hs d rfl
    rw [pieces_isPiece_cons hw hd, ← pieces_dropWhile (d :: s), List.dropWhile_cons_of_pos hd,
      pieces_dropWhile]

theorem pieces_of_strung (h : Strung sep ws s) (hws : ∀ w ∈ ws, IsPiece sep w) :
    pieces sep s = ws := by
  induction h with
  | @none s h =>
    rw [← List.append_nil s, pieces_seps_append h]
    rfl
  | last hfront hbehind =>
    rw [List.append_assoc, pieces_seps_append hfront, pieces, piecesFrom_append_seps hbehind]
    exact pieces_of_isPiece (hws _ List.mem_cons_self)
  | next hfront hgap _ ih =>
    obtain ⟨hw, hws⟩ := List.forall_mem_cons.mp hws
    obtain ⟨d, gap, rfl⟩ := List.exists_cons_of_ne_nil hgap.1
    obtain ⟨hd, hgap⟩ := List.forall_mem_cons.mp hgap.2
    rw [List.append_assoc, List.append_assoc, pieces_seps_append hfront, List.cons_append,
      pieces_isPiece_cons hw hd, pieces_seps_append hgap, ih hws]

/-- The pieces have every character that does not separate, once and in its place. -/
theorem flatten_of_strung (h : Strung sep ws s) (hws : ∀ w ∈ ws, IsPiece sep w) :
    ws.flatten = s.filter fun c => !sep c := by
  have hnone {gap : List Char} (h : ∀ c ∈ gap, sep c = true) : (gap.filter fun c => !sep c) = [] :=
    List.filter_eq_nil_iff.mpr fun c hc => by simp [h c hc]
  have hpiece {w : List Char} (hw : IsPiece sep w) : (w.filter fun c => !sep c) = w :=
    List.filter_eq_self.mpr fun c hc => by simp [hw.2 c hc]
  induction h with
  | none h => exact (hnone h).symm
  | last hfront hbehind =>
    simp only [List.flatten_cons, List.flatten_nil, List.append_nil, List.filter_append, hnone hfront,
      hnone hbehind, hpiece (hws _ List.mem_cons_self), List.nil_append]
  | next hfront hgap _ ih =>
    obtain ⟨hw, hws⟩ := List.forall_mem_cons.mp hws
    simp only [List.flatten_cons, List.filter_append, hnone hfront, hnone hgap.2, hpiece hw, ih hws,
      List.nil_append, List.append_nil]

theorem Strung.cons {c : Char} (hc : sep c = true) (h : Strung sep ws s) :
    Strung sep ws (c :: s) := by
  cases h with
  | none h => exact .none (List.forall_mem_cons.mpr ⟨hc, h⟩)
  | @last front w behind hfront hbehind =>
    change Strung sep [w] ((c :: front) ++ w ++ behind)
    exact .last (List.forall_mem_cons.mpr ⟨hc, hfront⟩) hbehind
  | @next front w gap s ws hfront hgap h =>
    change Strung sep (w :: ws) ((c :: front) ++ w ++ gap ++ s)
    exact .next (List.forall_mem_cons.mpr ⟨hc, hfront⟩) hgap h

theorem strung_piecesFrom (run s : List Char) :
    Strung sep (piecesFrom sep run s) (run.reverse ++ s) := by
  have hnone : ∀ c ∈ ([] : List Char), sep c = true := List.forall_mem_nil _
  fun_induction piecesFrom sep run s with
  | case1 => exact .none hnone
  | case2 run hne => exact .last hnone hnone
  | case3 c s hc ih => exact ih.cons hc
  | case4 run c s hc hne ih =>
    have hgap : [c] ≠ [] ∧ ∀ d ∈ [c], sep d = true :=
      ⟨List.cons_ne_nil _ _, List.forall_mem_singleton.mpr hc⟩
    have hnext := Strung.next (w := run.reverse) hnone hgap ih
    simpa using hnext
  | case5 run c s hc ih => simpa using ih

/-- Every text strings its own pieces. -/
theorem strung_pieces (sep : Char → Bool) (s : List Char) : Strung sep (pieces sep s) s :=
  strung_piecesFrom [] s

namespace Scanner

variable {α β : Type} {x : Scanner α} {kind : FaultKind} {p : Char → Bool} {fault : Fault}
  {s w rest : List Char} {a : α} {found : List α}

theorem of_run_ok (h : run kind p s = .ok (w, rest)) :
    s = w ++ rest ∧ w ≠ [] ∧ (∀ c ∈ w, p c = true) ∧ ∀ c ∈ rest.head?, p c = false := by
  rw [run] at h
  split at h
  · cases h
  · next hne =>
    cases h
    exact ⟨List.takeWhile_append_dropWhile.symm, hne,
      fun c hc => List.all_eq_true.mp List.all_takeWhile c hc,
      fun c hc => not_of_mem_head?_dropWhile hc⟩

theorem dropWhile_of_takeWhile_eq_nil (h : s.takeWhile p = []) : s.dropWhile p = s := by
  have hboth := List.takeWhile_append_dropWhile (p := p) (l := s)
  rwa [h, List.nil_append] at hboth

theorem of_run_error (h : run kind p s = .error fault) : ∀ c ∈ s.head?, p c = false := by
  rw [run] at h
  split at h
  · next hnone =>
    intro c hc
    rw [← dropWhile_of_takeWhile_eq_nil hnone] at hc
    exact not_of_mem_head?_dropWhile hc
  · cases h

/-- A run that need not be there is passed over. -/
theorem opt_run (kind : FaultKind) (p : Char → Bool) (s : List Char) :
    ∃ skipped, opt (run kind p) s = .ok (skipped, s.dropWhile p) := by
  by_cases hnone : s.takeWhile p = []
  · exact ⟨none, by rw [opt, run, if_pos hnone, dropWhile_of_takeWhile_eq_nil hnone]⟩
  · exact ⟨some (s.takeWhile p), by rw [opt, run, if_neg hnone]⟩

theorem preceded_opt_run (kind : FaultKind) (p : Char → Bool) (x : Scanner α) (s : List Char) :
    preceded (opt (run kind p)) x s = x (s.dropWhile p) := by
  obtain ⟨skipped, hskipped⟩ := opt_run kind p s
  rw [preceded, hskipped, Except.ok_bind]

/-- What a scanner takes off a text one after another, and where it stops. -/
inductive Repeats (x : Scanner α) : List Char → List α → List Char → Prop where
  | stop {s : List Char} {fault : Fault} (h : x s = .error fault) : Repeats x s [] s
  | step {s rest behind : List Char} {a : α} {found : List α} (h : x s = .ok (a, rest))
    (hrest : Repeats x rest found behind) : Repeats x s (a :: found) behind

/-- A scanner that always takes something off can be repeated on every text. -/
theorem many_of_progress (hx : ∀ s a rest, x s = .ok (a, rest) → rest.length < s.length)
    (s : List Char) : ∃ found rest, many x s = .ok (found, rest) ∧ Repeats x s found rest := by
  fun_induction many x s with
  | case1 s fault hstop => exact ⟨[], s, rfl, .stop hstop⟩
  | case2 s a rest hstep _ ih =>
    obtain ⟨found, behind, hmany, hrepeats⟩ := ih
    exact ⟨a :: found, behind, by rw [hmany]; rfl, .step hstep hrepeats⟩
  | case3 s a rest hstep hlength => exact absurd (hx s a rest hstep) hlength

end Scanner

end Text

namespace Keyword

variable {k : Keyword} {word : String}

/-- No word spells two keywords. -/
theorem ofWord?_eq_some_iff : ofWord? word = some k ↔ word ∈ k.spellings := by
  constructor
  · intro h
    have hfound := List.find?_some (p := fun k : Keyword => decide (word ∈ k.spellings)) h
    exact of_decide_eq_true hfound
  · intro h
    have hall : ∀ k ∈ list, ∀ word ∈ k.spellings, ofWord? word = some k := by decide +kernel
    exact hall k k.mem_list word h

theorem ofWord?_eq_none_iff : ofWord? word = none ↔ ∀ k : Keyword, word ∉ k.spellings := by
  rw [ofWord?, List.find?_eq_none]
  exact ⟨fun h k hk => h k k.mem_list (decide_eq_true hk), fun h k _ hk => h k (of_decide_eq_true hk)⟩

end Keyword

namespace CommandLine

variable {s w rest : List Char} {ws : List (List Char)} {fault : Text.Fault}

theorem keyword?_ofPiece (w : List Char) : (Token.ofPiece w).keyword? =
    Keyword.ofWord? (String.ofList (Keyword.lower (Text.trimWhile isQuote w))) := by
  rw [Token.ofPiece]
  split
  · next k hk => exact hk.symm
  · next hnone => exact hnone.symm

theorem text_ofPiece (w : List Char) :
    (Token.ofPiece w).text = String.ofList (Text.trimWhile isQuote w) := by
  rw [Token.ofPiece]
  split <;> rfl

theorem ofPiece_ne_ending (w : List Char) : Token.ofPiece w ≠ .ending := by
  rw [Token.ofPiece]
  split <;> exact Token.noConfusion

/-- The token for a piece: a keyword if what is left without the quotes at either end spells one in any
case, or else a word. Of nothing but quotes an empty word is left. -/
structure Token.StandsFor (t : Token) (w : List Char) : Prop where
  stripped : ∃ front s behind, w = front ++ s ++ behind ∧ (∀ c ∈ front, isQuote c = true) ∧
    (∀ c ∈ behind, isQuote c = true) ∧ Text.Bare isQuote s ∧
      ((∃ k : Keyword, String.ofList (Keyword.lower s) ∈ k.spellings ∧
          t = .keyword k (String.ofList s)) ∨
        (∀ k : Keyword, String.ofList (Keyword.lower s) ∉ k.spellings) ∧ t = .word (String.ofList s))
  hollow : (∀ c ∈ w, isQuote c = true) → t = .word ""

theorem standsFor_ofPiece (w : List Char) : (Token.ofPiece w).StandsFor w where
  stripped := by
    obtain ⟨front, behind, hw, hfront, hbehind⟩ := Text.exists_around_trimWhile isQuote w
    refine ⟨front, _, behind, hw, hfront, hbehind, Text.bare_trimWhile isQuote w, ?_⟩
    rw [Token.ofPiece]
    split
    · next k hk => exact .inl ⟨k, Keyword.ofWord?_eq_some_iff.mp hk, rfl⟩
    · next hnone => exact .inr ⟨Keyword.ofWord?_eq_none_iff.mp hnone, rfl⟩
  hollow hquotes := by
    have hbare : Text.Bare isQuote [] := ⟨fun _ hc => (nomatch hc), fun _ hc => (nomatch hc)⟩
    have hnothing := Text.trimWhile_around hbare hquotes (List.forall_mem_nil _)
    rw [List.append_nil, List.append_nil] at hnothing
    rw [Token.ofPiece, hnothing]
    rfl

section Scanning

open Text (Scanner pieces)

/-- The first piece is taken off, with the separators in front of it. -/
theorem of_piece_ok (h : Scanner.preceded (Scanner.opt separators) piece s = .ok (w, rest)) :
    pieces isSeparator s = w :: pieces isSeparator rest ∧ rest.length < s.length := by
  rw [separators, Scanner.takeWhile1, Scanner.preceded_opt_run] at h
  obtain ⟨hs, hne, hw, hrest⟩ := Scanner.of_run_ok h
  have hpiece : Text.IsPiece isSeparator w := ⟨hne, fun c hc => by simpa using hw c hc⟩
  constructor
  · rw [← Text.pieces_dropWhile, hs]
    exact Text.pieces_isPiece_append hpiece fun c hc => by simpa using hrest c hc
  · have hle : (s.dropWhile isSeparator).length ≤ s.length := (List.dropWhile_suffix _).length_le
    rw [hs, List.length_append] at hle
    have hpos := List.length_pos_iff.mpr hne
    omega

theorem of_piece_error (h : Scanner.preceded (Scanner.opt separators) piece s = .error fault) :
    ∀ c ∈ s, isSeparator c = true := by
  rw [separators, Scanner.takeWhile1, Scanner.preceded_opt_run] at h
  have hhead := Scanner.of_run_error h
  refine List.dropWhile_eq_nil_iff.mp (List.head?_eq_none_iff.mp ?_)
  by_contra hsome
  obtain ⟨c, hc⟩ := Option.ne_none_iff_exists'.mp hsome
  have hsep := hhead c hc
  rw [Text.not_of_mem_head?_dropWhile hc] at hsep
  cases hsep

/-- A piece is found as long as there is one, so only separators are left over. -/
theorem pieces_of_repeats
    (h : Scanner.Repeats (Scanner.preceded (Scanner.opt separators) piece) s ws rest) :
    pieces isSeparator s = ws ∧ ∀ c ∈ rest, isSeparator c = true := by
  induction h with
  | stop h =>
    have hall := of_piece_error h
    refine ⟨?_, hall⟩
    rw [← Text.pieces_dropWhile, List.dropWhile_eq_nil_iff.mpr hall]
    rfl
  | step h _ ih => exact ⟨by rw [(of_piece_ok h).1, ih.1], ih.2⟩

/-- The scanners take the pieces off every line and leave nothing. -/
theorem scan_eq (s : List Char) : scan s = .ok (pieces isSeparator s, []) := by
  obtain ⟨found, rest, hmany, hrepeats⟩ :=
    Scanner.many_of_progress (fun _ _ _ h => (of_piece_ok h).2) s
  obtain ⟨hfound, hseps⟩ := pieces_of_repeats hrepeats
  obtain ⟨skipped, hskipped⟩ := Scanner.opt_run .takeWhile1 isSeparator rest
  rw [List.dropWhile_eq_nil_iff.mpr hseps] at hskipped
  exact Except.bind_eq_ok.mpr ⟨_, hmany, Except.bind_eq_ok.mpr ⟨_, hskipped, hfound ▸ rfl⟩⟩

theorem readTokens_eq (line : String) : readTokens line = .ok (tokenize line) := by
  rw [readTokens, scan_eq, tokenize]

/-- Every line is read as tokens. They stand in turn for the pieces of the line, which are the only
texts without separators that it strings, and lose none of the other characters; behind them stands
the one token for the end. -/
theorem tokens_exact (line : String) :
    ∃ ws ts, readTokens line = .ok (ts ++ [.ending]) ∧ .ending ∉ ts ∧
      List.Forall₂ Token.StandsFor ts ws ∧
      (∀ w ∈ ws, Text.IsPiece isSeparator w) ∧ Text.Strung isSeparator ws line.toList ∧
      (∀ ws', (∀ w ∈ ws', Text.IsPiece isSeparator w) → Text.Strung isSeparator ws' line.toList →
        ws' = ws) ∧
      ws.flatten = line.toList.filter fun c => !isSeparator c := by
  obtain ⟨ws, hws⟩ : ∃ ws, ws = pieces isSeparator line.toList := ⟨_, rfl⟩
  have hpieces : ∀ w ∈ ws, Text.IsPiece isSeparator w :=
    fun w hw => Text.isPiece_of_mem_pieces (hws ▸ hw)
  have hstrung : Text.Strung isSeparator ws line.toList := hws ▸ Text.strung_pieces _ _
  refine ⟨ws, ws.map Token.ofPiece, ?_, ?_, ?_, hpieces, hstrung, ?_, ?_⟩
  · rw [readTokens_eq, tokenize, hws]
  · rw [List.mem_map]
    rintro ⟨w, -, hw⟩
    exact ofPiece_ne_ending w hw
  · rw [List.forall₂_map_left_iff, List.forall₂_same]
    exact fun w _ => standsFor_ofPiece w
  · intro ws' hpieces' hstrung'
    rw [hws, Text.pieces_of_strung hstrung' hpieces']
  · exact Text.flatten_of_strung hstrung hpieces

end Scanning

end CommandLine

end RelStore

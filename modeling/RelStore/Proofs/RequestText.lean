import RelStore.Proofs.RequestPlaces
/-! Requests as text. A text is decoded to the command in whose places its words are; encoding a
command gives such a text when there is one, and whatever is not decoded is a protocol error. -/
namespace RelStore

/-- If this is refused, it is by a protocol error. -/
def OnlyProtocol {α : Type} (x : Except Error α) : Prop :=
  ∀ e, x = .error e → e.errorClass = .protocol

namespace OnlyProtocol

variable {α β : Type} {x : Except Error α} {f : α → Except Error β}

theorem ok (a : α) : OnlyProtocol (.ok a) := fun _ he => (nomatch he)

theorem error {e : Error} (h : e.errorClass = .protocol) :
    OnlyProtocol (.error e : Except Error α) := by
  intro e' he
  cases he
  exact h

theorem bind (hx : OnlyProtocol x) (hf : ∀ a, OnlyProtocol (f a)) : OnlyProtocol (x >>= f) := by
  cases x with
  | error e => exact .error (hx e rfl)
  | ok a => exact hf a

end OnlyProtocol

namespace Request

variable {what : String} {k lead : Keyword} {first : Word} {ws : List Word}

theorem takeWord_onlyProtocol : OnlyProtocol (takeWord what ws) := by
  cases ws with
  | nil => exact .error rfl
  | cons w ws => exact .ok _

theorem takeKeyword_onlyProtocol : OnlyProtocol (takeKeyword what ws) := by
  cases ws with
  | nil => exact .error rfl
  | cons w ws =>
    rw [takeKeyword]
    split
    · exact .ok _
    · exact .error rfl

theorem expect_onlyProtocol : OnlyProtocol (expect k ws) := by
  cases ws with
  | nil => exact .error rfl
  | cons w ws =>
    rw [expect]
    split
    · exact .ok _
    · exact .error rfl

theorem rejectJoin_onlyProtocol : OnlyProtocol (rejectJoin ws) := by
  cases ws with
  | nil => exact .ok _
  | cons w ws =>
    rw [rejectJoin]
    split
    · exact .error rfl
    · exact .ok _

theorem columnList_onlyProtocol : OnlyProtocol (columnList ws) := by
  fun_induction columnList ws with
  | case1 => exact .ok _
  | case2 | case3 | case4 => exact .error rfl
  | case5 w k hk t name rest ht ih => exact .bind ih fun _ => .ok _

theorem checkLead_onlyProtocol {w : Word} : OnlyProtocol (checkLead lead w) := by
  rw [checkLead]
  split
  · exact .error rfl
  · split
    · exact .error rfl
    · split
      · exact .ok _
      · exact .error rfl

/-- Each predicate is followed by fewer words than it is found in. -/
theorem predicateList_onlyProtocol : OnlyProtocol (predicateList lead ws) := by
  induction hn : ws.length using Nat.strong_induction_on generalizing lead ws with
  | _ n ih =>
    cases ws with
    | nil => exact .ok _
    | cons w ws =>
      rw [predicateList_cons]
      refine .bind checkLead_onlyProtocol fun _ => ?_
      rcases ws with _ | ⟨column, _ | ⟨op, rest⟩⟩
      · exact .error rfl
      · exact .error rfl
      · rw [ledPredicates]
        split
        · exact .error rfl
        · split
          · exact .error rfl
          · exact .error rfl
          · next literal rest _ =>
            simp only [List.length_cons] at hn
            exact .bind (ih rest.length (by omega) rfl) fun _ => .ok _

theorem createCommand_onlyProtocol : OnlyProtocol (createCommand ws) := by
  refine .bind takeKeyword_onlyProtocol fun (k, ws) => ?_
  cases k with
  | database => exact .bind takeWord_onlyProtocol fun _ => .ok _
  | table =>
    refine .bind takeWord_onlyProtocol fun (n, ws) => .bind columnList_onlyProtocol fun columns => ?_
    cases columns with
    | nil => exact .error rfl
    | cons c columns => exact .ok _
  | _ => exact .error rfl

theorem dropCommand_onlyProtocol : OnlyProtocol (dropCommand ws) := by
  refine .bind takeKeyword_onlyProtocol fun (k, ws) => ?_
  cases k with
  | database | table => exact .bind takeWord_onlyProtocol fun _ => .ok _
  | _ => exact .error rfl

theorem addCommand_onlyProtocol : OnlyProtocol (addCommand ws) := by
  refine .bind takeKeyword_onlyProtocol fun (kind, ws) => .bind takeWord_onlyProtocol fun (t, ws) =>
    .bind takeWord_onlyProtocol fun (c, ws) => ?_
  cases kind with
  | pk | uq | index => exact .ok _
  | fk => exact .bind takeWord_onlyProtocol fun _ => .bind takeWord_onlyProtocol fun _ => .ok _
  | _ => exact .error rfl

theorem projection_onlyProtocol : OnlyProtocol (projection ws) := by
  refine .bind takeKeyword_onlyProtocol fun (k, ws) => ?_
  cases k with
  | all => exact .ok _
  | columns =>
    simp only
    split
    · exact .error rfl
    · exact .ok _
  | _ => exact .error rfl

theorem command_onlyProtocol : OnlyProtocol (command k first ws) := by
  cases k with
  | create => exact createCommand_onlyProtocol
  | drop => exact dropCommand_onlyProtocol
  | use => exact .bind takeWord_onlyProtocol fun _ => .ok _
  | insert => exact .bind takeWord_onlyProtocol fun _ => .bind takeWord_onlyProtocol fun _ => .ok _
  | delete =>
    exact .bind expect_onlyProtocol fun _ => .bind takeWord_onlyProtocol fun _ =>
      .bind expect_onlyProtocol fun _ => .bind takeWord_onlyProtocol fun _ => .ok _
  | add => exact addCommand_onlyProtocol
  | select =>
    exact .bind projection_onlyProtocol fun _ => .bind expect_onlyProtocol fun _ =>
      .bind takeWord_onlyProtocol fun _ => .bind rejectJoin_onlyProtocol fun _ =>
      .bind predicateList_onlyProtocol fun _ => .ok _
  | _ => exact .error rfl

theorem ofWords_onlyProtocol : OnlyProtocol (ofWords ws) := by
  cases ws with
  | nil => exact .error rfl
  | cons first ws =>
    rw [ofWords]
    cases Keyword.ofToken? first with
    | none => exact .error rfl
    | some k =>
      refine .bind command_onlyProtocol fun out => ?_
      obtain ⟨c, rest⟩ := out
      cases rest with
      | nil => exact .ok _
      | cons w rest => exact .error rfl

end Request

namespace Command

variable {s : String} {c : Command}

theorem decode_eq_ok_iff :
    decode s = .ok c ↔ c.WireSafe ∧ List.Forall₂ Place.Admits c.places (Text.words s.toList) := by
  rw [decode, wireSafe_iff]
  constructor
  · intro h
    obtain ⟨hregular, hreads⟩ := Request.reads_of_ofWords h
    have hplaces := hreads.forall₂ rfl
    refine ⟨⟨hregular, ?_⟩, hplaces⟩
    rw [c.words_eq]
    exact Place.isWord_of_admits hplaces fun w hw => Text.isPiece_of_mem_pieces hw
  · rintro ⟨⟨hregular, -⟩, hplaces⟩
    exact Request.ofWords_of_reads hregular (.of_forall₂ hplaces)

theorem words_encode (h : c.WireSafe) : Text.words c.encode.toList = c.places.map Place.token := by
  rw [encode, String.toList_ofList, Text.words_joinFields (c.wireSafe_iff.mp h).2, c.words_eq]

theorem decode_encode (h : c.WireSafe) : decode c.encode = .ok c := by
  rw [decode_eq_ok_iff, words_encode h, List.forall₂_map_right_iff, List.forall₂_same]
  exact ⟨h, fun a _ => a.admits_token⟩

end Command

/-- What is decoded is what a request can say, and it is decoded from just the texts that have its
words in their places, as its encoding has. Everything else is refused by a protocol error. -/
theorem decode_exact :
    (∀ s c, Command.decode s = .ok c ↔
      c.WireSafe ∧ List.Forall₂ Place.Admits c.places (Text.words s.toList)) ∧
    (∀ c : Command, c.WireSafe → Text.words c.encode.toList = c.places.map Place.token) ∧
    (∀ c : Command, Command.decode c.encode = .ok c ↔ c.WireSafe) ∧
    (∀ s c, Command.decode s = .ok c → Command.decode c.encode = .ok c) ∧
    ∀ s e, Command.decode s = .error e → e.errorClass = .protocol := by
  refine ⟨fun s c => Command.decode_eq_ok_iff, fun c => Command.words_encode, fun c => ⟨?_, ?_⟩,
    fun s c h => ?_, fun s e h => ?_⟩
  · intro h
    exact (Command.decode_eq_ok_iff.mp h).1
  · exact Command.decode_encode
  · exact Command.decode_encode (Command.decode_eq_ok_iff.mp h).1
  · exact Request.ofWords_onlyProtocol e h

/-- Codes with a sign and zeros in front of them, names and literals that look like codes. -/
theorem decode_exact_select :
    let c : Command := .select "t" (.columns ["7", "018"]) [⟨"a", .ge, "join"⟩, ⟨"27", .eq, "16"⟩]
    Command.decode "+019 20 7 018\t016 t 17 a 25 join 27 27 0021 16 " = .ok c ∧ c.WireSafe ∧
      Command.decode c.encode = .ok c ∧
      ∃ e, Command.decode "19 20 16 16 t" = .error e ∧ e.errorClass = .protocol := by
  intro c
  obtain ⟨hexact, -, -, hagain, hrefused⟩ := decode_exact
  have hdecoded : Command.decode "+019 20 7 018\t016 t 17 a 25 join 27 27 0021 16 " = .ok c := by
    decide +kernel
  have hnone : Command.decode "19 20 16 16 t" =
      .error (.protocol "SELECT needs at least one column") := by
    decide +kernel
  exact ⟨hdecoded, ((hexact _ c).mp hdecoded).1, hagain _ c hdecoded, _, hnone, hrefused _ _ hnone⟩

example : ¬ (Command.select "t" (.columns ["a", "016"]) []).WireSafe := by decide +kernel

end RelStore

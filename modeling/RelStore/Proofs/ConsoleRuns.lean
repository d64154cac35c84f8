import RelStore.Console
import RelStore.Proofs.CommandLineRequests
import RelStore.Proofs.Connections
import RelStore.Proofs.Interference
/-! The command line client beside the server that answers it. What the client takes for the
selected database is what the server has selected, since a command that is acknowledged is the
command that was sent. -/
namespace RelStore

theorem Command.decode_trim (request : String) :
    decode (String.ofList (Text.trim request.toList)) = decode request := by
  rw [decode, decode, String.toList_ofList, Text.words_trim]

/-- The request for a line is refused, or it is taken for the command that the line says. -/
theorem CommandLine.decode_encode_cases {line : String} {c : Command}
    (h : parseLine line = .ok (some (.command c))) :
    Command.decode c.encode = .ok c ∨ ∃ e, Command.decode c.encode = .error e := by
  have hstated := stated_of_parseLine h
  by_cases hsafe : c.WireSafe
  · exact .inl (Command.decode_encode hsafe)
  · rw [hstated.wireSafe_iff] at hsafe
    push Not at hsafe
    exact .inr (decode_error_of_selected hstated hsafe)

namespace Server

variable {s : Server} {d : Delivery} {c : Command} {line : String}

/-- Of a text that a client sends, all is read, or nothing, if no byte may be read, or it is too
long. -/
theorem readRequest_text (limit : UInt64) (text : String) :
    readRequest limit ⟨Text.utf8Bytes text, false⟩ = .ok text ∨
    readRequest limit ⟨Text.utf8Bytes text, false⟩ = .ok "" ∨
    ∃ e, readRequest limit ⟨Text.utf8Bytes text, false⟩ = .error e := by
  by_cases hlargest : limit.toNat + 1 = 2 ^ 64
  · exact .inr (.inl (readRequest_of_eq hlargest _))
  · have hutf8 := Text.ofUtf8_eq_ok.mpr (rfl : Text.utf8Bytes text = _)
    have hlimit := limit.toNat_lt
    rw [readRequest_of_lt (by omega)]
    simp only [hutf8]
    split
    · exact .inr (.inr ⟨_, rfl⟩)
    · exact .inl rfl

/-- What is read as a command is the one that was sent. -/
theorem eq_of_readRequest {limit : UInt64} {request : String} {c' : Command}
    (h : CommandLine.parseLine line = .ok (some (.command c)))
    (hread : readRequest limit ⟨Text.utf8Bytes c.encode, false⟩ = .ok request)
    (hc' : Command.decode request = .ok c') : c' = c := by
  rcases readRequest_text limit c.encode with hall | hnone | ⟨e, herror⟩
  · rw [hall] at hread
    cases hread
    rcases CommandLine.decode_encode_cases h with hc | ⟨e, he⟩
    · rw [hc] at hc'
      cases hc'
      rfl
    · rw [he] at hc'
      cases hc'
  · rw [hnone] at hread
    cases hread
    cases hc'
  · rw [herror] at hread
    cases hread

/-- A command that is acknowledged has changed the session; otherwise it is as it was. -/
theorem answer_session (h : CommandLine.parseLine line = .ok (some (.command c))) :
    ((s.answer ⟨Text.utf8Bytes c.encode, false⟩).1 = .done ∧
      (s.answer ⟨Text.utf8Bytes c.encode, false⟩).2.service.session = s.service.session.after c) ∨
    ((s.answer ⟨Text.utf8Bytes c.encode, false⟩).1 ≠ .done ∧
      (s.answer ⟨Text.utf8Bytes c.encode, false⟩).2.service.session = s.service.session) := by
  cases hread : readRequest s.maxRequestBytes ⟨Text.utf8Bytes c.encode, false⟩ with
  | error e =>
    rw [answer_error hread]
    exact .inr ⟨by rintro ⟨⟩, rfl⟩
  | ok request =>
    rw [answer_ok hread]
    dsimp only
    cases hdecode : Command.decode request with
    | error e =>
      rw [← Command.decode_trim] at hdecode
      rw [Service.handleRequest_error hdecode]
      exact .inr ⟨by rintro ⟨⟩, rfl⟩
    | ok c' =>
      obtain rfl := eq_of_readRequest h hread hdecode
      rw [← Command.decode_trim] at hdecode
      exact Service.handleRequest_session hdecode

/-- The command that is taken from a delivery, if it is read as one. -/
def takes? (s : Server) (d : Delivery) : Option Command :=
  match readRequest s.maxRequestBytes d with
  | .ok request => (Command.decode request).toOption
  | .error _ => none

theorem answer_service (s : Server) (d : Delivery) : (s.answer d).2.service =
    match s.takes? d with
    | some c => (s.service.execute c).2
    | none => s.service := by
  rw [takes?]
  cases hread : readRequest s.maxRequestBytes d with
  | error e =>
    rw [answer_error hread]
  | ok request =>
    rw [answer_ok hread]
    dsimp only
    cases hdecode : Command.decode request with
    | error e =>
      rw [← Command.decode_trim] at hdecode
      rw [Service.handleRequest_error hdecode]
      rfl
    | ok c =>
      rw [← Command.decode_trim] at hdecode
      rw [Service.handleRequest_state hdecode]
      rfl

/-- Whether the selection is lost after a delivery; `lost` says whether it was before. -/
def Loses (lost : Prop) (s : Server) (d : Delivery) : Prop :=
  match s.takes? d with
  | some c => s.service.Loses lost c
  | none => lost

theorem answer_tracks {lost : Prop} (h : s.service.Tracks lost) (d : Delivery) :
    (s.answer d).2.service.Tracks (s.Loses lost d) := by
  rw [answer_service, Loses]
  cases s.takes? d with
  | none => exact h
  | some c => exact h.execute c

theorem answer_reliable (h : s.service.backend.store.Reliable) (d : Delivery) :
    (s.answer d).2.service.backend.store.Reliable := by
  rw [answer_service]
  cases s.takes? d with
  | none => exact h
  | some c =>
    exact s.service.execute_store (P := Store.Reliable) c (fun call _ h => call.run_reliable h) h

end Server

theorem Client.send_peer (s : Server) (c : Command) :
    send .reachable Server.peer c s =
      (Frame.read (Frame.encode (s.answer ⟨Text.utf8Bytes c.encode, false⟩).1),
        (s.answer ⟨Text.utf8Bytes c.encode, false⟩).2) := rfl

namespace Console

variable {c c' : Console} {s s' : Server} {line : String} {lines : List String}

theorem current_follow {session : Session} (h : c.current = session.database) (command : Command) :
    (c.follow command).current = (session.after command).database := by
  cases command with
  | useDatabase n => rfl
  | dropDatabase n =>
    rw [follow, Session.after, h]
    split
    · rfl
    · exact h
  | _ => exact h

theorem current_showAnswer (c : Console) (command : Command) (answer : Except Error Response) :
    (c.showAnswer command answer).current =
      if answer = .ok .done then (c.follow command).current else c.current := by
  rcases answer with e | ⟨⟩ | _ | _
  · rw [if_neg (by rintro ⟨⟩)]
    rfl
  · rfl
  · rw [if_neg (by rintro ⟨⟩)]
    rfl
  · rw [if_neg (by rintro ⟨⟩)]
    rfl

/-- A line is rejected or blank and changes nothing, or it is a command that the server answers. -/
theorem of_runLine (h : runLine .reachable Server.peer c s line = some (c', s')) :
    (c'.current = c.current ∧ s' = s ∧
      ∀ command, CommandLine.parseLine line ≠ .ok (some (.command command))) ∨
    ∃ command, CommandLine.parseLine line = .ok (some (.command command)) ∧
      s' = (s.answer ⟨Text.utf8Bytes command.encode, false⟩).2 ∧
      c'.current = if (s.answer ⟨Text.utf8Bytes command.encode, false⟩).1 = .done then
        (c.follow command).current else c.current := by
  rw [runLine] at h
  cases hline : CommandLine.parseLine line with
  | error e =>
    rw [hline] at h
    cases h
    exact .inl ⟨rfl, rfl, fun _ hc => nomatch hc⟩
  | ok statement =>
    rw [hline] at h
    rcases statement with _ | ⟨⟩ | command
    · cases h
      exact .inl ⟨rfl, rfl, fun _ hc => nomatch hc⟩
    · cases h
    · simp only [Client.send_peer] at h
      cases h
      refine .inr ⟨command, rfl, rfl, ?_⟩
      simp only [current_showAnswer, Frame.read_encode_eq_done]

/-- The client and the server agree on what is selected. -/
theorem runLine_current (h : c.current = s.service.session.database)
    (hrun : runLine .reachable Server.peer c s line = some (c', s')) :
    c'.current = s'.service.session.database := by
  rcases of_runLine hrun with ⟨hcurrent, rfl, -⟩ | ⟨command, hline, rfl, hcurrent⟩
  · exact hcurrent.trans h
  · rcases Server.answer_session hline with ⟨hdone, hsession⟩ | ⟨hother, hsession⟩
    · rw [hcurrent, if_pos hdone, hsession]
      exact current_follow h command
    · rw [hcurrent, if_neg hother, hsession]
      exact h

/-- Whether the selection is lost after a line; `lost` says whether it was before. -/
def Loses (lost : Prop) (s : Server) (line : String) : Prop :=
  match CommandLine.parseLine line with
  | .ok (some (.command command)) => s.Loses lost ⟨Text.utf8Bytes command.encode, false⟩
  | _ => lost

theorem runLine_tracks {lost : Prop} (h : s.service.Tracks lost)
    (hrun : runLine .reachable Server.peer c s line = some (c', s')) :
    s'.service.Tracks (Loses lost s line) := by
  rw [Loses]
  rcases of_runLine hrun with ⟨-, rfl, hother⟩ | ⟨command, hline, rfl, -⟩
  · split
    · next command hline => exact absurd hline (hother command)
    · exact h
  · rw [hline]
    exact Server.answer_tracks h _

/-- Whether the selection is lost after the lines that are typed. It is from a line on that drops the
selected database while that cannot be saved, until one selects a database that is there or makes the
lost one anew. -/
def LosesSelection (lost : Prop) (c : Console) (s : Server) : List String → Prop
  | [] => lost
  | line :: rest =>
    match runLine .reachable Server.peer (c.print c.prompt) s line with
    | none => lost
    | some (c', s') => LosesSelection (Loses lost s line) c' s' rest

/-- It is not where no save fails. -/
theorem not_losesSelection_of_reliable {lost : Prop} (h : s.service.backend.store.Reliable)
    (hlost : ¬ lost) (c : Console) (lines : List String) : ¬ LosesSelection lost c s lines := by
  induction lines generalizing lost c s with
  | nil => exact hlost
  | cons line rest ih =>
    have hline : ¬ Loses lost s line := by
      rw [Loses]
      split
      · rw [Server.Loses]
        split
        · rintro (⟨n, -, -, -, hfails⟩ | ⟨hbefore, -⟩)
          · exact Store.not_saveFails h hfails
          · exact hlost hbefore
        · exact hlost
      · exact hlost
    rw [LosesSelection]
    cases hrun : runLine .reachable Server.peer (c.print c.prompt) s line with
    | none => exact hlost
    | some next =>
      refine ih ?_ hline next.1
      rcases of_runLine hrun with ⟨-, hsame, -⟩ | ⟨command, -, hsame, -⟩
      · rw [hsame]
        exact h
      · rw [hsame]
        exact Server.answer_reliable h _

theorem run_current (h : c.current = s.service.session.database) (lines : List String) :
    (run .reachable Server.peer c s lines).1.current =
      (run .reachable Server.peer c s lines).2.service.session.database := by
  induction lines generalizing c s with
  | nil => exact h
  | cons line rest ih =>
    rw [run]
    cases hrun : runLine .reachable Server.peer (c.print c.prompt) s line with
    | none => exact h
    | some next => exact ih (runLine_current (c := c.print c.prompt) h hrun)

theorem run_tracks {lost : Prop} (h : s.service.Tracks lost) (lines : List String) :
    (run .reachable Server.peer c s lines).2.service.Tracks (LosesSelection lost c s lines) := by
  induction lines generalizing lost c s with
  | nil => exact h
  | cons line rest ih =>
    rw [run, LosesSelection]
    cases hrun : runLine .reachable Server.peer (c.print c.prompt) s line with
    | none => exact h
    | some next => exact ih (runLine_tracks h hrun)

end Console

/-- Whatever lines are typed, the client knows which database the server has selected. The database
is there exactly unless it was dropped on the way, that could not be saved, and no later line has
selected one that is there or has made this one anew. -/
theorem console_knows_selection {server : Server} (fresh : server.service.session = .fresh)
    (lines : List String) :
    let r := Console.run .reachable Server.peer .fresh server lines
    r.1.current = r.2.service.session.database ∧
      ((∀ n, r.1.current = some n → r.2.service.backend.catalog.databaseExists n = true) ↔
        ¬ Console.LosesSelection False .fresh server lines) := by
  intro r
  have hcurrent : r.1.current = r.2.service.session.database :=
    Console.run_current (by rw [fresh]; rfl) lines
  have hstart : server.service.Tracks False := by
    refine ⟨False.elim, fun _ n hn => ?_⟩
    rw [fresh] at hn
    cases hn
  refine ⟨hcurrent, ?_⟩
  rw [hcurrent]
  exact (Console.run_tracks hstart lines).stands_iff

/-- Lines that are carried out, one that the client rejects and one that the server does. -/
def someLines : List String :=
  ["create database d", "use d", "use", "use e", "create table t(id int)",
    "insert into t values(1)"]

/-- The third line is not saved, if the second save fails. -/
def lostLines : List String := ["create database d", "use d", "drop database d"]

theorem console_knows_selection_someLines :
    let server : Server := ⟨ServerConfig.defaultMaxRequestBytes, ⟨⟨∅, .inMemory⟩, .fresh⟩⟩
    let failing : Server := ⟨ServerConfig.defaultMaxRequestBytes,
      ⟨⟨∅, ⟨∅, some ⟨.vacant, [false, true]⟩⟩⟩, .fresh⟩⟩
    let r := Console.run .reachable Server.peer .fresh server someLines
    r.1.current = some "d" ∧ r.2.service.session.database = some "d" ∧
      r.2.service.backend.catalog.databaseExists "d" = true ∧
      Console.LosesSelection False .fresh failing lostLines ∧
      ¬ Console.LosesSelection False .fresh failing (lostLines ++ ["create database d"]) := by
  intro server failing
  have hreliable : server.service.backend.store.Reliable := fun m hm => nomatch hm
  have hlines : ¬ Console.LosesSelection False .fresh server someLines :=
    Console.not_losesSelection_of_reliable hreliable id _ _
  have hd : (Console.run .reachable Server.peer .fresh server someLines).1.current = some "d" := by
    decide +kernel
  have hfresh : server.service.session = .fresh := rfl
  have hknows := console_knows_selection hfresh someLines
  have hfailing : failing.service.session = .fresh := rfl
  obtain ⟨-, hlost⟩ := console_knows_selection hfailing lostLines
  obtain ⟨-, hback⟩ := console_knows_selection hfailing (lostLines ++ ["create database d"])
  generalize Console.run .reachable Server.peer .fresh server someLines = r at hd hknows ⊢
  refine ⟨hd, hknows.1.symm.trans hd, hknows.2.mpr hlines "d" hd, ?_, hback.mp fun n hn => ?_⟩
  · by_contra hkept
    have hthere := hlost.mpr hkept "d" (by decide +kernel)
    revert hthere
    decide +kernel
  · have hcurrent : (Console.run .reachable Server.peer .fresh failing
        (lostLines ++ ["create database d"])).1.current = some "d" := by decide +kernel
    cases hcurrent.symm.trans hn
    decide +kernel

/-- The database is dropped and that is not saved: it is gone, and both still take it for the
selected one. -/
theorem not_console_selection_exists :
    ¬ ∀ (config : ServerConfig) (server : Server) (lines : List String),
      Server.start config = .ok server →
      let r := Console.run .reachable Server.peer .fresh server lines
      ∀ n, r.1.current = some n → r.2.service.backend.catalog.databaseExists n = true := by
  intro h
  have hthere := h ⟨some ⟨.vacant, [false, true]⟩, false, ServerConfig.defaultMaxRequestBytes⟩ _
    lostLines rfl "d" (by decide +kernel)
  revert hthere
  decide +kernel

end RelStore

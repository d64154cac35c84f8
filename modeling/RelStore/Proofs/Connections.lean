import RelStore.Client
import RelStore.Proofs.Frames
import RelStore.Proofs.SelectedDatabase
/-! Connections one after another. The server counts one byte past its limit to see whether a request
is too long; the largest limit leaves no number for that byte, and then nothing is read at all. -/
namespace RelStore

namespace Server

variable {s s' : Server} {limit : UInt64} {b frame : List UInt8} {text : String}

/-- Each connection delivers its bytes and is closed; its frame is sent before the next one. -/
def serve (s : Server) : List (List UInt8) → List (List UInt8) × Server
  | [] => ([], s)
  | b :: later =>
    let (frame, s) := peer.exchange ⟨b, false⟩ s
    let (frames, s) := serve s later
    (frame :: frames, s)

/-- The bytes are a text within the limit. -/
def Takes (s : Server) (b : List UInt8) (text : String) : Prop :=
  b.length ≤ s.maxRequestBytes.toNat ∧ Text.utf8Bytes text = b

/-- Why bytes that are no text within the limit are refused. -/
def refusal (limit : UInt64) (b : List UInt8) : Error :=
  .protocol (if limit.toNat < b.length then "request exceeds " ++ toString limit.toNat ++ " bytes"
    else "request is not valid UTF-8")

/-- What the bytes of one connection are answered, and what they leave of the server. -/
structure Answers (s : Server) (b frame : List UInt8) (s' : Server) : Prop where
  taken : ∀ text, s.Takes b text →
    let done := s.service.handleRequest (String.ofList (Text.trim text.toList))
    frame = Frame.encode done.1 ∧ s' = { s with service := done.2 }
  refused : (∀ text, ¬ s.Takes b text) →
    frame = Frame.encode (.error .protocol (refusal s.maxRequestBytes b).message) ∧ s' = s

/-- There is a number for the byte past the limit. -/
theorem readRequest_of_lt (hlimit : limit.toNat + 1 < 2 ^ 64) :
    readRequest limit ⟨b, false⟩ =
      match Text.ofUtf8 b with
      | .ok text => if limit.toNat < b.length then .error (refusal limit b) else .ok text
      | .error _ => .error (refusal limit b) := by
  have hwanted : (limit + 1).toNat = limit.toNat + 1 := by
    rw [UInt64.toNat_add, UInt64.toNat_one, Nat.mod_eq_of_lt hlimit]
  simp only [readRequest, Bool.false_and, Bool.false_eq_true, if_false, hwanted, List.length_take,
    refusal]
  by_cases hlong : limit.toNat < b.length
  · rw [if_pos (by omega)]
    cases Text.ofUtf8 b <;> simp only [if_pos hlong]
  · rw [if_neg (by omega), List.take_of_length_le (by omega)]
    cases Text.ofUtf8 b <;> simp only [if_neg hlong]

/-- The number of bytes to read wraps around to zero, and the empty text is within every limit. -/
theorem readRequest_of_eq (hlimit : limit.toNat + 1 = 2 ^ 64) (b : List UInt8) :
    readRequest limit ⟨b, false⟩ = .ok "" := by
  have hwanted : (limit + 1).toNat = 0 := by
    rw [UInt64.toNat_add, UInt64.toNat_one, hlimit]
  simp only [readRequest, Bool.false_and, Bool.false_eq_true, if_false, hwanted, List.take_zero,
    List.length_nil, Nat.not_lt_zero]
  rfl

theorem answer_error {d : Delivery} {e : Error} (hread : readRequest s.maxRequestBytes d = .error e) :
    s.answer d = (.ofError e, s) := by
  rw [answer, hread]

theorem answer_ok {d : Delivery} {request : String}
    (hread : readRequest s.maxRequestBytes d = .ok request) :
    s.answer d =
      ((s.service.handleRequest (String.ofList (Text.trim request.toList))).1,
        { s with
          service := (s.service.handleRequest (String.ofList (Text.trim request.toList))).2 }) := by
  rw [answer, hread]

theorem exchange_eq (s : Server) (d : Delivery) :
    peer.exchange d s = (Frame.encode (s.answer d).1, (s.answer d).2) := rfl

theorem exchange_answers (hlimit : s.maxRequestBytes.toNat + 1 < 2 ^ 64) (b : List UInt8) :
    s.Answers b (peer.exchange ⟨b, false⟩ s).1 (peer.exchange ⟨b, false⟩ s).2 := by
  have hread := readRequest_of_lt (b := b) hlimit
  constructor
  · rintro text ⟨hsize, htext⟩
    have hutf8 := Text.ofUtf8_eq_ok.mpr htext
    simp only [hutf8, if_neg (Nat.not_lt.mpr hsize)] at hread
    rw [exchange_eq, answer_ok hread]
    exact ⟨rfl, rfl⟩
  · intro hnone
    have herror : readRequest s.maxRequestBytes ⟨b, false⟩ = .error (refusal s.maxRequestBytes b) := by
      rw [hread]
      cases hutf8 : Text.ofUtf8 b with
      | error fault => rfl
      | ok text =>
        have hlong : s.maxRequestBytes.toNat < b.length := by
          by_contra hshort
          exact hnone text ⟨Nat.not_lt.mp hshort, Text.ofUtf8_eq_ok.mp hutf8⟩
        exact if_pos hlong
    rw [exchange_eq, answer_error herror]
    exact ⟨rfl, rfl⟩

theorem exchange_of_eq (hlimit : s.maxRequestBytes.toNat + 1 = 2 ^ 64) (b : List UInt8) :
    peer.exchange ⟨b, false⟩ s =
      (Frame.encode (.ofError (.unexpectedEnd "an operation code")), s) := by
  have hempty : Command.decode (String.ofList (Text.trim "".toList)) =
      .error (.unexpectedEnd "an operation code") := rfl
  rw [exchange_eq, answer_ok (readRequest_of_eq hlimit b), Service.handleRequest_error hempty]

theorem answer_maxRequestBytes (s : Server) (d : Delivery) :
    (s.answer d).2.maxRequestBytes = s.maxRequestBytes := by
  cases hread : readRequest s.maxRequestBytes d with
  | error e => rw [answer_error hread]
  | ok request => rw [answer_ok hread]

theorem serve_maxRequestBytes (s : Server) (received : List (List UInt8)) :
    (s.serve received).2.maxRequestBytes = s.maxRequestBytes := by
  induction received generalizing s with
  | nil => rfl
  | cons b later ih => exact (ih _).trans (answer_maxRequestBytes s _)

theorem length_serve (s : Server) (received : List (List UInt8)) :
    (s.serve received).1.length = received.length := by
  induction received generalizing s with
  | nil => rfl
  | cons b later ih => exact congrArg (· + 1) (ih _)

/-- Later connections find what earlier ones have left. -/
theorem serve_append (s : Server) (earlier later : List (List UInt8)) :
    s.serve (earlier ++ later) =
      ((s.serve earlier).1 ++ ((s.serve earlier).2.serve later).1,
        ((s.serve earlier).2.serve later).2) := by
  induction earlier generalizing s with
  | nil => rfl
  | cons b earlier ih => simp only [List.cons_append, serve, ih]

theorem serve_cons (s : Server) (b : List UInt8) (later : List (List UInt8)) :
    s.serve (b :: later) =
      ((peer.exchange ⟨b, false⟩ s).1 :: ((peer.exchange ⟨b, false⟩ s).2.serve later).1,
        ((peer.exchange ⟨b, false⟩ s).2.serve later).2) := rfl

theorem serve_at (s : Server) {received : List (List UInt8)} {i : Nat} (h : received[i]? = some b) :
    (s.serve received).1[i]? =
        some (peer.exchange ⟨b, false⟩ (s.serve (received.take i)).2).1 ∧
      (s.serve (received.take (i + 1))).2 =
        (peer.exchange ⟨b, false⟩ (s.serve (received.take i)).2).2 := by
  obtain ⟨hi, hb⟩ := List.getElem?_eq_some_iff.mp h
  have hsplit : received = received.take i ++ b :: received.drop (i + 1) := by
    rw [← hb, List.getElem_cons_drop, List.take_append_drop]
  have hbefore : (s.serve (received.take i)).1.length = i := by
    rw [length_serve, List.length_take, Nat.min_eq_left hi.le]
  constructor
  · have hframes := congrArg (fun received => (s.serve received).1[i]?) hsplit
    simp only [serve_append, serve_cons] at hframes
    rw [hframes, List.getElem?_append_right hbefore.le, hbefore, Nat.sub_self,
      List.getElem?_cons_zero]
  · rw [List.take_add_one, h, Option.toList_some, serve_append, serve_cons, serve]

end Server

/-- Every connection is answered by one frame. Unless the limit is the largest 64-bit number, a text
within the limit is handled in the session that the connections before have left, and anything else
is refused and leaves the server as it was. With that limit whatever is sent is taken for an empty
request. -/
theorem serve_exact (s : Server) (received : List (List UInt8)) :
    (s.serve received).1.length = received.length ∧
    ∀ i b, received[i]? = some b → ∃ frame, (s.serve received).1[i]? = some frame ∧
      let before := (s.serve (received.take i)).2
      let after := (s.serve (received.take (i + 1))).2
      before.maxRequestBytes = s.maxRequestBytes ∧
      (s.maxRequestBytes.toNat + 1 < 2 ^ 64 → before.Answers b frame after) ∧
      (s.maxRequestBytes.toNat + 1 = 2 ^ 64 →
        frame = Frame.encode (.ofError (.unexpectedEnd "an operation code")) ∧ after = before) := by
  refine ⟨s.length_serve received, fun i b h => ?_⟩
  obtain ⟨hframe, hafter⟩ := s.serve_at h
  have hlimit := s.serve_maxRequestBytes (received.take i)
  refine ⟨_, hframe, hlimit, fun hlt => ?_, fun heq => ?_⟩
  · rw [hafter]
    exact Server.exchange_answers (hlimit ▸ hlt) b
  · rw [hafter, Server.exchange_of_eq (hlimit ▸ heq)]
    exact ⟨rfl, rfl⟩

/-- A text of eight bytes and one of nine, first with a limit of eight, then with the largest one. -/
theorem serve_exact_eightBytes :
    let service : Service := ⟨⟨∅, .inMemory⟩, .fresh⟩
    let received := [Text.utf8Bytes "2 4 abcd", Text.utf8Bytes "2 4 abcde"]
    let eight := Server.serve ⟨8, service⟩ received
    let largest := Server.serve ⟨UInt64.ofNat (2 ^ 64 - 1), service⟩ received
    eight.1.length = 2 ∧ eight.1[0]? = some (Frame.encode .done) ∧
      eight.1[1]? =
        some (Frame.encode (.error .protocol "Protocol error: request exceeds 8 bytes")) ∧
      largest.1[0]? = some (Frame.encode (.ofError (.unexpectedEnd "an operation code"))) := by
  intro service received eight largest
  have hdone : (service.handleRequest (String.ofList (Text.trim "2 4 abcd".toList))).1 = .done := by
    decide +kernel
  have hmessage : (Server.refusal 8 (Text.utf8Bytes "2 4 abcde")).message =
      "Protocol error: request exceeds 8 bytes" := by decide +kernel
  have hlong : ¬ (Text.utf8Bytes "2 4 abcde").length ≤ UInt64.toNat 8 := by decide +kernel
  obtain ⟨hlength, hconnections⟩ := serve_exact ⟨8, service⟩ received
  obtain ⟨first, hfirst, -, hfits, -⟩ := hconnections 0 _ rfl
  obtain ⟨htaken, -⟩ := (hfits (by decide)).taken "2 4 abcd" ⟨by decide +kernel, rfl⟩
  obtain ⟨second, hsecond, hlimit, hexceeds, -⟩ := hconnections 1 _ rfl
  obtain ⟨hrefused, -⟩ :=
    (hexceeds (by decide)).refused fun text htakes => hlong (htakes.1.trans (congrArg UInt64.toNat hlimit).le)
  rw [hlimit] at hrefused
  obtain ⟨unread, hunread, -, -, hlargest⟩ :=
    (serve_exact ⟨UInt64.ofNat (2 ^ 64 - 1), service⟩ received).2 0 _ rfl
  obtain ⟨hempty, -⟩ := hlargest (by decide)
  refine ⟨hlength, ?_, ?_, ?_⟩
  · rw [hfirst, htaken]
    exact congrArg (fun r => some (Frame.encode r)) hdone
  · rw [hsecond, hrefused]
    exact congrArg (fun m => some (Frame.encode (.error .protocol m))) hmessage
  · rw [hunread, hempty]

/-- The largest limit admits a text of five bytes, and still it is not handled. -/
theorem not_serve_within_limit :
    ¬ ∀ (config : ServerConfig) (server : Server) (received : List (List UInt8)),
      Server.start config = .ok server →
      ∀ i b text, received[i]? = some b → server.Takes b text →
        (server.serve received).1[i]? = some (Frame.encode
          ((server.serve (received.take i)).2.service.handleRequest
            (String.ofList (Text.trim text.toList))).1) := by
  intro h
  have hdone := h ⟨none, true, UInt64.ofNat (2 ^ 64 - 1)⟩ _ [Text.utf8Bytes "2 4 a"] rfl 0 _ "2 4 a"
    rfl ⟨by decide +kernel, rfl⟩
  revert hdone
  decide +kernel

end RelStore

import RelStore.Server
/-! The client: one connection a request, and the frame that comes back on it. -/
namespace RelStore

inductive Network where
  | reachable
  | unreachable
  deriving DecidableEq

/-- Whoever answers on the other side of a connection: bytes in, bytes out. -/
structure Peer (σ : Type) where
  exchange : Delivery → σ → List UInt8 × σ

def Server.peer : Peer Server where
  exchange d s :=
    let (r, s) := s.answer d
    (Frame.encode r, s)

namespace Client

variable {σ : Type}

def deliver (net : Network) (peer : Peer σ) (d : Delivery) : Step σ (List UInt8) := fun s =>
  match net with
  | .unreachable => (.error (.io "Network is unreachable (os error 101)"), s)
  | .reachable =>
    let (bytes, s) := peer.exchange d s
    (.ok bytes, s)

def sendText (net : Network) (peer : Peer σ) (request : String) : Step σ Response := do
  let bytes ← deliver net peer ⟨Text.utf8Bytes request, false⟩
  Frame.read bytes

def send (net : Network) (peer : Peer σ) (c : Command) : Step σ Response :=
  sendText net peer c.encode

end Client

end RelStore

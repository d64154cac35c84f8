import RelStore.Session
import RelStore.Text.Blank
/-! The server. A connection carries one request and its answer, and one session goes on from
connection to connection. -/
namespace RelStore

structure ServerConfig where
  snapshot : Option Medium
  memory : Bool
  maxRequestBytes : UInt64

def ServerConfig.defaultMaxRequestBytes : UInt64 := 1024 * 1024

structure Server where
  maxRequestBytes : UInt64
  service : Service

/-- What comes in on a connection, and whether the sender then keeps it open. -/
structure Delivery where
  bytes : List UInt8
  held : Bool

namespace Server

def openStore (config : ServerConfig) : Except Error Store :=
  match config.snapshot with
  | some m => Store.openAt m
  | none =>
    if config.memory then .ok .inMemory
    else .error
      (.storage "no store configured: give a snapshot path or enable memory mode")

def start (config : ServerConfig) : Except Error Server :=
  (openStore config).map fun store => ⟨config.maxRequestBytes, ⟨⟨∅, store⟩, .fresh⟩⟩

/-- At most one byte more than the limit is read; the count of bytes to read is a 64-bit word. -/
def readRequest (limit : UInt64) (d : Delivery) : Except Error String :=
  let wanted := (limit + 1).toNat
  let received := d.bytes.take wanted
  if d.held && received.length < wanted then
    .error (.protocol "timed out waiting for request")
  else if limit.toNat < received.length then
    .error (.protocol ("request exceeds " ++ toString limit.toNat ++ " bytes"))
  else
    match Text.ofUtf8 received with
    | .ok s => .ok s
    | .error _ => .error (.protocol "request is not valid UTF-8")

def answer (s : Server) (d : Delivery) : Response × Server :=
  match readRequest s.maxRequestBytes d with
  | .error e => (.ofError e, s)
  | .ok request =>
    let (r, service) := s.service.handleRequest (String.ofList (Text.trim request.toList))
    (r, { s with service := service })

end Server

end RelStore

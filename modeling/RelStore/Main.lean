import RelStore.Console
/-! The command line client with a server of its own, whose store lives in memory. -/
open RelStore

partial def loop (input : IO.FS.Stream) (c : Console) (s : Server) : IO Unit := do
  IO.print c.prompt
  (← IO.getStdout).flush
  let text ← input.getLine
  match Console.inputLines text with
  | line :: _ =>
    match Console.runLine .reachable Server.peer { c with out := "", err := "" } s line with
    | none => pure ()
    | some (c, s) =>
      IO.print c.out
      IO.eprint c.err
      loop input c s
  | [] => pure ()

def main : IO Unit := do
  match Server.start ⟨none, true, ServerConfig.defaultMaxRequestBytes⟩ with
  | .ok s => loop (← IO.getStdin) .fresh s
  | .error e => IO.eprintln e.message

import Wanda.CommandLine.Run

/-! The program itself: files, standard streams and the exit code. -/

namespace Wanda.Terminal
open CommandLine Playground

/-- Double the fuel until the computation comes to an end, which it may never do. -/
partial def untilDone {α : Type} (attempt : Nat → Option α) (fuel : Nat) : IO α := do
  match attempt fuel with
  | some a => return a
  | none => untilDone attempt (2 * fuel)

def startFuel : Nat :=
  1000000

def fetch (path : String) : IO (Except FileError (List UInt8)) := do
  try
    return .ok (← IO.FS.readBinFile path).toList
  catch
    | .noFileOrDirectory .. => return .error .notFound
    | .inappropriateType .. => return .error .isDirectory
    | e => return .error (.other e.toString)

/-- The bytes up to and including the next newline. -/
partial def readLine (input : IO.FS.Stream) (before : List UInt8) : IO (List UInt8) := do
  match (← input.read 1).toList with
  | [] => return before.reverse
  | b :: _ => if b = 0x0A then return (b :: before).reverse else readLine input (b :: before)

def report (level : Level) (t : Transcript) : IO Unit := do
  IO.print t.output
  (← IO.getStdout).flush
  IO.eprint (errorOutput level t)

partial def interact (level : Level) (s : Session) : IO UInt32 := do
  IO.print prompt
  (← IO.getStdout).flush
  match Text.lines (← readLine (← IO.getStdin) []) with
  | some text :: _ =>
    let command := Command.parse text
    if command = .quit then return 0
    let (s, t) ← untilDone (fun fuel => s.respond .plain fuel command) startFuel
    report level t
    interact level s
  | rest =>
    -- Without a line to answer, the session says how it ends.
    let t ← untilDone (fun fuel => s.converse .plain fuel rest) startFuel
    IO.eprint (errorOutput level t)
    return (exitCode t).toUInt32

def perform (i : Invocation) : IO UInt32 := do
  let session := i.runner.toOption.bind fun runner => (Session.start runner).toOption
  match i.action, session with
  | .playground, some s =>
    IO.print s.opening
    interact i.level s
  | action, _ =>
    let contents ← match action with
      | .run (.file path) => fetch path
      | _ => pure (.error .notFound)
    let t ← untilDone (fun fuel => i.perform .plain fuel (fun _ => contents) []) startFuel
    report i.level t
    return (exitCode t).toUInt32

def usage : String :=
  "Usage: wanda [--trace] [-v|--verbose]... [run [FILE] [-e|--example LABEL] | list]\n"

end Wanda.Terminal

def main (args : List String) : IO UInt32 := do
  match Wanda.CommandLine.Invocation.parse? args with
  | some i => Wanda.Terminal.perform i
  | none =>
    IO.eprint Wanda.Terminal.usage
    return Wanda.CommandLine.usageCode.toUInt32

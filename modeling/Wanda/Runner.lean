import Wanda.Interpreter.Globals
import Wanda.Interpreter.Stages

/-!
Running programs through a driver script. The text of the program stands in a global, the slot,
for as long as the run lasts, so that one runner makes one run at a time.
-/

namespace Wanda

inductive RunError where
  | parse (message : String)
  | evaluation (message : String)
  | embedded (message : String)
  | busy
  deriving DecidableEq, Repr

namespace RunError

def text : RunError → String
  | parse m => "parse error: " ++ m
  | evaluation m => "evaluation error: " ++ m
  | embedded m => "embedded runtime error: " ++ m
  | busy => "a run is already in progress"

/-- A failure of a stage counts as such, whatever contexts it came in. -/
def ofFailure (f : Failure) : RunError :=
  match f.cause with
  | .stage (.parse m) => parse m
  | .stage (.evaluation m) => evaluation m
  | _ => embedded f.message

end RunError

structure Runner (κ : Type) where
  interpreter : Interpreter κ
  driver : Script
  busy : Bool := false

namespace Runner

variable {κ : Type}

def slot : String :=
  "currentProgramText"

def driverText (options : Stages.Options) : String :=
  let environment := if options.trace then "\x7b\"trace\": true\x7d" else "\x7b\x7d"
  "\nlet program = parse(currentProgramText);\n" ++
    "let result = evaluate(program, " ++ environment ++ ");\nformat(result);\n"

def withDriver (interpreter : Interpreter κ) (driver : String) : Except RunError (Runner κ) :=
  match Script.read driver with
  | .ok script => .ok { interpreter, driver := script }
  | .error e => .error (.embedded ("loading driver: " ++ e.message))

def standard (options : Stages.Options) : Except RunError (Runner κ) :=
  withDriver .standard (driverText options)

/--
What stands around a run: the functions of the host, which see the runner that calls them, and the
order in which hashes give their pairs. The next run may find another. One order does for a run,
since the first mistake that it brings to light ends it.
-/
structure Host (κ : Type) where
  call : Runner κ → κ → List (Value κ) → Attempt Failure (Value κ)
  listing : Table.Listing Key (Value κ)

/-- No functions but the stages, and hashes that give their pairs by their keys. -/
def Host.plain : Host Empty where
  call := fun _ f => nomatch f
  listing := .ascending

def Host.calls (host : Host κ) (fuel : Nat) (r : Runner κ) : Script.Calls κ :=
  Stages.calls host.listing (host.call r) fuel

def hold (r : Runner κ) (source : String) : Runner κ :=
  { r with interpreter := r.interpreter.setGlobal slot (.str source), busy := true }

def release (r : Runner κ) : Runner κ :=
  { r with interpreter := (r.interpreter.removeGlobal slot).2, busy := false }

def result (v : Value κ) : Attempt RunError String :=
  match v with
  | .str s => .done s
  | _ => .fail (.embedded ("driver returned " ++ v.typeName ++ " instead of string"))

def drive (host : Host κ) (fuel : Nat) (held : Runner κ) (source : String) :
    Attempt RunError String := do
  Attempt.say (.runningProgram source.utf8ByteSize)
  let v ← (held.interpreter.exec (host.calls fuel held) held.driver).mapError .ofFailure
  result v

/-- Run a program. The slot is emptied whatever comes of the run. -/
def execute (host : Host κ) (fuel : Nat) (r : Runner κ) (source : String) :
    Option (Runner κ × Report RunError String) :=
  if r.busy then some (r, ⟨[], .error .busy⟩)
  else
    let held := r.hold source
    (drive host fuel held source).report?.map (held.release, ·)

end Runner
end Wanda

import Wanda.Playground.Command
import Wanda.Runner
import Wanda.Selection

/-! A session: a program under way, edited line by line and run on demand. -/

namespace Wanda.Playground

/-- Whom a session has told of its choices: the editor takes the source of what is chosen. -/
inductive Watcher where
  | editor
  deriving DecidableEq, Repr

structure Session where
  runner : Runner Empty
  selection : Selection Watcher
  editor : String

/-- What a conversation printed and told, and the error that ended it if any. -/
structure Transcript where
  output : String
  log : List Message := []
  error : Option String := none
  deriving DecidableEq, Repr

def Transcript.append (t u : Transcript) : Transcript :=
  ⟨t.output ++ u.output, t.log ++ u.log, u.error⟩

def helpText : String :=
  "\n" ++
  "  Lines you type are appended to the program.\n" ++
  "  :run             run the program\n" ++
  "  :show            print the program\n" ++
  "  :clear           empty the program\n" ++
  "  :list            list the examples\n" ++
  "  :select LABEL    load an example into the program\n" ++
  "  :quit            leave\n"

def greeting : String :=
  "Wanda playground. :help lists the commands.\n"

def prompt : String :=
  "wanda> "

namespace Session

def notify (s : Session) : Watcher × Example → Session
  | (.editor, e) => { s with editor := e.source }

def select? (s : Session) (label : String) : Option Session :=
  (s.selection.select? label).map fun (selection, told) =>
    told.foldl notify { s with selection }

/-- A session starts by choosing the standard example. -/
def start (runner : Runner Empty) : Except String Session :=
  let selection : Selection Watcher := { examples := Example.bundled }
  let s : Session := { runner, selection := selection.observe .editor, editor := "" }
  match s.select? Example.standard.label with
  | some s => .ok s
  | none => .error ("default example " ++ Example.standard.label ++ " is missing from the catalog")

def printed : Except RunError String → String
  | .ok text => text ++ "\n"
  | .error e => "error: " ++ e.text ++ "\n"

def respond (host : Runner.Host Empty) (fuel : Nat) (s : Session) :
    Command → Option (Session × Transcript)
  | .run =>
    (s.runner.execute host fuel s.editor).map fun (runner, report) =>
      ({ s with runner }, { output := printed report.result, log := report.log })
  | .print => some (s, { output := s.editor })
  | .clear => some ({ s with editor := "" }, { output := "" })
  | .list =>
    some (s, { output := Example.listing s.selection.examples (s.selection.current.map (·.label)) })
  | .select label =>
    match s.select? label with
    | some s => some (s, { output := s.editor })
    | none => some (s, { output := "no example named " ++ label ++ "\n" })
  | .help => some (s, { output := helpText })
  | .quit => some (s, { output := "" })
  | .unknown name => some (s, { output := "unknown command :" ++ name ++ "\n" })
  | .line text => some ({ s with editor := s.editor ++ text ++ "\n" }, { output := "" })

/-- Take lines until one says to quit, one is not text, or none is left. -/
def converse (host : Runner.Host Empty) (fuel : Nat) (s : Session) :
    List (Option String) → Option Transcript
  | [] => some { output := prompt }
  | none :: _ => some { output := prompt, error := some "stream did not contain valid UTF-8" }
  | some text :: rest =>
    let command := Command.parse text
    if command = .quit then some { output := prompt }
    else do
      let (s, t) ← s.respond host fuel command
      let u ← s.converse host fuel rest
      return { t with output := prompt ++ t.output }.append u

def opening (s : Session) : String :=
  greeting ++ s.editor

end Session
end Wanda.Playground

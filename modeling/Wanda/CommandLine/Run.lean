import Wanda.CommandLine.Arguments
import Wanda.Playground.Session
import Wanda.Text.Lines

/-! Carrying out an invocation of the program. -/

namespace Wanda.CommandLine
open Playground

inductive FileError where
  | notFound
  | isDirectory
  | other (text : String)
  deriving DecidableEq, Repr

def FileError.text : FileError → String
  | notFound => "No such file or directory (os error 2)"
  | isDirectory => "Is a directory (os error 21)"
  | other s => s

abbrev Files : Type :=
  String → Except FileError (List UInt8)

def failed (error : String) : Transcript :=
  { output := "", error := some error }

def readFile (files : Files) (path : String) : Except String String :=
  match files path with
  | .error e => .error ("cannot read " ++ path ++ ": " ++ e.text)
  | .ok bytes =>
    match Text.decode? bytes with
    | some source => .ok source
    | none => .error ("cannot read " ++ path ++ ": stream did not contain valid UTF-8")

/-- The program to run, and what is told on the way to it. -/
def Subject.source (files : Files) : Subject → Except String (List Message × String)
  | file path => do return ([], ← readFile files path)
  | bundled label =>
    match Example.find? Example.bundled label with
    | some e => .ok ([.runningExample label], e.source)
    | none => .error ("no example named " ++ label)

def runSource (host : Runner.Host Empty) (fuel : Nat) (runner : Runner Empty) (log : List Message)
    (source : String) : Option Transcript :=
  (runner.execute host fuel source).map fun (_, report) =>
    match report.result with
    | .ok text => { output := text ++ "\n", log := log ++ report.log }
    | .error e => { output := "", log := log ++ report.log, error := some e.text }

namespace Action

def perform (host : Runner.Host Empty) (fuel : Nat) (files : Files) (input : List UInt8)
    (runner : Runner Empty) : Action → Option Transcript
  | playground =>
    match Session.start runner with
    | .error e => some (failed e)
    | .ok s =>
      (s.converse host fuel (Text.lines input)).map (Transcript.append { output := s.opening })
  | list => some { output := Example.listing Example.bundled (some Example.standard.label) }
  | run subject =>
    match subject.source files with
    | .error e => some (failed e)
    | .ok (log, source) => runSource host fuel runner log source

end Action

namespace Invocation

def runner (i : Invocation) : Except RunError (Runner Empty) :=
  Runner.standard { trace := i.trace }

/-- `none` when the fuel is too little for a run. -/
def perform (host : Runner.Host Empty) (fuel : Nat) (files : Files) (input : List UInt8)
    (i : Invocation) : Option Transcript :=
  match i.runner with
  | .error e => some (failed e.text)
  | .ok runner => i.action.perform host fuel files input runner

end Invocation

/-- The messages shown at a level, and the error last. -/
def errorOutput (level : Level) (t : Transcript) : String :=
  String.join ((t.log.filter fun m => level.shows m.level).map (·.line)) ++
    match t.error with
    | some e => "error: " ++ e ++ "\n"
    | none => ""

def exitCode (t : Transcript) : UInt8 :=
  if t.error.isSome then 1 else 0

def usageCode : UInt8 :=
  2

end Wanda.CommandLine

import Wanda.Example
import Wanda.Message

/-! What the arguments on the command line ask for. -/

namespace Wanda.CommandLine

/-- The options and operands on one side of the subcommand. -/
structure Part where
  trace : Bool := false
  verbosity : Nat := 0
  label : Option String := none
  operands : List String := []
  deriving DecidableEq, Repr

namespace Part

def addTrace (p : Part) : Option Part :=
  if p.trace then none else some { p with trace := true }

def addVerbose (p : Part) : Part :=
  { p with verbosity := p.verbosity + 1 }

def addLabel (p : Part) (label : String) : Option Part :=
  if p.label.isSome then none else some { p with label := some label }

def addOperand (p : Part) (operand : String) : Part :=
  { p with operands := p.operands ++ [operand] }

/-- Add a cluster of one-letter options. The flag says that a label has yet to follow. -/
def addLetters (p : Part) : List Char → Option (Part × Bool)
  | [] => some (p, false)
  | 'v' :: cs => p.addVerbose.addLetters cs
  | ['e'] => some (p, true)
  | 'e' :: '=' :: cs => (p.addLabel (String.ofList cs)).map (·, false)
  | 'e' :: cs => (p.addLabel (String.ofList cs)).map (·, false)
  | _ => none

def addOption (p : Part) : List Char → Option (Part × Bool)
  | '-' :: '-' :: name =>
    let (name, value) := (name.takeWhile (· ≠ '='), name.dropWhile (· ≠ '='))
    if name = "trace".toList ∧ value = [] then p.addTrace.map (·, false)
    else if name = "verbose".toList ∧ value = [] then some (p.addVerbose, false)
    else if name = "example".toList then
      match value with
      | [] => some (p, true)
      | _ :: label => (p.addLabel (String.ofList label)).map (·, false)
    else none
  | '-' :: letters => p.addLetters letters
  | _ => none

def isOption (a : String) : Bool :=
  match a.toList with
  | '-' :: _ :: _ => true
  | _ => false

/--
Read options and operands. `stop` ends the part at the first operand, which is then left over with
all that follows. After `--` there are only operands.
-/
def read (stop : Bool) (p : Part) : List String → Option (Part × List String)
  | [] => some (p, [])
  | a :: rest =>
    if a = "--" then some ({ p with operands := p.operands ++ rest }, [])
    else if isOption a then
      match p.addOption a.toList, rest with
      | some (p, false), rest => p.read stop rest
      | some (p, true), label :: rest =>
        if isOption label then none
        else (p.addLabel label).bind fun p => p.read stop rest
      | _, _ => none
    else if stop then some (p, a :: rest)
    else (p.addOperand a).read stop rest

end Part

inductive Subject where
  | file (path : String)
  | bundled (label : String)
  deriving DecidableEq, Repr

inductive Action where
  | playground
  | list
  | run (subject : Subject)
  deriving DecidableEq, Repr

structure Invocation where
  trace : Bool
  verbosity : Nat
  action : Action
  deriving DecidableEq, Repr

/-- A file or a label, but not both; the standard example without either. -/
def subject? (p : Part) : Option Subject :=
  match p.operands, p.label with
  | [], none => some (.bundled Example.standard.label)
  | [], some label => some (.bundled label)
  | [path], none => if path = "" then none else some (.file path)
  | _, _ => none

def action? (command : String) (p : Part) : Option Action :=
  if command = "run" then (subject? p).map .run
  else if command = "list" then
    if p.operands = [] ∧ p.label = none then some .list else none
  else none

namespace Invocation

/-- `none` if the arguments make no sense. Of the verbosities on both sides the later one counts. -/
def parse? (args : List String) : Option Invocation := do
  let (top, rest) ← Part.read true {} args
  guard (top.operands = [] ∧ top.label = none)
  match rest with
  | [] => return ⟨top.trace, top.verbosity, .playground⟩
  | command :: rest =>
    let (p, _) ← Part.read false {} rest
    let verbosity := if p.verbosity = 0 then top.verbosity else p.verbosity
    return ⟨top.trace || p.trace, verbosity, ← action? command p⟩

def level (i : Invocation) : Level :=
  if i.trace then .debug
  else match i.verbosity with
    | 0 => .warn
    | 1 => .info
    | _ => .debug

end Invocation
end Wanda.CommandLine

import Wanda.Script.Reading

/-! Why a script fails, and how that is told. -/

namespace Wanda

/-- A failure of the program a script works on, by the stage it occurs in. -/
inductive StageError where
  | parse (message : String)
  | evaluation (message : String)
  deriving DecidableEq, Repr

def StageError.text : StageError → String
  | parse m => "parse error: " ++ m
  | evaluation m => "evaluation error: " ++ m

/-- A call of a stage with arguments it does not take; what was found is the name of a type. -/
inductive Misuse where
  | argumentCount (function want : String) (got : Nat)
  | parseArgument (found : String)
  | evaluateProgram (found : String)
  | evaluateAtom (found : String)
  | evaluateEnvironment (found : String)
  | traceOption (found : String)
  | unknownOption (key : String)
  deriving DecidableEq, Repr

def Misuse.text : Misuse → String
  | argumentCount f want got => s!"wrong number of arguments for {f}: want={want}, got={got}"
  | parseArgument t => "argument to `parse` must be string, got " ++ t
  | evaluateProgram t => "argument to `evaluate` must be array, got " ++ t
  | evaluateAtom t => "program passed to `evaluate` must hold strings, got " ++ t
  | evaluateEnvironment t => "environment passed to `evaluate` must be hash, got " ++ t
  | traceOption t => "option `trace` must be boolean, got " ++ t
  | unknownOption k => "unknown option " ++ k ++ " for `evaluate`"

inductive Cause where
  | stage (e : StageError)
  | misuse (m : Misuse)
  | script (e : Script.Error)
  | unknownName (name : String)
  | notAFunction (shown : String)
  | notAKey (shown : String)
  | host (text : String)
  deriving DecidableEq, Repr

def Cause.text : Cause → String
  | stage e => e.text
  | misuse m => m.text
  | script e => e.message
  | unknownName name => "identifier not found: " ++ name
  | notAFunction shown => shown ++ " is not a function"
  | notAKey shown => "unusable as hash key: " ++ shown
  | host s => s

/-- A cause, and the contexts put around it, outermost first. -/
structure Failure where
  cause : Cause
  contexts : List String := []
  deriving DecidableEq, Repr

namespace Failure

def message (f : Failure) : String :=
  ": ".intercalate (f.contexts ++ [f.cause.text])

def within (context : String) (f : Failure) : Failure :=
  { f with contexts := context :: f.contexts }

end Failure
end Wanda

import Wanda.Interpreter.Evaluation

/-! The three stages of running a program, as functions that scripts call. -/

namespace Wanda.Stages

variable {κ : Type}

def misuse {α : Type} (m : Misuse) : Attempt Failure α :=
  .fail ⟨.misuse m, []⟩

def parse : List (Value κ) → Attempt Failure (Value κ)
  | [.str text] =>
    match Program.read text with
    | .ok atoms => .done (.ofAtoms atoms)
    | .error e => .fail ⟨.stage (.parse e.message), []⟩
  | [v] => misuse (.parseArgument v.typeName)
  | args => misuse (.argumentCount "parse" "1" args.length)

structure Options where
  trace : Bool := false
  deriving DecidableEq, Repr

def reduceWith (fuel : Nat) (options : Options) (atoms : List Atom) :
    Attempt StageError (List Atom) :=
  ⟨(Reduction.run fuel (.initial atoms)).map fun result =>
    { log := if options.trace then (Reduction.trace fuel (.initial atoms)).map .reduced else []
      result := result.mapError fun f => .evaluation f.message }⟩

def atom (v : Value κ) : Except Misuse Atom :=
  match v with
  | .str s => .ok s
  | _ => .error (.evaluateAtom v.typeName)

def program (v : Value κ) : Except Misuse (List Atom) :=
  match v with
  | .array vs => vs.mapM atom
  | _ => .error (.evaluateProgram v.typeName)

def option (options : Options) (entry : Key × Value κ) : Except Misuse Options :=
  if entry.1 = .str "trace" then
    match entry.2 with
    | .bool b => .ok { options with trace := b }
    | v => .error (.traceOption v.typeName)
  else .error (.unknownOption entry.1.text)

/-- The order of the pairs of a hash decides which of several mistakes is told. -/
def environment (listing : Table.Listing Key (Value κ)) (v : Value κ) : Except Misuse Options :=
  match v with
  | .null => .ok {}
  | .hash table => (listing.pairs table).foldlM option {}
  | _ => .error (.evaluateEnvironment v.typeName)

def evaluateIn (listing : Table.Listing Key (Value κ)) (fuel : Nat) (v env : Value κ) :
    Attempt Failure (Value κ) := do
  let atoms ← Attempt.ofExcept ((program v).mapError fun m => ⟨.misuse m, []⟩)
  let options ← Attempt.ofExcept ((environment listing env).mapError fun m => ⟨.misuse m, []⟩)
  let rest ← (reduceWith fuel options atoms).mapError fun e => ⟨.stage e, []⟩
  return .ofAtoms rest

def evaluate (listing : Table.Listing Key (Value κ)) (fuel : Nat) :
    List (Value κ) → Attempt Failure (Value κ)
  | [v] => evaluateIn listing fuel v .null
  | [v, env] => evaluateIn listing fuel v env
  | args => misuse (.argumentCount "evaluate" "1 or 2" args.length)

/-- Any value as text; the elements of an array stand with one space between them. -/
def format : List (Value κ) → Attempt Failure (Value κ)
  | [.array vs] => .done (.str (Program.render (Value.texts vs)))
  | [v] => .done (.str v.text)
  | args => misuse (.argumentCount "format" "1" args.length)

/-- Calls of builtin functions, where the host says what its own functions do. -/
def calls (listing : Table.Listing Key (Value κ))
    (host : κ → List (Value κ) → Attempt Failure (Value κ)) (fuel : Nat) : Script.Calls κ
  | .parse, args => parse args
  | .evaluate, args => evaluate listing fuel args
  | .format, args => format args
  | .host k, args => host k args

end Wanda.Stages

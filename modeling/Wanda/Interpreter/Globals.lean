import Wanda.Interpreter.Evaluation

/-! The interpreter: global bindings that the host sets and scripts read. -/

namespace Wanda

structure Interpreter (κ : Type) where
  globals : Table String (Value κ)

namespace Interpreter

variable {κ : Type}

def bare : Interpreter κ :=
  ⟨.empty⟩

def global? (i : Interpreter κ) (name : String) : Option (Value κ) :=
  i.globals.get? name

def setGlobal (i : Interpreter κ) (name : String) (v : Value κ) : Interpreter κ :=
  ⟨i.globals.insert name v⟩

def removeGlobal (i : Interpreter κ) (name : String) : Option (Value κ) × Interpreter κ :=
  let (found, globals) := i.globals.remove name
  (found, ⟨globals⟩)

def register (i : Interpreter κ) (name : String) (f : Builtin κ) : Interpreter κ :=
  i.setGlobal name (.builtin f)

def standard : Interpreter κ :=
  ((bare.register "parse" .parse).register "evaluate" .evaluate).register "format" .format

def load (source : String) : Except Failure Script :=
  (Script.read source).mapError fun e => ⟨.script e, []⟩

/-- Run a script in a fresh scope, which is forgotten afterwards. -/
def exec (calls : Script.Calls κ) (i : Interpreter κ) (script : Script) :
    Attempt Failure (Value κ) :=
  ⟨(script.exec calls i.global? .empty).map (·.report)⟩

def run (calls : Script.Calls κ) (i : Interpreter κ) (source : String) :
    Attempt Failure (Value κ) := do
  i.exec calls (← Attempt.ofExcept (load source))

end Interpreter
end Wanda

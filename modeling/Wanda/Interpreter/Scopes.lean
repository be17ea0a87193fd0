import Wanda.Interpreter.Evaluation

/-!
Scopes inside one another. They are numbered as they are made, and a scope lies inside none or
inside one made before it.
-/

namespace Wanda

structure Scope (κ : Type) where
  outer : Option Nat
  bindings : Table String (Value κ)

/-- All scopes, the newest first; the number of a scope is the count of those made before it. -/
abbrev Scopes (κ : Type) : Type :=
  List (Scope κ)

namespace Scopes

variable {κ : Type}

def create (scopes : Scopes κ) (outer : Option Nat) : Scopes κ :=
  ⟨outer, .empty⟩ :: scopes

def scope? : Scopes κ → Nat → Option (Scope κ)
  | [], _ => none
  | s :: older, i => if i = older.length then some s else scope? older i

def get? (name : String) : Scopes κ → Nat → Option (Value κ)
  | [], _ => none
  | s :: older, i =>
    if i = older.length then
      s.bindings.get? name <|> s.outer.bind fun o => get? name older o
    else get? name older i

def update (f : Table String (Value κ) → Table String (Value κ)) : Scopes κ → Nat → Scopes κ
  | [], _ => []
  | s :: older, i =>
    if i = older.length then { s with bindings := f s.bindings } :: older
    else s :: update f older i

def own (scopes : Scopes κ) (i : Nat) : Table String (Value κ) :=
  ((scopes.scope? i).map (·.bindings)).getD .empty

/-- The names a scope sees from the scopes around it. -/
def around (scopes : Scopes κ) (i : Nat) : Script.Names κ :=
  fun name => (scopes.scope? i).bind fun s => s.outer.bind fun o => get? name scopes o

def set (scopes : Scopes κ) (i : Nat) (name : String) (v : Value κ) : Scopes κ :=
  scopes.update (·.insert name v) i

def remove (scopes : Scopes κ) (i : Nat) (name : String) : Option (Value κ) × Scopes κ :=
  ((scopes.own i).get? name, scopes.update (·.erase name) i)

/-- Run a script in a scope, in which its bindings stay. -/
def exec (calls : Script.Calls κ) (scopes : Scopes κ) (i : Nat) (script : Script) :
    Option (Scopes κ × Report Failure (Value κ)) :=
  (script.exec calls (scopes.around i) (scopes.own i)).map fun o =>
    (scopes.update (fun _ => o.bindings) i, o.report)

end Scopes
end Wanda

import Wanda.Attempt
import Wanda.Failure
import Wanda.Value.Display

/-! The value of an expression, and the run of a script in a scope. -/

namespace Wanda.Script

variable {κ : Type}

/-- What calling a builtin function does. -/
abbrev Calls (κ : Type) : Type :=
  Builtin κ → List (Value κ) → Attempt Failure (Value κ)

abbrev Names (κ : Type) : Type :=
  String → Option (Value κ)

mutual

/-- Parts are evaluated from left to right: callee, arguments, then the call itself. -/
def Expr.eval (calls : Calls κ) (names : Names κ) : Expr → Attempt Failure (Value κ)
  | .name s =>
    match names s with
    | some v => .done v
    | none => .fail ⟨.unknownName s, []⟩
  | .int n => .done (.int n)
  | .str s => .done (.str s)
  | .bool b => .done (.bool b)
  | .null => .done .null
  | .array es => do return .array (← evalList calls names es)
  | .hash ps => do return .hash (.ofList (← evalPairs calls names ps))
  | .call f args => do
    let callee ← f.eval calls names
    let args ← evalList calls names args
    match callee with
    | .builtin b => calls b args
    | _ => .fail ⟨.notAFunction callee.text, []⟩

def Expr.evalList (calls : Calls κ) (names : Names κ) :
    List Expr → Attempt Failure (List (Value κ))
  | [] => .done []
  | e :: es => do
    let v ← e.eval calls names
    return v :: (← evalList calls names es)

/-- A key is checked before its value is evaluated. -/
def Expr.evalPairs (calls : Calls κ) (names : Names κ) :
    List (Expr × Expr) → Attempt Failure (List (Key × Value κ))
  | [] => .done []
  | (k, v) :: ps => do
    let k ← k.eval calls names
    match k.key? with
    | none => .fail ⟨.notAKey k.text, []⟩
    | some key =>
      let v ← v.eval calls names
      return (key, v) :: (← evalPairs calls names ps)

end

def Statement.operand : Statement → Expr
  | binding _ e => e
  | result e => e
  | expr e => e

inductive Effect (κ : Type) where
  | bind (name : String) (v : Value κ)
  | finish (v : Value κ)
  | yield (v : Value κ)

def Statement.effect : Statement → Value κ → Effect κ
  | binding name _, v => .bind name v
  | result _, v => .finish v
  | expr _, .returning v => .finish v
  | expr _, v => .yield v

structure Outcome (κ : Type) where
  bindings : Table String (Value κ)
  report : Report Failure (Value κ)

/-- A scope's own bindings hide the outer ones. -/
def visible (own : Table String (Value κ)) (outer : Names κ) : Names κ :=
  fun name => own.get? name <|> outer name

/--
Run statements in a scope with its own bindings. `last` is the value if nothing is left to run. A
failure or an early result leaves the bindings made up to then.
-/
def execFrom (calls : Calls κ) (outer : Names κ) (last : Value κ) (own : Table String (Value κ)) :
    Script → Option (Outcome κ)
  | [] => some ⟨own, ⟨[], .ok last⟩⟩
  | s :: rest =>
    match (s.operand.eval calls (visible own outer)).report? with
    | none => none
    | some ⟨log, .error f⟩ => some ⟨own, ⟨log, .error f⟩⟩
    | some ⟨log, .ok v⟩ =>
      match s.effect v with
      | .finish v => some ⟨own, ⟨log, .ok v⟩⟩
      | .yield v =>
        (execFrom calls outer v own rest).map fun o => { o with report := o.report.after log }
      | .bind name v =>
        (execFrom calls outer .null (own.insert name v) rest).map fun o =>
          { o with report := o.report.after log }

/-- The value of a script is that of its last statement, and null for an empty one. -/
def exec (calls : Calls κ) (outer : Names κ) (own : Table String (Value κ)) (script : Script) :
    Option (Outcome κ) :=
  execFrom calls outer .null own script

end Wanda.Script

import Wanda.Interpreter.Globals
import Mathlib.Tactic.SplitIfs

/-! Scripts as computations: what the statements of a script do, one after the other. -/
namespace Wanda

namespace Attempt

variable {ε δ α β γ : Type}

@[simp] theorem pure_eq_done (a : α) : (pure a : Attempt ε α) = done a := rfl

@[simp] theorem done_bind (a : α) (f : α → Attempt ε β) : (done a >>= f) = f a := by
  simp [bind, andThen, done, Report.after]

theorem bind_assoc (x : Attempt ε α) (f : α → Attempt ε β) (g : β → Attempt ε γ) :
    (x >>= f >>= g) = x >>= fun a => f a >>= g := by
  obtain ⟨_ | ⟨log, _ | a⟩⟩ := x
  · rfl
  · rfl
  · simp only [bind, andThen]
    obtain ⟨_ | ⟨log, _ | b⟩⟩ := f a
    · rfl
    · rfl
    · simp [Report.after, Function.comp_def]

@[simp] theorem mapError_done (f : ε → δ) (a : α) : (done a).mapError f = done a := rfl

theorem mapError_bind (f : ε → δ) (x : Attempt ε α) (g : α → Attempt ε β) :
    (x >>= g).mapError f = x.mapError f >>= fun a => (g a).mapError f := by
  obtain ⟨_ | ⟨log, _ | a⟩⟩ := x
  · rfl
  · rfl
  · simp [bind, andThen, mapError, Except.mapError, Report.after, Function.comp_def]

end Attempt

namespace Script

variable {κ : Type}

/-- The value that is left when the statements have run in a scope. -/
def value (calls : Calls κ) (outer : Names κ) (last : Value κ) (own : Table String (Value κ))
    (script : Script) : Attempt Failure (Value κ) :=
  ⟨(execFrom calls outer last own script).map (·.report)⟩

/-- What comes after a statement whose expression has a value. -/
def proceed (calls : Calls κ) (outer : Names κ) (own : Table String (Value κ)) (rest : Script) :
    Effect κ → Attempt Failure (Value κ)
  | .finish v => .done v
  | .yield v => value calls outer v own rest
  | .bind name v => value calls outer .null (own.insert name v) rest

@[simp] theorem effect_binding (name : String) (e : Expr) (v : Value κ) :
    (Statement.binding name e).effect v = .bind name v := rfl

theorem proceed_bind (calls : Calls κ) (outer : Names κ) (own : Table String (Value κ))
    (rest : Script) (name : String) (v : Value κ) :
    proceed calls outer own rest (.bind name v) =
      value calls outer .null (own.insert name v) rest := rfl

@[simp] theorem value_nil (calls : Calls κ) (outer : Names κ) (last : Value κ)
    (own : Table String (Value κ)) : value calls outer last own [] = .done last := rfl

theorem value_cons (calls : Calls κ) (outer : Names κ) (last : Value κ)
    (own : Table String (Value κ)) (s : Statement) (rest : Script) :
    value calls outer last own (s :: rest) =
      s.operand.eval calls (visible own outer) >>= fun v =>
        proceed calls outer own rest (s.effect v) := by
  unfold value
  rw [execFrom]
  obtain ⟨_ | ⟨log, _ | v⟩⟩ := s.operand.eval calls (visible own outer)
  · rfl
  · rfl
  · cases he : s.effect v <;>
      simp [bind, Attempt.andThen, proceed, he, value, Attempt.done, Report.after,
        Function.comp_def]

theorem exec_eq_value (calls : Calls κ) (i : Interpreter κ) (script : Script) :
    i.exec calls script = value calls i.global? .null .empty script := rfl

@[simp] theorem visible_empty (outer : Names κ) (name : String) :
    visible .empty outer name = outer name := rfl

@[simp] theorem visible_insert (own : Table String (Value κ)) (outer : Names κ)
    (name other : String) (v : Value κ) :
    visible (own.insert name v) outer other =
      if other = name then some v else visible own outer other := by
  unfold visible
  rw [Table.get?_insert]
  split_ifs <;> rfl

end Script
end Wanda

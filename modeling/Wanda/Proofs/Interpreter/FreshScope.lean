import Wanda.Interpreter.Globals
import Wanda.Interpreter.Scopes
import Mathlib.Tactic.SplitIfs

/-!
A run of the interpreter is a run in a scope that was made for it inside the scope of the globals,
and a run changes no scope but the one it is in.
-/
namespace Wanda

variable {κ : Type}

namespace Scopes

theorem length_update (f : Table String (Value κ) → Table String (Value κ)) (scopes : Scopes κ)
    (i : Nat) : (scopes.update f i).length = scopes.length := by
  induction scopes with
  | nil => rfl
  | cons s older ih =>
    unfold update
    split_ifs
    · rfl
    · simp [ih]

theorem scope?_update (f : Table String (Value κ) → Table String (Value κ)) (scopes : Scopes κ)
    (i j : Nat) : (scopes.update f i).scope? j =
      if j = i then (scopes.scope? j).map fun s => { s with bindings := f s.bindings }
      else scopes.scope? j := by
  induction scopes with
  | nil => simp [update, scope?]
  | cons s older ih =>
    unfold update
    split_ifs with hi hj hj
    · subst hi
      simp [scope?, hj]
    · have hl : j ≠ older.length := hi ▸ hj
      simp [scope?, hl]
    · subst hj
      rw [if_pos rfl] at ih
      simp [scope?, length_update, hi, ih]
    · rw [if_neg hj] at ih
      simp [scope?, length_update, ih]

theorem own_update_of_ne (f : Table String (Value κ) → Table String (Value κ))
    (scopes : Scopes κ) {i j : Nat} (h : j ≠ i) : (scopes.update f i).own j = scopes.own j := by
  rw [own, scope?_update, if_neg h, own]

theorem own_exec_of_ne {calls : Script.Calls κ} {scopes after : Scopes κ} {i j : Nat}
    {script : Script} {report : Report Failure (Value κ)} (h : j ≠ i)
    (he : scopes.exec calls i script = some (after, report)) : after.own j = scopes.own j := by
  obtain ⟨o, -, ho⟩ := Option.map_eq_some_iff.mp he
  cases ho
  exact own_update_of_ne _ scopes h

end Scopes

namespace Interpreter

/-- The scopes of a run: the globals, number 0, and inside them the scope of the script. -/
def scopes (i : Interpreter κ) : Scopes κ :=
  Scopes.create [⟨none, i.globals⟩] (some 0)

theorem around_scopes (i : Interpreter κ) : i.scopes.around 1 = i.global? := by
  funext name
  simp [scopes, Scopes.create, Scopes.around, Scopes.scope?, Scopes.get?, global?]

theorem exec_eq_exec_scopes (calls : Script.Calls κ) (i : Interpreter κ) (script : Script) :
    i.exec calls script = ⟨(i.scopes.exec calls 1 script).map (·.2)⟩ := by
  have ho : i.scopes.own 1 = .empty := rfl
  simp [exec, Scopes.exec, around_scopes, ho, Option.map_map, Function.comp_def]

/-- Whatever a script does, and however it ends, the globals stay as they are. -/
theorem own_globals_of_exec {calls : Script.Calls κ} {i : Interpreter κ} {script : Script}
    {after : Scopes κ} {report : Report Failure (Value κ)}
    (h : i.scopes.exec calls 1 script = some (after, report)) : after.own 0 = i.globals := by
  rw [Scopes.own_exec_of_ne (by decide) h]
  rfl

end Interpreter
end Wanda

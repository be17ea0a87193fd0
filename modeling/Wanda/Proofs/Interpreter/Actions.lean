import Wanda.Proofs.Interpreter.Evaluation

/-!
Evaluation as a row of actions on a stack of values, one after the other in the order of the text.
Here hashes are built by insertion, key by key, so that a key which no hash can take would show.
The value of a script is what its actions come to, and they never come to such a key.
-/
namespace Wanda

variable {κ : Type}

namespace Attempt

variable {ε δ α β : Type}

theorem bind_done (x : Attempt ε α) : (x >>= done) = x := by
  obtain ⟨_ | ⟨log, _ | a⟩⟩ := x
  · rfl
  · rfl
  · simp [bind, andThen, done, Report.after]

theorem report?_bind_done (x : Attempt ε α) (f : α → β) :
    (x >>= fun a => done (f a)).report? = x.report?.map fun r => ⟨r.log, r.result.map f⟩ := by
  obtain ⟨_ | ⟨log, _ | a⟩⟩ := x
  · rfl
  · rfl
  · simp [bind, andThen, done, Report.after, Except.map]

theorem report?_bind_of_ok {x : Attempt ε α} {log : List Message} {a : α}
    (h : x.report? = some ⟨log, .ok a⟩) (f : α → Attempt ε β) :
    (x >>= f).report? = (f a).report?.map (·.after log) := by
  simp only [bind, andThen, h]

theorem report?_bind_eq_ok_iff {x : Attempt ε α} {f : α → Attempt ε β} {log : List Message}
    {b : β} : (x >>= f).report? = some ⟨log, .ok b⟩ ↔ ∃ said a told,
      x.report? = some ⟨said, .ok a⟩ ∧ (f a).report? = some ⟨told, .ok b⟩ ∧ log = said ++ told := by
  constructor
  · intro h
    obtain ⟨_ | ⟨said, _ | a⟩⟩ := x
    · cases h
    · cases h
    · obtain ⟨⟨told, result⟩, hf, hr⟩ := Option.map_eq_some_iff.mp h
      cases hr
      exact ⟨said, a, told, rfl, hf, rfl⟩
  · rintro ⟨said, a, told, hx, hf, rfl⟩
    rw [report?_bind_of_ok hx, hf]
    rfl

theorem report?_bind_eq_error {x : Attempt ε α} {f : α → Attempt ε β} {log : List Message} {e : ε}
    (h : (x >>= f).report? = some ⟨log, .error e⟩) :
    x.report? = some ⟨log, .error e⟩ ∨ ∃ said a told, x.report? = some ⟨said, .ok a⟩ ∧
      (f a).report? = some ⟨told, .error e⟩ := by
  obtain ⟨_ | ⟨said, _ | a⟩⟩ := x
  · cases h
  · cases h
    exact .inl rfl
  · obtain ⟨⟨told, result⟩, hf, hr⟩ := Option.map_eq_some_iff.mp h
    cases hr
    exact .inr ⟨said, a, told, rfl, hf⟩

end Attempt

namespace Script

/-- One thing that is done in evaluating a script. -/
inductive Action (κ : Type) where
  | push (v : Value κ)
  | lookUp (name : String)
  /-- Add the value on top to the array under it. -/
  | append
  /-- See that the value on top can be a key. -/
  | checkKey
  /-- Put the value on top under the key below it into the hash below that. -/
  | insert
  /-- Call what is below the array of its arguments. -/
  | call
  | bind (name : String)
  /-- Mark the value on top as the one to end the script with. -/
  | wrap
  /-- End a statement. -/
  | settle

mutual

/-- The callee comes before the arguments, and the call after them. -/
def Expr.actions : Expr → List (Action κ)
  | .name s => [.lookUp s]
  | .int n => [.push (.int n)]
  | .str s => [.push (.str s)]
  | .bool b => [.push (.bool b)]
  | .null => [.push .null]
  | .array es => .push (.array []) :: listActions es
  | .hash ps => .push (.hash .empty) :: pairActions ps
  | .call f args => f.actions ++ .push (.array []) :: (listActions args ++ [.call])

def Expr.listActions : List Expr → List (Action κ)
  | [] => []
  | e :: es => e.actions ++ .append :: listActions es

/-- The key is checked before the value. -/
def Expr.pairActions : List (Expr × Expr) → List (Action κ)
  | [] => []
  | (k, v) :: ps => k.actions ++ .checkKey :: (v.actions ++ .insert :: pairActions ps)

end

def Statement.actions : Statement → List (Action κ)
  | .binding name e => e.actions ++ [.bind name, .settle]
  | .result e => e.actions ++ [.wrap, .settle]
  | .expr e => e.actions ++ [.settle]

def actions (script : Script) : List (Action κ) :=
  script.flatMap Statement.actions

/-- Where a run stands. Once it is finished, nothing that is left is done. -/
inductive Progress (κ : Type) where
  | running (own : Table String (Value κ)) (last : Value κ) (stack : List (Value κ))
  | finished (own : Table String (Value κ)) (v : Value κ)

/-- The value of the run, if there is nothing more to do. -/
def Progress.value : Progress κ → Value κ
  | .running _ last _ => last
  | .finished _ v => v

inductive Breakdown (κ : Type) where
  | failure (f : Failure)
  /-- A hash was given a key that it cannot take. -/
  | unhashable (k : Value κ)
  /-- The stack does not hold what the action is about. -/
  | stuck

def Action.act (calls : Calls κ) (outer : Names κ) :
    Action κ → Progress κ → Attempt (Breakdown κ) (Progress κ)
  | _, .finished own v => .done (.finished own v)
  | .push v, .running own last stack => .done (.running own last (v :: stack))
  | .lookUp name, .running own last stack =>
    match visible own outer name with
    | some v => .done (.running own last (v :: stack))
    | none => .fail (.failure ⟨.unknownName name, []⟩)
  | .append, .running own last (v :: .array vs :: stack) =>
    .done (.running own last (.array (vs ++ [v]) :: stack))
  | .checkKey, .running own last (k :: stack) =>
    if k.key?.isSome then .done (.running own last (k :: stack))
    else .fail (.failure ⟨.notAKey k.text, []⟩)
  | .insert, .running own last (v :: k :: .hash t :: stack) =>
    match Value.put t k v with
    | .ok t => .done (.running own last (.hash t :: stack))
    | .error w => .fail (.unhashable w)
  | .call, .running own last (.array args :: callee :: stack) =>
    match callee with
    | .builtin b => (calls b args).mapError .failure >>= fun v =>
      .done (.running own last (v :: stack))
    | _ => .fail (.failure ⟨.notAFunction callee.text, []⟩)
  | .bind name, .running own last (v :: stack) =>
    .done (.running (own.insert name v) last (.null :: stack))
  | .wrap, .running own last (v :: stack) => .done (.running own last (.returning v :: stack))
  | .settle, .running own _ (v :: stack) =>
    match v with
    | .returning w => .done (.finished own w)
    | _ => .done (.running own v stack)
  | _, _ => .fail .stuck

def perform (calls : Calls κ) (outer : Names κ) :
    List (Action κ) → Progress κ → Attempt (Breakdown κ) (Progress κ)
  | [], p => .done p
  | a :: rest, p => a.act calls outer p >>= perform calls outer rest

section
variable (calls : Calls κ) (outer : Names κ)

theorem perform_append (before after : List (Action κ)) (p : Progress κ) :
    perform calls outer (before ++ after) p =
      perform calls outer before p >>= perform calls outer after := by
  induction before generalizing p with
  | nil => simp [perform]
  | cons a before ih =>
    rw [List.cons_append, perform, perform, Attempt.bind_assoc]
    congr 1
    funext q
    exact ih q

theorem perform_singleton (a : Action κ) (p : Progress κ) :
    perform calls outer [a] p = a.act calls outer p := by
  rw [perform]
  exact Attempt.bind_done _

theorem perform_finished (as : List (Action κ)) (own : Table String (Value κ)) (v : Value κ) :
    perform calls outer as (.finished own v) = .done (.finished own v) := by
  induction as with
  | nil => rfl
  | cons a as ih =>
    have ha : a.act calls outer (.finished own v) = .done (.finished own v) := by
      cases a <;> rfl
    rw [perform, ha, Attempt.done_bind, ih]

variable (own : Table String (Value κ)) (last : Value κ)

mutual

/-- The actions of an expression leave its value on the stack. -/
theorem Expr.perform_actions (e : Expr) (stack : List (Value κ)) :
    perform calls outer e.actions (.running own last stack) =
      (e.eval calls (visible own outer)).mapError .failure >>= fun v =>
        .done (.running own last (v :: stack)) := by
  match e with
  | .name s =>
    rw [actions, eval, perform, Action.act]
    cases visible own outer s with
    | none => rfl
    | some v => rfl
  | .int _ => rfl
  | .str _ => rfl
  | .bool _ => rfl
  | .null => rfl
  | .array es =>
    rw [actions, perform, Action.act, Attempt.done_bind, Expr.perform_listActions es, eval,
      Attempt.mapError_bind, Attempt.bind_assoc]
    rfl
  | .hash ps =>
    rw [actions, perform, Action.act, Attempt.done_bind, Expr.perform_pairActions ps, eval,
      Attempt.mapError_bind, Attempt.bind_assoc]
    rfl
  | .call f args =>
    rw [actions, perform_append, Expr.perform_actions f, eval, Attempt.mapError_bind,
      Attempt.bind_assoc, Attempt.bind_assoc]
    congr 1
    funext callee
    rw [Attempt.done_bind, perform, Action.act, Attempt.done_bind, perform_append,
      Expr.perform_listActions args, Attempt.mapError_bind, Attempt.bind_assoc, Attempt.bind_assoc]
    congr 1
    funext ws
    rw [Attempt.done_bind, List.nil_append]
    cases callee with
    | builtin b => exact perform_singleton calls outer _ _
    | _ => rfl

theorem Expr.perform_listActions (es : List Expr) (vs stack : List (Value κ)) :
    perform calls outer (listActions es) (.running own last (.array vs :: stack)) =
      (evalList calls (visible own outer) es).mapError .failure >>= fun ws =>
        .done (.running own last (.array (vs ++ ws) :: stack)) := by
  match es with
  | [] => simp [listActions, evalList, perform]
  | e :: es =>
    rw [listActions, perform_append, Expr.perform_actions e, evalList, Attempt.mapError_bind,
      Attempt.bind_assoc, Attempt.bind_assoc]
    congr 1
    funext v
    rw [Attempt.done_bind, perform, Action.act, Attempt.done_bind, Expr.perform_listActions es,
      Attempt.mapError_bind, Attempt.bind_assoc]
    simp

/-- The pairs of a hash are inserted in their order. -/
theorem Expr.perform_pairActions (ps : List (Expr × Expr)) (t : Table Key (Value κ))
    (stack : List (Value κ)) :
    perform calls outer (pairActions ps) (.running own last (.hash t :: stack)) =
      (evalPairs calls (visible own outer) ps).mapError .failure >>= fun es =>
        .done (.running own last
          (.hash (es.foldl (fun t e => t.insert e.1 e.2) t) :: stack)) := by
  match ps with
  | [] => simp [pairActions, evalPairs, perform]
  | (k, v) :: ps =>
    rw [pairActions, perform_append, Expr.perform_actions k, evalPairs, Attempt.mapError_bind,
      Attempt.bind_assoc, Attempt.bind_assoc]
    congr 1
    funext kv
    rw [Attempt.done_bind, perform, Action.act]
    cases hk : kv.key? with
    | none => rfl
    | some key =>
      rw [Option.isSome_some, if_pos rfl, Attempt.done_bind, perform_append,
        Expr.perform_actions v]
      simp only [Attempt.mapError_bind, Attempt.bind_assoc]
      congr 1
      funext w
      have hp : Value.put t kv w = .ok (t.insert key w) := by rw [Value.put, hk]
      rw [Attempt.done_bind, perform, Action.act, hp]
      simp only [Attempt.done_bind, Expr.perform_pairActions ps]
      simp

end

/-- Where a statement leaves the run. -/
def Effect.progress (own : Table String (Value κ)) : Effect κ → Progress κ
  | .bind name v => .running (own.insert name v) .null []
  | .finish v => .finished own v
  | .yield v => .running own v []

theorem Statement.perform_actions (s : Statement) :
    perform calls outer s.actions (.running own last []) =
      (s.operand.eval calls (visible own outer)).mapError .failure >>= fun v =>
        .done ((s.effect v).progress own) := by
  have ho (as : List (Action κ)) : perform calls outer (s.operand.actions ++ as)
      (.running own last []) = (s.operand.eval calls (visible own outer)).mapError .failure >>=
        fun v => perform calls outer as (.running own last [v]) := by
    rw [perform_append, Expr.perform_actions, Attempt.bind_assoc]
    simp only [Attempt.done_bind]
  cases s with
  | binding name e => exact ho _
  | result e => exact ho _
  | expr e =>
    refine (ho _).trans ?_
    congr 1
    funext v
    cases v <;> rfl

/-- The actions of a script come to its value, and break down only by its failure. -/
theorem perform_actions (script : Script) :
    (perform calls outer (actions script) (.running own last []) >>= fun p => .done p.value) =
      (value calls outer last own script).mapError .failure := by
  induction script generalizing own last with
  | nil => simp [actions, perform, Progress.value]
  | cons s rest ih =>
    have ha : (actions (s :: rest) : List (Action κ)) = s.actions ++ actions rest := rfl
    rw [ha, perform_append, Statement.perform_actions, value_cons, Attempt.mapError_bind,
      Attempt.bind_assoc, Attempt.bind_assoc]
    congr 1
    funext v
    rw [Attempt.done_bind]
    cases s.effect v with
    | bind name w => exact ih _ _
    | finish w =>
      rw [Effect.progress, perform_finished]
      rfl
    | yield w => exact ih _ _

/-- Of all ways to break down there is but that of the script's failure. -/
theorem report?_perform_eq_error_iff {script : Script} {log : List Message} {b : Breakdown κ} :
    (perform calls outer (actions script) (.running own last [])).report? =
        some ⟨log, .error b⟩ ↔
      ∃ f, b = .failure f ∧ (value calls outer last own script).report? = some ⟨log, .error f⟩ := by
  have h := congrArg Attempt.report? (perform_actions calls outer own last script)
  rw [Attempt.report?_bind_done, Attempt.mapError] at h
  constructor
  · intro hp
    rw [hp] at h
    obtain ⟨⟨told, result⟩, hv, hr⟩ := Option.map_eq_some_iff.mp h.symm
    cases result with
    | ok v => cases hr
    | error f =>
      cases hr
      exact ⟨f, rfl, hv⟩
  · rintro ⟨f, rfl, hv⟩
    rw [hv] at h
    obtain ⟨⟨said, result⟩, hp, hr⟩ := Option.map_eq_some_iff.mp h
    cases result with
    | ok p => cases hr
    | error b =>
      cases hr
      exact hp

end

end Script
end Wanda

import Wanda.Proofs.Interpreter.Actions
import Wanda.Proofs.Runner.Slot

/-!
Where the error of a run comes from. A script fails by the first of its actions that does, with
what that action fails with: for the call of a function this is the function's own failure, contexts
and all. A runner tells failures of a stage from all others by the cause, whatever is around it.
-/
namespace Wanda

variable {κ : Type}

namespace Script

/-- What an action fails with where the run stands. -/
inductive Action.Fails (calls : Calls κ) (outer : Names κ) :
    Action κ → Progress κ → Failure → Prop
  | unknownName {name : String} {own : Table String (Value κ)} {last : Value κ}
      {stack : List (Value κ)} : visible own outer name = none →
      Fails calls outer (.lookUp name) (.running own last stack) ⟨.unknownName name, []⟩
  | notAKey {own : Table String (Value κ)} {last k : Value κ} {stack : List (Value κ)} :
      k.key? = none →
      Fails calls outer .checkKey (.running own last (k :: stack)) ⟨.notAKey k.text, []⟩
  | notAFunction {own : Table String (Value κ)} {last callee : Value κ}
      {args stack : List (Value κ)} : (∀ b, callee ≠ .builtin b) →
      Fails calls outer .call (.running own last (.array args :: callee :: stack))
        ⟨.notAFunction callee.text, []⟩
  | called {own : Table String (Value κ)} {last : Value κ} {b : Builtin κ}
      {args stack : List (Value κ)} {log : List Message} {f : Failure} :
      (calls b args).report? = some ⟨log, .error f⟩ →
      Fails calls outer .call (.running own last (.array args :: .builtin b :: stack)) f

/-- All actions of the script up to some action are done, and that one fails. -/
def FirstFailure (calls : Calls κ) (outer : Names κ) (own : Table String (Value κ))
    (script : Script) (f : Failure) : Prop :=
  ∃ before a after log p, actions script = before ++ a :: after ∧
    (perform calls outer before (.running own .null [])).report? = some ⟨log, .ok p⟩ ∧
    a.Fails calls outer p f

section
variable {calls : Calls κ} {outer : Names κ}

theorem Action.Fails.exists_report? {a : Action κ} {p : Progress κ} {f : Failure}
    (h : a.Fails calls outer p f) :
    ∃ log, (a.act calls outer p).report? = some ⟨log, .error (.failure f)⟩ := by
  cases h with
  | unknownName hn =>
    rw [Action.act, hn]
    exact ⟨[], rfl⟩
  | notAKey hk =>
    rw [Action.act, hk]
    exact ⟨[], rfl⟩
  | @notAFunction _ _ callee _ _ hb =>
    cases callee with
    | builtin b => exact absurd rfl (hb b)
    | _ => exact ⟨[], rfl⟩
  | @called _ _ _ _ _ log _ hc =>
    refine ⟨log, ?_⟩
    simp only [Action.act]
    rw [Attempt.report?_bind_done, Attempt.mapError, hc]
    rfl

theorem Action.fails_of_report? {a : Action κ} {p : Progress κ} {f : Failure}
    {log : List Message} (h : (a.act calls outer p).report? = some ⟨log, .error (.failure f)⟩) :
    a.Fails calls outer p f := by
  unfold Action.act at h
  split at h
  case h_3 name own last stack =>
    cases hv : visible own outer name with
    | none =>
      rw [hv] at h
      cases h
      exact .unknownName hv
    | some v =>
      rw [hv] at h
      cases h
  case h_5 own last k stack =>
    split at h
    · cases h
    case isFalse hk =>
      cases h
      exact .notAKey (by simpa using hk)
  case h_6 => split at h <;> cases h
  case h_7 own last args callee stack =>
    split at h
    case h_1 b =>
      rw [Attempt.report?_bind_done, Attempt.mapError, Option.map_map] at h
      obtain ⟨⟨told, result⟩, hc, hr⟩ := Option.map_eq_some_iff.mp h
      cases result with
      | ok v => cases hr
      | error g =>
        cases hr
        exact .called hc
    case h_2 hb =>
      cases h
      exact .notAFunction hb
  case h_10 => split at h <;> cases h
  all_goals cases h

theorem exists_first_of_perform {as : List (Action κ)} {p : Progress κ} {log : List Message}
    {b : Breakdown κ} (h : (perform calls outer as p).report? = some ⟨log, .error b⟩) :
    ∃ before a after said q told, as = before ++ a :: after ∧
      (perform calls outer before p).report? = some ⟨said, .ok q⟩ ∧
      (a.act calls outer q).report? = some ⟨told, .error b⟩ := by
  induction as generalizing p log with
  | nil => cases h
  | cons a as ih =>
    rw [perform] at h
    rcases Attempt.report?_bind_eq_error h with ha | ⟨said, q, told, ha, hp⟩
    · exact ⟨[], a, as, [], p, log, rfl, rfl, ha⟩
    · obtain ⟨before, c, after, heard, t, cried, rfl, hb, hc⟩ := ih hp
      refine ⟨a :: before, c, after, said ++ heard, t, cried, rfl, ?_, hc⟩
      rw [perform, Attempt.report?_bind_of_ok ha, hb]
      rfl

theorem report?_perform_of_first {before : List (Action κ)} {a : Action κ} {p q : Progress κ}
    {said told : List Message} {b : Breakdown κ}
    (hp : (perform calls outer before p).report? = some ⟨said, .ok q⟩)
    (ha : (a.act calls outer q).report? = some ⟨told, .error b⟩) (after : List (Action κ)) :
    (perform calls outer (before ++ a :: after) p).report? = some ⟨said ++ told, .error b⟩ := by
  have hc : (perform calls outer (a :: after) q).report? = some ⟨told, .error b⟩ := by
    rw [perform]
    simp only [bind, Attempt.andThen, ha]
  rw [perform_append, Attempt.report?_bind_of_ok hp, hc]
  rfl

end

theorem exists_exec_eq_error_iff {calls : Calls κ} {outer : Names κ}
    {own : Table String (Value κ)} {script : Script} {f : Failure} :
    (∃ bindings log, exec calls outer own script = some ⟨bindings, ⟨log, .error f⟩⟩) ↔
      ∃ log, (value calls outer .null own script).report? = some ⟨log, .error f⟩ := by
  simp only [value, Option.map_eq_some_iff, exec]
  constructor
  · intro h
    obtain ⟨bindings, log, ho⟩ := h
    exact ⟨log, _, ho, rfl⟩
  · intro h
    obtain ⟨log, ⟨bindings, report⟩, ho, rfl⟩ := h
    exact ⟨bindings, log, ho⟩

/-- A script fails exactly by its first failure. -/
theorem exec_eq_error_iff {calls : Calls κ} {outer : Names κ} {own : Table String (Value κ)}
    {script : Script} {f : Failure} :
    (∃ bindings log, exec calls outer own script = some ⟨bindings, ⟨log, .error f⟩⟩) ↔
      FirstFailure calls outer own script f := by
  rw [exists_exec_eq_error_iff]
  constructor
  · intro h
    obtain ⟨log, hv⟩ := h
    have hp := (report?_perform_eq_error_iff calls outer own .null).mpr ⟨f, rfl, hv⟩
    obtain ⟨before, a, after, said, p, told, hs, hb, ha⟩ := exists_first_of_perform hp
    exact ⟨before, a, after, said, p, hs, hb, Action.fails_of_report? ha⟩
  · intro h
    obtain ⟨before, a, after, said, p, hs, hb, ha⟩ := h
    obtain ⟨told, ha⟩ := ha.exists_report?
    have hp := report?_perform_of_first hb ha after
    rw [← hs] at hp
    obtain ⟨g, hg, hv⟩ := (report?_perform_eq_error_iff calls outer own .null).mp hp
    cases hg
    exact ⟨_, hv⟩

end Script

/-- A cause under contexts, the innermost of which is put around it first. -/
def Failure.wrapped (contexts : List String) (cause : Cause) : Failure :=
  contexts.foldr Failure.within ⟨cause, []⟩

theorem Failure.wrapped_eq (contexts : List String) (cause : Cause) :
    wrapped contexts cause = ⟨cause, contexts⟩ := by
  induction contexts with
  | nil => rfl
  | cons context contexts ih => rw [wrapped, List.foldr_cons, ← wrapped, ih, within]

namespace Runner
open Script

/-- How a failure of the driver is told: that of a stage by its message alone, any other as the
whole chain of contexts down to the cause. -/
inductive Told : Failure → RunError → Prop
  | parse (contexts : List String) (m : String) :
      Told (.wrapped contexts (.stage (.parse m))) (.parse m)
  | evaluation (contexts : List String) (m : String) :
      Told (.wrapped contexts (.stage (.evaluation m))) (.evaluation m)
  | other (contexts : List String) {cause : Cause} : (∀ e, cause ≠ .stage e) →
      Told (.wrapped contexts cause) (.embedded (": ".intercalate (contexts ++ [cause.text])))

theorem told_iff {f : Failure} {e : RunError} : Told f e ↔ e = .ofFailure f := by
  constructor
  · intro h
    cases h with
    | parse contexts m => rw [Failure.wrapped_eq, RunError.ofFailure]
    | evaluation contexts m => rw [Failure.wrapped_eq, RunError.ofFailure]
    | @other contexts cause hc =>
      rw [Failure.wrapped_eq]
      cases cause with
      | stage e => exact absurd rfl (hc e)
      | _ => rfl
  · intro h
    obtain ⟨cause, contexts⟩ := f
    rw [← Failure.wrapped_eq]
    subst h
    cases cause with
    | stage e =>
      cases e with
      | parse m => exact .parse contexts m
      | evaluation m => exact .evaluation contexts m
    | _ =>
      refine .other contexts ?_
      intro e he
      cases he

/-- The driver came to a value that is no text. -/
def EndsWithoutText (host : Host κ) (fuel : Nat) (r : Runner κ) (source : String) (e : RunError) :
    Prop :=
  ∃ log v, ((r.hold source).interpreter.exec (host.calls fuel (r.hold source))
      r.driver).report? = some ⟨log, .ok v⟩ ∧ (∀ s, v ≠ .str s) ∧
    e = .embedded ("driver returned " ++ v.typeName ++ " instead of string")

theorem verdict_eq_error_iff {result : Except Failure (Value κ)} {e : RunError} :
    verdict result = .error e ↔ (∃ f, result = .error f ∧ Told f e) ∨
      ∃ v, result = .ok v ∧ (∀ s, v ≠ .str s) ∧
        e = .embedded ("driver returned " ++ v.typeName ++ " instead of string") := by
  simp only [told_iff]
  cases result with
  | error f => simp [verdict, eq_comm]
  | ok v => cases v <;> simp [verdict, eq_comm]

/--
A script fails with what the first of its actions that fails does so with, and a runner tells that
failure, or says that there was no text in the end.
-/
theorem first_failure_is_told (host : Host κ) (fuel : Nat) {r : Runner κ} (hr : r.busy = false)
    (source : String) :
    (∀ (calls : Calls κ) (outer : Names κ) (own : Table String (Value κ)) (script : Script)
      (f : Failure),
      (∃ bindings log, Script.exec calls outer own script = some ⟨bindings, ⟨log, .error f⟩⟩) ↔
        FirstFailure calls outer own script f) ∧
    ∀ e, (∃ next log, r.execute host fuel source = some (next, ⟨log, .error e⟩)) ↔
      (∃ f, FirstFailure (host.calls fuel (r.hold source))
        (r.hold source).interpreter.global? .empty r.driver f ∧ Told f e) ∨
      EndsWithoutText host fuel r source e := by
  refine ⟨fun calls outer own script f => exec_eq_error_iff, ?_⟩
  intro e
  simp only [← exec_eq_error_iff, exists_exec_eq_error_iff, ← exec_eq_value, EndsWithoutText]
  rw [execute_of_idle hr, report?_drive, driver_hold]
  generalize ((r.hold source).interpreter.exec (host.calls fuel (r.hold source))
    r.driver).report? = x
  cases x with
  | none => simp
  | some report =>
    obtain ⟨log, result⟩ := report
    simp [verdict_eq_error_iff]

/-- A host whose one function fails as a stage does, under two contexts. -/
def refusing : Host Unit where
  call := fun _ _ _ => .fail ⟨.stage (.parse "bad"), ["outer", "inner"]⟩
  listing := .ascending

/-- The driver calls what is no function, but looks for the arguments first. -/
def lateCheck : Runner Unit where
  interpreter := ⟨.ofList [("refuse", .builtin (.host ()))]⟩
  driver :=
    [.binding "x" (.int 5), .expr (.call (.name "x") [.call (.name "refuse") [], .name "y"])]

theorem first_failure_is_told_late :
    FirstFailure (refusing.calls 1 (lateCheck.hold "$"))
        (lateCheck.hold "$").interpreter.global? .empty lateCheck.driver
        ⟨.stage (.parse "bad"), ["outer", "inner"]⟩ ∧
      ∃ next log, lateCheck.execute refusing 1 "$" = some (next, ⟨log, .error (.parse "bad")⟩) := by
  obtain ⟨hs, he⟩ := first_failure_is_told refusing 1 (r := lateCheck) rfl "$"
  have hf : FirstFailure (refusing.calls 1 (lateCheck.hold "$"))
      (lateCheck.hold "$").interpreter.global? .empty lateCheck.driver
      ⟨.stage (.parse "bad"), ["outer", "inner"]⟩ := (hs _ _ _ _ _).mp ⟨_, _, rfl⟩
  exact ⟨hf, (he _).mpr (.inl ⟨_, hf, .parse ["outer", "inner"] "bad"⟩)⟩

end Runner
end Wanda

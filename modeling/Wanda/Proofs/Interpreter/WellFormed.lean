import Wanda.Interpreter.Stages
import Wanda.Proofs.Interpreter.Actions
import Wanda.Proofs.Interpreter.FreshScope
import Wanda.Proofs.Table

/-!
Values that may stand in a scope. A value on its way out of a script is none, at whatever depth it
is, and evaluation makes no such value out of others: the marking of a result is taken off where
the script ends.
-/
namespace Wanda

variable {κ : Type}

/--
No part of the value is on its way out of a script, and the functions in it are safe. The keys of
hashes are integers, strings and booleans by their type.
-/
inductive Value.WellFormed (safe : Builtin κ → Prop) : Value κ → Prop
  | int (n : Int64) : WellFormed safe (.int n)
  | str (s : String) : WellFormed safe (.str s)
  | bool (b : Bool) : WellFormed safe (.bool b)
  | null : WellFormed safe .null
  | array {vs : List (Value κ)} : (∀ v ∈ vs, WellFormed safe v) → WellFormed safe (.array vs)
  | hash {t : Table Key (Value κ)} :
      (∀ e ∈ t.entries, WellFormed safe e.2) → WellFormed safe (.hash t)
  | builtin {f : Builtin κ} : safe f → WellFormed safe (.builtin f)

theorem Value.wellFormed_ofAtoms (safe : Builtin κ → Prop) (atoms : List Atom) :
    (Value.ofAtoms atoms).WellFormed safe := by
  refine .array ?_
  intro v hv
  obtain ⟨a, -, rfl⟩ := List.mem_map.mp hv
  exact .str a

namespace Attempt

variable {ε α β : Type}

/-- If the attempt comes to a value, the value has the property. -/
def Ensures (p : α → Prop) (x : Attempt ε α) : Prop :=
  ∀ log a, x.report? = some ⟨log, .ok a⟩ → p a

theorem ensures_done {p : α → Prop} {a : α} (h : p a) : (done a : Attempt ε α).Ensures p := by
  intro log b hb
  cases hb
  exact h

theorem ensures_fail (p : α → Prop) (e : ε) : (fail e : Attempt ε α).Ensures p := by
  intro log b hb
  cases hb

theorem Ensures.bind {p : α → Prop} {q : β → Prop} {x : Attempt ε α} {f : α → Attempt ε β}
    (hx : x.Ensures p) (hf : ∀ a, p a → (f a).Ensures q) : (x >>= f).Ensures q := by
  intro log b hb
  obtain ⟨_ | ⟨said, _ | a⟩⟩ := x
  · cases hb
  · cases hb
  · obtain ⟨⟨told, result⟩, hr, he⟩ := Option.map_eq_some_iff.mp hb
    cases he
    exact hf a (hx said a rfl) told b hr

theorem ensures_bind {q : β → Prop} {f : α → Attempt ε β} (x : Attempt ε α)
    (hf : ∀ a, (f a).Ensures q) : (x >>= f).Ensures q :=
  Ensures.bind (p := fun _ => True) (fun _ _ _ => trivial) fun a _ => hf a

end Attempt

namespace Script

/-- Safe functions make well-formed values of well-formed values, if they do not fail. -/
def Calls.Keep (safe : Builtin κ → Prop) (calls : Calls κ) : Prop :=
  ∀ f, safe f → ∀ args : List (Value κ), (∀ v ∈ args, v.WellFormed safe) →
    (calls f args).Ensures (·.WellFormed safe)

section
variable {safe : Builtin κ → Prop} {calls : Calls κ}

/-- Every value that a name stands for is well formed. -/
def Names.WellFormed (safe : Builtin κ → Prop) (names : Names κ) : Prop :=
  ∀ name v, names name = some v → v.WellFormed safe

mutual

theorem Expr.ensures_eval (hc : calls.Keep safe) {names : Names κ}
    (hn : names.WellFormed safe) (e : Expr) :
    (e.eval calls names).Ensures (·.WellFormed safe) := by
  match e with
  | .name s =>
    rw [eval]
    cases hs : names s with
    | none => exact Attempt.ensures_fail _ _
    | some v => exact Attempt.ensures_done (hn s v hs)
  | .int n => exact Attempt.ensures_done (.int n)
  | .str s => exact Attempt.ensures_done (.str s)
  | .bool b => exact Attempt.ensures_done (.bool b)
  | .null => exact Attempt.ensures_done .null
  | .array es =>
    rw [eval]
    refine (Expr.ensures_evalList hc hn es).bind ?_
    intro vs hvs
    exact Attempt.ensures_done (.array hvs)
  | .hash ps =>
    rw [eval]
    refine (Expr.ensures_evalPairs hc hn ps).bind ?_
    intro es hes
    exact Attempt.ensures_done (.hash (Table.forall_ofList hes))
  | .call f args =>
    rw [eval]
    refine (Expr.ensures_eval hc hn f).bind ?_
    intro callee hf
    refine (Expr.ensures_evalList hc hn args).bind ?_
    intro vs hvs
    cases hf with
    | builtin hs => exact hc _ hs vs hvs
    | _ => exact Attempt.ensures_fail _ _

theorem Expr.ensures_evalList (hc : calls.Keep safe) {names : Names κ}
    (hn : names.WellFormed safe) (es : List Expr) :
    (evalList calls names es).Ensures (∀ v ∈ ·, v.WellFormed safe) := by
  match es with
  | [] => exact Attempt.ensures_done (by simp)
  | e :: es =>
    rw [evalList]
    refine (Expr.ensures_eval hc hn e).bind ?_
    intro v hv
    refine (Expr.ensures_evalList hc hn es).bind ?_
    intro vs hvs
    exact Attempt.ensures_done (List.forall_mem_cons.mpr ⟨hv, hvs⟩)

theorem Expr.ensures_evalPairs (hc : calls.Keep safe) {names : Names κ}
    (hn : names.WellFormed safe) (ps : List (Expr × Expr)) :
    (evalPairs calls names ps).Ensures (∀ e ∈ ·, e.2.WellFormed safe) := by
  match ps with
  | [] => exact Attempt.ensures_done (by simp)
  | (k, v) :: ps =>
    rw [evalPairs]
    refine Attempt.ensures_bind _ ?_
    intro kv
    cases kv.key? with
    | none => exact Attempt.ensures_fail _ _
    | some key =>
      refine (Expr.ensures_eval hc hn v).bind ?_
      intro w hw
      refine (Expr.ensures_evalPairs hc hn ps).bind ?_
      intro es hes
      exact Attempt.ensures_done (List.forall_mem_cons.mpr ⟨hw, hes⟩)

end

theorem wellFormed_visible {own : Table String (Value κ)} {outer : Names κ}
    (hw : own.Forall (·.WellFormed safe)) (ho : outer.WellFormed safe) :
    Names.WellFormed safe (visible own outer) := by
  intro name v hv
  cases hg : own.get? name with
  | none =>
    rw [visible, hg] at hv
    exact ho name v hv
  | some w =>
    rw [visible, hg] at hv
    cases hv
    exact hw.of_get? hg

/-- A run leaves well-formed bindings, however it ends, and ends with a well-formed value. -/
structure Outcome.WellFormed (safe : Builtin κ → Prop) (o : Outcome κ) : Prop where
  bindings : o.bindings.Forall (·.WellFormed safe)
  value : ∀ v, o.report.result = .ok v → v.WellFormed safe

theorem Outcome.WellFormed.after {o : Outcome κ} (h : o.WellFormed safe) (log : List Message) :
    Outcome.WellFormed safe { o with report := o.report.after log } :=
  ⟨h.bindings, h.value⟩

theorem wellFormed_of_execFrom (hc : calls.Keep safe) {outer : Names κ}
    (ho : outer.WellFormed safe) {script : Script} {last : Value κ}
    {own : Table String (Value κ)} {o : Outcome κ} (hl : last.WellFormed safe)
    (hw : own.Forall (·.WellFormed safe)) (h : execFrom calls outer last own script = some o) :
    o.WellFormed safe := by
  induction script generalizing last own o with
  | nil =>
    cases h
    refine ⟨hw, ?_⟩
    intro v hv
    cases hv
    exact hl
  | cons s rest ih =>
    have he := Expr.ensures_eval hc (wellFormed_visible hw ho) s.operand
    rw [execFrom] at h
    split at h
    case h_1 => cases h
    case h_2 =>
      cases h
      refine ⟨hw, ?_⟩
      intro v hv
      cases hv
    case h_3 log v hr =>
      have hv := he log v hr
      cases s with
      | binding name e =>
        obtain ⟨o, ho, rfl⟩ := Option.map_eq_some_iff.mp h
        exact (ih .null (hw.insert name hv) ho).after log
      | result e =>
        cases h
        refine ⟨hw, ?_⟩
        intro w hw
        cases hw
        exact hv
      | expr e =>
        have hy : (Statement.expr e).effect v = .yield v := by cases hv <;> rfl
        rw [hy] at h
        obtain ⟨o, ho, rfl⟩ := Option.map_eq_some_iff.mp h
        exact (ih hv hw ho).after log

end

end Script

namespace Scopes

/-- Every binding of every scope is well formed. -/
def WellFormed (safe : Builtin κ → Prop) (scopes : Scopes κ) : Prop :=
  ∀ s ∈ scopes, s.bindings.Forall (·.WellFormed safe)

variable {safe : Builtin κ → Prop} {scopes : Scopes κ}

theorem mem_of_scope? {i : Nat} {s : Scope κ} (h : scopes.scope? i = some s) : s ∈ scopes := by
  induction scopes with
  | nil => cases h
  | cons t older ih =>
    rw [scope?] at h
    split_ifs at h with hi
    · cases h
      exact List.mem_cons_self
    · exact List.mem_cons_of_mem t (ih h)

theorem WellFormed.own (h : WellFormed safe scopes) (i : Nat) :
    (scopes.own i).Forall (·.WellFormed safe) := by
  unfold Scopes.own
  cases hs : scopes.scope? i with
  | none => exact Table.forall_empty _
  | some s => exact h s (mem_of_scope? hs)

theorem WellFormed.get? (h : WellFormed safe scopes) {i : Nat} {name : String} {v : Value κ}
    (hv : Scopes.get? name scopes i = some v) : v.WellFormed safe := by
  induction scopes generalizing i with
  | nil => cases hv
  | cons s older ih =>
    obtain ⟨hs, ho⟩ := List.forall_mem_cons.mp h
    rw [Scopes.get?] at hv
    split_ifs at hv with hi
    · cases hg : s.bindings.get? name with
      | none =>
        rw [hg] at hv
        obtain ⟨o, -, hv⟩ := Option.bind_eq_some_iff.mp hv
        exact ih ho hv
      | some w =>
        rw [hg] at hv
        cases hv
        exact hs.of_get? hg
    · exact ih ho hv

theorem WellFormed.around (h : WellFormed safe scopes) (i : Nat) :
    Script.Names.WellFormed safe (scopes.around i) := by
  intro name v hv
  obtain ⟨s, -, hv⟩ := Option.bind_eq_some_iff.mp hv
  obtain ⟨o, -, hv⟩ := Option.bind_eq_some_iff.mp hv
  exact h.get? hv

theorem WellFormed.update (h : WellFormed safe scopes) {t : Table String (Value κ)}
    (ht : t.Forall (·.WellFormed safe)) (i : Nat) :
    WellFormed safe (scopes.update (fun _ => t) i) := by
  induction scopes with
  | nil => exact h
  | cons s older ih =>
    obtain ⟨hs, ho⟩ := List.forall_mem_cons.mp h
    rw [Scopes.update]
    split_ifs with hi
    · exact List.forall_mem_cons.mpr ⟨ht, ho⟩
    · exact List.forall_mem_cons.mpr ⟨hs, ih ho⟩

theorem WellFormed.exec (h : WellFormed safe scopes) {calls : Script.Calls κ}
    (hc : calls.Keep safe) {i : Nat} {script : Script} {after : Scopes κ}
    {report : Report Failure (Value κ)}
    (he : scopes.exec calls i script = some (after, report)) :
    WellFormed safe after ∧ ∀ v, report.result = .ok v → v.WellFormed safe := by
  obtain ⟨o, ho, hr⟩ := Option.map_eq_some_iff.mp he
  cases hr
  have hw := Script.wellFormed_of_execFrom hc (h.around i) .null (h.own i) ho
  exact ⟨h.update hw.bindings i, hw.value⟩

end Scopes

namespace Stages

variable (safe : Builtin κ → Prop) (args : List (Value κ))

theorem ensures_parse : (parse args).Ensures (·.WellFormed safe) := by
  unfold parse
  split
  · split
    · exact Attempt.ensures_done (Value.wellFormed_ofAtoms safe _)
    · exact Attempt.ensures_fail _ _
  · exact Attempt.ensures_fail _ _
  · exact Attempt.ensures_fail _ _

theorem ensures_evaluate (listing : Table.Listing Key (Value κ)) (fuel : Nat) :
    (evaluate listing fuel args).Ensures (·.WellFormed safe) := by
  have hi (v env : Value κ) : (evaluateIn listing fuel v env).Ensures (·.WellFormed safe) := by
    refine Attempt.ensures_bind _ fun atoms => ?_
    refine Attempt.ensures_bind _ fun options => ?_
    refine Attempt.ensures_bind _ fun rest => ?_
    exact Attempt.ensures_done (Value.wellFormed_ofAtoms safe rest)
  unfold evaluate
  split
  · exact hi _ _
  · exact hi _ _
  · exact Attempt.ensures_fail _ _

theorem ensures_format : (format args).Ensures (·.WellFormed safe) := by
  unfold format
  split
  · exact Attempt.ensures_done (.str _)
  · exact Attempt.ensures_done (.str _)
  · exact Attempt.ensures_fail _ _

/-- A stage never comes to anything but a well-formed value, whatever it is given. -/
theorem ensures_calls (listing : Table.Listing Key (Value κ))
    (host : κ → List (Value κ) → Attempt Failure (Value κ)) (fuel : Nat) {f : Builtin κ}
    (hf : ∀ k, f ≠ .host k) : (calls listing host fuel f args).Ensures (·.WellFormed safe) := by
  cases f with
  | parse => exact ensures_parse safe args
  | evaluate => exact ensures_evaluate safe args listing fuel
  | format => exact ensures_format safe args
  | host k => exact absurd rfl (hf k)

end Stages

namespace Script

/-- What a run of a script in a scope does not do to well-formed values. -/
structure StaysWellFormed (safe : Builtin κ → Prop) (calls : Calls κ) (scopes : Scopes κ) (i : Nat)
    (script : Script) : Prop where
  /-- Every binding of every scope stays well formed, however the run ends. -/
  bindings : ∀ after report, scopes.exec calls i script = some (after, report) →
    Scopes.WellFormed safe after
  /-- The run ends with a well-formed value. -/
  value : ∀ after log v, scopes.exec calls i script = some (after, ⟨log, .ok v⟩) →
    v.WellFormed safe
  /-- What is returned comes without the mark of its being so. -/
  unmarked : ∀ after log v, scopes.exec calls i script ≠ some (after, ⟨log, .ok (.returning v)⟩)
  /-- The run is one in which each key of a hash is inserted after it was found to be usable. -/
  inserted : (scopes.exec calls i script).map
      (fun x => (x.2.log, x.2.result.mapError Breakdown.failure)) =
    (perform calls (scopes.around i) (actions script)
      (.running (scopes.own i) .null [])).report?.map fun x => (x.log, x.result.map Progress.value)
  /-- No hash is given a key that it cannot take. -/
  hashable : ∀ log k, (perform calls (scopes.around i) (actions script)
    (.running (scopes.own i) .null [])).report? ≠ some ⟨log, .error (.unhashable k)⟩

theorem exec_scopes_eq_perform (calls : Calls κ) (scopes : Scopes κ) (i : Nat) (script : Script) :
    (scopes.exec calls i script).map
        (fun x => (x.2.log, x.2.result.mapError Breakdown.failure)) =
      (perform calls (scopes.around i) (actions script)
        (.running (scopes.own i) .null [])).report?.map
          fun x => (x.log, x.result.map Progress.value) := by
  have h := congrArg Attempt.report?
    (perform_actions calls (scopes.around i) (scopes.own i) .null script)
  rw [Attempt.report?_bind_done, Attempt.mapError, Script.value] at h
  have hm := congrArg (Option.map fun x => (x.log, x.result)) h
  simp only [Option.map_map, Function.comp_def] at hm
  rw [hm, Scopes.exec, Option.map_map]
  rfl

theorem staysWellFormed {safe : Builtin κ → Prop} {calls : Calls κ} (hc : calls.Keep safe)
    {scopes : Scopes κ} (hs : Scopes.WellFormed safe scopes) (i : Nat) (script : Script) :
    StaysWellFormed safe calls scopes i script where
  bindings := by
    intro after report he
    exact (hs.exec hc he).1
  value := by
    intro after log v he
    exact (hs.exec hc he).2 v rfl
  unmarked := by
    intro after log v he
    have hv := (hs.exec hc he).2 _ rfl
    cases hv
  inserted := exec_scopes_eq_perform calls scopes i script
  hashable := by
    intro log k hk
    obtain ⟨f, hf, -⟩ := (report?_perform_eq_error_iff _ _ _ _).mp hk
    cases hf

end Script

namespace Interpreter
open Script

theorem ensures_exec {safe : Builtin κ → Prop} {calls : Calls κ} (hc : calls.Keep safe)
    {i : Interpreter κ} (hi : i.globals.Forall (·.WellFormed safe)) (script : Script) :
    (i.exec calls script).Ensures (·.WellFormed safe) := by
  intro log v hv
  rw [exec_eq_exec_scopes] at hv
  obtain ⟨⟨after, report⟩, he, hr⟩ := Option.map_eq_some_iff.mp hv
  cases hr
  have hs : Scopes.WellFormed safe i.scopes := by
    refine List.forall_mem_cons.mpr ⟨Table.forall_empty _, ?_⟩
    exact List.forall_mem_singleton.mpr hi
  exact (hs.exec hc he).2 v rfl

/--
From well-formed bindings, with functions that keep to well-formed values, no script in any scope
comes to a value that is not, and neither does a run of the interpreter. The stages are such
functions, whatever they are given.
-/
theorem no_malformed_value {safe : Builtin κ → Prop} {calls : Calls κ} (hc : calls.Keep safe)
    {scopes : Scopes κ} (hs : Scopes.WellFormed safe scopes) (i : Nat) (script : Script) :
    StaysWellFormed safe calls scopes i script ∧
      (∀ interpreter : Interpreter κ, interpreter.globals.Forall (·.WellFormed safe) →
        (interpreter.exec calls script).Ensures (·.WellFormed safe)) ∧
      ∀ (listing : Table.Listing Key (Value κ))
        (host : κ → List (Value κ) → Attempt Failure (Value κ)) (fuel : Nat) (f : Builtin κ),
        (∀ k, f ≠ .host k) →
          ∀ args, (Stages.calls listing host fuel f args).Ensures (·.WellFormed safe) :=
  ⟨staysWellFormed hc hs i script, fun _ hi => ensures_exec hc hi script,
    fun listing host fuel _ hf args => Stages.ensures_calls safe args listing host fuel hf⟩

/-- A host whose one function marks a value as returned; it is not safe. -/
def marking : Unit → List (Value Unit) → Attempt Failure (Value Unit) :=
  fun _ _ => .done (.returning .null)

def IsStage (f : Builtin Unit) : Prop :=
  ∀ k, f ≠ .host k

/-- Two scopes, of which the first sees the second. -/
def nested : Scopes Unit :=
  [⟨some 0, .ofList [("x", .array [.int 1])]⟩, ⟨none, .ofList [("format", .builtin .format)]⟩]

/-- It binds a hash with two kinds of keys and returns it before it would fail. -/
def returningHash : Script :=
  [.binding "h" (.hash [(.str "k", .call (.name "format") [.name "x"]), (.int 2, .name "x")]),
    .result (.name "h"), .expr (.name "y")]

theorem no_malformed_value_returned :
    (Stages.calls .ascending marking 1).Keep IsStage ∧ Scopes.WellFormed IsStage nested ∧
      ∃ after v, nested.exec (Stages.calls .ascending marking 1) 1 returningHash =
        some (after, ⟨[], .ok v⟩) ∧ v.WellFormed IsStage := by
  have hc : (Stages.calls .ascending marking 1).Keep IsStage := by
    intro f hf args _
    exact Stages.ensures_calls IsStage args .ascending marking 1 hf
  have hs : Scopes.WellFormed IsStage nested := by
    have hx : (Value.array [.int 1] : Value Unit).WellFormed IsStage :=
      .array (List.forall_mem_singleton.mpr (.int 1))
    have hf : (Value.builtin .format : Value Unit).WellFormed IsStage := .builtin nofun
    refine List.forall_mem_cons.mpr ⟨?_, List.forall_mem_singleton.mpr ?_⟩
    · exact Table.forall_ofList (List.forall_mem_singleton.mpr hx)
    · exact Table.forall_ofList (List.forall_mem_singleton.mpr hf)
  have hw := (no_malformed_value hc hs 1 returningHash).1
  exact ⟨hc, hs, _, _, rfl, hw.value _ _ _ rfl⟩

end Interpreter
end Wanda

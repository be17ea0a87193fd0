import Wanda.Proofs.Interpreter.Evaluation

/-!
The names that a script reads from outside: those in its expressions that it did not bind before.
What other names stand for does not matter to a run.
-/
namespace Wanda.Script

variable {κ : Type}

mutual

/-- The names that occur in an expression. -/
def Expr.names : Expr → List String
  | .name s => [s]
  | .int _ | .str _ | .bool _ | .null => []
  | .array es => listNames es
  | .hash ps => pairNames ps
  | .call f args => f.names ++ listNames args

def Expr.listNames : List Expr → List String
  | [] => []
  | e :: es => e.names ++ listNames es

def Expr.pairNames : List (Expr × Expr) → List String
  | [] => []
  | (k, v) :: ps => k.names ++ v.names ++ pairNames ps

end

/-- The name that a statement binds, if any. -/
def Statement.bound? : Statement → Option String
  | binding name _ => some name
  | result _ => none
  | expr _ => none

/-- The name occurs in the expression of a statement, and no statement before binds it. -/
def Reads (script : Script) (name : String) : Prop :=
  ∃ before s after, script = before ++ s :: after ∧ name ∈ s.operand.names ∧
    ∀ t ∈ before, t.bound? ≠ some name

theorem not_reads_nil (name : String) : ¬ Reads [] name := by
  intro h
  obtain ⟨before, s, after, hs, -⟩ := h
  simp at hs

theorem reads_cons_iff {s : Statement} {rest : Script} {name : String} :
    Reads (s :: rest) name ↔
      name ∈ s.operand.names ∨ s.bound? ≠ some name ∧ Reads rest name := by
  constructor
  · intro h
    obtain ⟨before, t, after, hs, hn, hb⟩ := h
    cases before with
    | nil =>
      cases hs
      exact .inl hn
    | cons u before =>
      cases hs
      rw [List.forall_mem_cons] at hb
      exact .inr ⟨hb.1, before, t, after, rfl, hn, hb.2⟩
  · intro h
    rcases h with hn | ⟨hs, before, t, after, hr, hn, hb⟩
    · exact ⟨[], s, rest, rfl, hn, by simp⟩
    · subst hr
      exact ⟨s :: before, t, after, rfl, hn, List.forall_mem_cons.mpr ⟨hs, hb⟩⟩

instance decidableReads (script : Script) (name : String) : Decidable (Reads script name) :=
  match script with
  | [] => .isFalse (not_reads_nil name)
  | _ :: rest =>
    have := decidableReads rest name
    decidable_of_iff' _ reads_cons_iff

example : Reads [.binding "x" (.name "x")] "x" ∧
    ¬ Reads [.binding "x" .null, .expr (.name "x")] "x" := by
  decide

mutual

/-- The value of an expression depends on the names that occur in it and on no others. -/
theorem Expr.eval_congr (calls : Calls κ) {outer other : Names κ} (e : Expr)
    (h : ∀ name ∈ e.names, outer name = other name) :
    e.eval calls outer = e.eval calls other := by
  match e with
  | .name s =>
    have hs : outer s = other s := h s (by simp [names])
    rw [eval, eval, hs]
  | .int _ => rfl
  | .str _ => rfl
  | .bool _ => rfl
  | .null => rfl
  | .array es => rw [eval, eval, evalList_congr calls es h]
  | .hash ps => rw [eval, eval, evalPairs_congr calls ps h]
  | .call f args =>
    have hf := eval_congr calls f fun name hn => h name (List.mem_append_left _ hn)
    have ha := evalList_congr calls args fun name hn => h name (List.mem_append_right _ hn)
    rw [eval, eval, hf, ha]

theorem Expr.evalList_congr (calls : Calls κ) {outer other : Names κ} (es : List Expr)
    (h : ∀ name ∈ listNames es, outer name = other name) :
    evalList calls outer es = evalList calls other es := by
  match es with
  | [] => rfl
  | e :: es =>
    have he := eval_congr calls e fun name hn => h name (List.mem_append_left _ hn)
    have hes := evalList_congr calls es fun name hn => h name (List.mem_append_right _ hn)
    rw [evalList, evalList, he, hes]

theorem Expr.evalPairs_congr (calls : Calls κ) {outer other : Names κ} (ps : List (Expr × Expr))
    (h : ∀ name ∈ pairNames ps, outer name = other name) :
    evalPairs calls outer ps = evalPairs calls other ps := by
  match ps with
  | [] => rfl
  | (k, v) :: ps =>
    have hkv : ∀ name ∈ k.names ++ v.names, outer name = other name :=
      fun name hn => h name (List.mem_append_left _ hn)
    have hk := eval_congr calls k fun name hn => hkv name (List.mem_append_left _ hn)
    have hv := eval_congr calls v fun name hn => hkv name (List.mem_append_right _ hn)
    have hps := evalPairs_congr calls ps fun name hn => h name (List.mem_append_right _ hn)
    rw [evalPairs, evalPairs, hk, hv, hps]

end

theorem Statement.bound?_of_bind {s : Statement} {v w : Value κ} {name : String}
    (h : s.effect v = .bind name w) : s.bound? = some name := by
  cases s with
  | binding other e =>
    cases h
    rfl
  | result e => cases h
  | expr e => cases v <;> cases h

theorem Statement.bound?_of_yield {s : Statement} {v w : Value κ} (h : s.effect v = .yield w) :
    s.bound? = none := by
  cases s with
  | binding other e => cases h
  | result e => rfl
  | expr e => rfl

/--
Two runs in the same scope differ in nothing if what they see of the names that are still to be
read is the same.
-/
theorem value_congr {calls : Calls κ} {outer other : Names κ} {own : Table String (Value κ)}
    {script : Script} (last : Value κ)
    (h : ∀ name, Reads script name → visible own outer name = visible own other name) :
    value calls outer last own script = value calls other last own script := by
  induction script generalizing last own with
  | nil => rfl
  | cons s rest ih =>
    have he : s.operand.eval calls (visible own outer) =
        s.operand.eval calls (visible own other) :=
      s.operand.eval_congr calls fun name hn => h name (reads_cons_iff.mpr (.inl hn))
    rw [value_cons, value_cons, he]
    congr 1
    funext v
    cases hf : s.effect v with
    | finish w => rfl
    | yield w =>
      refine ih w ?_
      intro name hn
      have hb : s.bound? ≠ some name := by simp [Statement.bound?_of_yield hf]
      exact h name (reads_cons_iff.mpr (.inr ⟨hb, hn⟩))
    | bind bound w =>
      refine ih .null ?_
      intro name hn
      rw [visible_insert, visible_insert]
      by_cases hbn : name = bound
      · rw [if_pos hbn, if_pos hbn]
      · have hb : s.bound? ≠ some name := by
          rw [Statement.bound?_of_bind hf]
          simpa using Ne.symm hbn
        rw [if_neg hbn, if_neg hbn]
        exact h name (reads_cons_iff.mpr (.inr ⟨hb, hn⟩))

/-- Interpreters with the same globals under the names that a script reads run it alike. -/
theorem exec_congr {calls : Calls κ} {i j : Interpreter κ} {script : Script}
    (h : ∀ name, Reads script name → i.global? name = j.global? name) :
    i.exec calls script = j.exec calls script := by
  rw [exec_eq_value, exec_eq_value]
  refine value_congr .null ?_
  intro name hn
  rw [visible_empty, visible_empty]
  exact h name hn

end Wanda.Script

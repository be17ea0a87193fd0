import Wanda.Proofs.Interpreter.Actions
import Wanda.Proofs.Interpreter.ScopeChain
import Wanda.Proofs.Latest

/-!
Requests to any number of scopes, in any order: to make them inside one another, to set, remove and
look up names in them, and to run scripts there. A name stands for what the nearest scope of the
chain has it bound to, as told by what was done in that very scope.
-/
namespace Wanda

variable {κ : Type}

/-- The attempt comes to an end, with a value or with an error. -/
def Attempt.Settles {ε α : Type} (x : Attempt ε α) : Prop :=
  ∃ report, x.report? = some report

theorem Attempt.settles_done {ε α : Type} (a : α) : (done a : Attempt ε α).Settles :=
  ⟨_, rfl⟩

theorem Attempt.settles_fail {ε α : Type} (e : ε) : (fail e : Attempt ε α).Settles :=
  ⟨_, rfl⟩

theorem Attempt.Settles.bind {ε α β : Type} {x : Attempt ε α} {f : α → Attempt ε β}
    (hx : x.Settles) (hf : ∀ a, (f a).Settles) : (x >>= f).Settles := by
  obtain ⟨⟨log, e | a⟩, h⟩ := hx
  · exact ⟨⟨log, .error e⟩, by simp only [Bind.bind, andThen, h]⟩
  · obtain ⟨report, hr⟩ := hf a
    exact ⟨_, by rw [report?_bind_of_ok h, hr]; rfl⟩

namespace Script

/-- Every call of a function comes to an end. -/
def Calls.Settle (calls : Calls κ) : Prop :=
  ∀ f args, (calls f args).Settles

variable {calls : Calls κ}

mutual

theorem Expr.settles_eval (hc : calls.Settle) (names : Names κ) (e : Expr) :
    (e.eval calls names).Settles := by
  match e with
  | .name s =>
    rw [eval]
    cases names s with
    | none => exact Attempt.settles_fail _
    | some v => exact Attempt.settles_done v
  | .int n => exact Attempt.settles_done _
  | .str s => exact Attempt.settles_done _
  | .bool b => exact Attempt.settles_done _
  | .null => exact Attempt.settles_done _
  | .array es =>
    rw [eval]
    exact (Expr.settles_evalList hc names es).bind fun vs => Attempt.settles_done _
  | .hash ps =>
    rw [eval]
    exact (Expr.settles_evalPairs hc names ps).bind fun es => Attempt.settles_done _
  | .call f args =>
    rw [eval]
    refine (Expr.settles_eval hc names f).bind fun callee => ?_
    refine (Expr.settles_evalList hc names args).bind fun vs => ?_
    cases callee with
    | builtin b => exact hc b vs
    | _ => exact Attempt.settles_fail _

theorem Expr.settles_evalList (hc : calls.Settle) (names : Names κ) (es : List Expr) :
    (evalList calls names es).Settles := by
  match es with
  | [] => exact Attempt.settles_done _
  | e :: es =>
    rw [evalList]
    refine (Expr.settles_eval hc names e).bind fun v => ?_
    exact (Expr.settles_evalList hc names es).bind fun vs => Attempt.settles_done _

theorem Expr.settles_evalPairs (hc : calls.Settle) (names : Names κ) (ps : List (Expr × Expr)) :
    (evalPairs calls names ps).Settles := by
  match ps with
  | [] => exact Attempt.settles_done _
  | (k, v) :: ps =>
    rw [evalPairs]
    refine (Expr.settles_eval hc names k).bind fun key => ?_
    cases key.key? with
    | none => exact Attempt.settles_fail _
    | some key =>
      refine (Expr.settles_eval hc names v).bind fun w => ?_
      exact (Expr.settles_evalPairs hc names ps).bind fun es => Attempt.settles_done _

end

theorem settles_value (hc : calls.Settle) (outer : Names κ) (last : Value κ)
    (own : Table String (Value κ)) (script : Script) :
    (value calls outer last own script).Settles := by
  induction script generalizing last own with
  | nil => exact Attempt.settles_done last
  | cons s rest ih =>
    rw [value_cons]
    refine (Expr.settles_eval hc (visible own outer) s.operand).bind fun v => ?_
    cases s.effect v with
    | finish w => exact Attempt.settles_done w
    | yield w => exact ih w own
    | bind name w => exact ih .null (own.insert name w)

end Script

namespace Scopes

/-- What names stand for in a scope. -/
def names (scopes : Scopes κ) (i : Nat) : Script.Names κ :=
  fun name => get? name scopes i

/--
Statements that run in a scope to their ends, none of which fails or ends the script. Each `let`
binds its name in the scope before the next statement starts. The values are those of the statement
before the first and of the last.
-/
inductive Passes (calls : Script.Calls κ) (i : Nat) :
    Scopes κ → Value κ → Script → List (String × Value κ) → Scopes κ → Value κ → Prop
  | nil {scopes : Scopes κ} {last : Value κ} : Passes calls i scopes last [] [] scopes last
  | binding {scopes after : Scopes κ} {last v final : Value κ} {name : String} {e : Script.Expr}
      {rest : Script} {lets : List (String × Value κ)} {log : List Message} :
      (e.eval calls (scopes.names i)).report? = some ⟨log, .ok v⟩ →
      Passes calls i (scopes.set i name v) .null rest lets after final →
      Passes calls i scopes last (.binding name e :: rest) ((name, v) :: lets) after final
  | expr {scopes after : Scopes κ} {last v final : Value κ} {e : Script.Expr} {rest : Script}
      {lets : List (String × Value κ)} {log : List Message} :
      (e.eval calls (scopes.names i)).report? = some ⟨log, .ok v⟩ → (∀ w, v ≠ .returning w) →
      Passes calls i scopes v rest lets after final →
      Passes calls i scopes last (.expr e :: rest) lets after final

/-- The first of the statements ends the script: it fails, or it returns a value. -/
inductive Halts (calls : Script.Calls κ) (i : Nat) (scopes : Scopes κ) :
    Script → Except Failure (Value κ) → Prop
  | failure {s : Script.Statement} {rest : Script} {log : List Message} {f : Failure} :
      (s.operand.eval calls (scopes.names i)).report? = some ⟨log, .error f⟩ →
      Halts calls i scopes (s :: rest) (.error f)
  | result {e : Script.Expr} {rest : Script} {log : List Message} {v : Value κ} :
      (e.eval calls (scopes.names i)).report? = some ⟨log, .ok v⟩ →
      Halts calls i scopes (.result e :: rest) (.ok v)
  | returning {e : Script.Expr} {rest : Script} {log : List Message} {v : Value κ} :
      (e.eval calls (scopes.names i)).report? = some ⟨log, .ok (.returning v)⟩ →
      Halts calls i scopes (.expr e :: rest) (.ok v)

/-- A script runs through, or up to a statement that ends it, and makes the bindings up to there. -/
inductive Runs (calls : Script.Calls κ) (i : Nat) (scopes : Scopes κ) (last : Value κ)
    (script : Script) (lets : List (String × Value κ)) (after : Scopes κ) :
    Except Failure (Value κ) → Prop
  | through {v : Value κ} : Passes calls i scopes last script lets after v →
      Runs calls i scopes last script lets after (.ok v)
  | halted {before rest : Script} {v : Value κ} {result : Except Failure (Value κ)} :
      script = before ++ rest → Passes calls i scopes last before lets after v →
      Halts calls i after rest result → Runs calls i scopes last script lets after result

section
variable {calls : Script.Calls κ} {i : Nat} {scopes after : Scopes κ} {last v w : Value κ}
  {rest script : Script} {lets : List (String × Value κ)} {result : Except Failure (Value κ)}
  {log : List Message}

theorem Runs.binding {name : String} {e : Script.Expr}
    (he : (e.eval calls (scopes.names i)).report? = some ⟨log, .ok v⟩)
    (h : Runs calls i (scopes.set i name v) .null rest lets after result) :
    Runs calls i scopes last (.binding name e :: rest) ((name, v) :: lets) after result := by
  cases h with
  | through hp => exact .through (.binding he hp)
  | @halted before others w _ hs hp hh =>
    have hcons : .binding name e :: rest = (.binding name e :: before) ++ others := by
      rw [hs, List.cons_append]
    exact .halted hcons (.binding he hp) hh

theorem Runs.expr {e : Script.Expr}
    (he : (e.eval calls (scopes.names i)).report? = some ⟨log, .ok v⟩)
    (hv : ∀ w, v ≠ .returning w) (h : Runs calls i scopes v rest lets after result) :
    Runs calls i scopes last (.expr e :: rest) lets after result := by
  cases h with
  | through hp => exact .through (.expr he hv hp)
  | @halted before others w _ hs hp hh =>
    have hcons : .expr e :: rest = (.expr e :: before) ++ others := by
      rw [hs, List.cons_append]
    exact .halted hcons (.expr he hv hp) hh

theorem visible_eq_names (h : scopes.Nested) (i : Nat) :
    Script.visible (scopes.own i) (scopes.around i) = scopes.names i := by
  funext name
  exact (get?_eq_visible h name i).symm

theorem Runs.nil : Runs calls i scopes last [] [] scopes (.ok last) :=
  .through .nil

theorem Runs.halt (h : Halts calls i scopes script result) :
    Runs calls i scopes last script [] scopes result :=
  .halted rfl .nil h

/-- A script that was run to an end in a scope was run statement by statement. -/
theorem exists_runs_of_execFrom (h : scopes.Nested) (hi : i < scopes.length)
    {o : Script.Outcome κ}
    (he : script.execFrom calls (scopes.around i) last (scopes.own i) = some o) :
    ∃ lets, Runs calls i scopes last script lets (scopes.update (fun _ => o.bindings) i)
      o.report.result := by
  induction script generalizing scopes last o with
  | nil =>
    cases he
    exact ⟨[], by rw [update_own]; exact .nil⟩
  | cons s rest ih =>
    rw [Script.execFrom, visible_eq_names h] at he
    split at he
    case h_1 => cases he
    case h_2 log f hr =>
      cases he
      exact ⟨[], by rw [update_own]; exact .halt (.failure hr)⟩
    case h_3 log v hr =>
      cases s with
      | result e =>
        cases he
        exact ⟨[], by rw [update_own]; exact .halt (.result hr)⟩
      | binding name e =>
        obtain ⟨o, ho, rfl⟩ := Option.map_eq_some_iff.mp he
        have hown : (scopes.set i name v).own i = (scopes.own i).insert name v :=
          own_update_self _ hi
        have haround : (scopes.set i name v).around i = scopes.around i := around_update h _ i
        have hnested : (scopes.set i name v).Nested := h.update _ i
        have hlength : i < (scopes.set i name v).length := by rwa [set, length_update]
        rw [← hown, ← haround] at ho
        have hafter : (scopes.set i name v).update (fun _ => o.bindings) i =
            scopes.update (fun _ => o.bindings) i := update_const_update scopes _ _ i
        obtain ⟨lets, hl⟩ := ih hnested hlength ho
        rw [hafter] at hl
        exact ⟨(name, v) :: lets, hl.binding hr⟩
      | expr e =>
        cases v with
        | returning w =>
          cases he
          exact ⟨[], by rw [update_own]; exact .halt (.returning hr)⟩
        | _ =>
          obtain ⟨o, ho, rfl⟩ := Option.map_eq_some_iff.mp he
          obtain ⟨lets, hl⟩ := ih h hi ho
          refine ⟨lets, hl.expr hr ?_⟩
          intro w hw
          cases hw

theorem exists_runs_of_exec (h : scopes.Nested) (hi : i < scopes.length)
    {report : Report Failure (Value κ)}
    (he : scopes.exec calls i script = some (after, report)) :
    ∃ lets, Runs calls i scopes .null script lets after report.result := by
  obtain ⟨o, ho, hr⟩ := Option.map_eq_some_iff.mp he
  cases hr
  exact exists_runs_of_execFrom h hi ho

theorem Passes.own_eq (h : Passes calls i scopes last script lets after v)
    (hi : i < scopes.length) :
    after.own i = lets.foldl (fun t p => t.insert p.1 p.2) (scopes.own i) := by
  induction h with
  | nil => rfl
  | @binding scopes after last v final name e rest lets log _ _ ih =>
    have hown : (scopes.set i name v).own i = (scopes.own i).insert name v :=
      own_update_self _ hi
    rw [ih (by rwa [set, length_update]), hown]
    rfl
  | expr _ _ _ ih => exact ih hi

theorem Runs.exists_passes (h : Runs calls i scopes last script lets after result) :
    ∃ before v, Passes calls i scopes last before lets after v := by
  cases h with
  | through hp => exact ⟨_, _, hp⟩
  | halted _ hp _ => exact ⟨_, _, hp⟩

end

inductive Event (κ : Type) where
  | made (i : Nat) (outer : Option Nat)
  | bound (i : Nat) (name : String) (v : Value κ)
  | removed (i : Nat) (name : String)

/-- What an event leaves under a name in a scope. -/
inductive Event.Leaves (i : Nat) (name : String) : Event κ → Option (Value κ) → Prop
  | bound (v : Value κ) : Leaves i name (.bound i name v) (some v)
  | removed : Leaves i name (.removed i name) none

/-- The scope's own binding of the name: what was last left under the name in that very scope. -/
def Owns (events : List (Event κ)) (i : Nat) (name : String) (found : Option (Value κ)) : Prop :=
  ∃ after, Latest (Event.Leaves i name) none events found after

/-- What stands under a name in the nearest scope of a chain that has a binding of it. -/
inductive Nearest (events : List (Event κ)) (name : String) : Nat → Option (Value κ) → Prop
  | own {i : Nat} {v : Value κ} : Owns events i name (some v) → Nearest events name i (some v)
  | outer {i o : Nat} {found : Option (Value κ)} : Owns events i name none →
      .made i (some o) ∈ events → Nearest events name o found → Nearest events name i found
  | nowhere {i : Nat} : Owns events i name none → .made i none ∈ events →
      Nearest events name i none

theorem Event.Leaves.place_eq {i j : Nat} {name other : String} {e : Event κ}
    {found left : Option (Value κ)} (h : e.Leaves i name found) (h' : e.Leaves j other left) :
    j = i ∧ other = name := by
  cases h <;> cases h' <;> exact ⟨rfl, rfl⟩

theorem Owns.unique {events : List (Event κ)} {i : Nat} {name : String}
    {found other : Option (Value κ)} (h : Owns events i name found)
    (h' : Owns events i name other) : found = other := by
  obtain ⟨after, h⟩ := h
  obtain ⟨after', h'⟩ := h'
  refine (h.unique ?_ h').1
  intro e b c hb hc
  cases hb <;> cases hc <;> rfl

theorem Owns.append_silent {events : List (Event κ)} {i : Nat} {name : String}
    {found : Option (Value κ)} {e : Event κ} (h : Owns events i name found)
    (he : ∀ left, ¬ e.Leaves i name left) : Owns (events ++ [e]) i name found := by
  obtain ⟨after, h⟩ := h
  exact ⟨_, h.append_silent he⟩

/-- The scopes are what the events make of them. -/
structure Keeps (events : List (Event κ)) (scopes : Scopes κ) : Prop where
  nested : scopes.Nested
  own : ∀ i name, Owns events i name ((scopes.own i).get? name)
  made : ∀ i outer, .made i outer ∈ events ↔ i < scopes.length ∧ scopes.outer? i = outer

namespace Keeps

variable {events : List (Event κ)} {scopes : Scopes κ}

theorem nil : Keeps ([] : List (Event κ)) [] where
  nested := by
    intro i o h
    cases h
  own := fun i name => ⟨[], .nil⟩
  made := by simp

theorem create (h : Keeps events scopes) {outer : Option Nat}
    (ho : ∀ o, outer = some o → o < scopes.length) :
    Keeps (events ++ [.made scopes.length outer]) (scopes.create outer) where
  nested := h.nested.create ho
  own := by
    intro i name
    rw [own_create]
    exact (h.own i name).append_silent (fun left hl => nomatch hl)
  made := by
    intro i other
    rw [List.mem_append, List.mem_singleton, Event.made.injEq, h.made, outer?_create,
      length_create]
    by_cases hi : i = scopes.length
    · subst hi
      simp [eq_comm]
    · simp only [hi, false_and, or_false, if_false]
      refine and_congr_left' ⟨Nat.lt_succ_of_lt, fun hl => ?_⟩
      exact Nat.lt_of_le_of_ne (Nat.le_of_lt_succ hl) hi

/-- A change of one name in one scope goes with the event that leaves it there. -/
theorem update (h : Keeps events scopes) {i : Nat} (hi : i < scopes.length) {name : String}
    {found : Option (Value κ)} {e : Event κ} (he : e.Leaves i name found)
    {f : Table String (Value κ) → Table String (Value κ)}
    (hf : ∀ t other, (f t).get? other = if other = name then found else t.get? other) :
    Keeps (events ++ [e]) (scopes.update f i) where
  nested := h.nested.update f i
  own := by
    intro j other
    by_cases hj : j = i
    · subst hj
      rw [own_update_self f hi, hf]
      split_ifs with ho
      · subst ho
        exact ⟨[], Latest.append_said _ he⟩
      · exact (h.own j other).append_silent fun left hl => ho (he.place_eq hl).2
    · rw [own_update_of_ne f scopes hj]
      exact (h.own j other).append_silent fun left hl => hj (he.place_eq hl).1
  made := by
    intro j outer
    have hm : Event.made j outer ≠ e := by
      rintro rfl
      cases he
    rw [List.mem_append, List.mem_singleton, or_iff_left hm, h.made, length_update, outer?_update]

theorem set (h : Keeps events scopes) {i : Nat} (hi : i < scopes.length) (name : String)
    (v : Value κ) : Keeps (events ++ [.bound i name v]) (scopes.set i name v) :=
  h.update hi (.bound v) fun t other => t.get?_insert name other v

theorem remove (h : Keeps events scopes) {i : Nat} (hi : i < scopes.length) (name : String) :
    Keeps (events ++ [.removed i name]) (scopes.remove i name).2 :=
  h.update hi .removed fun t other => t.get?_erase name other

/-- The bindings that statements make are set in the scope in their order. -/
theorem passes {calls : Script.Calls κ} {i : Nat} {after : Scopes κ} {last final : Value κ}
    {script : Script} {lets : List (String × Value κ)} (h : Keeps events scopes)
    (hi : i < scopes.length) (hp : Passes calls i scopes last script lets after final) :
    Keeps (events ++ lets.map fun p => .bound i p.1 p.2) after := by
  induction hp generalizing events with
  | nil => simpa using h
  | @binding scopes after last v final name e rest lets log _ _ ih =>
    have hs := ih (h.set hi name v) (by rwa [Scopes.set, length_update])
    simpa using hs
  | expr _ _ _ ih => exact ih h hi

theorem get?_eq (h : Keeps events scopes) (name : String) (i : Nat) :
    get? name scopes i = ((scopes.own i).get? name <|>
      (scopes.outer? i).bind fun o => get? name scopes o) := by
  rw [get?_eq_visible h.nested, Script.visible, around_eq]

theorem nearest (h : Keeps events scopes) (name : String) {i : Nat} (hi : i < scopes.length) :
    Nearest events name i (get? name scopes i) := by
  induction i using Nat.strongRecOn with
  | ind i ih =>
    have hown := h.own i name
    have hmade := (h.made i _).mpr ⟨hi, rfl⟩
    rw [h.get?_eq]
    cases hv : (scopes.own i).get? name with
    | some v =>
      rw [hv] at hown
      exact .own hown
    | none =>
      rw [hv] at hown
      cases ho : scopes.outer? i with
      | none =>
        rw [ho] at hmade
        exact .nowhere hown hmade
      | some o =>
        rw [ho] at hmade
        have hlt : o < i := h.nested i o ho
        exact .outer hown hmade (ih o hlt (Nat.lt_trans hlt hi))

theorem get?_of_nearest (h : Keeps events scopes) {name : String} {i : Nat}
    {found : Option (Value κ)} (hn : Nearest events name i found) : get? name scopes i = found := by
  induction hn with
  | @own i v hown =>
    rw [h.get?_eq, (h.own i name).unique hown]
    rfl
  | @outer i o found hown hmade _ ih =>
    rw [h.get?_eq, (h.own i name).unique hown, ((h.made _ _).mp hmade).2]
    exact ih
  | @nowhere i hown hmade =>
    rw [h.get?_eq, (h.own i name).unique hown, ((h.made _ _).mp hmade).2]
    rfl

end Keeps

/-- What can be asked of scopes. A run comes with what calls of functions do while it lasts. -/
inductive Request (κ : Type) where
  | create (outer : Option Nat)
  | set (i : Nat) (name : String) (v : Value κ)
  | remove (i : Nat) (name : String)
  | get (i : Nat) (name : String)
  | exec (calls : Script.Calls κ) (i : Nat) (script : Script)

/-- The scope that a request has to do with. -/
def Request.scope? : Request κ → Option Nat
  | .create outer => outer
  | .set i _ _ | .remove i _ | .get i _ | .exec _ i _ => some i

/-- The scope in which a request may change bindings. -/
def Request.changes? : Request κ → Option Nat
  | .create _ | .get _ _ => none
  | .set i _ _ | .remove i _ | .exec _ i _ => some i

/-- The scope that a request has to do with was made before. -/
def Request.Known (r : Request κ) (scopes : Scopes κ) : Prop :=
  ∀ i ∈ r.scope?, i < scopes.length

instance (r : Request κ) (scopes : Scopes κ) : Decidable (r.Known scopes) :=
  inferInstanceAs (Decidable (∀ i ∈ r.scope?, i < scopes.length))

/-- What a request asks for comes to an end if the functions called in its course do. -/
def Request.Settles : Request κ → Prop
  | .exec calls _ _ => calls.Settle
  | _ => True

inductive Reply (κ : Type) where
  | made (i : Nat)
  | done
  | found (v : Option (Value κ))
  | ran (report : Report Failure (Value κ))

/-- The scopes after a request, and the reply; `none` for a run that comes to no end. -/
def respond (scopes : Scopes κ) : Request κ → Option (Scopes κ × Reply κ)
  | .create outer => some (scopes.create outer, .made scopes.length)
  | .set i name v => some (scopes.set i name v, .done)
  | .remove i name =>
    let (found, next) := scopes.remove i name
    some (next, .found found)
  | .get i name => some (scopes, .found (get? name scopes i))
  | .exec calls i script => (scopes.exec calls i script).map fun (after, report) =>
    (after, .ran report)

theorem exec_of_respond {scopes next : Scopes κ} {calls : Script.Calls κ} {i : Nat}
    {script : Script} {reply : Reply κ}
    (h : scopes.respond (.exec calls i script) = some (next, reply)) :
    ∃ report, reply = .ran report ∧ scopes.exec calls i script = some (next, report) := by
  obtain ⟨⟨after, report⟩, he, hr⟩ := Option.map_eq_some_iff.mp h
  cases hr
  exact ⟨report, rfl, he⟩

/-- What happens when a request is answered. A script does what the `let`s that it executed do. -/
inductive Does (scopes next : Scopes κ) : Request κ → Reply κ → List (Event κ) → Prop
  | create {outer : Option Nat} {i : Nat} :
      Does scopes next (.create outer) (.made i) [.made i outer]
  | set {i : Nat} {name : String} {v : Value κ} :
      Does scopes next (.set i name v) .done [.bound i name v]
  | remove {i : Nat} {name : String} {found : Option (Value κ)} :
      Does scopes next (.remove i name) (.found found) [.removed i name]
  | get {i : Nat} {name : String} {found : Option (Value κ)} :
      Does scopes next (.get i name) (.found found) []
  | exec {calls : Script.Calls κ} {i : Nat} {script : Script} {lets : List (String × Value κ)}
      {report : Report Failure (Value κ)} :
      Runs calls i scopes .null script lets next report.result →
      Does scopes next (.exec calls i script) (.ran report) (lets.map fun p => .bound i p.1 p.2)

/-- What has happened by requests, each of which was answered, and what the scopes came to. -/
inductive Serves : List (Event κ) → Scopes κ → Prop
  | nil : Serves [] []
  | snoc {events did : List (Event κ)} {scopes next : Scopes κ} {r : Request κ} {reply : Reply κ} :
      Serves events scopes → r.Known scopes → scopes.respond r = some (next, reply) →
      Does scopes next r reply did → Serves (events ++ did) next

theorem exists_does {scopes next : Scopes κ} {r : Request κ} {reply : Reply κ}
    (h : scopes.Nested) (hr : r.Known scopes)
    (he : scopes.respond r = some (next, reply)) : ∃ did, Does scopes next r reply did := by
  cases r with
  | create outer =>
    cases he
    exact ⟨_, .create⟩
  | set i name v =>
    cases he
    exact ⟨_, .set⟩
  | remove i name =>
    cases he
    exact ⟨_, .remove⟩
  | get i name =>
    cases he
    exact ⟨_, .get⟩
  | exec calls i script =>
    obtain ⟨report, rfl, hx⟩ := exec_of_respond he
    obtain ⟨lets, hl⟩ := exists_runs_of_exec h (hr i rfl) hx
    exact ⟨_, .exec hl⟩

theorem Keeps.does {events did : List (Event κ)} {scopes next : Scopes κ} {r : Request κ}
    {reply : Reply κ} (h : Keeps events scopes) (hr : r.Known scopes)
    (he : scopes.respond r = some (next, reply)) (hd : Does scopes next r reply did) :
    Keeps (events ++ did) next := by
  cases hd with
  | create =>
    cases he
    exact h.create hr
  | set =>
    cases he
    exact h.set (hr _ rfl) _ _
  | remove =>
    cases he
    exact h.remove (hr _ rfl) _
  | get =>
    cases he
    rwa [List.append_nil]
  | exec hl =>
    obtain ⟨before, v, hp⟩ := hl.exists_passes
    exact h.passes (hr _ rfl) hp

theorem Serves.keeps {events : List (Event κ)} {scopes : Scopes κ} (h : Serves events scopes) :
    Keeps events scopes := by
  induction h with
  | nil => exact .nil
  | snoc _ hr he hd ih => exact ih.does hr he hd

theorem exists_respond (scopes : Scopes κ) {r : Request κ} (hr : r.Settles) :
    ∃ next reply, scopes.respond r = some (next, reply) := by
  cases r with
  | exec calls i script =>
    obtain ⟨report, hv⟩ := Script.settles_value hr (scopes.around i) .null (scopes.own i) script
    obtain ⟨o, ho, -⟩ := Option.map_eq_some_iff.mp hv
    exact ⟨_, _, by rw [respond, exec, Script.exec, ho]; rfl⟩
  | _ => exact ⟨_, _, rfl⟩

/-- A request changes the bindings of no scope but the one it is to change. -/
theorem own_of_respond {scopes next : Scopes κ} {r : Request κ} {reply : Reply κ}
    (he : scopes.respond r = some (next, reply)) {j : Nat} (hj : r.changes? ≠ some j) :
    next.own j = scopes.own j := by
  cases r with
  | create outer =>
    cases he
    exact own_create scopes outer j
  | set i name v =>
    cases he
    exact own_update_of_ne _ scopes fun h => hj (by rw [h]; rfl)
  | remove i name =>
    cases he
    exact own_update_of_ne _ scopes fun h => hj (by rw [h]; rfl)
  | get i name =>
    cases he
    rfl
  | exec calls i script =>
    obtain ⟨report, rfl, hx⟩ := exec_of_respond he
    exact own_exec_of_ne (fun h => hj (by rw [h]; rfl)) hx

/-- How scopes answer requests after what has happened to them. -/
structure Lexical (events : List (Event κ)) (scopes : Scopes κ) : Prop where
  /-- A look-up comes to an end, with the binding in the nearest scope of the chain that has one. -/
  get : ∀ i name found, i < scopes.length →
    (scopes.respond (.get i name) = some (scopes, .found found) ↔ Nearest events name i found)
  /-- What is removed is the scope's own binding, and it is the reply. -/
  remove : ∀ i name, ∃ found, Owns events i name found ∧
    scopes.respond (.remove i name) = some ((scopes.remove i name).2, .found found)
  /-- After that the name stands for what it stands for in the scope around. -/
  uncovers : ∀ i name, i < scopes.length →
    (∀ o, .made i (some o) ∈ events → ∀ found,
      get? name (scopes.remove i name).2 i = found ↔ Nearest events name o found) ∧
    (.made i none ∈ events → get? name (scopes.remove i name).2 i = none)
  /-- No other scope's bindings change by a request. -/
  frame : ∀ r next reply, scopes.respond r = some (next, reply) →
    ∀ j, r.changes? ≠ some j → next.own j = scopes.own j
  /-- A script leaves the bindings of the `let`s up to the statement at which it ended. -/
  exec : ∀ calls i script after report, i < scopes.length →
    scopes.respond (.exec calls i script) = some (after, .ran report) →
    ∃ lets, Runs calls i scopes .null script lets after report.result ∧
      after.own i = lets.foldl (fun t p => t.insert p.1 p.2) (scopes.own i)
  /-- Every request is answered if the functions that are called in its course come to an end. -/
  answered : ∀ r, r.Settles → ∃ next reply, scopes.respond r = some (next, reply)
  /-- Every request that is answered goes on from here. -/
  next : ∀ r next reply, r.Known scopes → scopes.respond r = some (next, reply) →
    ∃ did, Does scopes next r reply did ∧ Serves (events ++ did) next

/-- Names stand for the nearest binding, whatever was asked of the scopes before. -/
theorem lookup_is_lexical {events : List (Event κ)} {scopes : Scopes κ}
    (h : Serves events scopes) : Lexical events scopes where
  get := by
    intro i name found hi
    have hk := h.keeps
    constructor
    · intro he
      have hf : get? name scopes i = found := by simpa [respond] using he
      exact hf ▸ hk.nearest name hi
    · intro hn
      rw [respond, hk.get?_of_nearest hn]
  remove := fun i name => ⟨_, h.keeps.own i name, rfl⟩
  uncovers := by
    intro i name hi
    have hk := h.keeps
    have hr := hk.remove hi name
    have hown : ((scopes.remove i name).2.own i).get? name = none := by
      rw [Scopes.remove, own_update_self _ hi, Table.get?_erase, if_pos rfl]
    have hget : get? name (scopes.remove i name).2 i =
        (scopes.outer? i).bind fun o => get? name (scopes.remove i name).2 o := by
      rw [hr.get?_eq, hown, Scopes.remove, outer?_update]
      rfl
    constructor
    · intro o hm found
      have ho : scopes.outer? i = some o := ((hk.made _ _).mp hm).2
      have hlt : o < i := hk.nested i o ho
      rw [hget, ho, Option.bind_some, Scopes.remove, get?_update_of_lt hk.nested _ _ hlt]
      constructor
      · intro hf
        exact hf ▸ hk.nearest name (Nat.lt_trans hlt hi)
      · intro hn
        exact hk.get?_of_nearest hn
    · intro hm
      rw [hget, ((hk.made _ _).mp hm).2]
      rfl
  frame := fun r next reply he j hj => own_of_respond he hj
  exec := by
    intro calls i script after report hi he
    obtain ⟨_, hr, hx⟩ := exec_of_respond he
    cases hr
    obtain ⟨lets, hl⟩ := exists_runs_of_exec h.keeps.nested hi hx
    obtain ⟨before, v, hp⟩ := hl.exists_passes
    exact ⟨lets, hl, hp.own_eq hi⟩
  answered := fun r hr => exists_respond scopes hr
  next := by
    intro r next reply hr he
    obtain ⟨did, hd⟩ := exists_does h.keeps.nested hr he
    exact ⟨did, hd, h.snoc hr he hd⟩

/-- It binds two names, of which one stands for a value of the scope around, and then fails. -/
def halfway : Script :=
  [.binding "x" (.name "y"), .binding "y" (.int 3), .expr (.name "z"), .binding "x" .null]

/-- What happened to a scope, two scopes inside it, and a script in the older of these. -/
def shared : List (Event Unit) :=
  [.made 0 none, .bound 0 "y" (.int 1), .made 1 (some 0), .made 2 (some 0), .bound 1 "x" (.int 1),
    .bound 1 "y" (.int 3), .bound 2 "x" .null, .removed 2 "x"]

theorem lookup_is_lexical_halfway : ∃ scopes : Scopes Unit, Serves shared scopes ∧
    Nearest shared "x" 1 (some (.int 1)) ∧ Nearest shared "y" 2 (some (.int 1)) ∧
    Nearest shared "x" 2 none ∧ Lexical shared scopes := by
  let calls : Script.Calls Unit := fun _ _ => .done .null
  have hnil : Serves ([] : List (Event Unit)) [] := .nil
  have houtermost := hnil.snoc (r := .create none) (by decide) rfl .create
  have hset := houtermost.snoc (r := .set 0 "y" (.int 1)) (by decide) rfl .set
  have hfirst := hset.snoc (r := .create (some 0)) (by decide) rfl .create
  have hsecond := hfirst.snoc (r := .create (some 0)) (by decide) rfl .create
  have hhalf : halfway = [.binding "x" (.name "y"), .binding "y" (.int 3)] ++
      [.expr (.name "z"), .binding "x" .null] := rfl
  have hexec := hsecond.snoc (r := .exec calls 1 halfway) (by decide) rfl
    (.exec (.halted hhalf (.binding rfl (.binding rfl .nil)) (.failure rfl)))
  have hnull := hexec.snoc (r := .set 2 "x" .null) (by decide) rfl .set
  have h : Serves shared _ := hnull.snoc (r := .remove 2 "x") (by decide) rfl .remove
  have hl := lookup_is_lexical h
  exact ⟨_, h, (hl.get 1 "x" _ (by decide)).mp rfl, (hl.get 2 "y" _ (by decide)).mp rfl,
    (hl.get 2 "x" _ (by decide)).mp rfl, hl⟩

end Scopes
end Wanda

import Wanda.Proofs.Interpreter.Stages
import Wanda.Proofs.Reduction.Leftmost
import Wanda.Proofs.Runner.Slot

/-!
Running a source with the standard driver is reading it, reducing its atoms and writing what is
left, whatever the runner ran before.
-/
namespace Wanda.Runner
open Script

variable {κ : Type}

/-- The script that `driverText` spells. -/
def pipeline (options : Stages.Options) : Script :=
  [.binding "program" (.call (.name "parse") [.name slot]),
    .binding "result" (.call (.name "evaluate") [.name "program",
      .hash (if options.trace then [(.str "trace", .bool true)] else [])]),
    .expr (.call (.name "format") [.name "result"])]

theorem read_driverText (options : Stages.Options) :
    Script.read (driverText options) = .ok (pipeline options) := by
  obtain ⟨_ | _⟩ := options
  · have ht : driverText ⟨false⟩ = "\nlet program = parse(currentProgramText);\n" ++
        "let result = evaluate(program, \x7b\x7d);\nformat(result);\n" := by decide
    rw [ht]
    cbv
  · have ht : driverText ⟨true⟩ = "\nlet program = parse(currentProgramText);\n" ++
        "let result = evaluate(program, \x7b\"trace\": true\x7d);\nformat(result);\n" := by decide
    rw [ht]
    cbv

theorem eval_environment (calls : Calls κ) (names : Names κ) (options : Stages.Options) :
    (Expr.hash (if options.trace then [(.str "trace", .bool true)] else [])).eval calls names =
      .done options.value := by
  obtain ⟨_ | _⟩ := options
  · simp [Expr.eval, Expr.evalPairs, Stages.Options.value]
  · simp [Expr.eval, Expr.evalPairs, Value.key?, Stages.Options.value]

/-- The last statement of the driver ends it with a text. -/
theorem format_bind_proceed (calls : Calls κ) (outer : Names κ) (own : Table String (Value κ))
    (e : Expr) (v : Value κ) :
    (Stages.format [v] >>= fun w => proceed calls outer own [] (Statement.effect (.expr e) w)) =
      Stages.format [v] := by
  cases v <;> simp [Stages.format, Statement.effect, proceed]

theorem exec_pipeline {i : Interpreter κ} {source : String}
    (hp : i.global? "parse" = some (.builtin .parse))
    (he : i.global? "evaluate" = some (.builtin .evaluate))
    (hf : i.global? "format" = some (.builtin .format))
    (hs : i.global? slot = some (.str source))
    (host : Host κ) (fuel : Nat) (held : Runner κ) (options : Stages.Options) :
    i.exec (host.calls fuel held) (pipeline options) =
      (Stages.direct fuel options source).mapError (fun e => ⟨.stage e, []⟩) >>= fun text =>
        .done (.str text) := by
  have hparse : (Expr.call (.name "parse") [.name slot]).eval (host.calls fuel held)
      (visible .empty i.global?) = Stages.parse [.str source] := by
    simp [Expr.eval, Expr.evalList, hp, hs, Host.calls, Stages.calls]
  have hevaluate (p : Value κ) : (Expr.call (.name "evaluate") [.name "program",
      .hash (if options.trace then [(.str "trace", .bool true)] else [])]).eval
        (host.calls fuel held) (visible (Table.empty.insert "program" p) i.global?) =
      Stages.evaluate host.listing fuel [p, options.value] := by
    rw [Expr.eval, Expr.evalList, Expr.evalList, Expr.evalList, eval_environment]
    simp [Expr.eval, he, Host.calls, Stages.calls]
  have hformat (p v : Value κ) : (Expr.call (.name "format") [.name "result"]).eval
      (host.calls fuel held)
        (visible ((Table.empty.insert "program" p).insert "result" v) i.global?) =
      Stages.format [v] := by
    simp [Expr.eval, Expr.evalList, hf, Host.calls, Stages.calls]
  rw [exec_eq_value, ← Stages.parse_evaluate_format host.listing]
  simp only [pipeline, value_cons, Statement.operand, effect_binding, proceed_bind, hparse,
    hevaluate, hformat, format_bind_proceed]

/-- A runner between two runs, with the standard driver and the stages under their names. -/
structure Ready (options : Stages.Options) (r : Runner κ) : Prop where
  idle : r.busy = false
  driver : r.driver = pipeline options
  parse : r.interpreter.global? "parse" = some (.builtin .parse)
  evaluate : r.interpreter.global? "evaluate" = some (.builtin .evaluate)
  format : r.interpreter.global? "format" = some (.builtin .format)

theorem exists_standard (options : Stages.Options) :
    ∃ fresh : Runner κ, standard options = .ok fresh ∧ Ready options fresh := by
  refine ⟨⟨.standard, pipeline options, false⟩, ?_, rfl, rfl, rfl, rfl, rfl⟩
  rw [standard, withDriver, read_driverText]

theorem Ready.release {options : Stages.Options} {r : Runner κ} (h : Ready options r) :
    Ready options r.release where
  idle := rfl
  driver := h.driver
  parse := by
    rw [global?_release, if_neg (by decide)]
    exact h.parse
  evaluate := by
    rw [global?_release, if_neg (by decide)]
    exact h.evaluate
  format := by
    rw [global?_release, if_neg (by decide)]
    exact h.format

theorem Ready.execute {options : Stages.Options} {r : Runner κ} (h : Ready options r)
    (host : Host κ) (fuel : Nat) (source : String) :
    r.execute host fuel source =
      (Stages.direct fuel options source).report?.map fun x =>
        (r.release, ⟨.runningProgram source.utf8ByteSize :: x.log,
          x.result.mapError fun e => .ofFailure ⟨.stage e, []⟩⟩) := by
  have hg {name : String} (hn : name ≠ slot) :
      (r.hold source).interpreter.global? name = r.interpreter.global? name := by
    rw [global?_hold, if_neg hn]
  have hs : (r.hold source).interpreter.global? slot = some (.str source) := by
    rw [global?_hold, if_pos rfl]
  rw [execute_of_idle h.idle, report?_drive, driver_hold, h.driver,
    exec_pipeline ((hg (by decide)).trans h.parse) ((hg (by decide)).trans h.evaluate)
      ((hg (by decide)).trans h.format) hs]
  obtain ⟨_ | ⟨log, _ | text⟩⟩ := Stages.direct fuel options source
  · rfl
  · rfl
  · simp [bind, Attempt.andThen, Attempt.mapError, Except.mapError, Attempt.done, Report.after,
      verdict]

theorem Ready.next {options : Stages.Options} {host : Host κ} {fuel : Nat} {source : String}
    {r next : Runner κ} {report : Report RunError String} (h : Ready options r)
    (he : r.execute host fuel source = some (next, report)) : Ready options next := by
  rw [h.execute] at he
  obtain ⟨x, -, hx⟩ := Option.map_eq_some_iff.mp he
  cases hx
  exact h.release

theorem Ready.history {options : Stages.Options} {fresh r : Runner κ} {history : List (Run κ)}
    (hf : Ready options fresh) (h : History fresh history r) : Ready options r := by
  induction h with
  | nil => exact hf
  | cons he _ ih => exact ih (hf.next he)

/-- What reading a source, reducing its atoms and writing those that are left comes to. -/
inductive Delivers (source : String) : Except RunError String → Prop
  | unreadable {e : Program.ReadError} :
      Program.read source = .error e → Delivers source (.error (.parse e.message))
  | faulty {atoms : List Atom} {f : Reduction.Fault} :
      Program.read source = .ok atoms → Reduction.Yields atoms (.error f) →
      Delivers source (.error (.evaluation f.message))
  | finished {atoms rest : List Atom} :
      Program.read source = .ok atoms → Reduction.Yields atoms (.ok rest) →
      Delivers source (.ok (Program.render rest))

/-- There is nothing to reduce, or reducing it comes to an end. -/
def Stops (source : String) : Prop :=
  ∀ atoms, Program.read source = .ok atoms → ∃ result, Reduction.Yields atoms result

theorem delivers_of_unreadable {source : String} {e : Program.ReadError}
    (hr : Program.read source = .error e) (result : Except RunError String) :
    Delivers source result ↔ result = .error (.parse e.message) := by
  constructor
  · intro h
    cases h with
    | unreadable hr' =>
      cases hr.symm.trans hr'
      rfl
    | faulty hr' _ => cases hr.symm.trans hr'
    | finished hr' _ => cases hr.symm.trans hr'
  · intro h
    rw [h]
    exact .unreadable hr

theorem delivers_of_readable {source : String} {atoms : List Atom}
    (hr : Program.read source = .ok atoms) (result : Except RunError String) :
    Delivers source result ↔ ∃ reduced, Reduction.Yields atoms reduced ∧
      result = (reduced.map Program.render).mapError fun f => .evaluation f.message := by
  constructor
  · intro h
    cases h with
    | unreadable hr' => cases hr.symm.trans hr'
    | @faulty _ f hr' hy =>
      cases hr.symm.trans hr'
      exact ⟨.error f, hy, rfl⟩
    | @finished _ rest hr' hy =>
      cases hr.symm.trans hr'
      exact ⟨.ok rest, hy, rfl⟩
  · intro h
    obtain ⟨reduced, hy, he⟩ := h
    rw [he]
    cases reduced with
    | error f => exact .faulty hr hy
    | ok rest => exact .finished hr hy

theorem Delivers.unique {source : String} {x y : Except RunError String}
    (hx : Delivers source x) (hy : Delivers source y) : x = y := by
  cases hr : Program.read source with
  | error e =>
    rw [delivers_of_unreadable hr] at hx hy
    rw [hx, hy]
  | ok atoms =>
    rw [delivers_of_readable hr] at hx hy
    obtain ⟨reduced, hx, rfl⟩ := hx
    obtain ⟨reduced', hy, rfl⟩ := hy
    rw [hx.unique hy]

theorem Delivers.iff_eq {source : String} {x : Except RunError String} (h : Delivers source x)
    (result : Except RunError String) : Delivers source result ↔ result = x := by
  constructor
  · intro hr
    exact hr.unique h
  · intro hr
    rw [hr]
    exact h

theorem Stops.exists_delivers {source : String} (h : Stops source) :
    ∃ result, Delivers source result := by
  cases hr : Program.read source with
  | error e => exact ⟨_, .unreadable hr⟩
  | ok atoms =>
    obtain ⟨reduced, hy⟩ := h atoms hr
    exact ⟨_, (delivers_of_readable hr _).mpr ⟨reduced, hy, rfl⟩⟩

theorem not_delivers_busy {source : String} : ¬ Delivers source (.error .busy) := by
  intro h
  cases h

theorem not_delivers_embedded {source message : String} :
    ¬ Delivers source (.error (.embedded message)) := by
  intro h
  cases h

theorem Ready.answers_iff_delivers {options : Stages.Options} {r : Runner κ}
    (h : Ready options r) (host : Host κ) (source : String) (result : Except RunError String) :
    r.Answers host source result ↔ Delivers source result := by
  unfold Answers
  simp only [h.execute]
  cases hr : Program.read source with
  | error e =>
    rw [delivers_of_unreadable hr]
    simp only [Stages.direct_of_unreadable hr]
    constructor
    · intro hx
      obtain ⟨fuel, after, log, hx⟩ := hx
      cases hx
      rfl
    · intro hx
      rw [hx]
      exact ⟨0, r.release, _, rfl⟩
  | ok atoms =>
    rw [delivers_of_readable hr]
    simp only [Stages.report?_direct hr, Option.map_map, Option.map_eq_some_iff]
    constructor
    · intro hx
      obtain ⟨fuel, after, log, reduced, hy, hx⟩ := hx
      cases hx
      refine ⟨reduced, ⟨fuel, hy⟩, ?_⟩
      cases reduced <;> rfl
    · intro hx
      obtain ⟨reduced, ⟨fuel, hy⟩, rfl⟩ := hx
      cases reduced with
      | error f => exact ⟨fuel, r.release, _, .error f, hy, rfl⟩
      | ok rest => exact ⟨fuel, r.release, _, .ok rest, hy, rfl⟩

theorem Ready.delivers_of_mem {options : Stages.Options} {fresh r : Runner κ}
    {history : List (Run κ)} {run : Run κ} (hf : Ready options fresh)
    (h : History fresh history r) (hm : run ∈ history) : Delivers run.source run.result := by
  induction h with
  | nil => cases hm
  | cons he _ ih =>
    rcases List.mem_cons.mp hm with rfl | hm
    · exact (hf.answers_iff_delivers _ _ _).mp ⟨_, _, _, he⟩
    · exact ih (hf.next he) hm

/--
Whatever runs a standard runner made, it reads the next source, reduces its atoms and writes those
that are left, and so does a fresh one with the sources before. The host has no part in it.
-/
theorem standard_runs_direct_pipeline (options : Stages.Options) :
    ∃ fresh : Runner κ, standard options = .ok fresh ∧
      ∀ history r, History fresh history r →
        (∀ host source result, r.Answers host source result ↔ Delivers source result) ∧
        (∀ host source, Stops source → ∃! result, r.Answers host source result) ∧
        (∀ host source, ¬ r.Answers host source (.error .busy) ∧
          ∀ message, ¬ r.Answers host source (.error (.embedded message))) ∧
        ∀ run ∈ history, ∀ host result,
          fresh.Answers host run.source result ↔ result = run.result := by
  obtain ⟨fresh, hs, hf⟩ := exists_standard options
  refine ⟨fresh, hs, ?_⟩
  intro history r h
  have hr := (hf.history h).answers_iff_delivers
  refine ⟨hr, ?_, ?_, ?_⟩
  · intro host source hstop
    obtain ⟨result, hd⟩ := hstop.exists_delivers
    refine ⟨result, (hr host source result).mpr hd, ?_⟩
    intro other ho
    exact ((hr host source other).mp ho).unique hd
  · intro host source
    refine ⟨?_, ?_⟩
    · intro hb
      exact not_delivers_busy ((hr host source _).mp hb)
    · intro message he
      exact not_delivers_embedded ((hr host source _).mp he)
  · intro run hm host result
    rw [hf.answers_iff_delivers]
    exact (hf.delivers_of_mem h hm).iff_eq result

end Wanda.Runner

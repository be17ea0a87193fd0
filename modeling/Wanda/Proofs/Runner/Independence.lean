import Wanda.Proofs.Interpreter.Reads
import Wanda.Proofs.Runner.Pipeline

/-!
What a run depends on. A script reads some globals and no others, and the standard driver reads the
three stages and the slot, so nothing else that the globals hold shows in what a runner answers.
-/
namespace Wanda.Runner
open Script

variable {κ : Type}

/--
Runners between two runs with the same driver, and the same globals under the names that it reads.
The slot does not count, for every run fills it.
-/
structure Alike (r s : Runner κ) : Prop where
  idle : r.busy = false ∧ s.busy = false
  driver : r.driver = s.driver
  globals : ∀ name, Reads r.driver name → name ≠ slot →
    r.interpreter.global? name = s.interpreter.global? name

theorem Alike.symm {r s : Runner κ} (h : Alike r s) : Alike s r where
  idle := h.idle.symm
  driver := h.driver.symm
  globals := by
    intro name hn hs
    rw [← h.driver] at hn
    exact (h.globals name hn hs).symm

theorem Alike.release {r s : Runner κ} (h : Alike r s) : Alike r.release s.release where
  idle := ⟨rfl, rfl⟩
  driver := h.driver
  globals := by
    intro name hn hs
    rw [global?_release, global?_release, if_neg hs, if_neg hs]
    exact h.globals name hn hs

/-- The functions of the host are functions of their arguments, whichever runner calls them. -/
def Host.Blind (host : Host κ) : Prop :=
  ∀ r s, host.call r = host.call s

theorem Alike.report_eq {r s : Runner κ} (h : Alike r s) {host : Host κ} (hb : host.Blind)
    (fuel : Nat) (source : String) :
    (drive host fuel (r.hold source) source).report? =
      (drive host fuel (s.hold source) source).report? := by
  have hc : host.calls fuel (r.hold source) = host.calls fuel (s.hold source) := by
    rw [Host.calls, Host.calls, hb]
  have he : (r.hold source).interpreter.exec (host.calls fuel (r.hold source)) r.driver =
      (s.hold source).interpreter.exec (host.calls fuel (r.hold source)) r.driver := by
    refine exec_congr ?_
    intro name hn
    rw [global?_hold, global?_hold]
    by_cases hs : name = slot
    · rw [if_pos hs, if_pos hs]
    · rw [if_neg hs, if_neg hs]
      exact h.globals name hn hs
  rw [report?_drive, report?_drive, driver_hold, driver_hold, ← h.driver, he, hc]

/-- Alike runners that make the same runs get the same results. -/
theorem Alike.history {r s last : Runner κ} {history : List (Run κ)} (h : Alike r s)
    (hb : ∀ run ∈ history, run.host.Blind) (hr : History r history last) :
    ∃ last', History s history last' := by
  induction hr generalizing s with
  | nil => exact ⟨s, .nil⟩
  | @cons host r next last fuel source log result rest he _ ih =>
    rw [List.forall_mem_cons] at hb
    rw [execute_of_idle h.idle.1, h.report_eq hb.1] at he
    obtain ⟨report, hd, hn⟩ := Option.map_eq_some_iff.mp he
    cases hn
    obtain ⟨last', hl⟩ := ih h.release hb.2
    have hs : s.execute host fuel source = some (s.release, ⟨log, result⟩) := by
      rw [execute_of_idle h.idle.2, hd]
      rfl
    exact ⟨last', .cons hs hl⟩

/-- The names under which the stages stand. -/
def stageNames : List String :=
  ["parse", "evaluate", "format"]

theorem reads_pipeline {options : Stages.Options} {name : String}
    (h : Reads (pipeline options) name) : name = slot ∨ name ∈ stageNames := by
  have henv : Expr.pairNames (if options.trace then [(.str "trace", .bool true)] else []) = [] := by
    cases options.trace <;> simp [Expr.pairNames, Expr.names]
  simp only [pipeline, reads_cons_iff, Statement.operand, Statement.bound?, Expr.names,
    Expr.listNames, henv, List.mem_append, List.mem_singleton, List.not_mem_nil, not_reads_nil,
    or_false, and_false, ne_eq, Option.some.injEq] at h
  rw [stageNames]
  grind

/-- A standard driver over any globals is read, and runs alike with the same stages. -/
theorem exists_alike (options : Stages.Options) {i j : Interpreter κ}
    (h : ∀ name ∈ stageNames, i.global? name = j.global? name) :
    ∃ r s, withDriver i (driverText options) = .ok r ∧ withDriver j (driverText options) = .ok s ∧
      Alike r s := by
  have hd (k : Interpreter κ) :
      withDriver k (driverText options) = .ok ⟨k, pipeline options, false⟩ := by
    rw [withDriver, read_driverText]
  refine ⟨_, _, hd i, hd j, ⟨rfl, rfl⟩, rfl, ?_⟩
  intro name hn hs
  rcases reads_pipeline hn with hslot | hstage
  · exact absurd hslot hs
  · exact h name hstage

/--
What comes of a script depends on the globals that it reads and on no others. What runners with the
standard driver answer depends on the three stages alone, even if there are globals under the names
that the driver binds.
-/
theorem outcome_depends_on_reads :
    (∀ (calls : Calls κ) (script : Script) (i j : Interpreter κ),
      (∀ name, Reads script name → i.global? name = j.global? name) →
        i.exec calls script = j.exec calls script) ∧
    ∀ (options : Stages.Options) (i j : Interpreter κ),
      (∀ name ∈ stageNames, i.global? name = j.global? name) →
        ∃ r s, withDriver i (driverText options) = .ok r ∧
          withDriver j (driverText options) = .ok s ∧
          ∀ history : List (Run κ), (∀ run ∈ history, run.host.Blind) →
            ((∃ last, History r history last) ↔ ∃ last, History s history last) := by
  refine ⟨fun calls script i j h => exec_congr h, ?_⟩
  intro options i j h
  obtain ⟨r, s, hr, hs, ha⟩ := exists_alike options h
  refine ⟨r, s, hr, hs, ?_⟩
  intro history hb
  constructor
  · rintro ⟨last, hl⟩
    exact ha.history hb hl
  · rintro ⟨last, hl⟩
    exact ha.symm.history hb hl

/-- The stages, and a number under another name. -/
def numbered (name : String) : Interpreter Unit :=
  Interpreter.standard.setGlobal name (.int 1)

theorem outcome_depends_on_reads_numbered :
    (∀ name ∈ stageNames, (numbered "program").global? name = (numbered "result").global? name) ∧
      (numbered "program").global? "program" = some (.int 1) ∧
      (numbered "result").global? "program" = none ∧ idleHost.Blind ∧
      ∃ r s, withDriver (numbered "program") (driverText {}) = .ok r ∧
        withDriver (numbered "result") (driverText {}) = .ok s ∧
        ∀ source result, (∃ last, History r [⟨idleHost, source, result⟩] last) ↔
          ∃ last, History s [⟨idleHost, source, result⟩] last := by
  have h : ∀ name ∈ stageNames,
      (numbered "program").global? name = (numbered "result").global? name := by
    rw [stageNames, List.forall_mem_cons, List.forall_mem_cons, List.forall_mem_singleton]
    exact ⟨rfl, rfl, rfl⟩
  have hb : idleHost.Blind := fun _ _ => rfl
  obtain ⟨r, s, hr, hs, ha⟩ := outcome_depends_on_reads.2 {} _ _ h
  exact ⟨h, rfl, rfl, hb, r, s, hr, hs,
    fun source result => ha [⟨idleHost, source, result⟩] (List.forall_mem_singleton.mpr hb)⟩

end Wanda.Runner

import Wanda.Proofs.Reduction.Trace
import Wanda.Proofs.Runner.Pipeline

/-!
What a run says beside its result. The result does not depend on the options, and with tracing
there is one line for each step of the reduction.
-/
namespace Wanda

/-- The line about a step of reduction that a message is, if it is one. -/
def Message.rewrite? : Message → Option String
  | reduced w => some w.text
  | _ => none

def rewriteLines (log : List Message) : List String :=
  log.filterMap Message.rewrite?

@[simp] theorem rewriteLines_append (log more : List Message) :
    rewriteLines (log ++ more) = rewriteLines log ++ rewriteLines more :=
  List.filterMap_append

theorem rewriteLines_map_reduced (steps : List Reduction.Contraction) :
    rewriteLines (steps.map .reduced) = steps.map (·.text) := by
  rw [rewriteLines, List.filterMap_map]
  exact congrFun List.filterMap_eq_map' steps

/-- The lines that tell, one for each step, how reducing a source gets to its end. -/
inductive Rewritten (source : String) : List String → Prop
  | unreadable {e : Program.ReadError} : Program.read source = .error e → Rewritten source []
  | reduced {atoms : List Atom} {lines : List String} {last : Reduction.State}
      {result : Except Reduction.Fault (List Atom)} : Program.read source = .ok atoms →
      Reduction.Replays (.initial atoms) lines last → last.Ends result → Rewritten source lines

namespace Stages

variable {fuel more : Nat} {options : Options} {source : String}
  {report : Report StageError String}

theorem report?_direct_mono (h : (direct fuel options source).report? = some report)
    (hf : fuel ≤ more) : (direct more options source).report? = some report := by
  cases hr : Program.read source with
  | error e =>
    rw [direct_of_unreadable hr] at h ⊢
    exact h
  | ok atoms =>
    rw [report?_direct hr] at h ⊢
    obtain ⟨result, hy, rfl⟩ := Option.map_eq_some_iff.mp h
    rw [Reduction.run_mono hy hf, Reduction.trace_eq_of_run hy hf]
    rfl

theorem exists_report?_direct (h : (direct fuel options source).report? = some report)
    (others : Options) :
    ∃ log, (direct fuel others source).report? = some ⟨log, report.result⟩ := by
  cases hr : Program.read source with
  | error e =>
    rw [direct_of_unreadable hr] at h ⊢
    cases h
    exact ⟨[], rfl⟩
  | ok atoms =>
    rw [report?_direct hr] at h ⊢
    obtain ⟨result, hy, rfl⟩ := Option.map_eq_some_iff.mp h
    rw [hy]
    exact ⟨_, rfl⟩

theorem exists_rewritten (h : (direct fuel options source).report? = some report) :
    ∃ lines, Rewritten source lines ∧
      rewriteLines report.log = if options.trace then lines else [] := by
  cases hr : Program.read source with
  | error e =>
    rw [direct_of_unreadable hr] at h
    cases h
    exact ⟨[], .unreadable hr, by simp [rewriteLines]⟩
  | ok atoms =>
    rw [report?_direct hr] at h
    obtain ⟨result, hy, rfl⟩ := Option.map_eq_some_iff.mp h
    obtain ⟨last, hp, he⟩ := Reduction.replays_trace hy
    refine ⟨_, .reduced hr hp he, ?_⟩
    cases options.trace with
    | false => rfl
    | true => exact rewriteLines_map_reduced _

end Stages

namespace Runner

variable {κ : Type} {options others : Stages.Options} {host : Host κ} {fuel more : Nat}
  {r s next : Runner κ} {source : String} {report : Report RunError String}

theorem Ready.report_of_execute (h : Ready options r)
    (he : r.execute host fuel source = some (next, report)) :
    ∃ direct, (Stages.direct fuel options source).report? = some direct ∧ next = r.release ∧
      report = ⟨.runningProgram source.utf8ByteSize :: direct.log,
        direct.result.mapError fun e => .ofFailure ⟨.stage e, []⟩⟩ := by
  rw [h.execute] at he
  obtain ⟨direct, hd, hn⟩ := Option.map_eq_some_iff.mp he
  cases hn
  exact ⟨direct, hd, rfl, rfl⟩

theorem Ready.execute_mono (h : Ready options r)
    (he : r.execute host fuel source = some (next, report)) (other : Host κ) (hf : fuel ≤ more) :
    r.execute other more source = some (next, report) := by
  obtain ⟨direct, hd, rfl, rfl⟩ := h.report_of_execute he
  rw [h.execute, Stages.report?_direct_mono hd hf]
  rfl

/-- Runners that differ in the options come to the same result. -/
theorem Ready.exists_execute_eq (h : Ready options r) (hs : Ready others s)
    (he : r.execute host fuel source = some (next, report)) :
    ∃ log, s.execute host fuel source = some (s.release, ⟨log, report.result⟩) := by
  obtain ⟨direct, hd, -, rfl⟩ := h.report_of_execute he
  obtain ⟨log, hl⟩ := Stages.exists_report?_direct hd others
  refine ⟨.runningProgram source.utf8ByteSize :: log, ?_⟩
  rw [hs.execute, hl]
  rfl

/-- A run tells of all of its steps or of none. -/
theorem Ready.exists_rewritten (h : Ready options r)
    (he : r.execute host fuel source = some (next, report)) :
    ∃ lines, Rewritten source lines ∧
      rewriteLines report.log = if options.trace then lines else [] := by
  obtain ⟨direct, hd, -, rfl⟩ := h.report_of_execute he
  exact Stages.exists_rewritten hd

end Runner
end Wanda

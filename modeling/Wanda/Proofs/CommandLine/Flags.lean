import Wanda.Proofs.Playground.Editing
import Wanda.Proofs.Runner.Logging

/-!
The flags that choose what is logged. Two invocations that differ in nothing else print the same and
end the same way, and the steps of reduction are told with tracing, all of them, and never without.
-/
namespace Wanda.Playground.Session

variable {options others : Stages.Options} {host : Runner.Host Empty} {fuel more : Nat}
  {s next : Session} {command : Command} {t : Transcript} {exchanges : List Exchange}

/-- More work changes no reply, and neither does another host. -/
theorem respond_mono (hs : Runner.Ready options s.runner)
    (h : s.respond host fuel command = some (next, t)) (other : Runner.Host Empty)
    (hf : fuel ≤ more) : s.respond other more command = some (next, t) := by
  rcases respond_cases h with ⟨rfl, runner, report, he, rfl, rfl⟩ | ⟨-, rfl, -, -, ho⟩
  · rw [respond, hs.execute_mono he other hf]
    rfl
  · have hr : s.respond other more command = some ((s.edit command).on s.runner, t) :=
      ho other more s.runner
    rw [hr, ← runner_edit s command]
    rfl

theorem Talks.mono (h : s.Talks host fuel exchanges) (hs : Runner.Ready options s.runner)
    (other : Runner.Host Empty) (hf : fuel ≤ more) : s.Talks other more exchanges := by
  induction h with
  | nil => exact .nil
  | cons hr _ ih => exact .cons (respond_mono hs hr other hf) (ih (ready_of_respond hs hr))

/-- Sessions that differ in their runners print the same. -/
theorem exists_respond_on {r : Runner Empty} (hs : Runner.Ready options s.runner)
    (hr : Runner.Ready others r) (h : s.respond host fuel command = some (next, t)) :
    ∃ r' u, (s.on r).respond host fuel command = some (next.on r', u) ∧ u.output = t.output := by
  rcases respond_cases h with ⟨rfl, runner, report, he, rfl, rfl⟩ | ⟨-, -, -, -, ho⟩
  · obtain ⟨log, hl⟩ := hs.exists_execute_eq hr he
    refine ⟨r.release, { output := printed report.result, log }, ?_, rfl⟩
    have hrun : (s.on r).respond host fuel .run = (r.execute host fuel s.editor).map _ := rfl
    rw [hrun, hl]
    rfl
  · exact ⟨r, t, ho host fuel r, rfl⟩

theorem Talks.on {r : Runner Empty} (h : s.Talks host fuel exchanges)
    (hs : Runner.Ready options s.runner) (hr : Runner.Ready others r) :
    ∃ exchanges', (s.on r).Talks host fuel exchanges' ∧
      exchanges'.map (·.command) = exchanges.map (·.command) ∧
      exchanges'.map (·.reply.output) = exchanges.map (·.reply.output) := by
  induction h generalizing r with
  | nil => exact ⟨[], .nil, rfl, rfl⟩
  | @cons s next command reply rest he _ ih =>
    obtain ⟨r', u, hu, ho⟩ := exists_respond_on hs hr he
    have hr' : Runner.Ready others (next.on r').runner := ready_of_respond (s := s.on r) hr hu
    obtain ⟨rest', ht, hc, hout⟩ := ih (ready_of_respond hs he) hr'
    refine ⟨⟨s.on r, command, u, next.on r'⟩ :: rest', .cons hu ht, ?_, ?_⟩
    · rw [List.map_cons, List.map_cons, hc]
    · rw [List.map_cons, List.map_cons, hout, ho]

end Wanda.Playground.Session

namespace Wanda.Playground
open Session

/-- The texts that are run on some commands, each as the commands before it leave it. -/
inductive RunTexts : List Command → List Command → List String → Prop
  | nil {done : List Command} : RunTexts done [] []
  | run {done rest : List Command} {text : String} {texts : List String} : Edited done text →
      RunTexts (done ++ [.run]) rest texts → RunTexts done (.run :: rest) (text :: texts)
  | other {done rest : List Command} {c : Command} {texts : List String} : c ≠ .run →
      RunTexts (done ++ [c]) rest texts → RunTexts done (c :: rest) texts

/-- A conversation tells of all steps of the texts it runs, or of none. -/
theorem Session.Talks.exists_rewritten {options : Stages.Options} {done : List Command}
    {host : Runner.Host Empty} {fuel : Nat} {s : Session} {exchanges : List Exchange}
    (h : s.Talks host fuel exchanges) (hk : Keeps done s) (hs : Runner.Ready options s.runner) :
    ∃ texts lines, RunTexts done (exchanges.map (·.command)) texts ∧
      List.Forall₂ Rewritten texts lines ∧
      rewriteLines (exchanges.flatMap (·.reply.log)) =
        if options.trace then lines.flatten else [] := by
  induction h generalizing done with
  | nil => exact ⟨[], [], .nil, .nil, by simp [rewriteLines]⟩
  | @cons s next command reply rest he _ ih =>
    obtain ⟨texts, lines, hr, hl, hlog⟩ := ih (hk.respond he) (ready_of_respond hs he)
    rw [List.flatMap_cons, rewriteLines_append, hlog]
    rcases respond_cases he with ⟨rfl, runner, report, hx, -, rfl⟩ | ⟨hn, -, output, rfl, -⟩
    · obtain ⟨new, hnew, htold⟩ := hs.exists_rewritten hx
      refine ⟨s.editor :: texts, new :: lines, .run hk.editor hr, .cons hnew hl, ?_⟩
      rw [htold]
      cases options.trace <;> rfl
    · exact ⟨texts, lines, .other hn hr, hl, rfl⟩

end Wanda.Playground

namespace Wanda.CommandLine
open Playground

variable {options others : Stages.Options} {host : Runner.Host Empty} {fuel more : Nat}
  {files : Files} {input : List UInt8} {runner other : Runner Empty} {i : Invocation}
  {action : Action} {t : Transcript}

/-- What running a program shows, after what was told on the way to it. -/
def runTranscript (log : List Message) (report : Report RunError String) : Transcript :=
  match report.result with
  | .ok text => { output := text ++ "\n", log := log ++ report.log }
  | .error e => { output := "", log := log ++ report.log, error := some e.text }

/-- What an action shows, by what it is to do and what comes of it. -/
inductive Performs (host : Runner.Host Empty) (fuel : Nat) (files : Files) (input : List UInt8)
    (runner : Runner Empty) : Action → Transcript → Prop
  | list : Performs host fuel files input runner .list
      { output := Example.listing Example.bundled (some Example.standard.label) }
  | unavailable {subject : Subject} {error : String} : subject.source files = .error error →
      Performs host fuel files input runner (.run subject) (failed error)
  | run {subject : Subject} {log : List Message} {source : String} {next : Runner Empty}
      {report : Report RunError String} : subject.source files = .ok (log, source) →
      runner.execute host fuel source = some (next, report) →
      Performs host fuel files input runner (.run subject) (runTranscript log report)
  | playground {first : Session} {exchanges : List Exchange} :
      Session.start runner = .ok first → first.Talks host fuel exchanges →
      exchanges.map (·.command) = commands (Text.lines input) →
      Performs host fuel files input runner .playground
        (Transcript.append { output := first.opening }
          (transcript exchanges (ending (Text.lines input))))

theorem perform_run {subject : Subject} (ha : i.action = .run subject)
    (hr : i.runner = .ok runner) :
    i.perform host fuel files input =
      match subject.source files with
      | .error e => some (failed e)
      | .ok (log, source) => runSource host fuel runner log source := by
  rw [Invocation.perform, hr, ha]
  rfl

theorem perform_eq_some_iff (hr : i.runner = .ok runner) :
    i.perform host fuel files input = some t ↔ Performs host fuel files input runner i.action t := by
  cases ha : i.action with
  | list =>
    rw [Invocation.perform, hr, ha]
    constructor
    · intro h
      cases h
      exact .list
    · intro h
      cases h
      rfl
  | run subject =>
    rw [perform_run ha hr]
    cases hs : subject.source files with
    | error e =>
      constructor
      · intro h
        cases h
        exact .unavailable hs
      · intro h
        cases h with
        | unavailable he =>
          cases hs.symm.trans he
          rfl
        | run he _ => cases hs.symm.trans he
    | ok found =>
      obtain ⟨log, source⟩ := found
      constructor
      · intro h
        obtain ⟨⟨next, report⟩, he, rfl⟩ := Option.map_eq_some_iff.mp h
        exact .run hs he
      · intro h
        cases h with
        | unavailable he => cases hs.symm.trans he
        | run hf he =>
          cases hs.symm.trans hf
          exact Option.map_eq_some_iff.mpr ⟨_, he, rfl⟩
  | playground =>
    have hfirst := Session.start_eq runner
    rw [perform_playground ha hr hfirst]
    constructor
    · intro h
      obtain ⟨u, hu, rfl⟩ := Option.map_eq_some_iff.mp h
      obtain ⟨exchanges, ht, hc, rfl⟩ := Session.converse_eq_some_iff.mp hu
      exact .playground hfirst ht hc
    · intro h
      cases h with
      | playground hs ht hc =>
        cases hfirst.symm.trans hs
        rw [Session.converse_of_talks ht hc, Option.map_some]

theorem Performs.mono (h : Performs host fuel files input runner action t)
    (hr : Runner.Ready options runner) (other : Runner.Host Empty) (hf : fuel ≤ more) :
    Performs other more files input runner action t := by
  cases h with
  | list => exact .list
  | unavailable hs => exact .unavailable hs
  | run hs he => exact .run hs (hr.execute_mono he other hf)
  | playground hs ht hc =>
    cases (Session.start_eq runner).symm.trans hs
    exact .playground hs (ht.mono hr other hf) hc

theorem output_transcript (exchanges : List Exchange) (error : Option String) :
    (transcript exchanges error).output =
      String.join ((exchanges.map (·.reply.output)).map (prompt ++ ·)) ++ prompt := by
  rw [List.map_map]
  rfl

/-- The options change nothing in what is printed, nor in the error. -/
theorem Performs.exists_other (h : Performs host fuel files input runner action t)
    (hr : Runner.Ready options runner) (ho : Runner.Ready others other) :
    ∃ u, Performs host fuel files input other action u ∧ u.output = t.output ∧ u.error = t.error := by
  cases h with
  | list => exact ⟨_, .list, rfl, rfl⟩
  | unavailable hs => exact ⟨_, .unavailable hs, rfl, rfl⟩
  | @run subject log source next report hs he =>
    obtain ⟨said, hx⟩ := hr.exists_execute_eq ho he
    refine ⟨_, .run hs hx, ?_⟩
    unfold runTranscript
    cases report.result with
    | error e => exact ⟨rfl, rfl⟩
    | ok text => exact ⟨rfl, rfl⟩
  | @playground first exchanges hs ht hc =>
    cases (Session.start_eq runner).symm.trans hs
    obtain ⟨exchanges', ht', hc', hout⟩ := ht.on hr ho
    refine ⟨_, .playground (Session.start_eq other) ht' (hc'.trans hc), ?_, rfl⟩
    simp only [Transcript.append, output_transcript, hout]
    rfl

/-- The texts of the programs that an action runs, in order. -/
inductive Action.Runs (files : Files) (input : List UInt8) : Action → List String → Prop
  | list : Runs files input .list []
  | unavailable {subject : Subject} {error : String} : subject.source files = .error error →
      Runs files input (.run subject) []
  | run {subject : Subject} {log : List Message} {source : String} :
      subject.source files = .ok (log, source) → Runs files input (.run subject) [source]
  | playground {texts : List String} : RunTexts [] (commands (Text.lines input)) texts →
      Runs files input .playground texts

theorem rewriteLines_of_source {subject : Subject} {log : List Message} {source : String}
    (h : subject.source files = .ok (log, source)) : rewriteLines log = [] := by
  cases subject with
  | file path =>
    cases hf : readFile files path with
    | error e =>
      rw [Subject.source, hf] at h
      cases h
    | ok content =>
      rw [Subject.source, hf] at h
      cases h
      rfl
  | bundled label =>
    cases hf : Example.find? Example.bundled label with
    | none =>
      rw [Subject.source, hf] at h
      cases h
    | some e =>
      rw [Subject.source, hf] at h
      cases h
      rfl

/-- An action tells of all steps of the programs it runs, or of none. -/
theorem Performs.exists_rewritten (h : Performs host fuel files input runner action t)
    (hr : Runner.Ready options runner) :
    ∃ texts lines, action.Runs files input texts ∧ List.Forall₂ Rewritten texts lines ∧
      rewriteLines t.log = if options.trace then lines.flatten else [] := by
  cases h with
  | list => exact ⟨[], [], .list, .nil, by simp [rewriteLines]⟩
  | unavailable hs => exact ⟨[], [], .unavailable hs, .nil, by simp [rewriteLines, failed]⟩
  | @run subject log source next report hs he =>
    obtain ⟨lines, hl, htold⟩ := hr.exists_rewritten he
    refine ⟨[source], [lines], .run hs, .cons hl .nil, ?_⟩
    have hlog : (runTranscript log report).log = log ++ report.log := by
      unfold runTranscript
      cases report.result <;> rfl
    rw [hlog, rewriteLines_append, rewriteLines_of_source hs, htold, List.flatten_singleton,
      List.nil_append]
  | @playground first exchanges hs ht hc =>
    have hk := keeps_start hs
    cases (Session.start_eq runner).symm.trans hs
    obtain ⟨texts, lines, hrun, hl, htold⟩ := ht.exists_rewritten hk hr
    rw [hc] at hrun
    exact ⟨texts, lines, .playground hrun, hl, htold⟩

/-- The messages of a transcript that an invocation shows. -/
def shown (i : Invocation) (t : Transcript) : List Message :=
  t.log.filter fun m => i.level.shows m.level

theorem shown_of_trace (hi : i.trace = true) (t : Transcript) : shown i t = t.log := by
  have hl : i.level = .debug := by simp [Invocation.level, hi]
  rw [shown, hl]
  exact List.filter_eq_self.mpr fun _ _ => rfl

/-- Filtering leaves no line that was not there. -/
theorem rewriteLines_shown (i : Invocation) {t : Transcript} (h : rewriteLines t.log = []) :
    rewriteLines (shown i t) = [] := by
  rw [rewriteLines, List.filterMap_eq_nil_iff] at h ⊢
  intro m hm
  exact h m (List.mem_of_mem_filter hm)

/-- The invocation comes to its end with this transcript, in some host. -/
def Invocation.Ends (i : Invocation) (files : Files) (input : List UInt8) (t : Transcript) : Prop :=
  ∃ host fuel, i.perform host fuel files input = some t

theorem Invocation.exists_runner (i : Invocation) :
    ∃ runner, i.runner = .ok runner ∧ Runner.Ready { trace := i.trace } runner :=
  Runner.exists_standard { trace := i.trace }

theorem Invocation.Ends.unique {u : Transcript} (ht : i.Ends files input t)
    (hu : i.Ends files input u) : t = u := by
  obtain ⟨host, fuel, ht⟩ := ht
  obtain ⟨_, more, hu⟩ := hu
  obtain ⟨runner, hr, hready⟩ := i.exists_runner
  rw [perform_eq_some_iff hr] at ht hu
  have ht' := (perform_eq_some_iff hr).mpr (ht.mono hready host (Nat.le_max_left fuel more))
  have hu' := (perform_eq_some_iff hr).mpr (hu.mono hready host (Nat.le_max_right fuel more))
  exact Option.some.inj (ht'.symm.trans hu')

theorem errorOutput_of_error {e : String} (h : t.error = some e) :
    errorOutput i.level t = String.join ((shown i t).map (·.line)) ++ ("error: " ++ e ++ "\n") := by
  rw [errorOutput, h]
  rfl

/--
An invocation that comes to its end does so with any other flags for logging, with the same output,
exit code and error. Without tracing no step of reduction is told, and with tracing each step of
each program that was run, however verbose the invocation is.
-/
theorem logging_changes_no_result {i j : Invocation} (ha : j.action = i.action)
    {files : Files} {input : List UInt8} {t : Transcript} (h : i.Ends files input t) :
    ∃ u, (∀ v, j.Ends files input v ↔ v = u) ∧ u.output = t.output ∧ exitCode u = exitCode t ∧
      (exitCode t = 1 → ∃ e,
        errorOutput i.level t =
          String.join ((shown i t).map (·.line)) ++ ("error: " ++ e ++ "\n") ∧
        errorOutput j.level u =
          String.join ((shown j u).map (·.line)) ++ ("error: " ++ e ++ "\n")) ∧
      ∃ texts lines, i.action.Runs files input texts ∧ List.Forall₂ Rewritten texts lines ∧
        rewriteLines (shown i t) = if i.trace then lines.flatten else [] := by
  obtain ⟨host, fuel, hf⟩ := h
  obtain ⟨runner, hr, hready⟩ := i.exists_runner
  obtain ⟨other, ho, hoready⟩ := j.exists_runner
  have hp : Performs host fuel files input runner i.action t := (perform_eq_some_iff hr).mp hf
  obtain ⟨u, hu, hout, herr⟩ := hp.exists_other hready hoready
  have hj : j.Ends files input u := ⟨host, fuel, (perform_eq_some_iff ho).mpr (ha ▸ hu)⟩
  refine ⟨u, ?_, hout, by rw [exitCode, exitCode, herr], ?_, ?_⟩
  · intro v
    constructor
    · intro hv
      exact hv.unique hj
    · intro hv
      rw [hv]
      exact hj
  · intro hcode
    cases he : t.error with
    | none =>
      rw [exitCode, he] at hcode
      cases hcode
    | some e =>
      exact ⟨e, errorOutput_of_error he, errorOutput_of_error (herr.trans he)⟩
  · obtain ⟨texts, lines, hruns, hl, htold⟩ := hp.exists_rewritten hready
    refine ⟨texts, lines, hruns, hl, ?_⟩
    cases hi : i.trace with
    | false =>
      rw [hi] at htold
      exact rewriteLines_shown i htold
    | true =>
      rw [hi] at htold
      rw [shown_of_trace hi]
      exact htold

/-- Run the failing program from a file, with these flags. -/
def failingRun (trace : Bool) (verbosity : Nat) : Invocation :=
  ⟨trace, verbosity, .run (.file "max.wanda")⟩

def failingFiles : Files := fun _ => .ok (Text.encode failingProgram)

theorem logging_changes_no_result_failing :
    ∃ t u, (failingRun true 0).Ends failingFiles [] t ∧
      (failingRun false 2).Ends failingFiles [] u ∧ u.output = t.output ∧ exitCode t = 1 ∧
      exitCode u = 1 := by
  have hl : ∀ a ∈ Program.split failingProgram, Atom.Legal a := by
    have hc := (Program.read_eq_ok_iff_check.mp read_failingProgram).2
    rw [(Program.read_eq_ok_iff_check.mp read_failingProgram).1]
    exact (Program.check_eq_ok_iff.mp hc).1
  have hfile : failingFiles "max.wanda" = .ok (Text.encode failingProgram) := rfl
  have hd := Runner.Delivers.faulty read_failingProgram yields_failingProgram
  have ha : (failingRun true 0).action = .run (.file "max.wanda") := rfl
  obtain ⟨t, enough, hp, hprints⟩ := exists_perform_file ha hfile hl hd []
  have ht : (failingRun true 0).Ends failingFiles [] t :=
    ⟨.plain, enough, hp .plain enough le_rfl⟩
  have hcode : exitCode t = 1 := hprints.2.2
  have hsame : (failingRun false 2).action = (failingRun true 0).action := rfl
  obtain ⟨u, hu, hout, hcode', -⟩ := logging_changes_no_result hsame ht
  exact ⟨t, u, ht, (hu u).mpr rfl, hout, hcode, hcode'.trans hcode⟩

end Wanda.CommandLine

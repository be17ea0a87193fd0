import Wanda.Proofs.Playground.Typing

/-!
A conversation is a chain of exchanges: the session answers one command after the other, up to the
first line that says to quit or is no text. What the commands do to the editor and the selection
has nothing to do with the runner.
-/
namespace Wanda.Playground

/-- The commands that a session answers. -/
def commands : List (Option String) → List Command
  | [] => []
  | none :: _ => []
  | some text :: rest =>
    if Command.parse text = .quit then [] else Command.parse text :: commands rest

/-- The error that ends a session, if it ends with one. -/
def ending : List (Option String) → Option String
  | [] => none
  | none :: _ => some "stream did not contain valid UTF-8"
  | some text :: rest => if Command.parse text = .quit then none else ending rest

/-- A command, the reply, and the session before and after. -/
structure Exchange where
  before : Session
  command : Command
  reply : Transcript
  after : Session

/-- Each reply is preceded by a prompt, and the last prompt has none. -/
def transcript (exchanges : List Exchange) (error : Option String) : Transcript :=
  ⟨String.join (exchanges.map fun x => prompt ++ x.reply.output) ++ prompt,
    exchanges.flatMap (·.reply.log), error⟩

theorem transcript_cons (x : Exchange) (rest : List Exchange) (error : Option String) :
    transcript (x :: rest) error =
      Transcript.append { x.reply with output := prompt ++ x.reply.output }
        (transcript rest error) := by
  simp [transcript, Transcript.append, String.append_assoc]

namespace Session

/-- Exchanges that a session makes one after the other. -/
inductive Talks (host : Runner.Host Empty) (fuel : Nat) : Session → List Exchange → Prop
  | nil {s : Session} : Talks host fuel s []
  | cons {s next : Session} {command : Command} {reply : Transcript} {rest : List Exchange} :
      s.respond host fuel command = some (next, reply) → Talks host fuel next rest →
      Talks host fuel s (⟨s, command, reply, next⟩ :: rest)

variable {host : Runner.Host Empty} {fuel : Nat}

theorem converse_of_talks {s : Session} {exchanges : List Exchange}
    {lines : List (Option String)} (h : s.Talks host fuel exchanges)
    (hc : exchanges.map (·.command) = commands lines) :
    s.converse host fuel lines = some (transcript exchanges (ending lines)) := by
  induction lines generalizing s exchanges with
  | nil =>
    obtain rfl : exchanges = [] := List.map_eq_nil_iff.mp hc
    rfl
  | cons line rest ih =>
    cases line with
    | none =>
      obtain rfl : exchanges = [] := List.map_eq_nil_iff.mp hc
      rfl
    | some text =>
      rw [commands] at hc
      rw [converse, ending]
      by_cases hq : Command.parse text = .quit
      · rw [if_pos hq] at hc
        obtain rfl : exchanges = [] := List.map_eq_nil_iff.mp hc
        rw [if_pos hq, if_pos hq]
        rfl
      · rw [if_neg hq] at hc
        cases h with
        | nil => cases hc
        | @cons _ next command reply others hr ht =>
          rw [List.map_cons, List.cons.injEq] at hc
          obtain ⟨rfl, hrest⟩ := hc
          have hs : next.converse host fuel rest = some (transcript others (ending rest)) :=
            ih ht hrest
          simp [hq, hr, hs, transcript_cons]

theorem exists_talks_of_converse {s : Session} {lines : List (Option String)}
    {t : Transcript} (h : s.converse host fuel lines = some t) :
    ∃ exchanges, s.Talks host fuel exchanges ∧ exchanges.map (·.command) = commands lines := by
  induction lines generalizing s t with
  | nil => exact ⟨[], .nil, rfl⟩
  | cons line rest ih =>
    cases line with
    | none => exact ⟨[], .nil, rfl⟩
    | some text =>
      rw [commands]
      rw [converse] at h
      by_cases hq : Command.parse text = .quit
      · rw [if_pos hq]
        exact ⟨[], .nil, rfl⟩
      · rw [if_neg hq] at h ⊢
        obtain ⟨⟨next, reply⟩, hr, h⟩ := Option.bind_eq_some_iff.mp h
        obtain ⟨u, hu, -⟩ := Option.bind_eq_some_iff.mp h
        obtain ⟨exchanges, ht, hc⟩ := ih hu
        exact ⟨_, .cons hr ht, by rw [List.map_cons, hc]⟩

/-- What a conversation shows are the replies to the commands, and how it ends. -/
theorem converse_eq_some_iff {s : Session} {lines : List (Option String)} {t : Transcript} :
    s.converse host fuel lines = some t ↔
      ∃ exchanges, s.Talks host fuel exchanges ∧ exchanges.map (·.command) = commands lines ∧
        t = transcript exchanges (ending lines) := by
  constructor
  · intro h
    obtain ⟨exchanges, ht, hc⟩ := exists_talks_of_converse h
    rw [converse_of_talks ht hc] at h
    exact ⟨exchanges, ht, hc, (Option.some.inj h).symm⟩
  · rintro ⟨exchanges, ht, hc, rfl⟩
    exact converse_of_talks ht hc

/-- The session with another runner. -/
def on (s : Session) (runner : Runner Empty) : Session :=
  { s with runner }

theorem select?_on (s : Session) (runner : Runner Empty) (label : String) :
    (s.on runner).select? label = (s.select? label).map (·.on runner) := by
  simp [select?, on, foldl_notify, Function.comp_def]

/-- The session after a command other than `:run`. -/
def edit (s : Session) : Command → Session
  | .clear => { s with editor := "" }
  | .select label => (s.select? label).getD s
  | .line text => { s with editor := s.editor ++ text ++ "\n" }
  | _ => s

theorem runner_edit (s : Session) (command : Command) : (s.edit command).runner = s.runner := by
  cases command with
  | select label =>
    rw [edit]
    cases hs : s.select? label with
    | none => rfl
    | some next => exact runner_of_select? hs
  | _ => rfl

/-- The reply to a command other than `:run` has nothing to do with the runner. -/
theorem exists_respond {command : Command} (h : command ≠ .run) (s : Session) :
    ∃ output, ∀ host fuel runner,
      (s.on runner).respond host fuel command = some ((s.edit command).on runner, { output }) := by
  cases command with
  | run => exact absurd rfl h
  | list =>
    refine ⟨Example.listing s.selection.examples (s.selection.current.map (·.label)), ?_⟩
    intro host fuel runner
    rfl
  | select label =>
    cases hs : s.select? label with
    | none =>
      refine ⟨"no example named " ++ label ++ "\n", ?_⟩
      intro host fuel runner
      simp [respond, edit, select?_on, hs]
    | some next =>
      refine ⟨next.editor, ?_⟩
      intro host fuel runner
      simp only [respond, edit, select?_on, hs, Option.map_some, Option.getD_some]
      rfl
  | _ => exact ⟨_, fun _ _ _ => rfl⟩

/-- What a command does: `:run` runs the text in the editor, and the others edit it. -/
theorem respond_cases {s next : Session} {command : Command} {t : Transcript}
    (h : s.respond host fuel command = some (next, t)) :
    (command = .run ∧ ∃ runner report,
      s.runner.execute host fuel s.editor = some (runner, report) ∧ next = s.on runner ∧
        t = { output := printed report.result, log := report.log }) ∨
    (command ≠ .run ∧ next = s.edit command ∧ ∃ output, t = { output } ∧ ∀ host fuel runner,
      (s.on runner).respond host fuel command = some (next.on runner, t)) := by
  by_cases hc : command = .run
  · subst hc
    obtain ⟨⟨runner, report⟩, he, hn⟩ := Option.map_eq_some_iff.mp h
    cases hn
    exact .inl ⟨rfl, runner, report, he, rfl, rfl⟩
  · obtain ⟨output, ho⟩ := exists_respond hc s
    have hs : s.respond host fuel command = some ((s.edit command).on s.runner, { output }) :=
      ho host fuel s.runner
    have he : (s.edit command).on s.runner = s.edit command := by
      rw [← runner_edit s command]
      rfl
    rw [h, he] at hs
    cases hs
    exact .inr ⟨hc, rfl, output, rfl, ho⟩

theorem ready_of_respond {options : Stages.Options} {s next : Session} {command : Command}
    {t : Transcript} (hs : Runner.Ready options s.runner)
    (h : s.respond host fuel command = some (next, t)) : Runner.Ready options next.runner := by
  rcases runner_of_respond h with he | ⟨report, he⟩
  · rw [he]
    exact hs
  · exact hs.next he

end Session
end Wanda.Playground

namespace Wanda.CommandLine
open Playground

theorem perform_playground {i : Invocation} {fresh : Runner Empty} {first : Session}
    (ha : i.action = .playground) (hf : i.runner = .ok fresh) (hs : Session.start fresh = .ok first)
    (host : Runner.Host Empty) (fuel : Nat) (files : Files) (input : List UInt8) :
    i.perform host fuel files input =
      (first.converse host fuel (Text.lines input)).map
        (Transcript.append { output := first.opening }) := by
  simp only [Invocation.perform, hf, ha, Action.perform, hs]

end Wanda.CommandLine

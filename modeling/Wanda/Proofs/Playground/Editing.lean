import Wanda.Proofs.Playground.Conversation
import Wanda.Proofs.Selection

/-!
What a session holds after any commands. The editor has the text that was last put there, by an
example or by clearing, and the lines typed since then; the selection is the example loaded last.
`:run` runs the text in the editor as a fresh runner does, and the session goes on up to the first
line that says to quit.
-/
namespace Wanda.Playground
open Text

/-- The command loads an example. -/
inductive Command.Loads : Command → Example → Prop
  | select {label : String} {e : Example} :
      Example.find? Example.bundled label = some e → Loads (.select label) e

/-- The command puts a text into the editor in place of what is there. -/
inductive Command.Puts : Command → String → Prop
  | load {c : Command} {e : Example} : c.Loads e → Puts c e.source
  | clear : Puts .clear ""

/-- The command leaves the editor and the selection alone. -/
inductive Command.IsIdle : Command → Prop
  | run : IsIdle .run
  | print : IsIdle .print
  | list : IsIdle .list
  | help : IsIdle .help
  | unknown (name : String) : IsIdle (.unknown name)
  | select {label : String} : Example.find? Example.bundled label = none → IsIdle (.select label)

/-- The line of the program that a command is, if it is one. -/
def Command.line? : Command → Option String
  | .line text => some text
  | _ => none

/-- The lines of a program among some commands, each with a newline. -/
def typedText (commands : List Command) : String :=
  String.join ((commands.filterMap Command.line?).map (· ++ "\n"))

/-- The text that the commands leave in the editor: what was last put there, and the lines since. -/
def Edited (commands : List Command) (text : String) : Prop :=
  ∃ start after, Latest Command.Puts Example.standard.source commands start after ∧
    text = start ++ typedText after

/-- The example that the commands loaded last. -/
def Selected (commands : List Command) (e : Example) : Prop :=
  ∃ after, Latest Command.Loads Example.standard commands e after

theorem Command.Loads.unique {c : Command} {e f : Example} (he : c.Loads e) (hf : c.Loads f) :
    e = f := by
  cases he with
  | select he =>
    cases hf with
    | select hf => exact Option.some.inj (he.symm.trans hf)

theorem Command.Puts.unique {c : Command} {s t : String} (hs : c.Puts s) (ht : c.Puts t) :
    s = t := by
  cases hs with
  | load he =>
    cases ht with
    | load hf => rw [he.unique hf]
    | clear => cases he
  | clear =>
    cases ht with
    | load hf => cases hf
    | clear => rfl

theorem Edited.unique {commands : List Command} {s t : String} (hs : Edited commands s)
    (ht : Edited commands t) : s = t := by
  obtain ⟨start, after, hl, rfl⟩ := hs
  obtain ⟨start', after', hl', rfl⟩ := ht
  obtain ⟨rfl, rfl⟩ := hl.unique (fun _ _ _ hb hc => hb.unique hc) hl'
  rfl

theorem not_puts_of_not_loads {c : Command} (hl : ∀ e, ¬ c.Loads e) (hc : c ≠ .clear)
    (text : String) : ¬ c.Puts text := by
  intro hp
  cases hp with
  | load he => exact hl _ he
  | clear => exact hc rfl

theorem not_loads_of_ne_select {c : Command} (hc : ∀ label, c ≠ .select label) (e : Example) :
    ¬ c.Loads e := by
  intro hl
  cases hl with
  | @select label => exact hc label rfl

theorem not_puts_line (text t : String) : ¬ (Command.line text).Puts t :=
  not_puts_of_not_loads (not_loads_of_ne_select (by simp)) (by simp) t

theorem not_loads_of_find? {label : String} (h : Example.find? Example.bundled label = none)
    (e : Example) : ¬ (Command.select label).Loads e := by
  intro hl
  cases hl with
  | select hf =>
    rw [h] at hf
    cases hf

theorem typedText_append (commands : List Command) (c : Command) :
    typedText (commands ++ [c]) = typedText commands ++ typedText [c] := by
  simp [typedText]

theorem Edited.append {commands : List Command} {text : String} {c : Command}
    (h : Edited commands text) (hc : ∀ t, ¬ c.Puts t) :
    Edited (commands ++ [c]) (text ++ typedText [c]) := by
  obtain ⟨start, after, hl, rfl⟩ := h
  refine ⟨start, after ++ [c], hl.append_silent hc, ?_⟩
  rw [typedText_append, String.append_assoc]

theorem edited_append_of_puts (commands : List Command) {text : String} {c : Command}
    (h : c.Puts text) : Edited (commands ++ [c]) text :=
  ⟨text, [], .append_said commands h, by simp [typedText]⟩

theorem Selected.append {commands : List Command} {e : Example} {c : Command}
    (h : Selected commands e) (hc : ∀ f, ¬ c.Loads f) : Selected (commands ++ [c]) e := by
  obtain ⟨after, hl⟩ := h
  exact ⟨after ++ [c], hl.append_silent hc⟩

/-- A text to which lines can be added: nothing, or whole lines. -/
def IsLines (text : String) : Prop :=
  text = "" ∨ text.toList.getLast? = some '\n'

theorem isLines_append_newline (text : String) : IsLines (text ++ "\n") := by
  right
  simp

theorem isLines_source {e : Example} (h : e ∈ Example.bundled) : IsLines e.source := by
  have hall : ∀ e ∈ Example.bundled, e.source.toList.getLast? = some '\n' := by decide +kernel
  exact .inr (hall e h)

theorem isLines_of_loads {c : Command} {e : Example} (h : c.Loads e) : IsLines e.source := by
  cases h with
  | select hf => exact isLines_source (List.mem_of_find?_eq_some hf)

/-- A label is found by the selection where some example has it, and the editor hears of it. -/
theorem Session.select?_cases {s : Session} (ho : s.selection.observers = [.editor])
    (label : String) :
    (∃ k e, Example.find? s.selection.examples label = some e ∧
      s.selection.examples[k]? = some e ∧
      s.select? label =
        some { s with selection := { s.selection with chosen := some k }, editor := e.source }) ∨
    Example.find? s.selection.examples label = none ∧ s.select? label = none := by
  rcases s.selection.select?_cases label with ⟨k, e, hl, hf, hs⟩ | ⟨hn, hs⟩
  · refine .inl ⟨k, e, Example.find?_eq_some_iff.mpr ⟨hl, k, hf⟩, hf.here, ?_⟩
    simp [Session.select?, hs, ho, Session.notify]
  · refine .inr ⟨?_, ?_⟩
    · simpa [Example.find?] using hn
    · rw [Session.select?, hs]
      rfl

/-- A session that some commands have led to. -/
structure Keeps (commands : List Command) (s : Session) : Prop where
  examples : s.selection.examples = Example.bundled
  observers : s.selection.observers = [.editor]
  editor : Edited commands s.editor
  lines : IsLines s.editor
  selected : ∃ e, Selected commands e ∧ s.selection.current = some e

theorem keeps_start {runner : Runner Empty} {first : Session}
    (h : Session.start runner = .ok first) : Keeps [] first := by
  cases (Session.start_eq runner).symm.trans h
  exact
    { examples := rfl
      observers := rfl
      editor := ⟨_, [], .nil, by simp [typedText]⟩
      lines := isLines_source List.mem_cons_self
      selected := ⟨Example.standard, ⟨[], .nil⟩, rfl⟩ }

namespace Keeps

variable {done : List Command} {s next : Session} {c : Command} {host : Runner.Host Empty}
  {fuel : Nat} {t : Transcript}

theorem on (h : Keeps done s) (runner : Runner Empty) : Keeps done (s.on runner) :=
  ⟨h.examples, h.observers, h.editor, h.lines, h.selected⟩

/-- A command that does nothing here. -/
theorem skip (h : Keeps done s) (hl : ∀ e, ¬ c.Loads e) (hc : c ≠ .clear) (hn : c.line? = none) :
    Keeps (done ++ [c]) s where
  examples := h.examples
  observers := h.observers
  editor := by
    have ht : s.editor ++ typedText [c] = s.editor := by simp [typedText, hn]
    rw [← ht]
    exact h.editor.append (not_puts_of_not_loads hl hc)
  lines := h.lines
  selected := by
    obtain ⟨e, he, hs⟩ := h.selected
    exact ⟨e, he.append hl, hs⟩

theorem edit (h : Keeps done s) (c : Command) : Keeps (done ++ [c]) (s.edit c) := by
  cases c with
  | clear =>
    obtain ⟨e, he, hs⟩ := h.selected
    have hl : ∀ f, ¬ Command.clear.Loads f := not_loads_of_ne_select (by simp)
    exact ⟨h.examples, h.observers, edited_append_of_puts done .clear, .inl rfl, e, he.append hl,
      hs⟩
  | select label =>
    rw [Session.edit]
    rcases Session.select?_cases h.observers label with ⟨k, e, hf, hk, hs⟩ | ⟨hf, hs⟩
    · have hl : (Command.select label).Loads e := .select (h.examples ▸ hf)
      rw [hs]
      exact ⟨h.examples, h.observers, edited_append_of_puts done (.load hl), isLines_of_loads hl,
        e, ⟨[], .append_said done hl⟩, hk⟩
    · rw [hs]
      exact h.skip (not_loads_of_find? (h.examples ▸ hf)) (by simp) rfl
  | line text =>
    obtain ⟨e, he, hs⟩ := h.selected
    have ht : s.editor ++ text ++ "\n" = s.editor ++ typedText [.line text] := by
      simp [typedText, Command.line?, String.append_assoc]
    have hed : Edited (done ++ [.line text]) (s.editor ++ text ++ "\n") := by
      rw [ht]
      exact h.editor.append (not_puts_line text)
    have hl : ∀ f, ¬ (Command.line text).Loads f := not_loads_of_ne_select (by simp)
    exact ⟨h.examples, h.observers, hed, isLines_append_newline _, e, he.append hl, hs⟩
  | _ => exact h.skip (not_loads_of_ne_select (by simp)) (by simp) rfl

theorem respond (h : Keeps done s) (hr : s.respond host fuel c = some (next, t)) :
    Keeps (done ++ [c]) next := by
  rcases Session.respond_cases hr with ⟨rfl, runner, report, -, rfl, -⟩ | ⟨-, rfl, -⟩
  · exact (h.edit .run).on runner
  · exact h.edit c

theorem eq_of_isIdle (h : Keeps done s) (hc : c.IsIdle)
    (hr : s.respond host fuel c = some (next, t)) :
    next.editor = s.editor ∧ next.selection = s.selection := by
  rcases Session.respond_cases hr with ⟨rfl, runner, report, -, rfl, -⟩ | ⟨-, rfl, -⟩
  · exact ⟨rfl, rfl⟩
  · cases hc with
    | @select label hf =>
      rw [← h.examples] at hf
      rcases Session.select?_cases h.observers label with ⟨k, e, he, -⟩ | ⟨-, hs⟩
      · cases hf.symm.trans he
      · rw [Session.edit, hs]
        exact ⟨rfl, rfl⟩
    | _ => exact ⟨rfl, rfl⟩

end Keeps

/-- Every text that is run on these commands is one that stops. -/
def RunsStop (commands : List Command) : Prop :=
  ∀ before after, commands = before ++ .run :: after → ∀ source, Edited before source →
    Runner.Stops source

/-- In every exchange of a conversation the session is one that the commands before have led to. -/
theorem Session.Talks.keeps {options : Stages.Options} {done : List Command}
    {host : Runner.Host Empty} {fuel : Nat} {s : Session} {exchanges before rest : List Exchange}
    {x : Exchange} (h : s.Talks host fuel exchanges) (hk : Keeps done s)
    (hs : Runner.Ready options s.runner) (he : exchanges = before ++ x :: rest) :
    Keeps (done ++ before.map (·.command)) x.before ∧ Runner.Ready options x.before.runner ∧
      x.before.respond host fuel x.command = some (x.after, x.reply) := by
  induction h generalizing done before with
  | nil => simp at he
  | @cons s next command reply others hr _ ih =>
    cases before with
    | nil =>
      cases he
      rw [List.map_nil, List.append_nil]
      exact ⟨hk, hs, hr⟩
    | cons y before =>
      cases he
      have hx := ih (hk.respond hr) (ready_of_respond hs hr) rfl
      rwa [List.append_assoc] at hx

/-- With enough work a session answers a command, if it is not to run a text that never stops. -/
theorem exists_respond_of_stops {options : Stages.Options} {s : Session}
    (hs : Runner.Ready options s.runner) {c : Command} (hc : c = .run → Runner.Stops s.editor) :
    ∃ enough next t, ∀ host, ∀ fuel ≥ enough, s.respond host fuel c = some (next, t) := by
  by_cases hrun : c = .run
  · obtain ⟨answer, hd⟩ := (hc hrun).exists_delivers
    obtain ⟨log, enough, he⟩ := hs.exists_execute hd
    refine ⟨enough, s.on s.runner.release, { output := Session.printed answer, log }, ?_⟩
    intro host fuel hf
    rw [hrun, Session.respond, he host fuel hf]
    rfl
  · obtain ⟨output, ho⟩ := Session.exists_respond hrun s
    exact ⟨0, _, _, fun host fuel _ => ho host fuel s.runner⟩

/-- With enough work a session answers all commands, if only the texts it runs stop. -/
theorem exists_talks {options : Stages.Options} {done rest : List Command} {s : Session}
    (hk : Keeps done s) (hs : Runner.Ready options s.runner) (hstop : RunsStop (done ++ rest)) :
    ∃ enough exchanges, exchanges.map (·.command) = rest ∧
      ∀ host, ∀ fuel ≥ enough, s.Talks host fuel exchanges := by
  induction rest generalizing done s with
  | nil => exact ⟨0, [], rfl, fun _ _ _ => .nil⟩
  | cons c rest ih =>
    have hc : c = .run → Runner.Stops s.editor := by
      rintro rfl
      exact hstop done rest rfl s.editor hk.editor
    obtain ⟨enough, next, t, hr⟩ := exists_respond_of_stops hs hc
    have hnext := hr .plain enough le_rfl
    have hstop' : RunsStop (done ++ [c] ++ rest) := by rwa [List.append_assoc]
    obtain ⟨enough', exchanges, hc, ht⟩ :=
      ih (hk.respond hnext) (Session.ready_of_respond hs hnext) hstop'
    refine ⟨max enough enough', ⟨s, c, t, next⟩ :: exchanges, by rw [List.map_cons, hc], ?_⟩
    intro host fuel hf
    exact .cons (hr host fuel (by omega)) (ht host fuel (by omega))

/-- A run answers in the session what it answers anywhere. -/
theorem answers_iff_of_execute {options : Stages.Options} {fresh r next : Runner Empty}
    {host : Runner.Host Empty} {fuel : Nat} {source : String} {report : Report RunError String}
    (hf : Runner.Ready options fresh) (hr : Runner.Ready options r)
    (he : r.execute host fuel source = some (next, report)) (other : Runner.Host Empty)
    (result : Except RunError String) :
    fresh.Answers other source result ↔ result = report.result := by
  have hd : Runner.Delivers source report.result :=
    (hr.answers_iff_delivers host source report.result).mp ⟨fuel, next, report.log, he⟩
  rw [hf.answers_iff_delivers]
  exact hd.iff_eq result

theorem commands_map_some (typed : List String) :
    commands (typed.map some) = (typed.map Command.parse).takeWhile (· ≠ .quit) := by
  induction typed with
  | nil => rfl
  | cons line typed ih =>
    rw [List.map_cons, List.map_cons, List.takeWhile_cons, commands]
    by_cases hq : Command.parse line = .quit
    · simp [hq]
    · simp [hq, ih]

theorem ending_map_some (typed : List String) : ending (typed.map some) = none := by
  induction typed with
  | nil => rfl
  | cons line typed ih =>
    rw [List.map_cons, ending, ih]
    exact ite_self _

/-- What a session does with a command after others. -/
structure Obeys (fresh : Runner Empty) (done : List Command) (x : Exchange) : Prop where
  before : Edited done x.before.editor
  editor : Edited (done ++ [x.command]) x.after.editor
  lines : IsLines x.after.editor
  selected : ∃ e, Selected (done ++ [x.command]) e ∧ x.after.selection.current = some e
  idle : x.command.IsIdle →
    x.after.editor = x.before.editor ∧ x.after.selection = x.before.selection
  /-- A run prints what a fresh runner gives for the text in the editor. -/
  run : x.command = .run → ∃ answer,
    (∀ host result, fresh.Answers host x.before.editor result ↔ result = answer) ∧
      Says answer x.reply.output

theorem obeys_of_respond {options : Stages.Options} {fresh : Runner Empty} {done : List Command}
    {host : Runner.Host Empty} {fuel : Nat} {x : Exchange} (hf : Runner.Ready options fresh)
    (hk : Keeps done x.before) (hs : Runner.Ready options x.before.runner)
    (hr : x.before.respond host fuel x.command = some (x.after, x.reply)) :
    Obeys fresh done x where
  before := hk.editor
  editor := (hk.respond hr).editor
  lines := (hk.respond hr).lines
  selected := (hk.respond hr).selected
  idle := fun hc => hk.eq_of_isIdle hc hr
  run := by
    intro hc
    rcases Session.respond_cases hr with ⟨-, runner, report, he, -, ht⟩ | ⟨hn, -⟩
    · rw [ht]
      exact ⟨report.result, answers_iff_of_execute hf hs he, says_printed report.result⟩
    · exact absurd hc hn

open CommandLine

/--
A session on any text answers the commands before the first one to quit, and no others, and ends
without an error. In every exchange it does what the commands up to then make of the editor and the
selection. Only the texts that are run have to stop.
-/
theorem session_follows_commands (options : Stages.Options) {text : String} {typed : List String}
    (ht : TypedAs text typed)
    (hs : RunsStop ((typed.map Command.parse).takeWhile (· ≠ .quit))) :
    ∃ fresh first exchanges, Runner.standard options = .ok fresh ∧
      Session.start fresh = .ok first ∧
      exchanges.map (·.command) = (typed.map Command.parse).takeWhile (· ≠ .quit) ∧
      (∃ enough, ∀ host, ∀ fuel ≥ enough, first.Talks host fuel exchanges ∧
        ∀ (i : Invocation) files, i.trace = options.trace → i.action = .playground →
          ∃ t, i.perform host fuel files (encode text) = some t ∧ exitCode t = 0 ∧
            t.output = greeting ++ Example.standard.source ++
              String.join (exchanges.map fun x => prompt ++ x.reply.output) ++ prompt) ∧
      ∀ before x after, exchanges = before ++ x :: after →
        Obeys fresh (before.map (·.command)) x := by
  obtain ⟨fresh, hfresh, hready⟩ := @Runner.exists_standard Empty options
  have hfirst := Session.start_eq fresh
  have hkeeps := keeps_start hfirst
  obtain ⟨enough, exchanges, hc, htalks⟩ := exists_talks hkeeps hready hs
  refine ⟨fresh, _, exchanges, hfresh, hfirst, hc, ⟨enough, ?_⟩, ?_⟩
  · intro host fuel hfuel
    refine ⟨htalks host fuel hfuel, ?_⟩
    intro i files htrace ha
    have hrunner : i.runner = .ok fresh := by
      rw [Invocation.runner, htrace]
      exact hfresh
    have hcommands : exchanges.map (·.command) = commands (lines (encode text)) := by
      rw [hc, ht.lines_encode, commands_map_some]
    have hconverse := Session.converse_of_talks (htalks host fuel hfuel) hcommands
    rw [ht.lines_encode, ending_map_some] at hconverse
    rw [perform_playground ha hrunner hfirst, ht.lines_encode, hconverse]
    refine ⟨_, rfl, rfl, ?_⟩
    simp [Transcript.append, transcript, Session.opening, String.append_assoc]
  · intro before x after he
    obtain ⟨hk, hr, hx⟩ := (htalks .plain enough le_rfl).keeps hkeeps hready he
    exact obeys_of_respond hready hk hr hx

/-- A program whose sum is too large. -/
def failingProgram : String :=
  "$ 9223372036854775807 1 +\n"

theorem read_failingProgram :
    Program.read failingProgram = .ok ["$", "9223372036854775807", "1", "+"] := by
  have hsplit : Program.split failingProgram = ["$", "9223372036854775807", "1", "+"] := by
    decide +kernel
  exact Program.read_eq_ok_iff_check.mpr ⟨hsplit, by decide⟩

theorem yields_failingProgram : Reduction.Yields ["$", "9223372036854775807", "1", "+"]
    (.error (.overflow ["9223372036854775807", "1", "$", "+"])) :=
  ⟨3, by cbv⟩

/-- The program is typed and run, and what follows `:q` does not count. -/
def failingSession : String :=
  ":clear\n$ 9223372036854775807 1 +\r\n:run\n:select nothing\n:q\n:run\n"

def failingCommands : List Command :=
  [.clear, .line "$ 9223372036854775807 1 +", .run, .select "nothing"]

theorem runsStop_failingCommands : RunsStop failingCommands := by
  intro before after he source hsource
  have hbefore : before = [.clear, .line "$ 9223372036854775807 1 +"] := by
    rcases before with _ | ⟨a, _ | ⟨b, _ | ⟨c, _ | ⟨d, before⟩⟩⟩⟩ <;> simp_all [failingCommands]
  have hprogram : Edited before failingProgram := by
    rw [hbefore]
    exact (edited_append_of_puts [] .clear).append (not_puts_line _)
  rw [hsource.unique hprogram]
  intro atoms hr
  cases read_failingProgram.symm.trans hr
  exact ⟨_, yields_failingProgram⟩

theorem session_follows_commands_failing :
    ∃ typed, TypedAs failingSession typed ∧
      (typed.map Command.parse).takeWhile (· ≠ .quit) = failingCommands ∧
      RunsStop failingCommands ∧
      ∃ fresh first exchanges, Runner.standard {} = .ok fresh ∧
        Session.start fresh = .ok first ∧ exchanges.map (·.command) = failingCommands ∧
        ∀ before x after, exchanges = before ++ x :: after →
          Obeys fresh (before.map (·.command)) x := by
  obtain ⟨typed, ht⟩ := exists_typedAs failingSession
  obtain rfl : typed = [":clear", "$ 9223372036854775807 1 +", ":run", ":select nothing", ":q",
      ":run"] := by
    refine List.map_injective_iff.mpr (Option.some_injective String) (ht.lines_encode.symm.trans ?_)
    decide +kernel
  have hparse : (List.map Command.parse [":clear", "$ 9223372036854775807 1 +", ":run",
      ":select nothing", ":q", ":run"]).takeWhile (· ≠ .quit) = failingCommands := by
    decide +kernel
  obtain ⟨fresh, first, exchanges, hf, hfirst, hc, -, ho⟩ :=
    session_follows_commands {} ht (by rw [hparse]; exact runsStop_failingCommands)
  rw [hparse] at hc
  exact ⟨_, ht, hparse, runsStop_failingCommands, fresh, first, exchanges, hf, hfirst, hc, ho⟩

end Wanda.Playground

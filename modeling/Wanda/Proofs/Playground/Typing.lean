import Wanda.CommandLine.Run
import Wanda.Proofs.Runner.Answer

/-!
A program typed into the playground. Its lines are no commands, and the text they leave in the
editor has the same words, so `:run` answers what running the program from a file does.
-/
namespace Wanda.Playground
open Text Program

/-- A line is a command only if one of its words starts with a colon and goes on. -/
theorem Command.parse_eq_line {text : String}
    (h : ∀ cs, ':' :: cs ∈ words text.toList → cs = []) : parse text = .line text := by
  unfold parse
  split
  · rename_i c cs ht
    split_ifs with hc
    · rfl
    · have hd : (':' :: c :: cs).dropWhile isBlank = ':' :: c :: cs := rfl
      have hw : ':' :: c :: cs.takeWhile (!isBlank ·) ∈ words text.toList := by
        rw [← words_trim, ht, words_of_dropWhile_cons hd]
        simp [hc]
      exact absurd (h _ hw) (by simp)
  · rfl

namespace Transcript

theorem append_assoc (t u v : Transcript) : (t.append u).append v = t.append (u.append v) := by
  simp [append, String.append_assoc]

theorem empty_append (t : Transcript) : append { output := "" } t = t := by
  simp [append]

end Transcript

/-- What the playground prints for an answer: the text, or the error, on a line of its own. -/
inductive Says : Except RunError String → String → Prop
  | text (text : String) : Says (.ok text) (text ++ "\n")
  | error (e : RunError) : Says (.error e) ("error: " ++ e.text ++ "\n")

theorem says_printed (answer : Except RunError String) : Says answer (Session.printed answer) := by
  cases answer with
  | ok text => exact .text text
  | error e => exact .error e

namespace Session

/-- The editor has the source of the example that it was told of last. -/
theorem foldl_notify (told : List (Watcher × Example)) (s : Session) :
    told.foldl notify s =
      { s with editor := (told.getLast?.map (·.2.source)).getD s.editor } := by
  induction told generalizing s with
  | nil => rfl
  | cons first told ih =>
    rw [List.foldl_cons, ih]
    cases told with
    | nil => rfl
    | cons second told => rfl

theorem start_eq (runner : Runner Empty) :
    start runner = .ok ⟨runner, ⟨Example.bundled, some 0, [.editor]⟩, Example.standard.source⟩ := by
  rfl

theorem runner_of_select? {s next : Session} {label : String} (h : s.select? label = some next) :
    next.runner = s.runner := by
  obtain ⟨⟨selection, told⟩, -, rfl⟩ := Option.map_eq_some_iff.mp h
  simp only [foldl_notify]

/--
With enough work the session answers the lines by what the transcript holds, and goes on as
another session, in any host.
-/
def Takes (s : Session) (lines : List (Option String)) (t : Transcript) (next : Session) : Prop :=
  ∃ enough, ∀ host, ∀ fuel ≥ enough, ∀ rest,
    s.converse host fuel (lines ++ rest) = (next.converse host fuel rest).map t.append

theorem takes_nil (s : Session) : s.Takes [] { output := "" } s := by
  refine ⟨0, ?_⟩
  intro host fuel _ rest
  have ht : Transcript.append { output := "" } = id := funext Transcript.empty_append
  rw [ht, Option.map_id, List.nil_append]
  rfl

theorem Takes.append {s middle last : Session} {lines more : List (Option String)}
    {t u : Transcript} (h : s.Takes lines t middle) (h' : middle.Takes more u last) :
    s.Takes (lines ++ more) (t.append u) last := by
  obtain ⟨enough, h⟩ := h
  obtain ⟨enough', h'⟩ := h'
  refine ⟨max enough enough', ?_⟩
  intro host fuel hf rest
  rw [List.append_assoc, h host fuel (by omega), h' host fuel (by omega), Option.map_map]
  congr 1
  funext v
  exact (Transcript.append_assoc t u v).symm

theorem takes_of_respond {s next : Session} {line output : String} {log : List Message}
    {enough : Nat} (hq : Command.parse line ≠ .quit)
    (h : ∀ host, ∀ fuel ≥ enough,
      s.respond host fuel (Command.parse line) = some (next, ⟨output, log, none⟩)) :
    s.Takes [some line] ⟨prompt ++ output, log, none⟩ next := by
  refine ⟨enough, ?_⟩
  intro host fuel hf rest
  rw [List.singleton_append, converse, if_neg hq, h host fuel hf]
  cases hc : next.converse host fuel rest <;> simp [hc]

theorem takes_lines {typed : List String} (h : ∀ line ∈ typed, Command.parse line = .line line)
    (s : Session) :
    s.Takes (typed.map some) { output := String.join (List.replicate typed.length prompt) }
      { s with editor := s.editor ++ String.join (typed.map (· ++ "\n")) } := by
  induction typed generalizing s with
  | nil => simpa using s.takes_nil
  | cons line typed ih =>
    rw [List.forall_mem_cons] at h
    have hq : Command.parse line ≠ .quit := by simp [h.1]
    have hr : ∀ host, ∀ fuel ≥ 0, s.respond host fuel (Command.parse line) =
        some ({ s with editor := s.editor ++ line ++ "\n" }, { output := "" }) := by
      intro host fuel _
      rw [h.1]
      rfl
    have ht := (takes_of_respond hq hr).append (ih h.2 _)
    simpa [Transcript.append, List.replicate_succ, String.append_assoc] using ht

/-- No command but the one to run a program has to do with the runner. -/
theorem runner_of_respond {host : Runner.Host Empty} {fuel : Nat} {s next : Session}
    {command : Command} {t : Transcript} (h : s.respond host fuel command = some (next, t)) :
    next.runner = s.runner ∨
      ∃ report, s.runner.execute host fuel s.editor = some (next.runner, report) := by
  cases command with
  | run =>
    obtain ⟨⟨runner, report⟩, he, hn⟩ := Option.map_eq_some_iff.mp h
    cases hn
    exact .inr ⟨report, he⟩
  | select label =>
    rw [respond] at h
    split at h
    case h_1 found hs =>
      cases h
      exact .inl (runner_of_select? hs)
    case h_2 =>
      cases h
      exact .inl rfl
  | _ =>
    cases h
    exact .inl rfl

/-- A session that a playground with these options can come to. -/
inductive Reached (options : Stages.Options) : Session → Prop
  | start {runner : Runner Empty} {first : Session} : Runner.standard options = .ok runner →
      start runner = .ok first → Reached options first
  | next {host : Runner.Host Empty} {fuel : Nat} {s next : Session} {command : Command}
      {t : Transcript} : Reached options s → s.respond host fuel command = some (next, t) →
      Reached options next

theorem Reached.ready {options : Stages.Options} {s : Session} (h : Reached options s) :
    Runner.Ready options s.runner := by
  induction h with
  | @start runner _ hs hfirst =>
    obtain ⟨fresh, hf, hr⟩ := Runner.exists_standard options
    cases hs.symm.trans hf
    cases (start_eq runner).symm.trans hfirst
    exact hr
  | next _ hr ih =>
    rcases runner_of_respond hr with he | ⟨report, he⟩
    · rw [he]
      exact ih
    · exact ih.next he

/-- `:run` answers what the source in the editor delivers. -/
theorem takes_run {options : Stages.Options} {s : Session} (h : Runner.Ready options s.runner)
    {answer : Except RunError String} (hd : Runner.Delivers s.editor answer) :
    ∃ output log next, Says answer output ∧
      s.Takes [some ":run"] ⟨prompt ++ output, log, none⟩ next := by
  obtain ⟨log, enough, he⟩ := h.exists_execute hd
  have hp : Command.parse ":run" = .run := by cbv
  have hr : ∀ host, ∀ fuel ≥ enough, s.respond host fuel (Command.parse ":run") =
      some ({ s with runner := s.runner.release }, { output := printed answer, log }) := by
    intro host fuel hf
    rw [hp, respond, he host fuel hf]
    rfl
  have hq : Command.parse ":run" ≠ .quit := by simp [hp]
  exact ⟨printed answer, log, _, says_printed answer, takes_of_respond hq hr⟩

theorem takes_clear (s : Session) :
    s.Takes [some ":clear"] { output := prompt } { s with editor := "" } := by
  have hp : Command.parse ":clear" = .clear := by cbv
  have hr : ∀ host, ∀ fuel ≥ 0, s.respond host fuel (Command.parse ":clear") =
      some ({ s with editor := "" }, { output := "" }) := by
    intro host fuel _
    rw [hp]
    rfl
  have hq : Command.parse ":clear" ≠ .quit := by simp [hp]
  simpa using takes_of_respond hq hr

/-- Whatever was in the editor, a program typed after `:clear` is what `:run` runs. -/
theorem Reached.takes_program {options : Stages.Options} {s : Session} (h : Reached options s)
    {typed : List String} (ht : ∀ line ∈ typed, Command.parse line = .line line)
    {answer : Except RunError String}
    (hd : Runner.Delivers (String.join (typed.map (· ++ "\n"))) answer) :
    ∃ output log next, Says answer output ∧
      s.Takes (some ":clear" :: typed.map some ++ [some ":run"])
        ⟨String.join (List.replicate (typed.length + 2) prompt) ++ output, log, none⟩ next := by
  have hcleared := s.takes_clear.append (takes_lines ht _)
  rw [String.empty_append] at hcleared
  let edited : Session := { s with editor := String.join (typed.map (· ++ "\n")) }
  have hready : Runner.Ready options edited.runner := h.ready
  obtain ⟨output, log, next, hsays, hrun⟩ := takes_run hready hd
  have hjoin : String.join (List.replicate (typed.length + 2) prompt) =
      prompt ++ String.join (List.replicate typed.length prompt) ++ prompt := by
    rw [List.replicate_succ, List.replicate_succ']
    simp [String.append_assoc]
  refine ⟨output, log, next, hsays, ?_⟩
  have hall := hcleared.append hrun
  simpa [Transcript.append, hjoin, String.append_assoc] using hall

end Session

end Wanda.Playground

namespace Wanda.CommandLine
open Playground Program Text

/-- A result is printed. An error is told in the last line of the other stream. -/
def Prints (level : Level) (t : Transcript) : Except RunError String → Prop
  | .ok text => t.output = text ++ "\n" ∧ exitCode t = 0
  | .error e =>
    t.output = "" ∧ LastLine (errorOutput level t) ("error: " ++ e.text) ∧ exitCode t = 1

theorem join_line_eq (log : List Message) :
    String.join (log.map (·.line)) = "" ∨ ∃ s, String.join (log.map (·.line)) = s ++ "\n" := by
  rcases List.eq_nil_or_concat log with rfl | ⟨log, m, rfl⟩
  · exact .inl rfl
  · right
    refine ⟨String.join (log.map (·.line)) ++ ("[" ++ m.heading ++ "] " ++ m.text), ?_⟩
    simp [Message.line, String.append_assoc]

theorem lastLine_errorOutput (level : Level) (log : List Message) {output error : String}
    (h : OneLine error) :
    LastLine (errorOutput level ⟨output, log, some error⟩) ("error: " ++ error) := by
  have hb := join_line_eq (log.filter fun m => level.shows m.level)
  refine ⟨OneLine.append (by decide) h, _, hb, ?_⟩
  simp [errorOutput, String.append_assoc]

/-- Running a program from a file prints what its text delivers. -/
theorem exists_perform_file {i : Invocation} {files : Files} {path text : String}
    {answer : Except RunError String} (ha : i.action = .run (.file path))
    (hf : files path = .ok (encode text)) (hl : ∀ a ∈ split text, Atom.Legal a)
    (hd : Runner.Delivers text answer) (input : List UInt8) :
    ∃ t enough, (∀ host, ∀ fuel ≥ enough, i.perform host fuel files input = some t) ∧
      Prints i.level t answer := by
  obtain ⟨fresh, hs, hr⟩ := Runner.exists_standard { trace := i.trace }
  obtain ⟨log, enough, he⟩ := hr.exists_execute hd
  have hsource : (Subject.file path).source files = .ok ([], text) := by
    simp [Subject.source, readFile, hf, decode?_encode]
  have hp : ∀ host fuel, i.perform host fuel files input =
      runSource host fuel fresh [] text := by
    intro host fuel
    have hi : i.runner = .ok fresh := hs
    simp [Invocation.perform, hi, ha, Action.perform, hsource]
  cases answer with
  | ok out =>
    refine ⟨⟨out ++ "\n", log, none⟩, enough, ?_, rfl, rfl⟩
    intro host fuel hfuel
    rw [hp, runSource, he host fuel hfuel]
    rfl
  | error e =>
    refine ⟨⟨"", log, some e.text⟩, enough, ?_, rfl, lastLine_errorOutput _ _ (hd.oneLine hl), rfl⟩
    intro host fuel hfuel
    rw [hp, runSource, he host fuel hfuel]
    rfl

end Wanda.CommandLine

namespace Wanda.Playground
open CommandLine Program Text

theorem parse_eq_line_of_legal {text line : String} {typed : List String} (ht : TypedAs text typed)
    (hl : ∀ a ∈ split text, Atom.Legal a) (hm : line ∈ typed) :
    Command.parse line = .line line := by
  refine Command.parse_eq_line ?_
  intro cs hc
  have hw : ':' :: cs ∈ words text.toList := by
    rw [ht.words_eq]
    exact List.mem_flatMap.mpr ⟨line, hm, hc⟩
  have ha : String.ofList (':' :: cs) = Atom.define :=
    (hl _ (List.mem_map_of_mem hw)).eq_define_of_colon String.toList_ofList
  have he : ':' :: cs = [':'] := by
    rw [← @String.toList_ofList (':' :: cs), ha]
    decide
  exact (List.cons.inj he).2

/--
A program that is typed after `:clear`, line by line, is answered by `:run` as its text is run, and
that is what running it from a file prints. Only its atoms have to be legal and its run to stop.
-/
theorem typed_program_agrees_with_file {text : String}
    (hl : ∀ a ∈ split text, ∀ position, checkAtom position a = .ok ()) (hs : Runner.Stops text) :
    ∃ typed answer, TypedAs text typed ∧ lines (encode text) = typed.map some ∧
      (∀ line ∈ typed, Command.parse line = .line line) ∧
      (∀ options, ∃ fresh : Runner Empty, Runner.standard options = .ok fresh ∧
        ∀ host result, fresh.Answers host text result ↔ result = answer) ∧
      (∀ options s, Session.Reached options s → ∃ output log next, Says answer output ∧
        s.Takes (some ":clear" :: typed.map some ++ [some ":run"])
          ⟨String.join (List.replicate (typed.length + 2) prompt) ++ output, log, none⟩ next) ∧
      ∀ (i : Invocation) files path input, i.action = .run (.file path) →
        files path = .ok (encode text) → ∃ t enough,
          (∀ host, ∀ fuel ≥ enough, i.perform host fuel files input = some t) ∧
            Prints i.level t answer := by
  have hlegal : ∀ a ∈ split text, Atom.Legal a := fun a ha => checkAtom_eq_ok_iff.mp (hl a ha 0)
  obtain ⟨typed, ht⟩ := exists_typedAs text
  obtain ⟨answer, hd⟩ := hs.exists_delivers
  have hline : ∀ line ∈ typed, Command.parse line = .line line := fun line hm =>
    parse_eq_line_of_legal ht hlegal hm
  have hedited : Runner.Delivers (String.join (typed.map (· ++ "\n"))) answer := by
    refine hd.of_split_eq ?_
    rw [split, ht.words_join, split]
  refine ⟨typed, answer, ht, ht.lines_encode, hline, ?_, ?_, ?_⟩
  · intro options
    obtain ⟨fresh, hfresh, hready⟩ := Runner.exists_standard options
    refine ⟨fresh, hfresh, ?_⟩
    intro host result
    rw [hready.answers_iff_delivers, hd.iff_eq]
  · intro options s hreached
    exact hreached.takes_program hline hedited
  · intro i files path input ha hf
    exact exists_perform_file ha hf hlegal hd input

/-- A definition over two lines, and a sum that is too large. -/
def overflowing : String :=
  "$ :\r\n max -> 9223372036854775807 ;\n  max 1 +"

theorem typed_program_agrees_with_file_overflow :
    (∀ a ∈ split overflowing, ∀ position, checkAtom position a = .ok ()) ∧
      Runner.Stops overflowing ∧
      ∃ fresh first, Runner.standard {} = .ok fresh ∧ Session.start fresh = .ok first ∧
      ∃ log next, first.Takes
        [some ":clear", some "$ :", some " max -> 9223372036854775807 ;", some "  max 1 +",
          some ":run"]
        ⟨"wanda> wanda> wanda> wanda> wanda> error: evaluation error: integer overflow in " ++
          "`9223372036854775807 1 $ +`\n", log, none⟩ next := by
  have hsplit : split overflowing =
      ["$", ":", "max", "->", "9223372036854775807", ";", "max", "1", "+"] := by
    decide +kernel
  have hcheck : check (split overflowing) = .ok () := by
    rw [hsplit]
    decide
  have hyields : Reduction.Yields (split overflowing)
      (.error (.overflow ["9223372036854775807", "1", "$", "+"])) := by
    rw [hsplit]
    exact ⟨5, by cbv⟩
  have hread : read overflowing = .ok (split overflowing) :=
    read_eq_ok_iff_check.mpr ⟨rfl, hcheck⟩
  have hl : ∀ a ∈ split overflowing, ∀ position, checkAtom position a = .ok () := by
    intro a ha position
    exact checkAtom_eq_ok_iff.mpr ((check_eq_ok_iff.mp hcheck).1 a ha)
  have hs : Runner.Stops overflowing := by
    intro atoms hr
    cases hread.symm.trans hr
    exact ⟨_, hyields⟩
  obtain ⟨typed, answer, -, htyped, -, hanswer, hsession, -⟩ :=
    typed_program_agrees_with_file hl hs
  obtain rfl : typed = ["$ :", " max -> 9223372036854775807 ;", "  max 1 +"] := by
    refine List.map_injective_iff.mpr (Option.some_injective String) (htyped.symm.trans ?_)
    decide +kernel
  obtain ⟨fresh, hfresh, hready⟩ := @Runner.exists_standard Empty {}
  obtain ⟨fresh', hfresh', hiff⟩ := hanswer {}
  cases hfresh.symm.trans hfresh'
  have ha :=
    (hiff .plain _).mp ((hready.answers_iff_delivers .plain _ _).mpr (.faulty hread hyields))
  subst ha
  have hfirst := Session.start_eq fresh
  obtain ⟨output, log, next, hsays, htakes⟩ := hsession {} _ (.start hfresh hfirst)
  cases hsays
  exact ⟨hl, hs, fresh, _, hfresh, hfirst, log, next, htakes⟩

end Wanda.Playground

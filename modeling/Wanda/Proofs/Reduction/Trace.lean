import Wanda.Interpreter.Stages
import Wanda.Proofs.Reduction.Leftmost

/-!
The trace of a reduction. Tracing changes nothing but what is said: one line for each step, from
which the step can be replayed on the atoms before it.
-/
namespace Wanda.Reduction
open Atom

/-- A line of the trace, and the atoms before and after the step that it tells of. -/
inductive Tells : String → List Atom → List Atom → Prop
  | swap (u pattern replacement v : List Atom) :
      Tells (":" ++ Program.render pattern ++ " -> " ++ Program.render replacement ++ "; => " ++
        Program.render (u ++ replacement ++ v)) (u ++ pattern ++ v) (u ++ replacement ++ v)
  | closed (u body v : List Atom) : body ≠ [] → close ∉ body →
      Tells (":$ : ... ; -> $; => " ++ Program.render (u ++ [cursor] ++ v))
        (u ++ [cursor, define] ++ body ++ [close] ++ v) (u ++ [cursor] ++ v)
  | unclosed (u body : List Atom) : body ≠ [] → close ∉ body →
      Tells (":$ : ... ; -> $; => " ++ Program.render (u ++ [cursor]))
        (u ++ [cursor, define] ++ body) (u ++ [cursor])

/-- Lines that tell, one for each step, how reduction gets from one state to another. -/
inductive Replays : State → List String → State → Prop
  | nil {s : State} : Replays s [] s
  | cons {s t u : State} {line : String} {lines : List String} :
      Step s t → Tells line s.redex t.redex → Replays t lines u → Replays s (line :: lines) u

/-- The contraction by a match that was found before `rest`, with other atoms on its left. -/
def Match.contraction (m : Match) (left rest : List Atom) : Contraction :=
  ⟨m.pattern, m.replacement, left ++ (m.replacement ++ rest.drop m.width)⟩

/-- The match replaces atoms that come next, as they are. -/
def Match.IsSwap (m : Match) (rest : List Atom) : Prop :=
  ∃ pattern replacement, m = .swap pattern replacement ∧ pattern <+: rest

theorem Match.IsSwap.tells {m : Match} {rest : List Atom} (h : m.IsSwap rest) (left : List Atom) :
    Tells (m.contraction left rest).text (left ++ rest) (m.contraction left rest).redex := by
  obtain ⟨pattern, replacement, rfl, v, rfl⟩ := h
  have hc : (Match.swap pattern replacement).contraction left (pattern ++ v) =
      ⟨pattern, replacement, left ++ replacement ++ v⟩ := by
    simp [contraction, swap]
  rw [hc, ← List.append_assoc]
  exact .swap left pattern replacement v

theorem Match.IsSwap.width_le {m : Match} {rest : List Atom} (h : m.IsSwap rest) :
    m.width ≤ rest.length := by
  obtain ⟨pattern, replacement, rfl, hp⟩ := h
  exact hp.length_le

theorem arithmetic?_isSwap {rest : List Atom} {m : Match} (h : arithmetic? rest = some (.ok m)) :
    m.IsSwap rest ∧ m.width = 4 := by
  match rest with
  | [] | [_] | [_, _] | [_, _, _] => simp [arithmetic?] at h
  | x :: y :: c :: op :: rest =>
    simp only [arithmetic?, Option.bind_eq_bind, Option.bind_eq_some_iff] at h
    obtain ⟨-, -, a, -, b, -, f, -, h⟩ := h
    cases hw : Text.Numeral.word? (f a.toInt b.toInt) with
    | none => simp [hw] at h
    | some n =>
      rw [hw] at h
      cases h
      exact ⟨⟨_, _, rfl, List.prefix_append [x, y, c, op] rest⟩, rfl⟩

theorem sign?_isSwap {rest : List Atom} {m : Match} (h : sign? rest = some m) :
    m.IsSwap rest ∧ m.width = 3 := by
  match rest with
  | [] | [_] | [_, _] => simp [sign?] at h
  | x :: c :: op :: rest =>
    simp only [sign?, Option.bind_eq_bind, Option.bind_eq_some_iff] at h
    obtain ⟨-, -, a, -, h⟩ := h
    cases h
    exact ⟨⟨_, _, rfl, List.prefix_append [x, c, op] rest⟩, rfl⟩

theorem stackWord?_isSwap {rest : List Atom} {m : Match} (h : stackWord? rest = some m) :
    m.IsSwap rest ∧ m.width = 3 := by
  match rest with
  | [] | [_] | [_, _] => simp [stackWord?] at h
  | x :: c :: op :: rest =>
    have hp := List.prefix_append [x, c, op] rest
    simp only [stackWord?] at h
    split_ifs at h
    · cases h
      exact ⟨⟨_, _, rfl, hp⟩, rfl⟩
    · cases h
      exact ⟨⟨_, _, rfl, hp⟩, rfl⟩

theorem push?_isSwap {rest : List Atom} {m : Match} (h : push? rest = some m) :
    m.IsSwap rest ∧ m.width = 2 := by
  match rest with
  | [] | [_] => simp [push?] at h
  | c :: n :: rest =>
    simp only [push?] at h
    split_ifs at h
    cases h
    exact ⟨⟨_, _, rfl, List.prefix_append [c, n] rest⟩, rfl⟩

theorem userRule?_isSwap {rules : List Rule} {rest : List Atom} {m : Match}
    (h : userRule? rules rest = some m) : m.IsSwap rest := by
  obtain ⟨rule, hr, rfl⟩ := Option.map_eq_some_iff.mp h
  have hp := (List.find?_eq_some_iff_append.mp hr).1
  exact ⟨_, _, rfl, List.isPrefixOf_iff_prefix.mp hp⟩

theorem body_ne_nil {body : List Atom} (h : (Rule.ofBody body).pattern ≠ []) : body ≠ [] := by
  rintro rfl
  exact h rfl

theorem definition?_tells {position : Nat} {rest : List Atom} {m : Match}
    (h : definition? position rest = some (.ok m)) (left : List Atom) :
    Tells (m.contraction left rest).text (left ++ rest) (m.contraction left rest).redex := by
  match rest with
  | [] | [_] => simp [definition?] at h
  | c :: d :: rest =>
    have hb : Body rest _ _ := body_iff.mpr ⟨rfl, rfl⟩
    simp only [definition?] at h
    split_ifs at h with hcd hp
    · cases h
    · obtain ⟨rfl, rfl⟩ := hcd
      cases h
      have hn := body_ne_nil hp
      have hd : ":" ++ Program.render [cursor, define, "...", close] ++ " -> " ++
          Program.render [cursor] ++ "; => " = ":$ : ... ; -> $; => " := by decide
      simp only [Match.contraction, Contraction.text, hd, drop_body hb]
      generalize rest.takeWhile (· ≠ close) = body at hb hn
      generalize (rest.dropWhile (· ≠ close)).drop 1 = tail at hb
      cases hb with
      | closed hc => simpa using Tells.closed left body tail hn hc
      | unclosed hc => simpa using Tells.unclosed left _ hn hc

theorem matchAt_tells {rules : List Rule} {position : Nat} {rest : List Atom} {m : Match}
    (h : matchAt rules position rest = some (.ok m)) (left : List Atom) :
    Tells (m.contraction left rest).text (left ++ rest) (m.contraction left rest).redex := by
  simp only [matchAt, Option.orElse_eq_orElse, Option.orElse_eq_or, Option.or_eq_some_iff,
    Option.map_eq_some_iff, Except.ok.injEq, exists_eq_right] at h
  rcases h with h | ⟨-, h | ⟨-, h | ⟨-, h | ⟨-, h | ⟨-, h⟩⟩⟩⟩⟩
  · exact definition?_tells h left
  · exact (arithmetic?_isSwap h).1.tells left
  · exact (sign?_isSwap h).1.tells left
  · exact (stackWord?_isSwap h).1.tells left
  · exact (push?_isSwap h).1.tells left
  · exact (userRule?_isSwap h).tells left

theorem leftmost?_eq_ok {rules : List Rule} {position : Nat} {redex after : List Atom} {m : Match}
    (h : leftmost? rules position redex = some (.ok (m, after))) :
    ∃ left rest, redex = left ++ rest ∧
      matchAt rules (position + left.length) rest = some (.ok m) ∧
      after = (m.contraction left rest).redex := by
  induction redex generalizing position after with
  | nil => cases h
  | cons a rest ih =>
    simp only [leftmost?] at h
    split at h
    · cases h
    · rename_i hm
      cases h
      exact ⟨[], a :: rest, rfl, hm, rfl⟩
    · obtain ⟨out, hl, ho⟩ := Option.map_eq_some_iff.mp h
      cases out with
      | error f => cases ho
      | ok found =>
        obtain ⟨found, after⟩ := found
        obtain ⟨rfl, rfl⟩ : found = m ∧ a :: after = _ := by simpa [Except.map] using ho
        obtain ⟨left, rest, rfl, hm, rfl⟩ := ih hl
        refine ⟨a :: left, rest, rfl, ?_, rfl⟩
        rw [List.length_cons, Nat.add_comm left.length, ← Nat.add_assoc]
        exact hm

theorem step?_tells {s t : State} {c : Contraction} (h : s.step? = some (.ok (c, t))) :
    Tells c.text s.redex t.redex := by
  obtain ⟨out, hl, ho⟩ := Option.map_eq_some_iff.mp h
  cases out with
  | error f => cases ho
  | ok found =>
    obtain ⟨m, after⟩ := found
    cases ho
    obtain ⟨left, rest, hr, hm, rfl⟩ := leftmost?_eq_ok hl
    rw [hr]
    exact matchAt_tells hm left

/-- How a run ends in a state. -/
def State.Ends (s : State) : Except Fault (List Atom) → Prop
  | .ok r => Normal s ∧ s.redex = r
  | .error f => Faults s f

theorem replays_trace {fuel : Nat} {s : State} {result : Except Fault (List Atom)}
    (h : run fuel s = some result) :
    ∃ last, Replays s ((trace fuel s).map Contraction.text) last ∧ last.Ends result := by
  induction fuel generalizing s with
  | zero => cases h
  | succ fuel ih =>
    rw [run] at h
    cases hs : s.step? with
    | none =>
      rw [hs] at h
      cases h
      refine ⟨s, ?_, step?_eq_none_iff.mp hs, rfl⟩
      rw [trace, hs]
      exact .nil
    | some out =>
      cases out with
      | error f =>
        rw [hs] at h
        cases h
        refine ⟨s, ?_, step?_eq_error_iff.mp hs⟩
        rw [trace, hs]
        exact .nil
      | ok found =>
        obtain ⟨c, t⟩ := found
        rw [hs] at h
        obtain ⟨last, hl, he⟩ := ih h
        refine ⟨last, ?_, he⟩
        rw [trace, hs]
        exact .cons (step_iff.mpr ⟨c, hs⟩) (step?_tells hs) hl

theorem trace_eq_of_run {fuel more : Nat} {s : State} {result : Except Fault (List Atom)}
    (h : run fuel s = some result) (hm : fuel ≤ more) : trace more s = trace fuel s := by
  induction fuel generalizing more s with
  | zero => cases h
  | succ fuel ih =>
    obtain ⟨more, rfl⟩ := Nat.exists_eq_add_of_le' (show 1 ≤ more by omega)
    rw [run] at h
    rw [trace, trace]
    cases hs : s.step? with
    | none => rfl
    | some out =>
      cases out with
      | error f => rfl
      | ok found =>
        rw [hs] at h
        exact congrArg (found.1 :: ·) (ih h (by omega))

/-- Reduction with these options comes to an end, and this is its report. -/
def Reports (options : Stages.Options) (atoms : List Atom)
    (report : Report StageError (List Atom)) : Prop :=
  ∃ fuel, (Stages.reduceWith fuel options atoms).report? = some report

theorem reports_iff {fuel : Nat} {atoms : List Atom} {result : Except Fault (List Atom)}
    (h : run fuel (.initial atoms) = some result) (options : Stages.Options)
    (report : Report StageError (List Atom)) :
    Reports options atoms report ↔ report =
      ⟨if options.trace then (trace fuel (.initial atoms)).map .reduced else [],
        result.mapError fun f => .evaluation f.message⟩ := by
  constructor
  · intro hr
    obtain ⟨fuel', hr⟩ := hr
    obtain ⟨result', h', rfl⟩ := Option.map_eq_some_iff.mp hr
    have ht : trace fuel' (.initial atoms) = trace fuel (.initial atoms) := by
      rw [← trace_eq_of_run h (Nat.le_max_left fuel fuel'),
        trace_eq_of_run h' (Nat.le_max_right fuel fuel')]
    obtain rfl : result' = result := Yields.unique ⟨fuel', h'⟩ ⟨fuel, h⟩
    rw [ht]
  · intro hr
    rw [hr]
    exact ⟨fuel, Option.map_eq_some_iff.mpr ⟨result, h, rfl⟩⟩

/--
Where reduction comes to an end, tracing leaves its result as it is. Without it nothing is said,
and with it there is one line for each step up to the end, be that a normal form or a fault.
-/
theorem trace_replays_run {atoms : List Atom} {result : Except Fault (List Atom)}
    (h : Yields atoms result) :
    ∃ log last,
      (∀ report, Reports { trace := false } atoms report ↔
        report = ⟨[], result.mapError fun f => .evaluation f.message⟩) ∧
      (∀ report, Reports { trace := true } atoms report ↔
        report = ⟨log, result.mapError fun f => .evaluation f.message⟩) ∧
      Replays (.initial atoms) (log.map Message.text) last ∧ last.Ends result := by
  obtain ⟨fuel, hf⟩ := h
  obtain ⟨last, hr, he⟩ := replays_trace hf
  have ht : ((trace fuel (.initial atoms)).map Message.reduced).map Message.text =
      (trace fuel (.initial atoms)).map Contraction.text := by
    rw [List.map_map]
    rfl
  exact ⟨_, last, reports_iff hf _, reports_iff hf _, ht ▸ hr, he⟩

theorem trace_replays_run_overflow :
    Yields ["$", ":", "max", "->", "9223372036854775807", ";", "max", "1", "+"]
        (.error (.overflow ["9223372036854775807", "1", "$", "+"])) ∧
      ∃ log last, Reports { trace := true }
          ["$", ":", "max", "->", "9223372036854775807", ";", "max", "1", "+"]
          ⟨log, .error (.evaluation "integer overflow in `9223372036854775807 1 $ +`")⟩ ∧
        Replays (.initial ["$", ":", "max", "->", "9223372036854775807", ";", "max", "1", "+"])
          (log.map Message.text) last ∧
        Faults last (.overflow ["9223372036854775807", "1", "$", "+"]) := by
  have h : Yields ["$", ":", "max", "->", "9223372036854775807", ";", "max", "1", "+"]
      (.error (.overflow ["9223372036854775807", "1", "$", "+"])) := ⟨5, by cbv⟩
  have hm : (Fault.overflow ["9223372036854775807", "1", "$", "+"]).message =
      "integer overflow in `9223372036854775807 1 $ +`" := by decide
  obtain ⟨log, last, -, ht, hr, he⟩ := trace_replays_run h
  exact ⟨h, log, last, (ht _).mpr (by rw [← hm]; rfl), hr, he⟩

example :
    (trace 5 (.initial ["$", ":", "max", "->", "9223372036854775807", ";", "max", "1", "+"])).map
      Contraction.text =
        [":$ : ... ; -> $; => $ max 1 +",
          ":max -> 9223372036854775807; => $ 9223372036854775807 1 +",
          ":$ 9223372036854775807 -> 9223372036854775807 $; => 9223372036854775807 $ 1 +",
          ":$ 1 -> 1 $; => 9223372036854775807 1 $ +"] := by
  cbv

end Wanda.Reduction

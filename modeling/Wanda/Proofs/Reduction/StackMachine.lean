import Wanda.Failure
import Wanda.Proofs.Reduction.NormalForm
import Wanda.Proofs.Text.Numeral

/-!
A machine with a stack and a program, in exact integers. Where a program holds neither a second
cursor nor a definition, reduction comes to an end and does what the machine does.
-/
namespace Wanda.StackMachine
open Atom Text

/-- The integers that a 64-bit word can hold. -/
def fits (n : Int) : Bool :=
  -0x8000000000000000 ≤ n && n < 0x8000000000000000

/-- The integer that an atom stands for. -/
def value? (a : Atom) : Option Int :=
  (Numeral.value? a.toList).filter fits

def overflow (x y word : Atom) : StageError :=
  .evaluation ("integer overflow in `" ++ x ++ " " ++ y ++ " $ " ++ word ++ "`")

/-- Replace the two integers on top of the stack, `y` above `x`. -/
def combine (word : Atom) (f : Int → Int → Int) :
    List Atom → Option (Except StageError (List Atom))
  | y :: x :: below => do
    let a ← value? x
    let b ← value? y
    return if fits (f a b) then .ok (Numeral.text (f a b) :: below) else .error (overflow x y word)
  | _ => none

/-- The words for the atom on top of the stack. -/
def onTop? (word : Atom) : List Atom → Option (Except StageError (List Atom))
  | [] => none
  | x :: below =>
    if word = "sgn" then (value? x).map fun a => .ok (Numeral.text a.sign :: below)
    else if word = "pop" then some (.ok below)
    else if word = "dup" then some (.ok (x :: x :: below))
    else none

/-- What a word does to a stack whose top comes first; `none` if it can do nothing. -/
def act? (word : Atom) (stack : List Atom) : Option (Except StageError (List Atom)) :=
  if (value? word).isSome then some (.ok (word :: stack))
  else if word = "+" then combine word (· + ·) stack
  else if word = "*" then combine word (· * ·) stack
  else if word = "-" then combine word (· - ·) stack
  else onTop? word stack

structure Config where
  /-- The top comes first. -/
  stack : List Atom
  program : List Atom
  deriving DecidableEq, Repr

/-- Run to the configuration in which the machine halts, or to an overflow. -/
def run (stack : List Atom) : List Atom → Except StageError Config
  | [] => .ok ⟨stack, []⟩
  | word :: program =>
    match act? word stack with
    | none => .ok ⟨stack, word :: program⟩
    | some (.error e) => .error e
    | some (.ok stack) => run stack program

/-- The atoms of a configuration, with the cursor between its two parts. -/
def Config.atoms (c : Config) : List Atom :=
  c.stack.reverse ++ cursor :: c.program

theorem fits_iff {n : Int} : fits n = true ↔ ∃ w : Int64, w.toInt = n := by
  constructor
  · intro h
    have hn : -0x8000000000000000 ≤ n ∧ n < 0x8000000000000000 := by simpa [fits] using h
    exact ⟨Int64.ofInt n, Int64.toInt_ofInt_of_le hn.1 hn.2⟩
  · rintro ⟨w, rfl⟩
    have hl := w.le_toInt
    have hu := w.toInt_lt
    simp only [fits, Bool.and_eq_true, decide_eq_true_eq]
    omega

theorem value?_eq_map_integer? (a : Atom) : value? a = (integer? a).map Int64.toInt := by
  unfold value? integer?
  cases Numeral.value? a.toList with
  | none => rfl
  | some n =>
    by_cases h : fits n = true
    · obtain ⟨w, rfl⟩ := fits_iff.mp h
      simp [h, Numeral.word?_eq_some_iff.mpr rfl]
    · have hw : Numeral.word? n = none := by
        refine Option.eq_none_iff_forall_ne_some.mpr ?_
        intro w hw
        exact h (fits_iff.mpr ⟨w, Numeral.word?_eq_some_iff.mp hw⟩)
      simp [h, hw]

theorem isSome_integer?_of_value? {x : Atom} {a : Int} (h : value? x = some a) :
    (integer? x).isSome := by
  rw [← Option.isSome_map (f := Int64.toInt), ← value?_eq_map_integer?, h]
  rfl

theorem act?_integer {n : Atom} {a : Int64} (h : integer? n = some a) (stack : List Atom) :
    act? n stack = some (.ok (n :: stack)) := by
  simp [act?, value?_eq_map_integer?, h]

theorem act?_operation {op : Atom} {f : Int → Int → Int} (h : Reduction.Operation op f)
    (stack : List Atom) : act? op stack = combine op f stack := by
  cases h with
  | add => rfl
  | mul => rfl
  | sub => rfl

theorem act?_sgn (x : Atom) (below : List Atom) :
    act? "sgn" (x :: below) = (value? x).map fun a => .ok (Numeral.text a.sign :: below) := rfl

theorem act?_pop (x : Atom) (below : List Atom) : act? "pop" (x :: below) = some (.ok below) := rfl

theorem act?_dup (x : Atom) (below : List Atom) :
    act? "dup" (x :: below) = some (.ok (x :: x :: below)) := rfl

/-- The stack grows only by atoms that stand on it and by integers. -/
theorem cursor_notMem_of_act? {word : Atom} {stack next : List Atom} (hs : cursor ∉ stack)
    (h : act? word stack = some (.ok next)) : cursor ∉ next := by
  have htext (n : Int) : cursor ≠ Numeral.text n := (Numeral.text_ne rfl n).symm
  have harith (f : Int → Int → Int) (h : combine word f stack = some (.ok next)) :
      cursor ∉ next := by
    match stack with
    | [] | [_] => cases h
    | y :: x :: below =>
      simp only [combine, Option.bind_eq_bind, Option.bind_eq_some_iff] at h
      obtain ⟨a, -, b, -, h⟩ := h
      split_ifs at h
      · cases h
        simp_all
      · cases h
  unfold act? at h
  split_ifs at h with hi
  · cases h
    have hw : cursor ≠ word := by
      rintro rfl
      cases hi
    simp_all
  · exact harith _ h
  · exact harith _ h
  · exact harith _ h
  · match stack with
    | [] => cases h
    | x :: below =>
      simp only [onTop?] at h
      split_ifs at h
      · obtain ⟨a, -, ha⟩ := Option.map_eq_some_iff.mp h
        cases ha
        simp_all
      · cases h
        simp_all
      · cases h
        simp_all

/-- The cursor between the two parts is the only one, and no definition is to come. -/
structure Config.Plain (c : Config) : Prop where
  stack : cursor ∉ c.stack
  program : cursor ∉ c.program
  definitions : define ∉ c.program

theorem Config.Plain.next {stack next rest : List Atom} {word : Atom}
    (hc : Plain ⟨stack, word :: rest⟩) (ha : act? word stack = some (.ok next)) :
    Plain ⟨next, rest⟩ where
  stack := cursor_notMem_of_act? hc.stack ha
  program := List.not_mem_of_not_mem_cons hc.program
  definitions := List.not_mem_of_not_mem_cons hc.definitions

end Wanda.StackMachine

namespace Wanda.Reduction
open Atom Text StackMachine

/-- The failure that a fault is reported as. -/
def Fault.stageError (f : Fault) : StageError :=
  .evaluation f.message

theorem stageError_overflow (x y op : Atom) :
    (Fault.overflow [x, y, cursor, op]).stageError = overflow x y op := by
  have hr : Program.render [x, y, cursor, op] =
      x ++ (" " ++ (y ++ (" " ++ (cursor ++ (" " ++ op))))) := by
    simp only [Program.render, String.intercalate_cons_cons, String.intercalate_singleton,
      String.append_assoc]
  have hm : (Fault.overflow [x, y, cursor, op]).message =
      "integer overflow in `" ++ Program.render [x, y, cursor, op] ++ "`" := rfl
  have hc : " $ " = " " ++ (cursor ++ " ") := by decide
  simp only [Fault.stageError, hm, hr, overflow, hc, String.append_assoc]

/-- What stands around a cursor stands around the only one. -/
theorem around_cursor {c : Config} (hc : c.Plain) {i : Nat} (before : List Atom)
    {after : List Atom} (h : c.atoms.drop i = before ++ cursor :: after) :
    c.stack = before.reverse ++ (c.atoms.take i).reverse ∧ c.program = after := by
  have he : c.stack.reverse ++ cursor :: c.program =
      (c.atoms.take i ++ before) ++ cursor :: after := by
    rw [List.append_assoc, ← h, List.take_append_drop]
    rfl
  obtain ⟨hl, -, hr⟩ := (List.append_cons_inj_of_notMem (by simpa using hc.stack) hc.program).mp he
  refine ⟨?_, hr⟩
  rw [← List.reverse_append, ← hl, List.reverse_reverse]

theorem after_atoms (rules : List Rule) (c : Config) (i : Nat) (left rest : List Atom) :
    State.after ⟨rules, c.atoms⟩ i (rules, left ++ cursor :: rest) =
      ⟨rules, Config.atoms ⟨left.reverse ++ (c.atoms.take i).reverse, rest⟩⟩ := by
  simp [State.after, Config.atoms]

/-- A built-in form that applies anywhere does what the machine does with the next word. -/
theorem act?_of_rewrites {rules : List Rule} {c : Config} (hc : c.Plain) {i : Nat} {form : Form}
    {out : Except Fault (List Rule × List Atom)} (hu : form ≠ .user)
    (h : Rewrites rules i form (c.atoms.drop i) out) :
    ∃ word rest done, c.program = word :: rest ∧ act? word c.stack = some done ∧
      (out.mapError Fault.stageError).map (State.after ⟨rules, c.atoms⟩ i) =
        done.map fun stack => ⟨rules, Config.atoms ⟨stack, rest⟩⟩ := by
  generalize hx : c.atoms.drop i = x at h
  cases h with
  | definition =>
    obtain ⟨-, hq⟩ := around_cursor hc [] hx
    simpa [hq] using hc.definitions
  | emptyPattern =>
    obtain ⟨-, hq⟩ := around_cursor hc [] hx
    simpa [hq] using hc.definitions
  | @arithmetic x y op rest a b n f ha hb hf hn =>
    obtain ⟨ht, hq⟩ := around_cursor hc [x, y] hx
    refine ⟨op, rest, .ok (ofInt64 n :: (c.atoms.take i).reverse), hq, ?_, ?_⟩
    · have hfit : fits (f a.toInt b.toInt) = true := fits_iff.mpr ⟨n, hn⟩
      rw [ht, act?_operation hf]
      simp [combine, value?_eq_map_integer?, ha, hb, hfit, ofInt64, hn]
    · exact congrArg Except.ok (after_atoms rules c i [ofInt64 n] rest)
  | @overflow x y op rest a b f ha hb hf hn =>
    obtain ⟨ht, hq⟩ := around_cursor hc [x, y] hx
    refine ⟨op, rest, .error (overflow x y op), hq, ?_, ?_⟩
    · have hfit : ¬ fits (f a.toInt b.toInt) = true := by
        rw [fits_iff]
        exact not_exists.mpr hn
      rw [ht, act?_operation hf]
      simp [combine, value?_eq_map_integer?, ha, hb, hfit]
    · exact congrArg Except.error (stageError_overflow x y op)
  | @sign x rest a ha =>
    obtain ⟨ht, hq⟩ := around_cursor hc [x] hx
    refine ⟨"sgn", rest, .ok (Numeral.text a.toInt.sign :: (c.atoms.take i).reverse), hq, ?_, ?_⟩
    · rw [ht]
      simp [act?_sgn, value?_eq_map_integer?, ha]
    · exact congrArg Except.ok (after_atoms rules c i [_] rest)
  | @pop x rest =>
    obtain ⟨ht, hq⟩ := around_cursor hc [x] hx
    refine ⟨"pop", rest, .ok (c.atoms.take i).reverse, hq, ?_, ?_⟩
    · rw [ht]
      exact act?_pop x _
    · exact congrArg Except.ok (after_atoms rules c i [] rest)
  | @dup x rest =>
    obtain ⟨ht, hq⟩ := around_cursor hc [x] hx
    refine ⟨"dup", rest, .ok (x :: x :: (c.atoms.take i).reverse), hq, ?_, ?_⟩
    · rw [ht]
      exact act?_dup x _
    · exact congrArg Except.ok (after_atoms rules c i [x, x] rest)
  | @push n rest a ha =>
    obtain ⟨ht, hq⟩ := around_cursor hc [] hx
    refine ⟨n, rest, .ok (n :: (c.atoms.take i).reverse), hq, ?_, ?_⟩
    · rw [ht]
      exact act?_integer ha _
    · exact congrArg Except.ok (after_atoms rules c i [n] rest)
  | user => exact absurd rfl hu

/-- No rule finds its pattern anywhere. -/
def Idle (rules : List Rule) (atoms : List Atom) : Prop :=
  ∀ rule ∈ rules, ¬ rule.pattern <:+: atoms

theorem idle_nil (atoms : List Atom) : Idle [] atoms := by
  simp [Idle]

theorem Idle.form_ne_user {rules : List Rule} {atoms : List Atom} (h : Idle rules atoms) {i : Nat}
    {form : Form} {out : Except Fault (List Rule × List Atom)}
    (hr : Rewrites rules i form (atoms.drop i) out) : form ≠ .user := by
  rintro rfl
  generalize hx : atoms.drop i = x at hr
  cases hr with
  | @user newer older rule rest hrules =>
    have hp : rule.pattern <+: atoms.drop i := ⟨rest, hx.symm⟩
    exact h rule (by simp [hrules]) (hp.isInfix.trans (List.drop_suffix i atoms).isInfix)

theorem Idle.effective {rules : List Rule} {atoms : List Atom} (h : Idle rules atoms) :
    Effective rules := by
  intro rule hr hn
  exact h rule hr (hn ▸ List.nil_infix)

theorem infix_atoms (above below : List Atom) (word : Atom) (rest : List Atom) :
    above.reverse ++ [cursor, word] <:+: Config.atoms ⟨above ++ below, word :: rest⟩ :=
  ⟨below.reverse, rest, by simp [Config.atoms]⟩

/-- Where no form applies, the machine halts. -/
theorem act?_of_irreducible {stack rest : List Atom} {word : Atom}
    (h : Irreducible [] (Config.atoms ⟨stack, word :: rest⟩)) : act? word stack = none := by
  have harith (f : Int → Int → Int) (hop : word ∈ ["+", "*", "-"]) :
      combine word f stack = none := by
    match stack with
    | [] | [_] => rfl
    | y :: x :: below =>
      cases hx : value? x with
      | none => simp [combine, hx]
      | some a =>
        cases hy : value? y with
        | none => simp [combine, hx, hy]
        | some b =>
          exact absurd (infix_atoms [y, x] below word rest)
            (h.arithmetic x y word (isSome_integer?_of_value? hx) (isSome_integer?_of_value? hy)
              hop)
  unfold act?
  split_ifs with hi hadd hmul hsub
  · rw [value?_eq_map_integer?, Option.isSome_map] at hi
    exact absurd (infix_atoms [] stack word rest) (h.push word hi)
  · exact harith _ (by simp [hadd])
  · exact harith _ (by simp [hmul])
  · exact harith _ (by simp [hsub])
  · match stack with
    | [] => rfl
    | x :: below =>
      have hw := infix_atoms [x] below word rest
      simp only [onTop?]
      split_ifs with hsgn hpop hdup
      · cases hx : value? x with
        | none => rfl
        | some a => exact absurd (hsgn ▸ hw) (h.sign x (isSome_integer?_of_value? hx))
      · exact absurd (hpop ▸ hw) (h.pop x)
      · exact absurd (hdup ▸ hw) (h.dup x)
      · rfl

theorem normal_atoms {rules : List Rule} {c : Config} (hc : c.Plain) (hr : Idle rules c.atoms)
    (hh : ∀ word rest, c.program = word :: rest → act? word c.stack = none) :
    Normal ⟨rules, c.atoms⟩ := by
  intro i _ form out h
  obtain ⟨word, rest, done, hq, ha, -⟩ := act?_of_rewrites hc (hr.form_ne_user h) h
  rw [hh word rest hq] at ha
  cases ha

section
variable {rules : List Rule} {stack rest : List Atom} {word : Atom}
  (hc : Config.Plain ⟨stack, word :: rest⟩) (hr : Idle rules (Config.atoms ⟨stack, word :: rest⟩))
include hc hr

/-- Where the machine can act and no rule can, reduction acts in the same way. -/
theorem exists_acts {done : Except StageError (List Atom)} (ha : act? word stack = some done) :
    ∃ i form out, Acts ⟨rules, Config.atoms ⟨stack, word :: rest⟩⟩ i form out ∧
      (out.mapError Fault.stageError).map
          (State.after ⟨rules, Config.atoms ⟨stack, word :: rest⟩⟩ i) =
        done.map fun stack => ⟨rules, Config.atoms ⟨stack, rest⟩⟩ := by
  rcases normal_or_acts ⟨rules, Config.atoms ⟨stack, word :: rest⟩⟩ with
    hn | ⟨i, form, out, hacts⟩
  · have hi : Irreducible [] (Config.atoms ⟨stack, word :: rest⟩) :=
      { hn.irreducible hr.effective with user := by simp }
    rw [act?_of_irreducible hi] at ha
    cases ha
  · have h := hacts.first.1
    obtain ⟨word, rest, done, hq, ha', he⟩ := act?_of_rewrites hc (hr.form_ne_user h) h
    cases hq
    rw [ha] at ha'
    cases ha'
    exact ⟨i, form, out, hacts, he⟩

theorem exists_faults {e : StageError} (ha : act? word stack = some (.error e)) :
    ∃ f, Faults ⟨rules, Config.atoms ⟨stack, word :: rest⟩⟩ f ∧ f.stageError = e := by
  obtain ⟨i, form, out, hacts, he⟩ := exists_acts hc hr ha
  cases out with
  | error f =>
    cases he
    exact ⟨f, ⟨i, form, hacts⟩, rfl⟩
  | ok left => cases he

theorem step_atoms {next : List Atom} (ha : act? word stack = some (.ok next)) :
    Step ⟨rules, Config.atoms ⟨stack, word :: rest⟩⟩ ⟨rules, Config.atoms ⟨next, rest⟩⟩ := by
  obtain ⟨i, form, out, hacts, he⟩ := exists_acts hc hr ha
  cases out with
  | error f => cases he
  | ok left =>
    have ht : State.after ⟨rules, Config.atoms ⟨stack, word :: rest⟩⟩ i left =
        ⟨rules, Config.atoms ⟨next, rest⟩⟩ := Except.ok.inj he
    exact ht ▸ .intro hacts

end

theorem yields_machine {stack program : List Atom} (hc : Config.Plain ⟨stack, program⟩) :
    ∃ result, Yields (Config.atoms ⟨stack, program⟩) result ∧
      result.mapError Fault.stageError = (StackMachine.run stack program).map Config.atoms := by
  induction program generalizing stack with
  | nil =>
    have hn := normal_atoms hc (idle_nil _) (by simp)
    exact ⟨_, ⟨1, run_of_normal hn 0⟩, rfl⟩
  | cons word rest ih =>
    rw [StackMachine.run]
    cases ha : act? word stack with
    | none =>
      have hn := normal_atoms hc (idle_nil _) (by simp [ha])
      exact ⟨_, ⟨1, run_of_normal hn 0⟩, rfl⟩
    | some done =>
      cases done with
      | error e =>
        obtain ⟨f, hf, rfl⟩ := exists_faults hc (idle_nil _) ha
        exact ⟨_, ⟨1, run_of_faults hf 0⟩, rfl⟩
      | ok next =>
        obtain ⟨result, hy, hr⟩ := ih (hc.next ha)
        exact ⟨result, exists_run_of_steps (.single (step_atoms hc (idle_nil _) ha)) hy, hr⟩

/--
Reducing a stack, the only cursor and a program without definitions comes to an end, with the
configuration in which the stack machine halts or with the machine's overflow.
-/
theorem reduction_eq_stack_machine (stack program : List Atom) (hs : cursor ∉ stack)
    (hp : cursor ∉ program) (hd : define ∉ program) :
    ∃ result, Yields (stack ++ cursor :: program) result ∧
      result.mapError Fault.stageError =
        (StackMachine.run stack.reverse program).map Config.atoms := by
  have hc : Config.Plain ⟨stack.reverse, program⟩ := ⟨by simpa using hs, hp, hd⟩
  have hy := yields_machine hc
  rwa [Config.atoms, List.reverse_reverse] at hy

theorem reduction_eq_stack_machine_words :
    cursor ∉ ["x", "2"] ∧ cursor ∉ ["007", "*", "dup", "sgn", "-", "swap", "1"] ∧
      define ∉ ["007", "*", "dup", "sgn", "-", "swap", "1"] ∧
      ∃ result, Yields ["x", "2", "$", "007", "*", "dup", "sgn", "-", "swap", "1"] result ∧
        result.mapError Fault.stageError = .ok ["x", "13", "$", "swap", "1"] := by
  refine ⟨by decide, by decide, by decide, ?_⟩
  obtain ⟨result, hy, hr⟩ := reduction_eq_stack_machine ["x", "2"]
    ["007", "*", "dup", "sgn", "-", "swap", "1"] (by decide) (by decide) (by decide)
  exact ⟨result, hy, hr.trans (by cbv)⟩

example :
    StackMachine.run ["9223372036854775807"] ["1", "-", "2", "+"] =
      .error (.evaluation "integer overflow in `9223372036854775806 2 $ +`") := by
  cbv

end Wanda.Reduction

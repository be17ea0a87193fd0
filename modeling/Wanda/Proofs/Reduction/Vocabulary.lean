import Wanda.Proofs.Reduction.Definitions
import Wanda.Proofs.Reduction.StackMachine

/-!
Words of a program's own. Such a word takes some atoms from the stack and stands for a piece of
program. Where no two of them can act at once, reduction with their rules does what the stack
machine does that knows these words.
-/
namespace Wanda.StackMachine
open Atom Reduction

/-- What `top $ name -> $ body` defines. -/
structure Word where
  /-- The topmost comes first. -/
  top : List Atom
  name : Atom
  body : List Atom
  deriving DecidableEq, Repr

def Word.rule (w : Word) : Rule :=
  ⟨w.top.reverse ++ [cursor, w.name], cursor :: w.body⟩

def Word.definition (w : Word) : List Atom :=
  define :: (w.rule.pattern ++ arrow :: (w.rule.replacement ++ [close]))

/-- The word comes next, and what it takes is on the stack. -/
def Word.Applies (w : Word) (c : Config) : Prop :=
  w.top <+: c.stack ∧ [w.name] <+: c.program

/-- The name has no meaning yet, and nothing in the word is reserved. -/
structure Word.Proper (w : Word) : Prop where
  name : ∀ stack, act? w.name stack = none
  unreserved : ∀ a ∈ w.top ++ w.name :: w.body, isReserved a = false

/-- Words that leave the machine no choice. -/
structure Coherent (words : List Word) : Prop where
  proper : ∀ w ∈ words, w.Proper
  unambiguous : ∀ v ∈ words, ∀ w ∈ words, ∀ c, v.Applies c → w.Applies c → v = w

/-- A move of the machine that knows some words. -/
inductive Moves (words : List Word) : Config → Config → Prop
  | act {stack next rest : List Atom} {word : Atom} :
      act? word stack = some (.ok next) → Moves words ⟨stack, word :: rest⟩ ⟨next, rest⟩
  | expand {w : Word} {stack rest : List Atom} : w ∈ words →
      Moves words ⟨w.top ++ stack, w.name :: rest⟩ ⟨stack, w.body ++ rest⟩

/-- The machine comes to an end in a configuration. -/
inductive Stops (words : List Word) : Config → Except StageError Config → Prop
  | halts {c : Config} : (∀ word rest, c.program = word :: rest → act? word c.stack = none) →
      (∀ w ∈ words, ¬ w.Applies c) → Stops words c (.ok c)
  | fails {stack rest : List Atom} {word : Atom} {e : StageError} :
      act? word stack = some (.error e) → Stops words ⟨stack, word :: rest⟩ (.error e)

theorem Word.Proper.notMem {w : Word} (h : w.Proper) {a : Atom} (ha : isReserved a = true) :
    a ∉ w.top ∧ a ≠ w.name ∧ a ∉ w.body := by
  have hn : a ∉ w.top ++ w.name :: w.body := by
    intro hm
    rw [h.unreserved a hm] at ha
    cases ha
  simpa [not_or] using hn

theorem Word.Proper.writable {w : Word} (h : w.Proper) : w.rule.Writable := by
  obtain ⟨ht, hn, hb⟩ := h.notMem (show isReserved arrow = true from rfl)
  obtain ⟨ht', hn', hb'⟩ := h.notMem (show isReserved close = true from rfl)
  have hc : arrow ≠ cursor ∧ close ≠ cursor := by decide
  exact ⟨by simp [rule], by simp [rule, ht, hn, hc, ht', hn'], by simp [rule, hb, hc, hb']⟩

theorem Word.Proper.not_applies {w : Word} (h : w.Proper) {stack rest : List Atom} {word : Atom}
    {done : Except StageError (List Atom)} (ha : act? word stack = some done) :
    ¬ w.Applies ⟨stack, word :: rest⟩ := by
  intro hw
  obtain rfl : w.name = word := by simpa using hw.2
  rw [h.name] at ha
  cases ha

theorem Word.applies_self (w : Word) (stack rest : List Atom) :
    w.Applies ⟨w.top ++ stack, w.name :: rest⟩ :=
  ⟨List.prefix_append _ _, List.prefix_append [w.name] rest⟩

theorem Moves.plain {words : List Word} (hw : Coherent words) {c d : Config}
    (h : Moves words c d) (hc : c.Plain) : d.Plain := by
  cases h with
  | act ha => exact hc.next ha
  | @expand w stack rest hm =>
    obtain ⟨hs, hp, hd⟩ := hc
    obtain ⟨-, -, hb⟩ := (hw.proper w hm).notMem (show isReserved cursor = true from rfl)
    obtain ⟨-, -, hb'⟩ := (hw.proper w hm).notMem (show isReserved define = true from rfl)
    simp only [List.mem_append, List.mem_cons, not_or] at hs hp hd
    refine ⟨hs.2, ?_, ?_⟩
    · simp only [List.mem_append, not_or]
      exact ⟨hb, hp.2⟩
    · simp only [List.mem_append, not_or]
      exact ⟨hb', hd.2⟩

end Wanda.StackMachine

namespace Wanda.Reduction
open Atom StackMachine

/-- A word's rule can only be fired around the cursor. -/
theorem around_word {c : Config} (hc : c.Plain) {i : Nat} {w : Word} {rest : List Atom}
    (h : c.atoms.drop i = w.rule.pattern ++ rest) :
    c.stack = w.top ++ (c.atoms.take i).reverse ∧ c.program = w.name :: rest := by
  have hd : c.atoms.drop i = w.top.reverse ++ cursor :: w.name :: rest := by
    simpa [Word.rule] using h
  have ha := around_cursor hc w.top.reverse hd
  rwa [List.reverse_reverse] at ha

theorem applies_of_drop {c : Config} (hc : c.Plain) {i : Nat} {w : Word} {rest : List Atom}
    (h : c.atoms.drop i = w.rule.pattern ++ rest) : w.Applies c := by
  obtain ⟨hs, hp⟩ := around_word hc h
  exact ⟨hs ▸ List.prefix_append _ _, hp ▸ List.prefix_append [w.name] rest⟩

theorem idle_of_not_applies {words : List Word} {c : Config} (hc : c.Plain)
    (h : ∀ w ∈ words, ¬ w.Applies c) : Idle (words.map Word.rule) c.atoms := by
  rintro rule hr ⟨u, v, he⟩
  obtain ⟨w, hw, rfl⟩ := List.mem_map.mp hr
  have hd : c.atoms.drop u.length = w.rule.pattern ++ v := by
    rw [← he, List.append_assoc, List.drop_left]
  exact h w hw (applies_of_drop hc hd)

section
variable {words : List Word} (hw : Coherent words)
include hw

theorem step_expand {w : Word} {stack rest : List Atom}
    (hc : Config.Plain ⟨w.top ++ stack, w.name :: rest⟩) (hm : w ∈ words) :
    Step ⟨words.map Word.rule, Config.atoms ⟨w.top ++ stack, w.name :: rest⟩⟩
      ⟨words.map Word.rule, Config.atoms ⟨stack, w.body ++ rest⟩⟩ := by
  rcases normal_or_acts ⟨words.map Word.rule, Config.atoms ⟨w.top ++ stack, w.name :: rest⟩⟩ with
    hn | ⟨i, form, out, ha⟩
  · have hr : w.rule ∈ words.map Word.rule := List.mem_map_of_mem hm
    have hi := hn.not_infix (w := w.rule.pattern) (by simp [Word.rule])
      fun position tail => ⟨_, exists_rewrites_user hr position tail⟩
    exact absurd (infix_atoms w.top stack w.name rest) hi
  · have hr := ha.first.1
    by_cases hf : form = .user
    · subst hf
      generalize hx : (Config.atoms ⟨w.top ++ stack, w.name :: rest⟩).drop i = x at hr
      cases hr with
      | @user newer older rule tail hrules =>
        have hrule : rule ∈ words.map Word.rule := by
          rw [show words.map Word.rule = newer ++ rule :: older from hrules]
          simp
        obtain ⟨v, hv, rfl⟩ := List.mem_map.mp hrule
        obtain rfl := hw.unambiguous v hv w hm _ (applies_of_drop hc hx) (w.applies_self stack rest)
        obtain ⟨hs, hp⟩ := around_word hc hx
        have hstack := List.append_cancel_left hs
        cases hp
        have hafter := after_atoms (words.map Word.rule) ⟨v.top ++ stack, v.name :: rest⟩ i []
          (v.body ++ rest)
        rw [List.reverse_nil, List.nil_append, ← hstack] at hafter
        exact hafter ▸ Step.intro ha
    · obtain ⟨word, tail, done, hq, hact, -⟩ := act?_of_rewrites hc hf hr
      cases hq
      rw [(hw.proper w hm).name] at hact
      cases hact

theorem step_of_moves {c d : Config} (hc : c.Plain) (h : Moves words c d) :
    Step ⟨words.map Word.rule, c.atoms⟩ ⟨words.map Word.rule, d.atoms⟩ := by
  cases h with
  | act ha =>
    have hi := idle_of_not_applies hc fun w hm => (hw.proper w hm).not_applies ha
    exact step_atoms hc hi ha
  | expand hm => exact step_expand hw hc hm

theorem steps_of_moves {c d : Config} (hc : c.Plain) (h : Relation.ReflTransGen (Moves words) c d) :
    d.Plain ∧ Relation.ReflTransGen Step ⟨words.map Word.rule, c.atoms⟩
      ⟨words.map Word.rule, d.atoms⟩ := by
  induction h with
  | refl => exact ⟨hc, .refl⟩
  | tail _ hm ih =>
    obtain ⟨hd, hs⟩ := ih
    exact ⟨hm.plain hw hd, hs.tail (step_of_moves hw hd hm)⟩

/-- Reduction with the words' rules comes to the end that the machine comes to. -/
theorem exists_run_of_moves {c d : Config} {result : Except StageError Config} (hc : c.Plain)
    (hm : Relation.ReflTransGen (Moves words) c d) (hs : Stops words d result) :
    ∃ outcome, (∃ fuel, run fuel ⟨words.map Word.rule, c.atoms⟩ = some outcome) ∧
      outcome.mapError Fault.stageError = result.map Config.atoms := by
  obtain ⟨hd, hsteps⟩ := steps_of_moves hw hc hm
  cases hs with
  | halts hh hn =>
    have hnormal := normal_atoms hd (idle_of_not_applies hd hn) hh
    exact ⟨_, exists_run_of_steps hsteps ⟨1, run_of_normal hnormal 0⟩, rfl⟩
  | fails ha =>
    have hi := idle_of_not_applies hd fun w hm => (hw.proper w hm).not_applies ha
    obtain ⟨f, hf, rfl⟩ := exists_faults hd hi ha
    exact ⟨_, exists_run_of_steps hsteps ⟨1, run_of_faults hf 0⟩, rfl⟩

theorem forall₂_definitions : List.Forall₂ Defines (words.map Word.definition)
    (words.map Word.rule) := by
  refine forall₂_defines ?_ ?_
  · rw [List.forall₂_map_left_iff, List.forall₂_map_right_iff, List.forall₂_same]
    intro w _
    exact .replacing w.rule
  · intro rule hr
    obtain ⟨w, hm, rfl⟩ := List.mem_map.mp hr
    exact (hw.proper w hm).writable

/-- So does the reduction of a program with the definitions of the words in front, oldest first. -/
theorem exists_yields_of_moves {program : List Atom} {d : Config}
    {result : Except StageError Config} (hc : Config.Plain ⟨[], program⟩)
    (hm : Relation.ReflTransGen (Moves words) ⟨[], program⟩ d) (hs : Stops words d result) :
    ∃ outcome, Yields (cursor :: ((words.map Word.definition).reverse.flatten ++ program)) outcome ∧
      outcome.mapError Fault.stageError = result.map Config.atoms := by
  obtain ⟨outcome, hr, ho⟩ := exists_run_of_moves hw hc hm hs
  have hd := List.forall₂_reverse_iff.mpr (forall₂_definitions hw)
  have hi := installs_of_defines hd [] program
  rw [List.reverse_reverse, List.append_nil] at hi
  exact ⟨outcome, (hi.exists_run_iff outcome).mpr hr, ho⟩

end

end Wanda.Reduction

import Wanda.Proofs.Reduction.Leftmost

/-!
Definitions right after the first cursor. They are installed one after the other, each as it is
written, before a form acts on anything else.
-/
namespace Wanda.Reduction
open Atom

/-- A closed definition, and the rule that it writes. -/
inductive Defines : List Atom → Rule → Prop
  | closed {body : List Atom} {rule : Rule} : close ∉ body → Writes body rule →
      rule.pattern ≠ [] → Defines (define :: (body ++ [close])) rule

/-- Steps that install rules in this order, each by a definition at the first position. -/
inductive Installs : State → List Rule → State → Prop
  | nil {s : State} : Installs s [] s
  | cons {s t : State} {rule : Rule} {rules : List Rule} {redex : List Atom} :
      Acts s 0 .definition (.ok (rule :: s.rules, redex)) →
      Installs ⟨rule :: s.rules, redex⟩ rules t → Installs s (rule :: rules) t

/-- At the first position nothing comes before a definition, whatever its body holds. -/
theorem acts_definition (rules : List Rule) {rest body tail : List Atom} {rule : Rule}
    (hb : Body rest body tail) (hw : Writes body rule) (hp : rule.pattern ≠ []) :
    Acts ⟨rules, cursor :: define :: rest⟩ 0 .definition
      (.ok (rule :: rules, cursor :: tail)) where
  inside := by simp
  leftmost := by simp
  first := ⟨.definition hb hw hp, by simp [Form.rank]⟩

theorem Defines.acts {d : List Atom} {rule : Rule} (h : Defines d rule) (rules : List Rule)
    (tail : List Atom) :
    Acts ⟨rules, cursor :: (d ++ tail)⟩ 0 .definition (.ok (rule :: rules, cursor :: tail)) := by
  cases h with
  | closed hc hw hp => simpa using acts_definition rules (@Body.closed _ tail hc) hw hp

theorem installs_of_defines {definitions : List (List Atom)} {rules : List Rule}
    (h : List.Forall₂ Defines definitions rules) (old : List Rule) (body : List Atom) :
    Installs ⟨old, cursor :: (definitions.flatten ++ body)⟩ rules
      ⟨rules.reverse ++ old, cursor :: body⟩ := by
  induction h generalizing old with
  | nil => exact .nil
  | @cons d rule definitions rules hd _ ih =>
    have ha := hd.acts old (definitions.flatten ++ body)
    have hi := ih (rule :: old)
    rw [List.flatten_cons, List.append_assoc, List.reverse_cons, List.append_assoc]
    exact .cons ha hi

theorem Installs.steps {s t : State} {rules : List Rule} (h : Installs s rules t) :
    Relation.ReflTransGen Step s t := by
  induction h with
  | nil => exact .refl
  | cons ha _ ih => exact .head (.intro ha) ih

theorem Installs.run_eq {s t : State} {rules : List Rule} (h : Installs s rules t) (fuel : Nat) :
    run (rules.length + fuel) s = run fuel t := by
  induction h with
  | nil => rw [List.length_nil, Nat.zero_add]
  | cons ha _ ih =>
    rw [List.length_cons, Nat.add_right_comm, run_of_step (.intro ha)]
    exact ih

/-- What a run comes to is settled by the state that it installs its rules in. -/
theorem Installs.exists_run_iff {s t : State} {rules : List Rule} (h : Installs s rules t)
    (result : Except Fault (List Atom)) :
    (∃ fuel, run fuel s = some result) ↔ ∃ fuel, run fuel t = some result := by
  constructor
  · rintro ⟨fuel, hf⟩
    refine ⟨fuel, ?_⟩
    rw [← h.run_eq]
    exact run_mono hf (by omega)
  · exact exists_run_of_steps h.steps

/-- The rule can stand in a definition without being cut short. -/
structure Rule.Writable (rule : Rule) : Prop where
  pattern_ne_nil : rule.pattern ≠ []
  pattern : arrow ∉ rule.pattern ∧ close ∉ rule.pattern
  replacement : arrow ∉ rule.replacement ∧ close ∉ rule.replacement

/-- The text of a definition; a rule that only erases can do without the arrow. -/
inductive Wording : List Atom → Rule → Prop
  | replacing (rule : Rule) :
      Wording (define :: (rule.pattern ++ arrow :: (rule.replacement ++ [close]))) rule
  | erasing (pattern : List Atom) : Wording (define :: (pattern ++ [close])) ⟨pattern, []⟩

theorem Rule.Writable.writes {rule : Rule} (h : rule.Writable) :
    Writes (rule.pattern ++ arrow :: rule.replacement) rule := by
  have hf : rule.replacement.filter (· ≠ arrow) = rule.replacement := by
    refine List.filter_eq_self.mpr ?_
    intro a ha
    simpa using ne_of_mem_of_not_mem ha h.replacement.1
  have hw := @Writes.both rule.pattern rule.replacement h.pattern.1
  rwa [hf] at hw

theorem Wording.defines {d : List Atom} {rule : Rule} (h : Wording d rule) (hr : rule.Writable) :
    Defines d rule := by
  cases h with
  | replacing =>
    have hc : close ∉ rule.pattern ++ arrow :: rule.replacement := by
      simp only [List.mem_append, List.mem_cons, not_or]
      exact ⟨hr.pattern.2, by decide, hr.replacement.2⟩
    have hd := Defines.closed hc hr.writes hr.pattern_ne_nil
    rwa [List.append_assoc, List.cons_append] at hd
  | erasing pattern => exact .closed hr.pattern.2 (.pattern hr.pattern.1) hr.pattern_ne_nil

theorem forall₂_defines {definitions : List (List Atom)} {rules : List Rule}
    (hd : List.Forall₂ Wording definitions rules) (hr : ∀ rule ∈ rules, rule.Writable) :
    List.Forall₂ Defines definitions rules := by
  induction hd with
  | nil => exact .nil
  | cons hs _ ih =>
    rw [List.forall_mem_cons] at hr
    exact .cons (hs.defines hr.1) (ih hr.2)

theorem not_rewrites_definition {body : List Atom} (h : body.head? ≠ some define)
    (rules : List Rule) (position : Nat) (out : Except Fault (List Rule × List Atom)) :
    ¬ Rewrites rules position .definition (cursor :: body) out := by
  intro hr
  cases hr <;> exact h rfl

/--
Definitions after the leading cursor are installed as they are written, by one step each and before
any other step: what is left are the rules, newest first, and the body with no definition in front.
-/
theorem leading_definitions_installed {definitions : List (List Atom)} {rules : List Rule}
    {body : List Atom} (hd : List.Forall₂ Wording definitions rules)
    (hr : ∀ rule ∈ rules, rule.Writable) (hb : body.head? ≠ some define) :
    Installs (.initial (cursor :: (definitions.flatten ++ body))) rules
        ⟨rules.reverse, cursor :: body⟩ ∧
      (∀ out, ¬ Rewrites rules.reverse 0 .definition (cursor :: body) out) ∧
      ∀ fuel, run (rules.length + fuel) (.initial (cursor :: (definitions.flatten ++ body))) =
        run fuel ⟨rules.reverse, cursor :: body⟩ := by
  have hi := installs_of_defines (forall₂_defines hd hr) [] body
  rw [List.append_nil] at hi
  exact ⟨hi, not_rewrites_definition hb rules.reverse 0, hi.run_eq⟩

/-- Two rules whose texts hold what forms, and one another, would act on. -/
def entangledRules : List Rule :=
  [⟨["$", "5"], ["$", "dup", ":"]⟩, ⟨["7", "$", "pop", "$", "5"], []⟩]

theorem leading_definitions_installed_entangled :
    (∀ rule ∈ entangledRules, rule.Writable) ∧
      Installs (.initial ["$", ":", "$", "5", "->", "$", "dup", ":", ";",
          ":", "7", "$", "pop", "$", "5", ";", "5", "$", ":"]) entangledRules
        ⟨entangledRules.reverse, ["$", "5", "$", ":"]⟩ := by
  have hr : ∀ rule ∈ entangledRules, rule.Writable := by
    intro rule hm
    simp only [entangledRules, List.mem_cons, List.not_mem_nil, or_false] at hm
    rcases hm with rfl | rfl <;> exact ⟨by decide, by decide, by decide⟩
  have hd : List.Forall₂ Wording _ entangledRules := .cons (.replacing _) (.cons (.erasing _) .nil)
  have hb : ["5", "$", ":"].head? ≠ some define := by decide
  exact ⟨hr, (leading_definitions_installed hd hr hb).1⟩

end Wanda.Reduction

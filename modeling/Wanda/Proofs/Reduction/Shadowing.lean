import Wanda.Proofs.Reduction.Definitions

/-!
A rule is never fired where a newer one has a prefix of its pattern. Deleting such a rule, or the
definition that installs it, changes nothing that a run does from then on.
-/
namespace Wanda.Reduction
open Atom

/-- Whatever comes next, the same match is found by either list of rules. -/
def FireAlike (rules others : List Rule) : Prop :=
  ∀ rest, userRule? rules rest = userRule? others rest

theorem userRule?_append (newer older : List Rule) (rest : List Atom) :
    userRule? (newer ++ older) rest = (userRule? newer rest).or (userRule? older rest) := by
  rw [userRule?, List.find?_append, Option.map_or]
  rfl

/-- Rules that are installed later on keep two lists alike. -/
theorem FireAlike.append {rules others : List Rule} (h : FireAlike rules others)
    (newer : List Rule) : FireAlike (newer ++ rules) (newer ++ others) := by
  intro rest
  rw [userRule?_append, userRule?_append, h rest]

theorem userRule?_cons_of_applies {rule : Rule} {rest : List Atom} (h : rule.pattern <+: rest)
    (older : List Rule) :
    userRule? (rule :: older) rest = some (.swap rule.pattern rule.replacement) := by
  simp [userRule?, List.isPrefixOf_iff_prefix.mpr h]

theorem userRule?_cons_of_not_applies {rule : Rule} {rest : List Atom}
    (h : ¬ rule.pattern <+: rest) (older : List Rule) :
    userRule? (rule :: older) rest = userRule? older rest := by
  simp [userRule?, mt List.isPrefixOf_iff_prefix.mp h]

theorem fireAlike_of_shadowed {rule shadowed : Rule} (h : rule.pattern <+: shadowed.pattern)
    (newer between older : List Rule) :
    FireAlike (newer ++ rule :: (between ++ shadowed :: older))
      (newer ++ rule :: (between ++ older)) := by
  apply FireAlike.append
  intro rest
  by_cases hr : rule.pattern <+: rest
  · rw [userRule?_cons_of_applies hr, userRule?_cons_of_applies hr]
  · have hs : ¬ shadowed.pattern <+: rest := fun hs => hr (h.trans hs)
    rw [userRule?_cons_of_not_applies hr, userRule?_cons_of_not_applies hr, userRule?_append,
      userRule?_append, userRule?_cons_of_not_applies hs]

theorem FireAlike.matchAt_eq {rules others : List Rule} (h : FireAlike rules others)
    (position : Nat) (rest : List Atom) :
    matchAt rules position rest = matchAt others position rest := by
  rw [matchAt, matchAt, h rest]

theorem FireAlike.leftmost?_eq {rules others : List Rule} (h : FireAlike rules others)
    (position : Nat) (redex : List Atom) :
    leftmost? rules position redex = leftmost? others position redex := by
  induction redex generalizing position with
  | nil => rfl
  | cons a rest ih => rw [leftmost?, leftmost?, h.matchAt_eq, ih]

/-- A step does the same under either list of rules, and leaves lists that are alike again. -/
theorem FireAlike.step? {rules others : List Rule} (h : FireAlike rules others)
    (redex : List Atom) :
    (State.step? ⟨rules, redex⟩ = none ∧ State.step? ⟨others, redex⟩ = none) ∨
      (∃ f, State.step? ⟨rules, redex⟩ = some (.error f) ∧
        State.step? ⟨others, redex⟩ = some (.error f)) ∨
      ∃ c rules' others', State.step? ⟨rules, redex⟩ = some (.ok (c, ⟨rules', c.redex⟩)) ∧
        State.step? ⟨others, redex⟩ = some (.ok (c, ⟨others', c.redex⟩)) ∧
        FireAlike rules' others' := by
  simp only [State.step?, h.leftmost?_eq]
  cases leftmost? others 0 redex with
  | none => exact .inl ⟨rfl, rfl⟩
  | some out =>
    cases out with
    | error f => exact .inr (.inl ⟨f, rfl, rfl⟩)
    | ok found =>
      obtain ⟨m, after⟩ := found
      exact .inr (.inr ⟨⟨m.pattern, m.replacement, after⟩, _, _, rfl, rfl,
        h.append m.rule.toList⟩)

theorem FireAlike.run_eq {rules others : List Rule} (h : FireAlike rules others) (fuel : Nat)
    (redex : List Atom) :
    run fuel ⟨rules, redex⟩ = run fuel ⟨others, redex⟩ ∧
      trace fuel ⟨rules, redex⟩ = trace fuel ⟨others, redex⟩ := by
  induction fuel generalizing rules others redex with
  | zero => exact ⟨rfl, rfl⟩
  | succ fuel ih =>
    rcases h.step? redex with ⟨hx, hy⟩ | ⟨f, hx, hy⟩ | ⟨c, rules', others', hx, hy, h'⟩
    · simp only [run, trace, hx, hy, and_self]
    · simp only [run, trace, hx, hy, and_self]
    · obtain ⟨hr, ht⟩ := ih h' c.redex
      simp only [run, trace, hx, hy, hr, ht, and_self]

/--
A rule with a newer one that has a prefix of its pattern can be deleted: a run goes on from there
with the same steps to the same end, or without end. So can its definition among those in front.
-/
theorem shadowed_rule_never_fires {rule shadowed : Rule}
    (h : rule.pattern <+: shadowed.pattern) :
    (∀ newer between older redex fuel,
      run fuel ⟨newer ++ rule :: (between ++ shadowed :: older), redex⟩ =
          run fuel ⟨newer ++ rule :: (between ++ older), redex⟩ ∧
        trace fuel ⟨newer ++ rule :: (between ++ shadowed :: older), redex⟩ =
          trace fuel ⟨newer ++ rule :: (between ++ older), redex⟩) ∧
    ∀ {early middle late : List (List Atom)} {older between newer : List Rule}
      {d hidden : List Atom}, List.Forall₂ Defines early older → Defines hidden shadowed →
      List.Forall₂ Defines middle between → Defines d rule → List.Forall₂ Defines late newer →
      ∀ body result,
        Yields (cursor :: ((early ++ hidden :: (middle ++ d :: late)).flatten ++ body)) result ↔
          Yields (cursor :: ((early ++ (middle ++ d :: late)).flatten ++ body)) result := by
  refine ⟨fun newer between older redex fuel =>
    (fireAlike_of_shadowed h newer between older).run_eq fuel redex, ?_⟩
  intro early middle late older between newer d hidden he hs hm hd hl body result
  have htail := List.rel_append hm (.cons hd hl)
  have hfull := installs_of_defines (List.rel_append he (.cons hs htail)) [] body
  have hless := installs_of_defines (List.rel_append he htail) [] body
  have hrun := fireAlike_of_shadowed h newer.reverse between.reverse older.reverse
  rw [Yields, Yields, State.initial, State.initial, hfull.exists_run_iff, hless.exists_run_iff]
  simp only [List.reverse_append, List.reverse_cons, List.append_assoc, List.cons_append,
    List.nil_append, List.append_nil]
  simp only [(hrun.run_eq _ _).1]

/-- Two rules for one word; the older one also asks for a word after it. -/
theorem shadowed_rule_never_fires_longer :
    ["$", "x"] <+: ["$", "x", "y"] ∧ Defines [":", "$", "x", "y", ";"] ⟨["$", "x", "y"], []⟩ ∧
      Defines [":", "$", "x", "->", "$", "2", ";"] ⟨["$", "x"], ["$", "2"]⟩ ∧
      ∀ body result,
        Yields ("$" :: ([":", "$", "x", "y", ";", ":", "$", "x", "->", "$", "2", ";"] ++ body))
            result ↔
          Yields ("$" :: ([":", "$", "x", "->", "$", "2", ";"] ++ body)) result := by
  have hp : ["$", "x"] <+: ["$", "x", "y"] := by decide
  have hs : Defines [":", "$", "x", "y", ";"] ⟨["$", "x", "y"], []⟩ :=
    @Defines.closed ["$", "x", "y"] _ (by decide) (.pattern (by decide)) (by decide)
  have hd : Defines [":", "$", "x", "->", "$", "2", ";"] ⟨["$", "x"], ["$", "2"]⟩ :=
    @Defines.closed ["$", "x", "->", "$", "2"] _ (by decide) (writes_iff.mpr (by decide))
      (by decide)
  exact ⟨hp, hs, hd, (shadowed_rule_never_fires hp).2 .nil hs .nil hd .nil⟩

end Wanda.Reduction

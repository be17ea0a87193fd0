import Wanda.Proofs.Reduction.Leftmost
import Wanda.Proofs.Text.Numeral

/-!
Without rules that grow, reduction comes to an end. Every other rewrite makes the atoms lighter: it
leaves fewer of them, or as many with fewer that are not cursors, or it moves a cursor towards the
end.
-/
namespace Wanda.Reduction
open Atom

/-- The number of places that the cursors are away from the end, in total. -/
def lag : List Atom → Nat
  | [] => 0
  | a :: rest => (if a = cursor then rest.length else 0) + lag rest

def weight (atoms : List Atom) : Nat × Nat × Nat :=
  (atoms.length, atoms.countP (· ≠ cursor), lag atoms)

def Lighter (after before : List Atom) : Prop :=
  Prod.Lex (· < ·) (Prod.Lex (· < ·) (· < ·)) (weight after) (weight before)

theorem wellFounded_lighter : WellFounded Lighter :=
  InvImage.wf weight
    (Nat.lt_wfRel.wf.prod_lex (Nat.lt_wfRel.wf.prod_lex Nat.lt_wfRel.wf))

theorem lighter_iff {after before : List Atom} :
    Lighter after before ↔
      after.length < before.length ∨ after.length = before.length ∧
        (after.countP (· ≠ cursor) < before.countP (· ≠ cursor) ∨
          after.countP (· ≠ cursor) = before.countP (· ≠ cursor) ∧ lag after < lag before) := by
  simp only [Lighter, weight, Prod.lex_def]

theorem lag_append_lt {x y : List Atom} (hl : y.length = x.length) (h : lag y < lag x)
    (u : List Atom) : lag (u ++ y) < lag (u ++ x) := by
  induction u with
  | nil => exact h
  | cons a u ih =>
    simp only [List.cons_append, lag, List.length_append, hl]
    omega

theorem Lighter.append_left {x y : List Atom} (h : Lighter y x) (u : List Atom) :
    Lighter (u ++ y) (u ++ x) := by
  rw [lighter_iff] at h ⊢
  simp only [List.length_append, List.countP_append]
  rcases h with hl | ⟨hl, hn | ⟨hn, hg⟩⟩
  · left
    omega
  · right
    refine ⟨by omega, .inl ?_⟩
    omega
  · right
    exact ⟨by omega, .inr ⟨by omega, lag_append_lt hl hg u⟩⟩

theorem lighter_of_length_lt {x y : List Atom} (h : y.length < x.length) : Lighter y x :=
  lighter_iff.mpr (.inl h)

theorem lighter_dup (x : Atom) (rest : List Atom) :
    Lighter (x :: x :: cursor :: rest) (x :: cursor :: "dup" :: rest) := by
  have hw : "dup" ≠ cursor := by decide
  rw [lighter_iff]
  right
  refine ⟨by simp, ?_⟩
  by_cases hx : x = cursor
  · left
    simp [hx, hw]
  · right
    simp [hx, hw, lag]

theorem lighter_push {n : Atom} (hn : n ≠ cursor) (rest : List Atom) :
    Lighter (n :: cursor :: rest) (cursor :: n :: rest) := by
  rw [lighter_iff]
  right
  refine ⟨by simp, .inr ?_⟩
  simp [hn, lag]

theorem Body.length_le {rest body tail : List Atom} (h : Body rest body tail) :
    tail.length ≤ rest.length := by
  cases h with
  | closed =>
    simp only [List.length_append, List.length_cons]
    omega
  | unclosed => simp

theorem Rewrites.lighter {rules : List Rule} {position : Nat} {form : Form} {rest : List Atom}
    {left : List Rule × List Atom} (h : Rewrites rules position form rest (.ok left))
    (hf : form ≠ .user) : Lighter left.2 rest := by
  cases h with
  | definition hb =>
    have hl := hb.length_le
    apply lighter_of_length_lt
    simp only [List.length_cons]
    omega
  | arithmetic => exact lighter_of_length_lt (by simp)
  | sign => exact lighter_of_length_lt (by simp)
  | pop => exact lighter_of_length_lt (by simp)
  | dup => exact lighter_dup _ _
  | push hn =>
    apply lighter_push
    rintro rfl
    cases hn
  | user => exact absurd rfl hf

theorem State.lighter_after {s : State} {position : Nat} {left : List Rule × List Atom}
    (h : Lighter left.2 (s.redex.drop position)) :
    Lighter (s.after position left).redex s.redex := by
  have ha := h.append_left (s.redex.take position)
  rwa [List.take_append_drop] at ha

/-- The replacement is at least as long as the pattern. -/
def Rule.Grows (rule : Rule) : Prop :=
  rule.pattern.length ≤ rule.replacement.length

/--
A rewrite at any position by any form, whether or not its turn has come, except by a rule that
grows.
-/
inductive Tame (s : State) : State → Prop
  | builtin {position : Nat} {form : Form} {left : List Rule × List Atom} :
      form ≠ .user → Rewrites s.rules position form (s.redex.drop position) (.ok left) →
      Tame s (s.after position left)
  | user {position : Nat} {rule : Rule} {rest : List Atom} :
      rule ∈ s.rules → s.redex.drop position = rule.pattern ++ rest → ¬ rule.Grows →
      Tame s (s.after position (s.rules, rule.replacement ++ rest))

theorem Tame.lighter {s t : State} (h : Tame s t) : Lighter t.redex s.redex := by
  cases h with
  | builtin hf hr => exact State.lighter_after (hr.lighter hf)
  | @user position rule rest _ hd hg =>
    apply State.lighter_after
    rw [hd]
    apply lighter_of_length_lt
    unfold Rule.Grows at hg
    simp only [List.length_append]
    omega

theorem wellFounded_tame : WellFounded fun t s => Tame s t :=
  Subrelation.wf Tame.lighter (InvImage.wf State.redex wellFounded_lighter)

theorem not_forall_tame (states : Nat → State) : ∃ n, ¬ Tame (states n) (states (n + 1)) := by
  by_contra hn
  have hc := wellFounded_iff_isEmpty_descending_chain.mp wellFounded_tame
  exact hc.false ⟨states, not_exists_not.mp hn⟩

/-- A step that fires a rule, the newest one whose pattern stands at the position. -/
inductive Fires (s : State) (rule : Rule) : State → Prop
  | intro {position : Nat} {newer older : List Rule} {rest : List Atom} :
      Acts s position .user (.ok (s.rules, rule.replacement ++ rest)) →
      s.redex.drop position = rule.pattern ++ rest →
      s.rules = newer ++ rule :: older → (∀ r ∈ newer, ¬ r.pattern <+: rule.pattern ++ rest) →
      Fires s rule (s.after position (s.rules, rule.replacement ++ rest))

theorem Fires.mem_rules {s t : State} {rule : Rule} (h : Fires s rule t) : rule ∈ s.rules := by
  cases h with
  | intro _ _ hr => simp [hr]

theorem Step.tame_or_fires {s t : State} (h : Step s t) :
    Tame s t ∨ ∃ rule : Rule, rule.Grows ∧ Fires s rule t := by
  obtain ⟨ha⟩ := h
  rename_i position form left
  by_cases hf : form = .user
  · subst hf
    have hr := ha.first.1
    generalize hd : s.redex.drop position = x at hr
    cases hr with
    | @user newer older rule rest hrules hn =>
      by_cases hg : rule.Grows
      · exact .inr ⟨rule, hg, .intro ha hd hrules hn⟩
      · exact .inl (.user (by simp [hrules]) hd hg)
  · exact .inl (.builtin hf ha.first.1)

/-- From no point on does a run that goes on forever do without the rules that grow. -/
theorem exists_fires {states : Nat → State} (h : ∀ n, Step (states n) (states (n + 1))) (N : Nat) :
    ∃ n ≥ N, ∃ rule : Rule, rule.Grows ∧ Fires (states n) rule (states (n + 1)) := by
  obtain ⟨n, hn⟩ := not_forall_tame fun n => states (N + n)
  refine ⟨N + n, by omega, ?_⟩
  exact (h (N + n)).tame_or_fires.resolve_left hn

/-- There are no rules, and none can be defined. -/
structure State.Fixed (s : State) : Prop where
  rules : s.rules = []
  redex : define ∉ s.redex

theorem Rewrites.fixed {position : Nat} {form : Form} {rest : List Atom}
    {left : List Rule × List Atom} (h : Rewrites [] position form rest (.ok left))
    (hd : define ∉ rest) : left.1 = [] ∧ define ∉ left.2 := by
  have htext (n : Int) : define ≠ Text.Numeral.text n := (Text.Numeral.text_ne rfl n).symm
  cases h with
  | definition => simp at hd
  | arithmetic => simp_all [ofInt64]
  | sign => simp_all
  | pop => simp_all
  | dup => simp_all
  | push => simp_all
  | user hr => simp at hr

theorem Step.fixed {s t : State} (h : Step s t) (hs : s.Fixed) : t.Fixed := by
  obtain ⟨ha⟩ := h
  rename_i position form left
  have hr := ha.first.1
  rw [hs.rules] at hr
  obtain ⟨hl, hd⟩ := hr.fixed fun hm => hs.redex (List.mem_of_mem_drop hm)
  refine ⟨hl, ?_⟩
  intro hm
  rcases List.mem_append.mp hm with hm | hm
  · exact hs.redex (List.mem_of_mem_take hm)
  · exact hd hm

theorem exists_yields_of_fixed {atoms : List Atom} (h : define ∉ atoms) :
    ∃ result, Yields atoms result := by
  by_contra hn
  have hnone : ∀ fuel, run fuel (.initial atoms) = none := by
    intro fuel
    refine Option.eq_none_iff_forall_ne_some.mpr ?_
    intro result hr
    exact hn ⟨result, fuel, hr⟩
  obtain ⟨states, h0, hs⟩ := forall_run_eq_none_iff.mp hnone
  have hfixed : ∀ n, (states n).Fixed := by
    intro n
    induction n with
    | zero => exact h0 ▸ ⟨rfl, h⟩
    | succ n ih => exact (hs n).fixed ih
  obtain ⟨n, -, rule, -, hf⟩ := exists_fires hs 0
  have hm := hf.mem_rules
  rw [(hfixed n).rules] at hm
  cases hm

/--
Reduction goes on forever only if rules that grow are fired again and again: there is no infinite
sequence of other rewrites, in whatever order and place. Without definitions it comes to an end.
-/
theorem only_growing_rules_loop (atoms : List Atom) :
    (∀ states : Nat → State, states 0 = .initial atoms →
      (∀ n, Step (states n) (states (n + 1))) →
      ∀ N, ∃ n ≥ N, ∃ rule : Rule, rule.Grows ∧ Fires (states n) rule (states (n + 1))) ∧
    (¬ ∃ states : Nat → State, ∀ n, Tame (states n) (states (n + 1))) ∧
    (define ∉ atoms → ∃ result, Yields atoms result) := by
  refine ⟨?_, ?_, exists_yields_of_fixed⟩
  · intro states _ hs N
    exact exists_fires hs N
  · rintro ⟨states, hs⟩
    obtain ⟨n, hn⟩ := not_forall_tame states
    exact hn (hs n)

/-- The states of a run that forever replaces an atom by itself. -/
def idling : Nat → State
  | 0 => .initial ["$", ":", "a", "->", "a", ";", "a"]
  | _ + 1 => ⟨[⟨["a"], ["a"]⟩], ["$", "a"]⟩

theorem step_idling (n : Nat) : Step (idling n) (idling (n + 1)) := by
  cases n with
  | zero => exact step_iff.mpr ⟨⟨["$", ":", "...", ";"], ["$"], ["$", "a"]⟩, rfl⟩
  | succ n => exact step_iff.mpr ⟨⟨["a"], ["a"], ["$", "a"]⟩, rfl⟩

theorem only_growing_rules_loop_idling :
    (∀ n, Step (idling n) (idling (n + 1))) ∧
    (∀ N, ∃ n ≥ N, ∃ rule : Rule, rule.Grows ∧ Fires (idling n) rule (idling (n + 1))) ∧
    define ∉ ["$", "$", "dup"] ∧ ∃ result, Yields ["$", "$", "dup"] result := by
  obtain ⟨hloop, -, -⟩ := only_growing_rules_loop ["$", ":", "a", "->", "a", ";", "a"]
  obtain ⟨-, -, hend⟩ := only_growing_rules_loop ["$", "$", "dup"]
  exact ⟨step_idling, hloop idling rfl step_idling, by decide, hend (by decide)⟩

end Wanda.Reduction

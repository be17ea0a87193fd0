import Wanda.Proofs.Reduction.Leftmost

/-!
Results of reduction contain nothing that a form acts on, neither a built-in form nor a rule that
the run defined, and so reduce to themselves.
-/
namespace Wanda.Reduction
open Atom

/-- Nothing in a row of atoms is what a form acts on, with these rules. -/
structure Irreducible (rules : List Rule) (atoms : List Atom) : Prop where
  definition : ¬ [cursor, define] <:+: atoms
  arithmetic : ∀ x y op, (integer? x).isSome → (integer? y).isSome → op ∈ ["+", "*", "-"] →
    ¬ [x, y, cursor, op] <:+: atoms
  sign : ∀ n, (integer? n).isSome → ¬ [n, cursor, "sgn"] <:+: atoms
  pop : ∀ x, ¬ [x, cursor, "pop"] <:+: atoms
  dup : ∀ x, ¬ [x, cursor, "dup"] <:+: atoms
  push : ∀ n, (integer? n).isSome → ¬ [cursor, n] <:+: atoms
  user : ∀ rule ∈ rules, ¬ rule.pattern <:+: atoms

/-- Every rule acts on something. -/
def Effective (rules : List Rule) : Prop :=
  ∀ rule ∈ rules, rule.pattern ≠ []

theorem exists_rewrites_definition (rules : List Rule) (position : Nat) (rest : List Atom) :
    ∃ out, Rewrites rules position .definition (cursor :: define :: rest) out := by
  have hb : Body rest _ _ := body_iff.mpr ⟨rfl, rfl⟩
  by_cases hp : (Rule.ofBody (rest.takeWhile (· ≠ close))).pattern = []
  · exact ⟨_, .emptyPattern hb (writes_iff.mpr rfl) hp⟩
  · exact ⟨_, .definition hb (writes_iff.mpr rfl) hp⟩

theorem exists_rewrites_arithmetic (rules : List Rule) (position : Nat) (rest : List Atom)
    {x y op : Atom} (hx : (integer? x).isSome) (hy : (integer? y).isSome)
    (hop : op ∈ ["+", "*", "-"]) :
    ∃ out, Rewrites rules position .arithmetic (x :: y :: cursor :: op :: rest) out := by
  obtain ⟨a, ha⟩ := Option.isSome_iff_exists.mp hx
  obtain ⟨b, hb⟩ := Option.isSome_iff_exists.mp hy
  obtain ⟨f, hf⟩ : ∃ f, Operation op f := by
    simp only [List.mem_cons, List.not_mem_nil, or_false] at hop
    rcases hop with rfl | rfl | rfl
    · exact ⟨_, .add⟩
    · exact ⟨_, .mul⟩
    · exact ⟨_, .sub⟩
  by_cases hn : ∃ n : Int64, n.toInt = f a.toInt b.toInt
  · obtain ⟨n, hn⟩ := hn
    exact ⟨_, .arithmetic ha hb hf hn⟩
  · exact ⟨_, .overflow ha hb hf (not_exists.mp hn)⟩

theorem exists_rewrites_user {rules : List Rule} {rule : Rule} (hr : rule ∈ rules)
    (position : Nat) (rest : List Atom) :
    ∃ out, Rewrites rules position .user (rule.pattern ++ rest) out := by
  have hu : (told rules (rule.pattern ++ rest)
      ((userRule? rules (rule.pattern ++ rest)).map .ok)).isSome := by
    simp only [told, userRule?, Option.isSome_map, List.find?_isSome]
    exact ⟨rule, hr, by simp⟩
  obtain ⟨out, ho⟩ := Option.isSome_iff_exists.mp hu
  exact ⟨out, (rewrites_user_iff rules position _ out).mpr ho⟩

theorem Normal.not_infix {s : State} (h : Normal s) {w : List Atom} (hw : w ≠ [])
    (hr : ∀ position rest, ∃ form out, Rewrites s.rules position form (w ++ rest) out) :
    ¬ w <:+: s.redex := by
  intro hw'
  obtain ⟨u, v, he⟩ := hw'
  obtain ⟨form, out, ho⟩ := hr u.length v
  have hi : u.length < s.redex.length := by
    have := List.length_pos_iff.mpr hw
    rw [← he]
    simp only [List.length_append]
    omega
  have hd : s.redex.drop u.length = w ++ v := by
    rw [← he, List.append_assoc, List.drop_left]
  exact h u.length hi form out (hd ▸ ho)

theorem Normal.irreducible {s : State} (h : Normal s) (he : Effective s.rules) :
    Irreducible s.rules s.redex where
  definition := by
    apply h.not_infix (by simp)
    intro position rest
    exact ⟨_, exists_rewrites_definition s.rules position rest⟩
  arithmetic := by
    intro x y op hx hy hop
    apply h.not_infix (by simp)
    intro position rest
    exact ⟨_, exists_rewrites_arithmetic s.rules position rest hx hy hop⟩
  sign := by
    intro n hn
    obtain ⟨a, ha⟩ := Option.isSome_iff_exists.mp hn
    apply h.not_infix (by simp)
    intro position rest
    exact ⟨_, _, .sign ha⟩
  pop := by
    intro x
    apply h.not_infix (by simp)
    intro position rest
    exact ⟨_, _, .pop⟩
  dup := by
    intro x
    apply h.not_infix (by simp)
    intro position rest
    exact ⟨_, _, .dup⟩
  push := by
    intro n hn
    obtain ⟨a, ha⟩ := Option.isSome_iff_exists.mp hn
    apply h.not_infix (by simp)
    intro position rest
    exact ⟨_, _, .push ha⟩
  user := by
    intro rule hr
    apply h.not_infix (he rule hr)
    intro position rest
    exact ⟨_, exists_rewrites_user hr position rest⟩

theorem Irreducible.normal {s : State} (h : Irreducible s.rules s.redex) : Normal s := by
  intro i hi form out hr
  have hd : s.redex.drop i <:+: s.redex := (List.drop_suffix i s.redex).isInfix
  have hw {w rest : List Atom} (he : w ++ rest = s.redex.drop i) : w <:+: s.redex :=
    (List.prefix_append w rest).isInfix.trans (he ▸ hd)
  generalize hx : s.redex.drop i = x at hr hw
  cases hr with
  | definition => exact h.definition (hw rfl)
  | emptyPattern => exact h.definition (hw rfl)
  | arithmetic ha hb hf =>
    refine h.arithmetic _ _ _ (by simp [ha]) (by simp [hb]) ?_ (hw rfl)
    cases hf <;> simp
  | overflow ha hb hf =>
    refine h.arithmetic _ _ _ (by simp [ha]) (by simp [hb]) ?_ (hw rfl)
    cases hf <;> simp
  | sign ha => exact h.sign _ (by simp [ha]) (hw rfl)
  | pop => exact h.pop _ (hw rfl)
  | dup => exact h.dup _ (hw rfl)
  | push ha => exact h.push _ (by simp [ha]) (hw rfl)
  | user hrules => exact h.user _ (by simp [hrules]) (hw rfl)

theorem Rewrites.rules_eq {rules : List Rule} {position : Nat} {form : Form} {rest : List Atom}
    {left : List Rule × List Atom} (h : Rewrites rules position form rest (.ok left)) :
    left.1 = rules ∨ ∃ rule, rule.pattern ≠ [] ∧ left.1 = rule :: rules := by
  cases h with
  | definition _ _ hp => exact .inr ⟨_, hp, rfl⟩
  | _ => exact .inl rfl

theorem Step.rules_eq {s t : State} (h : Step s t) :
    t.rules = s.rules ∨ ∃ rule, rule.pattern ≠ [] ∧ t.rules = rule :: s.rules := by
  obtain ⟨ha⟩ := h
  exact ha.first.1.rules_eq

theorem Step.rules_suffix {s t : State} (h : Step s t) : s.rules <:+ t.rules := by
  rcases h.rules_eq with he | ⟨rule, -, he⟩
  · exact he ▸ List.suffix_rfl
  · rw [he]
    exact List.suffix_cons rule s.rules

theorem Step.effective {s t : State} (h : Step s t) (hs : Effective s.rules) :
    Effective t.rules := by
  intro rule hr
  rcases h.rules_eq with he | ⟨new, hn, he⟩
  · exact hs rule (he ▸ hr)
  · rw [he] at hr
    rcases List.mem_cons.mp hr with rfl | hr
    · exact hn
    · exact hs rule hr

theorem steps_rules_suffix {s t : State} (h : Relation.ReflTransGen Step s t) :
    s.rules <:+ t.rules := by
  induction h with
  | refl => exact List.suffix_rfl
  | tail _ ht ih => exact ih.trans ht.rules_suffix

theorem steps_effective {atoms : List Atom} {s : State}
    (h : Relation.ReflTransGen Step (.initial atoms) s) : Effective s.rules := by
  induction h with
  | refl =>
    intro rule hr
    cases hr
  | tail _ ht ih => exact ht.effective ih

theorem step_rightUnique : Relator.RightUnique Step := by
  intro s t u ht hu
  obtain ⟨c, hc⟩ := step_iff.mp ht
  obtain ⟨d, hd⟩ := step_iff.mp hu
  rw [hc] at hd
  cases hd
  rfl

theorem Normal.not_step {s t : State} (h : Normal s) : ¬ Step s t := by
  intro hs
  obtain ⟨c, hc⟩ := step_iff.mp hs
  rw [step?_of_normal h] at hc
  cases hc

/-- All states of a run lead to the normal form it ends in. -/
theorem steps_to_normal {s t u : State} (ht : Relation.ReflTransGen Step s t)
    (hu : Relation.ReflTransGen Step s u) (hn : Normal u) : Relation.ReflTransGen Step t u := by
  rcases ht.total_of_right_unique step_rightUnique hu with h | h
  · exact h
  · rcases h.cases_head with rfl | ⟨v, hv, -⟩
    · exact .refl
    · exact absurd hv hn.not_step

theorem yields_of_irreducible {atoms : List Atom} (h : Irreducible [] atoms) :
    Yields atoms (.ok atoms) :=
  ⟨1, run_of_normal (s := State.initial atoms) h.normal 0⟩

/-- Results reduce to themselves. -/
theorem Yields.self {atoms r : List Atom} (h : Yields atoms (.ok r)) : Yields r (.ok r) := by
  obtain ⟨fuel, hf⟩ := h
  obtain ⟨rules, hs, hn⟩ := run_eq_ok hf
  have hi : Irreducible rules r := hn.irreducible (steps_effective hs)
  exact yields_of_irreducible { hi with user := by simp }

/--
A result is a normal form under the rules at the end of the run, which are all the rules that the
run defined, and without these rules it reduces to itself.
-/
theorem result_irreducible {atoms r : List Atom} (h : Yields atoms (.ok r)) :
    ∃ rules, Relation.ReflTransGen Step (.initial atoms) ⟨rules, r⟩ ∧
      (∀ s, Relation.ReflTransGen Step (.initial atoms) s → s.rules <:+ rules) ∧
      (∀ i < r.length, matchAt rules i (r.drop i) = none) ∧
      Irreducible rules r ∧
      Yields r (.ok r) := by
  obtain ⟨fuel, hf⟩ := h
  obtain ⟨rules, hs, hn⟩ := run_eq_ok hf
  have hi : Irreducible rules r := hn.irreducible (steps_effective hs)
  refine ⟨rules, hs, ?_, ?_, hi, ?_⟩
  · intro s hr
    exact steps_rules_suffix (steps_to_normal hr hs hn)
  · intro i hl
    exact matchAt_eq_none_iff.mpr (hn i hl)
  · have h0 : Irreducible [] r := { hi with user := by simp }
    exact yields_of_irreducible h0

theorem result_irreducible_square :
    Yields ["$", ":", "$", "sq", "->", "$", "dup", "*", ";", "7", "sq"] (.ok ["49", "$"]) ∧
      ∃ rules, Irreducible rules ["49", "$"] ∧ Yields ["49", "$"] (.ok ["49", "$"]) := by
  have h : Yields ["$", ":", "$", "sq", "->", "$", "dup", "*", ";", "7", "sq"]
      (.ok ["49", "$"]) := ⟨6, by cbv⟩
  obtain ⟨rules, -, -, -, hi, hy⟩ := result_irreducible h
  exact ⟨h, rules, hi, hy⟩

end Wanda.Reduction

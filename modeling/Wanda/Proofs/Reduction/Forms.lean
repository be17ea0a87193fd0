import Wanda.Reduction.Run
import Mathlib

/-!
What each form of reduction does at a position, as a relation that says nothing of how the form is
looked for. `matchAt` finds the first form that applies, and finds none only if none applies.
-/
namespace Wanda.Reduction
open Atom

/-- The forms, in the order of their precedence. -/
inductive Form where
  | definition | arithmetic | sign | pop | dup | push | user
  deriving DecidableEq, Repr

def Form.rank : Form → Nat
  | definition => 0
  | arithmetic => 1
  | sign => 2
  | pop => 3
  | dup => 4
  | push => 5
  | user => 6

/-- The body of a definition, and the atoms after it. Without a `;` the body runs to the end. -/
inductive Body : List Atom → List Atom → List Atom → Prop
  | closed {body tail : List Atom} : close ∉ body → Body (body ++ close :: tail) body tail
  | unclosed {body : List Atom} : close ∉ body → Body body body []

/-- The rule that a body writes. Arrows after the first count for nothing. -/
inductive Writes : List Atom → Rule → Prop
  | pattern {pattern : List Atom} : arrow ∉ pattern → Writes pattern ⟨pattern, []⟩
  | both {pattern rest : List Atom} : arrow ∉ pattern →
      Writes (pattern ++ arrow :: rest) ⟨pattern, rest.filter (· ≠ arrow)⟩

inductive Operation : Atom → (Int → Int → Int) → Prop
  | add : Operation "+" (· + ·)
  | mul : Operation "*" (· * ·)
  | sub : Operation "-" (· - ·)

/--
A form applies to the atoms from a position to the end. It leaves the rules and atoms there are
then, or it is at fault.
-/
inductive Rewrites (rules : List Rule) (position : Nat) :
    Form → List Atom → Except Fault (List Rule × List Atom) → Prop
  | definition {rest body tail : List Atom} {rule : Rule} :
      Body rest body tail → Writes body rule → rule.pattern ≠ [] →
      Rewrites rules position .definition (cursor :: define :: rest)
        (.ok (rule :: rules, cursor :: tail))
  | emptyPattern {rest body tail : List Atom} {rule : Rule} :
      Body rest body tail → Writes body rule → rule.pattern = [] →
      Rewrites rules position .definition (cursor :: define :: rest)
        (.error (.emptyPattern position))
  | arithmetic {x y op : Atom} {rest : List Atom} {a b n : Int64} {f : Int → Int → Int} :
      integer? x = some a → integer? y = some b → Operation op f →
      n.toInt = f a.toInt b.toInt →
      Rewrites rules position .arithmetic (x :: y :: cursor :: op :: rest)
        (.ok (rules, ofInt64 n :: cursor :: rest))
  | overflow {x y op : Atom} {rest : List Atom} {a b : Int64} {f : Int → Int → Int} :
      integer? x = some a → integer? y = some b → Operation op f →
      (∀ n : Int64, n.toInt ≠ f a.toInt b.toInt) →
      Rewrites rules position .arithmetic (x :: y :: cursor :: op :: rest)
        (.error (.overflow [x, y, cursor, op]))
  | sign {x : Atom} {rest : List Atom} {a : Int64} :
      integer? x = some a →
      Rewrites rules position .sign (x :: cursor :: "sgn" :: rest)
        (.ok (rules, Text.Numeral.text a.toInt.sign :: cursor :: rest))
  | pop {x : Atom} {rest : List Atom} :
      Rewrites rules position .pop (x :: cursor :: "pop" :: rest) (.ok (rules, cursor :: rest))
  | dup {x : Atom} {rest : List Atom} :
      Rewrites rules position .dup (x :: cursor :: "dup" :: rest)
        (.ok (rules, x :: x :: cursor :: rest))
  | push {n : Atom} {rest : List Atom} {a : Int64} :
      integer? n = some a →
      Rewrites rules position .push (cursor :: n :: rest) (.ok (rules, n :: cursor :: rest))
  | user {newer older : List Rule} {rule : Rule} {rest : List Atom} :
      rules = newer ++ rule :: older →
      (∀ r ∈ newer, ¬ r.pattern <+: rule.pattern ++ rest) →
      Rewrites rules position .user (rule.pattern ++ rest) (.ok (rules, rule.replacement ++ rest))

/-- The rules and atoms there are after a match that was found before `rest`. -/
def Match.outcome (rules : List Rule) (rest : List Atom) (m : Match) : List Rule × List Atom :=
  (m.rule.toList ++ rules, m.replacement ++ rest.drop m.width)

/-- Cutting at the first occurrence of an atom. -/
private theorem cut_at {a : Atom} {xs : List Atom} (h : a ∉ xs) (ys : List Atom) :
    (xs ++ a :: ys).takeWhile (· ≠ a) = xs ∧ (xs ++ a :: ys).dropWhile (· ≠ a) = a :: ys := by
  have hx : ∀ b ∈ xs, decide (b ≠ a) = true := by
    intro b hb
    simpa using ne_of_mem_of_not_mem hb h
  rw [List.takeWhile_append_of_pos hx, List.dropWhile_append_of_pos hx]
  simp

private theorem cut_nowhere {a : Atom} {xs : List Atom} (h : a ∉ xs) :
    xs.takeWhile (· ≠ a) = xs ∧ xs.dropWhile (· ≠ a) = [] := by
  have hx : ∀ b ∈ xs, decide (b ≠ a) = true := by
    intro b hb
    simpa using ne_of_mem_of_not_mem hb h
  exact ⟨List.takeWhile_eq_self_iff.mpr hx, List.dropWhile_eq_nil_iff.mpr hx⟩

theorem body_iff {rest body tail : List Atom} :
    Body rest body tail ↔
      body = rest.takeWhile (· ≠ close) ∧ tail = (rest.dropWhile (· ≠ close)).drop 1 := by
  constructor
  · intro h
    cases h with
    | closed h =>
      obtain ⟨ht, hd⟩ := cut_at h tail
      rw [ht, hd]
      exact ⟨rfl, rfl⟩
    | unclosed h =>
      obtain ⟨ht, hd⟩ := cut_nowhere h
      rw [ht, hd]
      exact ⟨rfl, rfl⟩
  · intro h
    obtain ⟨rfl, rfl⟩ := h
    by_cases hc : close ∈ rest
    · obtain ⟨body, tail, rfl, hb⟩ := List.eq_append_cons_of_mem hc
      obtain ⟨ht, hd⟩ := cut_at hb tail
      rw [ht, hd]
      exact .closed hb
    · obtain ⟨ht, hd⟩ := cut_nowhere hc
      rw [ht, hd]
      exact .unclosed hc

theorem writes_iff {body : List Atom} {rule : Rule} :
    Writes body rule ↔ rule = Rule.ofBody body := by
  constructor
  · intro h
    cases h with
    | pattern h =>
      obtain ⟨ht, hd⟩ := cut_nowhere h
      rw [Rule.ofBody, ht, hd]
      rfl
    | @both pattern rest h =>
      obtain ⟨ht, hd⟩ := cut_at h rest
      rw [Rule.ofBody, ht, hd]
      simp
  · intro h
    subst h
    by_cases ha : arrow ∈ body
    · obtain ⟨pattern, rest, rfl, hp⟩ := List.eq_append_cons_of_mem ha
      obtain ⟨ht, hd⟩ := cut_at hp rest
      have hw := @Writes.both pattern rest hp
      rw [Rule.ofBody, ht, hd]
      simpa using hw
    · obtain ⟨ht, hd⟩ := cut_nowhere ha
      rw [Rule.ofBody, ht, hd]
      exact .pattern ha

theorem operation_iff {op : Atom} {f : Int → Int → Int} :
    Operation op f ↔ operation? op = some f := by
  constructor
  · intro h
    cases h <;> simp [operation?]
  · intro h
    unfold operation? at h
    split_ifs at h with ha hm hs
    · cases h; exact ha ▸ .add
    · cases h; exact hm ▸ .mul
    · cases h; exact hs ▸ .sub

/-- What a form's function finds, told as rules and atoms. -/
abbrev told (rules : List Rule) (rest : List Atom) (found : Option (Except Fault Match)) :
    Option (Except Fault (List Rule × List Atom)) :=
  found.map (·.map (Match.outcome rules rest))

theorem drop_body {rest body tail : List Atom} (hb : Body rest body tail) :
    (cursor :: define :: rest).drop (min (body.length + 3) (rest.length + 2)) = tail := by
  cases hb with
  | closed h =>
    rw [Nat.min_eq_left (by simp)]
    simp
  | unclosed h =>
    rw [Nat.min_eq_right (by omega)]
    simp

private theorem definition?_of_body {rest body tail : List Atom} (hb : Body rest body tail)
    (rules : List Rule) (position : Nat) :
    told rules (cursor :: define :: rest) (definition? position (cursor :: define :: rest)) =
      some (if (Rule.ofBody body).pattern = [] then .error (.emptyPattern position)
        else .ok (Rule.ofBody body :: rules, cursor :: tail)) := by
  have hd := drop_body hb
  obtain ⟨hbody, -⟩ := body_iff.mp hb
  simp only [definition?, and_self, if_true, ← hbody]
  split_ifs with hp
  · rfl
  · rw [← hd]
    rfl

theorem rewrites_definition_iff (rules : List Rule) (position : Nat) (rest : List Atom)
    (out : Except Fault (List Rule × List Atom)) :
    Rewrites rules position .definition rest out ↔
      told rules rest (definition? position rest) = some out := by
  constructor
  · intro h
    cases h with
    | definition hb hw hp =>
      obtain rfl := writes_iff.mp hw
      rw [definition?_of_body hb, if_neg hp]
    | emptyPattern hb hw hp =>
      obtain rfl := writes_iff.mp hw
      rw [definition?_of_body hb, if_pos hp]
  · intro h
    match rest with
    | [] | [_] => simp [definition?] at h
    | c :: d :: rest =>
      by_cases hcd : c = cursor ∧ d = define
      · obtain ⟨rfl, rfl⟩ := hcd
        have hb : Body rest _ _ := body_iff.mpr ⟨rfl, rfl⟩
        rw [definition?_of_body hb, Option.some.injEq] at h
        subst h
        split_ifs with hp
        · exact .emptyPattern hb (writes_iff.mpr rfl) hp
        · exact .definition hb (writes_iff.mpr rfl) hp
      · simp [definition?, hcd] at h

theorem rewrites_arithmetic_iff (rules : List Rule) (position : Nat) (rest : List Atom)
    (out : Except Fault (List Rule × List Atom)) :
    Rewrites rules position .arithmetic rest out ↔
      told rules rest (arithmetic? rest) = some out := by
  constructor
  · intro h
    cases h with
    | arithmetic hx hy hf hn =>
      have hw := Text.Numeral.word?_eq_some_iff.mpr hn
      simp [arithmetic?, hx, hy, operation_iff.mp hf, hw, Match.outcome, Match.swap, Except.map]
    | @overflow x y op rest a b f hx hy hf hn =>
      have hw : Text.Numeral.word? (f a.toInt b.toInt) = none := by
        refine Option.eq_none_iff_forall_ne_some.mpr ?_
        intro n h
        exact hn n (Text.Numeral.word?_eq_some_iff.mp h)
      simp [arithmetic?, hx, hy, operation_iff.mp hf, hw, Except.map]
  · intro h
    match rest with
    | [] | [_] | [_, _] | [_, _, _] => simp [arithmetic?] at h
    | x :: y :: c :: op :: rest =>
      by_cases hc : c = cursor
      · subst hc
        cases hx : integer? x with
        | none => simp [arithmetic?, hx] at h
        | some a =>
          cases hy : integer? y with
          | none => simp [arithmetic?, hx, hy] at h
          | some b =>
            cases hf : operation? op with
            | none => simp [arithmetic?, hx, hy, hf] at h
            | some f =>
              cases hw : Text.Numeral.word? (f a.toInt b.toInt) with
              | none =>
                obtain rfl : .error (.overflow [x, y, cursor, op]) = out := by
                  simpa [arithmetic?, hx, hy, hf, hw, Except.map] using h
                refine .overflow hx hy (operation_iff.mpr hf) ?_
                intro n hn
                rw [Text.Numeral.word?_eq_some_iff.mpr hn] at hw
                cases hw
              | some n =>
                obtain rfl : .ok (rules, ofInt64 n :: cursor :: rest) = out := by
                  simpa [arithmetic?, hx, hy, hf, hw, Match.outcome, Match.swap, Except.map] using h
                exact .arithmetic hx hy (operation_iff.mpr hf)
                  (Text.Numeral.word?_eq_some_iff.mp hw)
      · simp [arithmetic?, hc] at h

theorem rewrites_sign_iff (rules : List Rule) (position : Nat) (rest : List Atom)
    (out : Except Fault (List Rule × List Atom)) :
    Rewrites rules position .sign rest out ↔
      told rules rest ((sign? rest).map .ok) = some out := by
  constructor
  · intro h
    cases h with
    | sign hx => simp [sign?, hx, Match.outcome, Match.swap, Except.map]
  · intro h
    match rest with
    | [] | [_] | [_, _] => simp [sign?] at h
    | x :: c :: op :: rest =>
      by_cases hc : c = cursor ∧ op = "sgn"
      · obtain ⟨rfl, rfl⟩ := hc
        cases hx : integer? x with
        | none => simp [sign?, hx] at h
        | some a =>
          obtain rfl : .ok (rules, Text.Numeral.text a.toInt.sign :: cursor :: rest) = out := by
            simpa [sign?, hx, Match.outcome, Match.swap, Except.map] using h
          exact .sign hx
      · simp [sign?, hc] at h

theorem rewrites_stackWord_iff (rules : List Rule) (position : Nat) (rest : List Atom)
    (out : Except Fault (List Rule × List Atom)) :
    Rewrites rules position .pop rest out ∨ Rewrites rules position .dup rest out ↔
      told rules rest ((stackWord? rest).map .ok) = some out := by
  constructor
  · intro h
    rcases h with h | h
    · cases h
      simp [stackWord?, Match.outcome, Match.swap, Except.map]
    · cases h
      simp [stackWord?, Match.outcome, Match.swap, Except.map]
  · intro h
    match rest with
    | [] | [_] | [_, _] => simp [stackWord?] at h
    | x :: c :: op :: rest =>
      simp only [stackWord?] at h
      split_ifs at h with hc hp hd
      · subst hc hp
        cases h
        exact .inl .pop
      · subst hc hd
        cases h
        exact .inr .dup
      · cases h
      · cases h

theorem rewrites_push_iff (rules : List Rule) (position : Nat) (rest : List Atom)
    (out : Except Fault (List Rule × List Atom)) :
    Rewrites rules position .push rest out ↔
      told rules rest ((push? rest).map .ok) = some out := by
  constructor
  · intro h
    cases h with
    | push hn => simp [push?, hn, Match.outcome, Match.swap, Except.map]
  · intro h
    match rest with
    | [] | [_] => simp [push?] at h
    | c :: n :: rest =>
      simp only [push?] at h
      split_ifs at h with hc
      · obtain ⟨rfl, hn⟩ := hc
        obtain ⟨a, ha⟩ := Option.isSome_iff_exists.mp hn
        cases h
        exact .push ha
      · cases h

theorem rewrites_user_iff (rules : List Rule) (position : Nat) (rest : List Atom)
    (out : Except Fault (List Rule × List Atom)) :
    Rewrites rules position .user rest out ↔
      told rules rest ((userRule? rules rest).map .ok) = some out := by
  constructor
  · intro h
    cases h with
    | @user newer older rule rest hr hn =>
      have hf : rules.find? (·.pattern.isPrefixOf (rule.pattern ++ rest)) = some rule := by
        refine List.find?_eq_some_iff_append.mpr ⟨by simp, newer, older, hr, ?_⟩
        intro r h
        simpa [← List.isPrefixOf_iff_prefix] using hn r h
      simp [userRule?, hf, Match.outcome, Match.swap, Except.map]
  · intro h
    cases hf : rules.find? (·.pattern.isPrefixOf rest) with
    | none => simp [userRule?, hf] at h
    | some rule =>
      obtain ⟨hp, newer, older, hr, hn⟩ := List.find?_eq_some_iff_append.mp hf
      obtain ⟨tail, rfl⟩ := List.isPrefixOf_iff_prefix.mp hp
      obtain rfl : .ok (rules, rule.replacement ++ tail) = out := by
        simpa [userRule?, hf, Match.outcome, Match.swap, Except.map] using h
      refine .user hr ?_
      intro r hm
      simpa [← List.isPrefixOf_iff_prefix] using hn r hm

/-- A form applies at a position and none of higher precedence does. -/
def First (rules : List Rule) (position : Nat) (rest : List Atom) (form : Form)
    (out : Except Fault (List Rule × List Atom)) : Prop :=
  Rewrites rules position form rest out ∧
    ∀ g : Form, g.rank < form.rank → ∀ o, ¬ Rewrites rules position g rest o

private theorem told_matchAt (rules : List Rule) (position : Nat) (rest : List Atom) :
    told rules rest (matchAt rules position rest) =
      (told rules rest (definition? position rest)).or
        ((told rules rest (arithmetic? rest)).or
          ((told rules rest ((sign? rest).map .ok)).or
            ((told rules rest ((stackWord? rest).map .ok)).or
              ((told rules rest ((push? rest).map .ok)).or
                (told rules rest ((userRule? rules rest).map .ok)))))) := by
  simp [told, matchAt, Option.map_or]

private theorem not_pop_of_dup {rules : List Rule} {position : Nat} {rest : List Atom}
    {out : Except Fault (List Rule × List Atom)} (h : Rewrites rules position .dup rest out) :
    ∀ o, ¬ Rewrites rules position .pop rest o := by
  intro o hp
  obtain ⟨x, tail, hr⟩ : ∃ x tail, rest = x :: cursor :: "pop" :: tail := by
    cases hp
    exact ⟨_, _, rfl⟩
  cases h
  simp at hr

private theorem forall_form {p : Form → Prop} :
    (∀ g, p g) ↔ p .definition ∧ p .arithmetic ∧ p .sign ∧ p .pop ∧ p .dup ∧ p .push ∧ p .user := by
  constructor
  · intro h
    exact ⟨h _, h _, h _, h _, h _, h _, h _⟩
  · intro h g
    obtain ⟨h₁, h₂, h₃, h₄, h₅, h₆, h₇⟩ := h
    cases g <;> assumption

private theorem exists_form {p : Form → Prop} :
    (∃ g, p g) ↔ p .definition ∨ p .arithmetic ∨ p .sign ∨ p .pop ∨ p .dup ∨ p .push ∨ p .user := by
  rw [← not_iff_not, not_exists, forall_form]
  simp only [not_or]

theorem told_matchAt_eq_some_iff {rules : List Rule} {position : Nat} {rest : List Atom}
    {out : Except Fault (List Rule × List Atom)} :
    told rules rest (matchAt rules position rest) = some out ↔
      ∃ form, First rules position rest form out := by
  have hn := @not_pop_of_dup rules position rest out
  simp only [told_matchAt, Option.or_eq_some_iff, Option.eq_none_iff_forall_ne_some, ne_eq,
    ← rewrites_definition_iff rules position, ← rewrites_arithmetic_iff rules position,
    ← rewrites_sign_iff rules position, ← rewrites_stackWord_iff rules position,
    ← rewrites_push_iff rules position, ← rewrites_user_iff rules position, not_or, forall_and]
  simp only [First, exists_form, forall_form, Form.rank, Nat.lt_irrefl, Nat.reduceLT,
    false_imp_iff, true_imp_iff, and_true]
  grind

/-- Where some form applies, one of them has the highest precedence. -/
theorem exists_first {rules : List Rule} {position : Nat} {rest : List Atom} {form : Form}
    {out : Except Fault (List Rule × List Atom)} (h : Rewrites rules position form rest out) :
    ∃ g o, First rules position rest g o := by
  by_cases hg : ∃ g : Form, g.rank < form.rank ∧ ∃ o, Rewrites rules position g rest o
  · obtain ⟨g, hlt, o, ho⟩ := hg
    exact exists_first ho
  · refine ⟨form, out, h, ?_⟩
    intro g hlt o ho
    exact hg ⟨g, hlt, o, ho⟩
termination_by form.rank

theorem matchAt_eq_none_iff {rules : List Rule} {position : Nat} {rest : List Atom} :
    matchAt rules position rest = none ↔
      ∀ form out, ¬ Rewrites rules position form rest out := by
  rw [← Option.map_eq_none_iff, Option.eq_none_iff_forall_ne_some]
  constructor
  · intro hn form out h
    obtain ⟨g, o, hg⟩ := exists_first h
    exact hn o (told_matchAt_eq_some_iff.mpr ⟨g, hg⟩)
  · intro hn out h
    obtain ⟨g, hg⟩ := told_matchAt_eq_some_iff.mp h
    exact hn g out hg.1

end Wanda.Reduction

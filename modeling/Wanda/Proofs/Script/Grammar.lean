import Wanda.Script.Reading
import Mathlib.Data.List.Basic

/-!
The grammar of scripts, as the trees of its derivations. A tree has the tokens it derives and the
expression or statement that they stand for. Only where one statement meets the next does the
grammar leave a choice: a parenthesis after an expression could call it or start a statement. The
trees in which it always calls derive the same token lists, each in one way.
-/
namespace Wanda.Script

mutual

inductive Primary where
  | name (text : String)
  | int (numeral : String) (n : Int64) (h : Text.Numeral.value? numeral.toList = some n.toInt)
  | str (content : String)
  | true
  | false
  | null
  | group (e : Phrase)
  | array (items : List Phrase)
  | emptyHash
  /-- At least one pair; a comma may follow the last. -/
  | hash (key value : Phrase) (others : List (Phrase × Phrase)) (trailing : Bool)

/-- An expression: a primary, and the arguments of one call of it after the other. -/
inductive Phrase where
  | mk (head : Primary) (calls : List (List Phrase))

end

/-- The end of a hash that has pairs. -/
def closeHash (trailing : Bool) : List Token :=
  if trailing then [.mark .comma, .mark .closeBrace] else [.mark .closeBrace]

mutual

def Primary.tokens : Primary → List Token
  | .name s => [.name s]
  | .int s _ _ => [.int s]
  | .str s => [.str s]
  | .true => [.keyword .true]
  | .false => [.keyword .false]
  | .null => [.keyword .null]
  | .group e => .mark .openParen :: (e.tokens ++ [.mark .closeParen])
  | .array es => .mark .openBracket :: (Phrase.itemTokens es ++ [.mark .closeBracket])
  | .emptyHash => [.mark .openBrace, .mark .closeBrace]
  | .hash k v ps trailing =>
    .mark .openBrace :: (k.tokens ++ .mark .colon :: (v.tokens ++ (Phrase.morePairTokens ps ++
      closeHash trailing)))

def Phrase.tokens : Phrase → List Token
  | .mk head calls => head.tokens ++ Phrase.callTokens calls

def Phrase.itemTokens : List Phrase → List Token
  | [] => []
  | e :: es => e.tokens ++ Phrase.moreItemTokens es

def Phrase.moreItemTokens : List Phrase → List Token
  | [] => []
  | e :: es => .mark .comma :: (e.tokens ++ Phrase.moreItemTokens es)

def Phrase.morePairTokens : List (Phrase × Phrase) → List Token
  | [] => []
  | (k, v) :: ps =>
    .mark .comma :: (k.tokens ++ .mark .colon :: (v.tokens ++ Phrase.morePairTokens ps))

def Phrase.callTokens : List (List Phrase) → List Token
  | [] => []
  | args :: rest =>
    .mark .openParen :: (Phrase.itemTokens args ++ .mark .closeParen :: Phrase.callTokens rest)

end

mutual

def Primary.expr : Primary → Expr
  | .name s => .name s
  | .int _ n _ => .int n
  | .str s => .str s
  | .true => .bool Bool.true
  | .false => .bool Bool.false
  | .null => .null
  | .group e => e.expr
  | .array es => .array (Phrase.exprs es)
  | .emptyHash => .hash []
  | .hash k v ps _ => .hash ((k.expr, v.expr) :: Phrase.pairExprs ps)

def Phrase.expr : Phrase → Expr
  | .mk head calls => Phrase.applied head.expr calls

def Phrase.exprs : List Phrase → List Expr
  | [] => []
  | e :: es => e.expr :: Phrase.exprs es

def Phrase.pairExprs : List (Phrase × Phrase) → List (Expr × Expr)
  | [] => []
  | (k, v) :: ps => (k.expr, v.expr) :: Phrase.pairExprs ps

def Phrase.applied (f : Expr) : List (List Phrase) → Expr
  | [] => f
  | args :: rest => Phrase.applied (.call f (Phrase.exprs args)) rest

end

/-- A statement as it is written: a semicolon may close it. -/
structure Clause where
  purpose : Purpose
  value : Phrase
  closed : Bool

def Purpose.tokens : Purpose → List Token
  | .binding name => [.keyword .bind, .name name, .mark .equals]
  | .result => [.keyword .result]
  | .expr => []

def Clause.tokens (c : Clause) : List Token :=
  c.purpose.tokens ++ (c.value.tokens ++ if c.closed then [.mark .semicolon] else [])

def Clause.statement (c : Clause) : Statement :=
  c.purpose.statement c.value.expr

/-- The tokens do not start with a parenthesis that could call what comes before them. -/
def NoCall (ts : List Token) : Prop :=
  ts.head? ≠ some (.mark .openParen)

/-- A statement that no semicolon closes is not followed by one that starts with a parenthesis. -/
def Settled : List Clause → Prop
  | [] => True
  | c :: cs => (c.closed ∨ NoCall (cs.flatMap Clause.tokens)) ∧ Settled cs

/-- The token can be the first of an expression. -/
def Token.opensExpr : Token → Bool
  | .name _ => true
  | .int _ => true
  | .str _ => true
  | .keyword k => k = .true || k = .false || k = .null
  | .mark m => m = .openParen || m = .openBracket || m = .openBrace
  | .illegal _ => false

theorem Primary.exists_tokens_eq (p : Primary) : ∃ t ts, p.tokens = t :: ts ∧ t.opensExpr := by
  cases p <;> simp [tokens, Token.opensExpr]

theorem Phrase.exists_tokens_eq (e : Phrase) : ∃ t ts, e.tokens = t :: ts ∧ t.opensExpr := by
  obtain ⟨head, calls⟩ := e
  obtain ⟨t, ts, ht, ho⟩ := head.exists_tokens_eq
  exact ⟨t, ts ++ callTokens calls, by simp [tokens, ht], ho⟩

theorem Phrase.tokens_append_ne {t : Token} (ht : ¬ t.opensExpr) (e : Phrase) (r s : List Token) :
    e.tokens ++ r ≠ t :: s := by
  obtain ⟨u, us, hu, ho⟩ := e.exists_tokens_eq
  rw [hu]
  intro h
  cases h
  exact ht ho

/-- The mark closes a list of expressions. -/
def Mark.ClosesList (m : Mark) : Prop :=
  m = .closeParen ∨ m = .closeBracket

theorem Mark.ClosesList.not_opensExpr {m : Mark} (h : m.ClosesList) :
    ¬ Token.opensExpr (.mark m) := by
  rcases h with rfl | rfl <;> decide

theorem Mark.ClosesList.ne_comma {m : Mark} (h : m.ClosesList) : m ≠ .comma := by
  rcases h with rfl | rfl <;> decide

theorem Mark.ClosesList.ne_openParen {m : Mark} (h : m.ClosesList) : m ≠ .openParen := by
  rcases h with rfl | rfl <;> decide

theorem noCall_mark {m : Mark} (h : m ≠ .openParen) (ts : List Token) : NoCall (.mark m :: ts) := by
  simpa [NoCall] using h

theorem noCall_moreItemTokens (es : List Phrase) {ts : List Token} (h : NoCall ts) :
    NoCall (Phrase.moreItemTokens es ++ ts) := by
  cases es with
  | nil => exact h
  | cons e es => exact noCall_mark (by decide) _

theorem noCall_morePairTokens (ps : List (Phrase × Phrase)) (trailing : Bool) (ts : List Token) :
    NoCall (Phrase.morePairTokens ps ++ (closeHash trailing ++ ts)) := by
  cases ps with
  | nil => cases trailing <;> exact noCall_mark (by decide) _
  | cons p ps => exact noCall_mark (by decide) _

mutual

theorem Primary.unique : ∀ (p q : Primary) {r s : List Token}, p.tokens ++ r = q.tokens ++ s →
    p = q ∧ r = s
  | .name _, q, _, _, h => by cases q <;> simp_all [Primary.tokens]
  | .int _ n hn, q, _, _, h => by
    cases q
    case int t m hm =>
      simp only [Primary.tokens, List.cons_append, List.nil_append, List.cons.injEq,
        Token.int.injEq] at h
      obtain ⟨rfl, rfl⟩ := h
      rw [hn, Option.some.injEq] at hm
      obtain rfl := Int64.toInt_inj.mp hm
      exact ⟨rfl, rfl⟩
    all_goals simp [Primary.tokens] at h
  | .str _, q, _, _, h => by cases q <;> simp_all [Primary.tokens]
  | .true, q, _, _, h => by cases q <;> simp_all [Primary.tokens]
  | .false, q, _, _, h => by cases q <;> simp_all [Primary.tokens]
  | .null, q, _, _, h => by cases q <;> simp_all [Primary.tokens]
  | .group e, q, _, _, h => by
    cases q
    case group f =>
      simp only [Primary.tokens, List.cons_append, List.append_assoc, List.nil_append,
        List.cons.injEq, true_and] at h
      obtain ⟨he, h⟩ :=
        Phrase.unique e f (noCall_mark (by decide) _) (noCall_mark (by decide) _) h
      exact ⟨by rw [he], (List.cons.inj h).2⟩
    all_goals simp [Primary.tokens] at h
  | .array es, q, _, _, h => by
    cases q
    case array fs =>
      simp only [Primary.tokens, List.cons_append, List.append_assoc, List.nil_append,
        List.cons.injEq, true_and] at h
      obtain ⟨he, h⟩ := Phrase.items_unique (.inr rfl) es fs h
      exact ⟨by rw [he], h⟩
    all_goals simp [Primary.tokens] at h
  | .emptyHash, q, _, _, h => by
    cases q
    case emptyHash => simpa [Primary.tokens] using h
    case hash k v ps trailing =>
      simp only [Primary.tokens, List.cons_append, List.append_assoc, List.nil_append,
        List.cons.injEq, true_and] at h
      exact absurd h.symm (k.tokens_append_ne (by decide) _ _)
    all_goals simp [Primary.tokens] at h
  | .hash k v ps b, q, _, _, h => by
    cases q
    case emptyHash =>
      simp only [Primary.tokens, List.cons_append, List.append_assoc, List.nil_append,
        List.cons.injEq, true_and] at h
      exact absurd h (k.tokens_append_ne (by decide) _ _)
    case hash k' v' qs c =>
      simp only [Primary.tokens, List.cons_append, List.append_assoc, List.cons.injEq,
        true_and] at h
      obtain ⟨hk, h⟩ :=
        Phrase.unique k k' (noCall_mark (by decide) _) (noCall_mark (by decide) _) h
      obtain ⟨hv, h⟩ := Phrase.unique v v' (noCall_morePairTokens ps b _)
        (noCall_morePairTokens qs c _) (List.cons.inj h).2
      obtain ⟨hp, hb, h⟩ := Phrase.morePairs_unique ps qs b c h
      exact ⟨by rw [hk, hv, hp, hb], h⟩
    all_goals simp [Primary.tokens] at h

theorem Phrase.unique : ∀ (e f : Phrase) {r s : List Token}, NoCall r → NoCall s →
    e.tokens ++ r = f.tokens ++ s → e = f ∧ r = s
  | .mk p as, .mk q bs, r, s, hr, hs, h => by
    simp only [Phrase.tokens, List.append_assoc] at h
    obtain ⟨hp, h⟩ := Primary.unique p q h
    obtain ⟨hc, h⟩ := Phrase.calls_unique as bs hr hs h
    exact ⟨by rw [hp, hc], h⟩

theorem Phrase.items_unique {m : Mark} (hm : m.ClosesList) :
    ∀ (es fs : List Phrase) {r s : List Token},
      Phrase.itemTokens es ++ .mark m :: r = Phrase.itemTokens fs ++ .mark m :: s → es = fs ∧ r = s
  | [], [], _, _, h => ⟨rfl, (List.cons.inj h).2⟩
  | [], f :: fs, _, _, h => by
    simp only [Phrase.itemTokens, List.append_assoc, List.nil_append] at h
    exact absurd h.symm (f.tokens_append_ne hm.not_opensExpr _ _)
  | e :: es, [], _, _, h => by
    simp only [Phrase.itemTokens, List.append_assoc, List.nil_append] at h
    exact absurd h (e.tokens_append_ne hm.not_opensExpr _ _)
  | e :: es, f :: fs, _, _, h => by
    simp only [Phrase.itemTokens, List.append_assoc] at h
    obtain ⟨he, h⟩ := Phrase.unique e f (noCall_moreItemTokens es (noCall_mark hm.ne_openParen _))
      (noCall_moreItemTokens fs (noCall_mark hm.ne_openParen _)) h
    obtain ⟨hes, h⟩ := Phrase.moreItems_unique hm es fs h
    exact ⟨by rw [he, hes], h⟩

theorem Phrase.moreItems_unique {m : Mark} (hm : m.ClosesList) :
    ∀ (es fs : List Phrase) {r s : List Token},
      Phrase.moreItemTokens es ++ .mark m :: r = Phrase.moreItemTokens fs ++ .mark m :: s →
        es = fs ∧ r = s
  | [], [], _, _, h => ⟨rfl, (List.cons.inj h).2⟩
  | [], f :: fs, _, _, h => by simp [Phrase.moreItemTokens, hm.ne_comma] at h
  | e :: es, [], _, _, h => by simp [Phrase.moreItemTokens, hm.ne_comma.symm] at h
  | e :: es, f :: fs, _, _, h => by
    simp only [Phrase.moreItemTokens, List.cons_append, List.append_assoc, List.cons.injEq,
      true_and] at h
    obtain ⟨he, h⟩ := Phrase.unique e f (noCall_moreItemTokens es (noCall_mark hm.ne_openParen _))
      (noCall_moreItemTokens fs (noCall_mark hm.ne_openParen _)) h
    obtain ⟨hes, h⟩ := Phrase.moreItems_unique hm es fs h
    exact ⟨by rw [he, hes], h⟩

theorem Phrase.morePairs_unique :
    ∀ (ps qs : List (Phrase × Phrase)) (b c : Bool) {r s : List Token},
      Phrase.morePairTokens ps ++ (closeHash b ++ r) =
          Phrase.morePairTokens qs ++ (closeHash c ++ s) →
        ps = qs ∧ b = c ∧ r = s
  | [], [], b, c, _, _, h => by
    cases b <;> cases c <;> simp_all [Phrase.morePairTokens, closeHash]
  | [], (k, v) :: qs, b, c, _, _, h => by
    cases b
    · simp [Phrase.morePairTokens, closeHash] at h
    · simp only [Phrase.morePairTokens, closeHash, List.append_assoc, List.cons_append,
        List.nil_append, if_true, List.cons.injEq, true_and] at h
      exact absurd h.symm (k.tokens_append_ne (by decide) _ _)
  | (k, v) :: ps, [], b, c, _, _, h => by
    cases c
    · simp [Phrase.morePairTokens, closeHash] at h
    · simp only [Phrase.morePairTokens, closeHash, List.append_assoc, List.cons_append,
        List.nil_append, if_true, List.cons.injEq, true_and] at h
      exact absurd h (k.tokens_append_ne (by decide) _ _)
  | (k, v) :: ps, (k', v') :: qs, b, c, _, _, h => by
    simp only [Phrase.morePairTokens, List.append_assoc, List.cons_append, List.cons.injEq,
      true_and] at h
    obtain ⟨hk, h⟩ := Phrase.unique k k' (noCall_mark (by decide) _) (noCall_mark (by decide) _) h
    obtain ⟨hv, h⟩ := Phrase.unique v v' (noCall_morePairTokens ps b _)
      (noCall_morePairTokens qs c _) (List.cons.inj h).2
    obtain ⟨hp, hb, h⟩ := Phrase.morePairs_unique ps qs b c h
    exact ⟨by rw [hk, hv, hp], hb, h⟩

theorem Phrase.calls_unique :
    ∀ (as bs : List (List Phrase)) {r s : List Token}, NoCall r → NoCall s →
      Phrase.callTokens as ++ r = Phrase.callTokens bs ++ s → as = bs ∧ r = s
  | [], [], _, _, _, _, h => ⟨rfl, h⟩
  | [], b :: bs, _, _, hr, _, h => by
    obtain rfl : _ = _ := h
    simp [NoCall, Phrase.callTokens] at hr
  | a :: as, [], _, _, _, hs, h => by
    obtain rfl : _ = _ := h
    simp [NoCall, Phrase.callTokens] at hs
  | a :: as, b :: bs, _, _, hr, hs, h => by
    simp only [Phrase.callTokens, List.append_assoc, List.cons_append, List.cons.injEq,
      true_and] at h
    obtain ⟨ha, h⟩ := Phrase.items_unique (.inl rfl) a b h
    obtain ⟨hb, h⟩ := Phrase.calls_unique as bs hr hs h
    exact ⟨by rw [ha, hb], h⟩

end

theorem Purpose.unique {p q : Purpose} {e f : Phrase} {r s : List Token}
    (h : p.tokens ++ (e.tokens ++ r) = q.tokens ++ (f.tokens ++ s)) :
    p = q ∧ e.tokens ++ r = f.tokens ++ s := by
  cases p with
  | binding name =>
    cases q with
    | binding other => simpa [tokens] using h
    | result => simp [tokens] at h
    | expr => exact absurd h.symm (f.tokens_append_ne (by decide) _ _)
  | result =>
    cases q with
    | binding other => simp [tokens] at h
    | result => simpa [tokens] using h
    | expr => exact absurd h.symm (f.tokens_append_ne (by decide) _ _)
  | expr =>
    cases q with
    | binding other => exact absurd h (e.tokens_append_ne (by decide) _ _)
    | result => exact absurd h (e.tokens_append_ne (by decide) _ _)
    | expr => exact ⟨rfl, h⟩

theorem Clause.tokens_append (c : Clause) (ts : List Token) :
    c.tokens ++ ts = c.purpose.tokens ++
      (c.value.tokens ++ ((if c.closed then [.mark .semicolon] else []) ++ ts)) := by
  simp only [tokens, List.append_assoc]

theorem Clause.tokens_append_ne_semicolon (c : Clause) (r s : List Token) :
    c.tokens ++ r ≠ .mark .semicolon :: s := by
  rw [c.tokens_append]
  intro h
  cases hp : c.purpose with
  | binding name => simp [hp, Purpose.tokens] at h
  | result => simp [hp, Purpose.tokens] at h
  | expr =>
    rw [hp] at h
    exact c.value.tokens_append_ne (by decide) _ _ h

theorem flatMap_tokens_ne_semicolon (cs : List Clause) (s : List Token) :
    cs.flatMap Clause.tokens ≠ .mark .semicolon :: s := by
  cases cs with
  | nil => simp
  | cons c cs => exact c.tokens_append_ne_semicolon _ s

private theorem noCall_end {c : Clause} {ts : List Token} (h : c.closed ∨ NoCall ts) :
    NoCall ((if c.closed then [.mark .semicolon] else []) ++ ts) := by
  cases hc : c.closed with
  | true => exact noCall_mark (by decide) _
  | false => exact h.resolve_left (by simp [hc])

theorem Settled.unique {cs ds : List Clause} (hc : Settled cs) (hd : Settled ds)
    (h : cs.flatMap Clause.tokens = ds.flatMap Clause.tokens) : cs = ds := by
  induction cs generalizing ds with
  | nil =>
    cases ds with
    | nil => rfl
    | cons d ds =>
      obtain ⟨t, ts, ht, -⟩ := d.value.exists_tokens_eq
      simp [Clause.tokens, ht] at h
  | cons c cs ih =>
    cases ds with
    | nil =>
      obtain ⟨t, ts, ht, -⟩ := c.value.exists_tokens_eq
      simp [Clause.tokens, ht] at h
    | cons d ds =>
      simp only [List.flatMap_cons, Clause.tokens_append] at h
      obtain ⟨hp, h⟩ := Purpose.unique h
      obtain ⟨hv, h⟩ := Phrase.unique _ _ (noCall_end hc.1) (noCall_end hd.1) h
      obtain ⟨purpose, value, closed⟩ := c
      obtain ⟨purpose', value', closed'⟩ := d
      obtain rfl : purpose = purpose' := hp
      obtain rfl : value = value' := hv
      cases closed with
      | true =>
        cases closed' with
        | true => rw [ih hc.2 hd.2 (List.cons.inj h).2]
        | false => exact absurd h.symm (flatMap_tokens_ne_semicolon ds _)
      | false =>
        cases closed' with
        | true => exact absurd h (flatMap_tokens_ne_semicolon cs _)
        | false => rw [ih hc.2 hd.2 h]

theorem Phrase.callTokens_append (as bs : List (List Phrase)) :
    callTokens (as ++ bs) = callTokens as ++ callTokens bs := by
  induction as with
  | nil => rfl
  | cons a as ih => simp [callTokens, ih]

/-- A statement that starts with a parenthesis is an expression that starts with a group. -/
theorem Clause.exists_group {c : Clause} {ts : List Token} (h : ¬ NoCall (c.tokens ++ ts)) :
    ∃ e calls closed, c = ⟨.expr, .mk (.group e) calls, closed⟩ := by
  obtain ⟨purpose, ⟨p, calls⟩, closed⟩ := c
  cases purpose with
  | expr =>
    cases p with
    | group e => exact ⟨e, calls, closed, rfl⟩
    | _ => simp [NoCall, tokens, Purpose.tokens, Phrase.tokens, Primary.tokens] at h
  | _ => simp [NoCall, tokens, Purpose.tokens] at h

/-- Statements that are not settled can be: what starts with a group becomes a call. -/
theorem exists_settled (cs : List Clause) :
    ∃ ds : List Clause, ds.flatMap Clause.tokens = cs.flatMap Clause.tokens ∧ Settled ds := by
  induction cs with
  | nil => exact ⟨[], rfl, trivial⟩
  | cons c cs ih =>
    obtain ⟨ds, he, hs⟩ := ih
    by_cases hc : c.closed ∨ NoCall (ds.flatMap Clause.tokens)
    · exact ⟨c :: ds, by simp [he], hc, hs⟩
    · obtain ⟨hopen, hcall⟩ := not_or.mp hc
      cases ds with
      | nil => simp [NoCall] at hcall
      | cons d ds =>
        obtain ⟨e, calls, closed, rfl⟩ := Clause.exists_group hcall
        obtain ⟨purpose, ⟨p, before⟩, isClosed⟩ := c
        obtain rfl : isClosed = false := by simpa using hopen
        refine ⟨⟨purpose, .mk p (before ++ [e] :: calls), closed⟩ :: ds, ?_, hs⟩
        rw [List.flatMap_cons, List.flatMap_cons, ← he]
        simp [Clause.tokens, Purpose.tokens, Phrase.tokens, Primary.tokens,
          Phrase.callTokens_append, Phrase.callTokens, Phrase.itemTokens, Phrase.moreItemTokens]

end Wanda.Script

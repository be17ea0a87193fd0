import Wanda.Proofs.Script.Grammar
import Mathlib.Tactic.SplitIfs

/-!
The reader accepts the token lists that the grammar derives. It reads the tokens of an expression
from a state that waits for one to a state that has it; and where it comes to a good end from the
former, an expression comes first.
-/
namespace Wanda.Script

theorem readFrom_cons {s u : State} {t : Token} {done : Option Statement}
    (h : s.next t = .ok (done, u)) (ts : List Token) :
    readFrom s (t :: ts) = (readFrom u ts).map (done.toList ++ ·) := by
  rw [readFrom, h]
  simp only [bind, Except.bind, pure, Except.pure]
  cases readFrom u ts <;> rfl

theorem readFrom_cons_of_next {s u : State} {t : Token} (h : s.next t = .ok (none, u))
    (ts : List Token) : readFrom s (t :: ts) = readFrom u ts := by
  rw [readFrom_cons h]
  cases readFrom u ts <;> rfl

theorem readFrom_of_cons {s u : State} {t : Token} {ts : List Token} {script : Script}
    (h : readFrom s (t :: ts) = .ok script) (hn : s.next t = .ok (none, u)) :
    readFrom u ts = .ok script :=
  (readFrom_cons_of_next hn ts).symm.trans h

theorem next_element {f : Frame} {t : Token} (h : ∀ m e, f.closed? = some (m, e) → t ≠ .mark m)
    (purpose : Purpose) (frames : List Frame) :
    (State.element purpose f frames).next t = (State.operand purpose (f :: frames)).next t := by
  cases hf : f.closed? with
  | none => simp only [State.next, hf]
  | some p =>
    obtain ⟨m, e⟩ := p
    simp only [State.next, hf, if_neg (h m e hf)]

theorem Frame.not_opensExpr_of_closed? {f : Frame} {m : Mark} {e : Expr}
    (h : f.closed? = some (m, e)) : ¬ Token.opensExpr (.mark m) := by
  cases f <;> cases h <;> decide

theorem readFrom_element_phrase (purpose : Purpose) (f : Frame) (frames : List Frame) (e : Phrase)
    (rest : List Token) :
    readFrom (.element purpose f frames) (e.tokens ++ rest) =
      readFrom (.operand purpose (f :: frames)) (e.tokens ++ rest) := by
  obtain ⟨t, ts, ht, ho⟩ := e.exists_tokens_eq
  have hn : ∀ m e, f.closed? = some (m, e) → t ≠ .mark m := by
    rintro m e hf rfl
    exact Frame.not_opensExpr_of_closed? hf ho
  rw [ht, List.cons_append, readFrom, readFrom, next_element hn]

/-- A frame for expressions between commas, and the mark that closes it. -/
structure Collects (wrap : List Expr → Frame) (close : Mark) (build : List Expr → Expr) : Prop where
  closed : ∀ before, (wrap before).closed? = some (close, build before)
  resume : ∀ before purpose frames e t,
    (wrap before).resume purpose frames e t =
      if t = .mark .comma then .ok (.operand purpose (wrap (before ++ [e]) :: frames))
      else if t = .mark close then .ok (.operator purpose frames (build (before ++ [e])))
      else .error (.expectedMark close (some t))
  closes : close.ClosesList

theorem collects_array : Collects .array .closeBracket .array :=
  ⟨fun _ => rfl, fun _ _ _ _ _ => rfl, .inr rfl⟩

theorem collects_arguments (f : Expr) : Collects (.arguments f) .closeParen (.call f) :=
  ⟨fun _ => rfl, fun _ _ _ _ _ => rfl, .inl rfl⟩

section
variable {wrap : List Expr → Frame} {close : Mark} {build : List Expr → Expr}
  (hc : Collects wrap close build)
include hc

theorem Collects.next_close (before : List Expr) (purpose : Purpose) (frames : List Frame) :
    (State.element purpose (wrap before) frames).next (.mark close) =
      .ok (none, .operator purpose frames (build before)) := by
  simp [State.next, hc.closed]

theorem Collects.next_comma (before : List Expr) (purpose : Purpose) (frames : List Frame)
    (e : Expr) :
    (State.operator purpose (wrap before :: frames) e).next (.mark .comma) =
      .ok (none, .operand purpose (wrap (before ++ [e]) :: frames)) := by
  simp [State.next, hc.resume]

theorem Collects.next_last (before : List Expr) (purpose : Purpose) (frames : List Frame)
    (e : Expr) :
    (State.operator purpose (wrap before :: frames) e).next (.mark close) =
      .ok (none, .operator purpose frames (build (before ++ [e]))) := by
  have hp := hc.closes.ne_openParen
  have hm := hc.closes.ne_comma
  simp [State.next, hc.resume, hp, hm]

end

theorem integer_eq_ok_iff {numeral : String} {n : Int64} :
    integer numeral = .ok n ↔ Text.Numeral.value? numeral.toList = some n.toInt := by
  unfold integer
  cases Text.Numeral.value? numeral.toList with
  | none => simp
  | some m =>
    rw [Option.bind_some, Option.some.injEq, eq_comm (a := m), ← Text.Numeral.word?_eq_some_iff]
    cases Text.Numeral.word? m <;> simp

theorem next_int (purpose : Purpose) (frames : List Frame) {numeral : String} {n : Int64}
    (h : integer numeral = .ok n) :
    (State.operand purpose frames).next (.int numeral) =
      .ok (none, .operator purpose frames (.int n)) := by
  simp only [State.next, startExpr, h]
  rfl

mutual

theorem readFrom_primary (purpose : Purpose) (frames : List Frame) (rest : List Token) :
    ∀ p : Primary, readFrom (.operand purpose frames) (p.tokens ++ rest) =
      readFrom (.operator purpose frames p.expr) rest
  | .name _ => readFrom_cons_of_next rfl rest
  | .int s n h => readFrom_cons_of_next (next_int purpose frames (integer_eq_ok_iff.mpr h)) rest
  | .str _ => readFrom_cons_of_next rfl rest
  | .true => readFrom_cons_of_next rfl rest
  | .false => readFrom_cons_of_next rfl rest
  | .null => readFrom_cons_of_next rfl rest
  | .group e => by
    simp only [Primary.tokens, Primary.expr, List.cons_append, List.append_assoc, List.nil_append]
    rw [readFrom_cons_of_next rfl, readFrom_phrase purpose (.group :: frames) _ e,
      readFrom_cons_of_next rfl]
  | .array es => by
    simp only [Primary.tokens, Primary.expr, List.cons_append, List.append_assoc, List.nil_append]
    rw [readFrom_cons_of_next rfl, readFrom_items purpose frames rest collects_array es]
  | .emptyHash => by
    simp only [Primary.tokens, Primary.expr, List.cons_append, List.nil_append]
    rw [readFrom_cons_of_next rfl, readFrom_cons_of_next rfl]
  | .hash k v ps trailing => by
    simp only [Primary.tokens, Primary.expr, List.cons_append, List.append_assoc]
    rw [readFrom_cons_of_next rfl, readFrom_element_phrase, readFrom_phrase purpose _ _ k,
      readFrom_cons_of_next rfl, readFrom_phrase purpose _ _ v,
      readFrom_morePairs purpose frames rest [] k.expr v.expr trailing ps]
    rfl

theorem readFrom_phrase (purpose : Purpose) (frames : List Frame) (rest : List Token) :
    ∀ e : Phrase, readFrom (.operand purpose frames) (e.tokens ++ rest) =
      readFrom (.operator purpose frames e.expr) rest
  | .mk head calls => by
    simp only [Phrase.tokens, Phrase.expr, List.append_assoc]
    rw [readFrom_primary purpose frames _ head, readFrom_calls purpose frames rest head.expr calls]

theorem readFrom_items {wrap : List Expr → Frame} {close : Mark} {build : List Expr → Expr}
    (purpose : Purpose) (frames : List Frame) (rest : List Token)
    (hc : Collects wrap close build) :
    ∀ es : List Phrase,
      readFrom (.element purpose (wrap []) frames) (Phrase.itemTokens es ++ .mark close :: rest) =
        readFrom (.operator purpose frames (build (Phrase.exprs es))) rest
  | [] => readFrom_cons_of_next (hc.next_close [] purpose frames) rest
  | e :: es => by
    simp only [Phrase.itemTokens, Phrase.exprs, List.append_assoc]
    rw [readFrom_element_phrase, readFrom_phrase purpose _ _ e,
      readFrom_moreItems purpose frames rest hc [] e.expr es]
    rfl

theorem readFrom_moreItems {wrap : List Expr → Frame} {close : Mark} {build : List Expr → Expr}
    (purpose : Purpose) (frames : List Frame) (rest : List Token)
    (hc : Collects wrap close build) (before : List Expr) (e : Expr) :
    ∀ es : List Phrase,
      readFrom (.operator purpose (wrap before :: frames) e)
          (Phrase.moreItemTokens es ++ .mark close :: rest) =
        readFrom (.operator purpose frames (build (before ++ e :: Phrase.exprs es))) rest
  | [] => readFrom_cons_of_next (hc.next_last before purpose frames e) rest
  | e' :: es => by
    simp only [Phrase.moreItemTokens, Phrase.exprs, List.cons_append, List.append_assoc]
    rw [readFrom_cons_of_next (hc.next_comma before purpose frames e),
      readFrom_phrase purpose _ _ e',
      readFrom_moreItems purpose frames rest hc (before ++ [e]) e'.expr es]
    simp

theorem readFrom_morePairs (purpose : Purpose) (frames : List Frame) (rest : List Token)
    (before : List (Expr × Expr)) (k v : Expr) (trailing : Bool) :
    ∀ ps : List (Phrase × Phrase),
      readFrom (.operator purpose (.value before k :: frames) v)
          (Phrase.morePairTokens ps ++ (closeHash trailing ++ rest)) =
        readFrom (.operator purpose frames (.hash (before ++ (k, v) :: Phrase.pairExprs ps))) rest
  | [] => by
    cases trailing with
    | false => exact readFrom_cons_of_next rfl rest
    | true => exact (readFrom_cons_of_next rfl _).trans (readFrom_cons_of_next rfl rest)
  | (k', v') :: ps => by
    simp only [Phrase.morePairTokens, Phrase.pairExprs, List.cons_append, List.append_assoc]
    rw [readFrom_cons_of_next rfl, readFrom_element_phrase, readFrom_phrase purpose _ _ k',
      readFrom_cons_of_next rfl, readFrom_phrase purpose _ _ v',
      readFrom_morePairs purpose frames rest (before ++ [(k, v)]) k'.expr v'.expr trailing ps]
    simp

theorem readFrom_calls (purpose : Purpose) (frames : List Frame) (rest : List Token) (f : Expr) :
    ∀ calls : List (List Phrase),
      readFrom (.operator purpose frames f) (Phrase.callTokens calls ++ rest) =
        readFrom (.operator purpose frames (Phrase.applied f calls)) rest
  | [] => rfl
  | args :: calls => by
    simp only [Phrase.callTokens, Phrase.applied, List.cons_append, List.append_assoc]
    rw [readFrom_cons_of_next rfl, readFrom_items purpose frames _ (collects_arguments f) args,
      readFrom_calls purpose frames rest _ calls]

end

theorem readFrom_element_of_closed? {purpose : Purpose} {f : Frame} {frames : List Frame} {m : Mark}
    {e : Expr} (hf : f.closed? = some (m, e)) {ts : List Token} {script : Script}
    (h : readFrom (.element purpose f frames) ts = .ok script) :
    (∃ rest, ts = .mark m :: rest ∧ readFrom (.operator purpose frames e) rest = .ok script) ∨
      readFrom (.operand purpose (f :: frames)) ts = .ok script := by
  cases ts with
  | nil => cases f <;> cases h
  | cons t ts =>
    by_cases ht : t = .mark m
    · subst ht
      left
      have hm : (State.element purpose f frames).next (.mark m) =
          .ok (none, .operator purpose frames e) := by
        simp [State.next, hf]
      exact ⟨ts, rfl, readFrom_of_cons h hm⟩
    · right
      have hn : ∀ m e, f.closed? = some (m, e) → t ≠ .mark m := by
        intro m' e' hf'
        rw [hf] at hf'
        cases hf'
        exact ht
      rwa [readFrom, next_element hn, ← readFrom] at h

theorem readFrom_resume {purpose : Purpose} {f : Frame} {frames : List Frame} {e : Expr}
    {ts : List Token} {script : Script} (hn : NoCall ts)
    (h : readFrom (.operator purpose (f :: frames) e) ts = .ok script) :
    ∃ t rest s, ts = t :: rest ∧ f.resume purpose frames e t = .ok s ∧
      readFrom s rest = .ok script := by
  cases ts with
  | nil => cases f <;> cases h
  | cons t ts =>
    have ht : t ≠ .mark .openParen := by simpa [NoCall] using hn
    cases hr : f.resume purpose frames e t with
    | error err => simp [readFrom, State.next, ht, hr, bind, Except.bind] at h
    | ok s =>
      have hs : (State.operator purpose (f :: frames) e).next t = .ok (none, s) := by
        simp only [State.next, if_neg ht, hr]
        rfl
      exact ⟨t, ts, s, rfl, hr, readFrom_of_cons h hs⟩

/-- If the reading succeeds where an operand is waited for, an expression comes first. -/
def Splits (ts : List Token) : Prop :=
  ∀ purpose frames script, readFrom (.operand purpose frames) ts = .ok script →
    ∃ (e : Phrase) (rest : List Token), ts = e.tokens ++ rest ∧ NoCall rest ∧
      readFrom (.operator purpose frames e.expr) rest = .ok script

section
variable {bound : Nat} (ih : ∀ ts : List Token, ts.length < bound → Splits ts)
  {purpose : Purpose} {frames : List Frame} {script : Script}
include ih

theorem exists_moreItems {wrap : List Expr → Frame} {close : Mark} {build : List Expr → Expr}
    (hc : Collects wrap close build) {before : List Expr} {e : Expr} {ts : List Token}
    (hl : ts.length < bound) (hn : NoCall ts)
    (h : readFrom (.operator purpose (wrap before :: frames) e) ts = .ok script) :
    ∃ es rest, ts = Phrase.moreItemTokens es ++ .mark close :: rest ∧
      readFrom (.operator purpose frames (build (before ++ e :: Phrase.exprs es))) rest =
        .ok script := by
  obtain ⟨t, ts, s, rfl, hr, hs⟩ := readFrom_resume hn h
  simp only [List.length_cons] at hl
  rw [hc.resume] at hr
  split_ifs at hr with hcomma hclose
  · cases hr
    obtain ⟨e', rest, rfl, hn', h'⟩ := ih ts (by omega) _ _ _ hs
    simp only [List.length_append] at hl
    obtain ⟨es, rest, rfl, h''⟩ := exists_moreItems hc (by omega) hn' h'
    refine ⟨e' :: es, rest, ?_, ?_⟩
    · simp [Phrase.moreItemTokens, hcomma]
    · simpa [Phrase.exprs] using h''
  · cases hr
    exact ⟨[], ts, by simp [Phrase.moreItemTokens, hclose], hs⟩
termination_by ts.length

theorem exists_items {wrap : List Expr → Frame} {close : Mark} {build : List Expr → Expr}
    (hc : Collects wrap close build) {ts : List Token} (hl : ts.length < bound)
    (h : readFrom (.element purpose (wrap []) frames) ts = .ok script) :
    ∃ es rest, ts = Phrase.itemTokens es ++ .mark close :: rest ∧
      readFrom (.operator purpose frames (build (Phrase.exprs es))) rest = .ok script := by
  rcases readFrom_element_of_closed? (hc.closed []) h with ⟨rest, rfl, hr⟩ | ho
  · exact ⟨[], rest, rfl, hr⟩
  · obtain ⟨e, rest, rfl, hn, he⟩ := ih ts hl _ _ _ ho
    simp only [List.length_append] at hl
    obtain ⟨es, rest, rfl, hr⟩ := exists_moreItems ih hc (by omega) hn he
    exact ⟨e :: es, rest, by simp [Phrase.itemTokens], hr⟩

theorem exists_pair {before : List (Expr × Expr)} {ts : List Token} (hl : ts.length < bound)
    (h : readFrom (.operand purpose (.key before :: frames)) ts = .ok script) :
    ∃ (k v : Phrase) (rest : List Token),
      ts = k.tokens ++ .mark .colon :: (v.tokens ++ rest) ∧ NoCall rest ∧
      readFrom (.operator purpose (.value before k.expr :: frames) v.expr) rest = .ok script := by
  obtain ⟨k, rest, rfl, hn, hr⟩ := ih ts hl _ _ _ h
  obtain ⟨t, rest, s, rfl, ht, hs⟩ := readFrom_resume hn hr
  simp only [List.length_append, List.length_cons] at hl
  simp only [Frame.resume] at ht
  split_ifs at ht with hcolon
  · cases ht
    obtain ⟨v, rest, rfl, hn, hr⟩ := ih rest (by omega) _ _ _ hs
    exact ⟨k, v, rest, by rw [hcolon], hn, hr⟩

theorem exists_morePairs {before : List (Expr × Expr)} {k v : Expr} {ts : List Token}
    (hl : ts.length < bound) (hn : NoCall ts)
    (h : readFrom (.operator purpose (.value before k :: frames) v) ts = .ok script) :
    ∃ (ps : List (Phrase × Phrase)) (trailing : Bool) (rest : List Token),
      ts = Phrase.morePairTokens ps ++ (closeHash trailing ++ rest) ∧
      readFrom (.operator purpose frames (.hash (before ++ (k, v) :: Phrase.pairExprs ps))) rest =
        .ok script := by
  obtain ⟨t, ts, s, rfl, hr, hs⟩ := readFrom_resume hn h
  simp only [List.length_cons] at hl
  simp only [Frame.resume] at hr
  split_ifs at hr with hclose hcomma
  · cases hr
    exact ⟨[], false, ts, by rw [hclose]; rfl, hs⟩
  · cases hr
    rcases readFrom_element_of_closed? rfl hs with ⟨rest, rfl, hr⟩ | ho
    · exact ⟨[], true, rest, by rw [hcomma]; rfl, hr⟩
    · obtain ⟨k', v', rest, rfl, hn', h'⟩ := exists_pair ih (by omega) ho
      simp only [List.length_append, List.length_cons] at hl
      obtain ⟨ps, trailing, rest, rfl, h''⟩ := exists_morePairs (by omega) hn' h'
      refine ⟨(k', v') :: ps, trailing, rest, ?_, ?_⟩
      · simp [Phrase.morePairTokens, hcomma]
      · simpa [Phrase.pairExprs] using h''
termination_by ts.length

theorem exists_calls {f : Expr} {ts : List Token} (hl : ts.length < bound)
    (h : readFrom (.operator purpose frames f) ts = .ok script) :
    ∃ calls rest, ts = Phrase.callTokens calls ++ rest ∧ NoCall rest ∧
      readFrom (.operator purpose frames (Phrase.applied f calls)) rest = .ok script := by
  by_cases hn : NoCall ts
  · exact ⟨[], ts, rfl, hn, h⟩
  · obtain ⟨ts, rfl⟩ : ∃ rest, ts = .mark .openParen :: rest := by
      cases ts with
      | nil => simp [NoCall] at hn
      | cons t ts => exact ⟨ts, by simpa [NoCall] using hn⟩
    rw [readFrom_cons_of_next rfl] at h
    simp only [List.length_cons] at hl
    obtain ⟨args, rest, rfl, ha⟩ := exists_items ih (collects_arguments f) (by omega) h
    simp only [List.length_append, List.length_cons] at hl
    obtain ⟨calls, rest, rfl, hn, hr⟩ := exists_calls (by omega) ha
    exact ⟨args :: calls, rest, by simp [Phrase.callTokens], hn, hr⟩
termination_by ts.length

theorem exists_primary {ts : List Token} (hl : ts.length < bound + 1)
    (h : readFrom (.operand purpose frames) ts = .ok script) :
    ∃ (p : Primary) (rest : List Token), ts = p.tokens ++ rest ∧
      readFrom (.operator purpose frames p.expr) rest = .ok script := by
  cases ts with
  | nil => cases h
  | cons t ts =>
    simp only [List.length_cons] at hl
    cases t with
    | name s => exact ⟨.name s, ts, rfl, readFrom_of_cons h rfl⟩
    | int s =>
      cases hi : integer s with
      | error e => simp [readFrom, State.next, startExpr, hi, bind, Except.bind] at h
      | ok n =>
        exact ⟨.int s n (integer_eq_ok_iff.mp hi), ts, rfl,
          readFrom_of_cons h (next_int purpose frames hi)⟩
    | str s => exact ⟨.str s, ts, rfl, readFrom_of_cons h rfl⟩
    | keyword k =>
      cases k with
      | true => exact ⟨.true, ts, rfl, readFrom_of_cons h rfl⟩
      | false => exact ⟨.false, ts, rfl, readFrom_of_cons h rfl⟩
      | null => exact ⟨.null, ts, rfl, readFrom_of_cons h rfl⟩
      | bind => cases h
      | result => cases h
    | illegal s => cases h
    | mark m =>
      cases m with
      | openParen =>
        rw [readFrom_cons_of_next rfl] at h
        obtain ⟨e, rest, rfl, hn, he⟩ := ih ts (by omega) _ _ _ h
        obtain ⟨t, rest, s, rfl, ht, hs⟩ := readFrom_resume hn he
        simp only [Frame.resume] at ht
        split_ifs at ht with hclose
        · cases ht
          exact ⟨.group e, rest, by simp [Primary.tokens, hclose], hs⟩
      | openBracket =>
        rw [readFrom_cons_of_next rfl] at h
        obtain ⟨es, rest, rfl, hr⟩ := exists_items ih collects_array (by omega) h
        exact ⟨.array es, rest, by simp [Primary.tokens], hr⟩
      | openBrace =>
        rw [readFrom_cons_of_next rfl] at h
        rcases readFrom_element_of_closed? rfl h with ⟨rest, rfl, hr⟩ | ho
        · exact ⟨.emptyHash, rest, rfl, hr⟩
        · obtain ⟨k, v, rest, rfl, hn, hp⟩ := exists_pair ih (by omega) ho
          simp only [List.length_append, List.length_cons] at hl
          obtain ⟨ps, trailing, rest, rfl, hr⟩ := exists_morePairs ih (by omega) hn hp
          exact ⟨.hash k v ps trailing, rest, by simp [Primary.tokens], hr⟩
      | _ => cases h

end

theorem splits (ts : List Token) : Splits ts := by
  intro purpose frames script h
  have ih : ∀ us : List Token, us.length < ts.length → Splits us := fun us _ => splits us
  obtain ⟨p, rest, rfl, hp⟩ := exists_primary ih (by omega) h
  obtain ⟨t, ts, ht, -⟩ := p.exists_tokens_eq
  have hl : rest.length < (p.tokens ++ rest).length := by
    rw [ht]
    simp only [List.length_append, List.length_cons]
    omega
  obtain ⟨calls, rest, rfl, hn, hr⟩ := exists_calls ih hl hp
  exact ⟨.mk p calls, rest, by simp [Phrase.tokens], hn, hr⟩
termination_by ts.length

theorem readFrom_start_phrase (e : Phrase) (rest : List Token) :
    readFrom .start (e.tokens ++ rest) = readFrom (.operand .expr []) (e.tokens ++ rest) := by
  obtain ⟨t, ts, ht, ho⟩ := e.exists_tokens_eq
  have hs : startStatement t = startExpr .expr [] t := by
    cases t with
    | keyword k =>
      cases k with
      | bind => cases ho
      | result => cases ho
      | _ => rfl
    | _ => rfl
  rw [ht, List.cons_append, readFrom, readFrom, State.next, State.next, hs]

theorem readFrom_clause (purpose : Purpose) (e : Phrase) (rest : List Token) :
    readFrom .start (purpose.tokens ++ (e.tokens ++ rest)) =
      readFrom (.operator purpose [] e.expr) rest := by
  cases purpose with
  | binding name =>
    simp only [Purpose.tokens, List.cons_append, List.nil_append]
    rw [readFrom_cons_of_next rfl, readFrom_cons_of_next rfl, readFrom_cons_of_next rfl,
      readFrom_phrase]
  | result =>
    simp only [Purpose.tokens, List.cons_append, List.nil_append]
    rw [readFrom_cons_of_next rfl, readFrom_phrase]
  | expr => exact (readFrom_start_phrase e rest).trans (readFrom_phrase .expr [] rest e)

/-- A statement is complete when a semicolon follows it. -/
theorem readFrom_semicolon (purpose : Purpose) (e : Expr) (ts : List Token) :
    readFrom (.operator purpose [] e) (.mark .semicolon :: ts) =
      (readFrom .start ts).map (purpose.statement e :: ·) := by
  rw [readFrom_cons rfl]
  rfl

/-- A statement is complete when the next one follows it, or the end. -/
theorem readFrom_next_statement (purpose : Purpose) (e : Expr) {ts : List Token} (hn : NoCall ts)
    (hs : ∀ rest, ts ≠ .mark .semicolon :: rest) :
    readFrom (.operator purpose [] e) ts = (readFrom .start ts).map (purpose.statement e :: ·) := by
  cases ts with
  | nil => rfl
  | cons t ts =>
    have hp : t ≠ .mark .openParen := by simpa [NoCall] using hn
    have hs : t ≠ .mark .semicolon := by simpa using hs ts
    cases ht : startStatement t with
    | error err => simp [readFrom, State.next, hp, hs, ht, bind, Except.bind, Except.map]
    | ok s =>
      have h0 : State.start.next t = .ok (none, s) := by
        simp only [State.next, ht]
        rfl
      have h1 : (State.operator purpose [] e).next t = .ok (some (purpose.statement e), s) := by
        simp only [State.next, if_neg hp, if_neg hs, ht]
        rfl
      rw [readFrom_cons_of_next h0, readFrom_cons h1]
      rfl

theorem readTokens_of_settled {cs : List Clause} (h : Settled cs) :
    readTokens (cs.flatMap Clause.tokens) = .ok (cs.map Clause.statement) := by
  unfold readTokens
  induction cs with
  | nil => rfl
  | cons c cs ih =>
    have hcs := ih h.2
    rw [List.flatMap_cons, c.tokens_append, readFrom_clause]
    cases hc : c.closed with
    | true =>
      rw [if_pos rfl, List.singleton_append, readFrom_semicolon, hcs]
      rfl
    | false =>
      have hn : NoCall (cs.flatMap Clause.tokens) := h.1.resolve_left (by simp [hc])
      rw [if_neg (by decide), List.nil_append,
        readFrom_next_statement _ _ hn (flatMap_tokens_ne_semicolon cs), hcs]
      rfl

/-- What comes first in a script is a statement's beginning and a place for its expression. -/
theorem exists_purpose {t : Token} {ts : List Token} {script : Script}
    (h : readFrom .start (t :: ts) = .ok script) :
    ∃ (purpose : Purpose) (rest : List Token), t :: ts = purpose.tokens ++ rest ∧
      readFrom (.operand purpose []) rest = .ok script := by
  by_cases hr : t = .keyword .result
  · subst hr
    exact ⟨.result, ts, rfl, readFrom_of_cons h rfl⟩
  by_cases hb : t = .keyword .bind
  · subst hb
    have h := readFrom_of_cons h rfl
    cases ts with
    | nil => cases h
    | cons t ts =>
      cases t with
      | name s =>
        have h := readFrom_of_cons h rfl
        cases ts with
        | nil => cases h
        | cons t ts =>
          by_cases he : t = .mark .equals
          · subst he
            exact ⟨.binding s, ts, rfl, readFrom_of_cons h rfl⟩
          · simp [readFrom, State.next, he, bind, Except.bind] at h
      | _ => cases h
  · have hn : State.start.next t = (State.operand .expr []).next t := by
      cases t with
      | keyword k => cases k <;> simp_all [State.next, startStatement]
      | _ => rfl
    refine ⟨.expr, t :: ts, rfl, ?_⟩
    rwa [readFrom, hn, ← readFrom] at h

theorem exists_end {purpose : Purpose} {e : Expr} {ts : List Token} {script : Script}
    (hn : NoCall ts) (h : readFrom (.operator purpose [] e) ts = .ok script) :
    ∃ (closed : Bool) (rest : List Token) (more : Script),
      ts = (if closed then [.mark .semicolon] else []) ++ rest ∧ (closed ∨ NoCall rest) ∧
        readFrom .start rest = .ok more ∧ script = purpose.statement e :: more := by
  have hmap {rest : List Token}
      (h : (readFrom .start rest).map (purpose.statement e :: ·) = .ok script) :
      ∃ more, readFrom .start rest = .ok more ∧ script = purpose.statement e :: more := by
    cases hr : readFrom .start rest with
    | error err =>
      rw [hr] at h
      cases h
    | ok more =>
      rw [hr] at h
      cases h
      exact ⟨more, rfl, rfl⟩
  by_cases hs : ∃ rest, ts = .mark .semicolon :: rest
  · obtain ⟨rest, rfl⟩ := hs
    rw [readFrom_semicolon] at h
    obtain ⟨more, hm, he⟩ := hmap h
    exact ⟨true, rest, more, rfl, .inl rfl, hm, he⟩
  · rw [readFrom_next_statement purpose e hn (not_exists.mp hs)] at h
    obtain ⟨more, hm, he⟩ := hmap h
    exact ⟨false, ts, more, rfl, .inr hn, hm, he⟩

theorem exists_settled_of_readFrom {ts : List Token} {script : Script}
    (h : readFrom .start ts = .ok script) :
    ∃ cs : List Clause, cs.flatMap Clause.tokens = ts ∧ Settled cs ∧
      cs.map Clause.statement = script := by
  cases ts with
  | nil =>
    cases h
    exact ⟨[], rfl, trivial, rfl⟩
  | cons t ts =>
    obtain ⟨purpose, rest, hts, hr⟩ := exists_purpose h
    obtain ⟨e, rest, rfl, hn, he⟩ := splits rest _ _ _ hr
    obtain ⟨closed, rest, more, rfl, hc, hm, rfl⟩ := exists_end hn he
    have hl : rest.length < ts.length + 1 := by
      obtain ⟨u, us, hu, -⟩ := e.exists_tokens_eq
      rw [← List.length_cons, hts, hu]
      simp only [List.length_append, List.length_cons]
      omega
    obtain ⟨cs, rfl, hs, rfl⟩ := exists_settled_of_readFrom hm
    refine ⟨⟨purpose, e, closed⟩ :: cs, ?_, ⟨hc, hs⟩, rfl⟩
    rw [List.flatMap_cons, Clause.tokens_append, hts]
termination_by ts.length

theorem readTokens_eq_ok_iff {ts : List Token} {script : Script} :
    readTokens ts = .ok script ↔
      ∃ cs : List Clause, cs.flatMap Clause.tokens = ts ∧ Settled cs ∧
        cs.map Clause.statement = script := by
  constructor
  · exact exists_settled_of_readFrom
  · rintro ⟨cs, rfl, hs, rfl⟩
    exact readTokens_of_settled hs

theorem exists_readTokens_iff {ts : List Token} :
    (∃ script, readTokens ts = .ok script) ↔ ∃ cs : List Clause, cs.flatMap Clause.tokens = ts := by
  constructor
  · rintro ⟨script, h⟩
    obtain ⟨cs, he, -⟩ := readTokens_eq_ok_iff.mp h
    exact ⟨cs, he⟩
  · rintro ⟨cs, rfl⟩
    obtain ⟨ds, he, hs⟩ := exists_settled cs
    exact ⟨_, he ▸ readTokens_of_settled hs⟩

theorem next_illegal (s : State) (text : String) : ∃ e, s.next (.illegal text) = .error e := by
  cases s with
  | start => exact ⟨_, rfl⟩
  | bindingName => exact ⟨_, rfl⟩
  | bindingEquals name => exact ⟨_, rfl⟩
  | operand purpose frames => exact ⟨_, rfl⟩
  | element purpose f frames => cases f <;> exact ⟨_, rfl⟩
  | operator purpose frames e =>
    cases frames with
    | nil => exact ⟨_, rfl⟩
    | cons f frames => cases f <;> exact ⟨_, rfl⟩

theorem illegal_notMem_of_readFrom {s : State} {ts : List Token} {script : Script}
    (h : readFrom s ts = .ok script) (text : String) : .illegal text ∉ ts := by
  induction ts generalizing s script with
  | nil => simp
  | cons t ts ih =>
    cases hn : s.next t with
    | error e => simp [readFrom, hn, bind, Except.bind] at h
    | ok p =>
      obtain ⟨done, u⟩ := p
      have ht : .illegal text ≠ t := by
        rintro rfl
        obtain ⟨e, he⟩ := next_illegal s text
        rw [he] at hn
        cases hn
      rw [readFrom_cons hn] at h
      cases hu : readFrom u ts with
      | error e => simp [hu, Except.map] at h
      | ok rest => exact List.not_mem_cons_of_ne_of_not_mem ht (ih hu)

/--
The reader accepts the token lists that the grammar derives, and returns what the only settled
derivation stands for. It rejects all others, among them those with an illegal token.
-/
theorem reading_eq_grammar (ts : List Token) :
    ((∃ script, readTokens ts = .ok script) ↔
      ∃ cs : List Clause, cs.flatMap Clause.tokens = ts) ∧
    (∀ script, readTokens ts = .ok script ↔
      ∃ cs : List Clause, (cs.flatMap Clause.tokens = ts ∧ Settled cs ∧
        ∀ ds : List Clause, ds.flatMap Clause.tokens = ts → Settled ds → ds = cs) ∧
        cs.map Clause.statement = script) ∧
    (∀ script, readTokens ts = .ok script → ∀ text, .illegal text ∉ ts) ∧
    ((∃ e, readTokens ts = .error e) ↔ ∀ cs : List Clause, cs.flatMap Clause.tokens ≠ ts) := by
  refine ⟨exists_readTokens_iff, ?_, ?_, ?_⟩
  · intro script
    constructor
    · intro h
      obtain ⟨cs, he, hs, hm⟩ := readTokens_eq_ok_iff.mp h
      refine ⟨cs, ⟨he, hs, ?_⟩, hm⟩
      intro ds hd hds
      exact hds.unique hs (hd.trans he.symm)
    · rintro ⟨cs, ⟨he, hs, -⟩, hm⟩
      exact readTokens_eq_ok_iff.mpr ⟨cs, he, hs, hm⟩
  · intro script h text
    exact illegal_notMem_of_readFrom h text
  · rw [← not_exists, ← exists_readTokens_iff]
    cases readTokens ts with
    | error e => simp
    | ok script => simp

end Wanda.Script

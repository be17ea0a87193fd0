import Wanda.Proofs.Script.Lexing
import Wanda.Proofs.Script.Literals
import Wanda.Proofs.Script.Reading

/-!
Scripts through their text. The text of a script spells one derivation of the grammar, and cutting
it gives the tokens of that derivation, except that each string has the content that its quoted
form is read with. So the strings are all that can change when a script is shown and read again,
and they change only once.
-/
namespace Wanda.Script
open Text

/-- The phrase called with some arguments. -/
def Phrase.call : Phrase → List Phrase → Phrase
  | .mk head calls, args => .mk head (calls ++ [args])

theorem Phrase.tokens_call (e : Phrase) (args : List Phrase) :
    (e.call args).tokens =
      e.tokens ++ .mark .openParen :: (Phrase.itemTokens args ++ [.mark .closeParen]) := by
  obtain ⟨head, calls⟩ := e
  simp [call, tokens, callTokens_append, callTokens]

theorem Phrase.applied_append_singleton (f : Expr) (calls : List (List Phrase))
    (args : List Phrase) :
    Phrase.applied f (calls ++ [args]) = .call (Phrase.applied f calls) (Phrase.exprs args) := by
  induction calls generalizing f with
  | nil => simp [applied]
  | cons a calls ih => simp [applied, ih]

theorem Phrase.expr_call (e : Phrase) (args : List Phrase) :
    (e.call args).expr = .call e.expr (Phrase.exprs args) := by
  obtain ⟨head, calls⟩ := e
  rw [call, expr, expr, applied_append_singleton]

@[simp] theorem Phrase.tokens_mk_nil (p : Primary) : (Phrase.mk p []).tokens = p.tokens := by
  simp [tokens, callTokens]

@[simp] theorem Phrase.expr_mk_nil (p : Primary) : (Phrase.mk p []).expr = p.expr := by
  simp [expr, applied]

mutual

/-- Nothing stands between needless parentheses, and no comma follows the last pair. -/
def Expr.phrase : Expr → Phrase
  | .name s => .mk (.name s) []
  | .int n => .mk (.int (Numeral.text n.toInt) n (Numeral.value?_text n.toInt)) []
  | .str s => .mk (.str s) []
  | .bool true => .mk .true []
  | .bool false => .mk .false []
  | .null => .mk .null []
  | .array es => .mk (.array (Expr.phrases es)) []
  | .hash [] => .mk .emptyHash []
  | .hash ((k, v) :: ps) => .mk (.hash k.phrase v.phrase (Expr.pairPhrases ps) false) []
  | .call f args => f.phrase.call (Expr.phrases args)

def Expr.phrases : List Expr → List Phrase
  | [] => []
  | e :: es => e.phrase :: Expr.phrases es

def Expr.pairPhrases : List (Expr × Expr) → List (Phrase × Phrase)
  | [] => []
  | (k, v) :: ps => (k.phrase, v.phrase) :: Expr.pairPhrases ps

end

mutual

theorem Expr.expr_phrase : ∀ e : Expr, e.phrase.expr = e
  | .name _ | .int _ | .str _ | .bool true | .bool false | .null | .hash [] => by
    simp [Expr.phrase, Primary.expr]
  | .array es => by simp [Expr.phrase, Primary.expr, Expr.exprs_phrases es]
  | .hash ((k, v) :: ps) => by
    simp [Expr.phrase, Primary.expr, Expr.expr_phrase k, Expr.expr_phrase v,
      Expr.pairExprs_pairPhrases ps]
  | .call f args => by
    rw [Expr.phrase, Phrase.expr_call, Expr.expr_phrase f, Expr.exprs_phrases args]

theorem Expr.exprs_phrases : ∀ es : List Expr, Phrase.exprs (Expr.phrases es) = es
  | [] => rfl
  | e :: es => by rw [Expr.phrases, Phrase.exprs, Expr.expr_phrase e, Expr.exprs_phrases es]

theorem Expr.pairExprs_pairPhrases :
    ∀ ps : List (Expr × Expr), Phrase.pairExprs (Expr.pairPhrases ps) = ps
  | [] => rfl
  | (k, v) :: ps => by
    rw [Expr.pairPhrases, Phrase.pairExprs, Expr.expr_phrase k, Expr.expr_phrase v,
      Expr.pairExprs_pairPhrases ps]

end

/-- A semicolon closes every statement. -/
def Statement.clause : Statement → Clause
  | .binding name e => ⟨.binding name, e.phrase, true⟩
  | .result e => ⟨.result, e.phrase, true⟩
  | .expr e => ⟨.expr, e.phrase, true⟩

theorem Statement.statement_clause (s : Statement) : s.clause.statement = s := by
  cases s <;> simp [clause, Clause.statement, Purpose.statement, Expr.expr_phrase]

/-- The tokens that a script is shown with, but for the content of strings. -/
def shownTokens (script : Script) : List Token :=
  script.flatMap fun s => s.clause.tokens

theorem settled_clauses (script : Script) : Settled (script.map Statement.clause) := by
  induction script with
  | nil => trivial
  | cons s script ih => exact ⟨.inl (by cases s <;> rfl), ih⟩

theorem readTokens_shownTokens (script : Script) :
    readTokens (shownTokens script) = .ok script := by
  have hc : shownTokens script = (script.map Statement.clause).flatMap Clause.tokens := by
    rw [shownTokens, List.flatMap_map]
  rw [hc, readTokens_of_settled (settled_clauses script), List.map_map]
  simp [Function.comp_def, Statement.statement_clause]

def AllSpelled (ts : List Token) : Prop :=
  ∀ t ∈ ts, t.Spelled

@[simp] theorem allSpelled_nil : AllSpelled [] := by
  simp [AllSpelled]

@[simp] theorem allSpelled_cons {t : Token} {ts : List Token} :
    AllSpelled (t :: ts) ↔ t.Spelled ∧ AllSpelled ts :=
  List.forall_mem_cons

@[simp] theorem allSpelled_append {ts us : List Token} :
    AllSpelled (ts ++ us) ↔ AllSpelled ts ∧ AllSpelled us :=
  List.forall_mem_append

@[simp] theorem Token.spelled_mark (m : Mark) : (Token.mark m).Spelled :=
  trivial

@[simp] theorem Token.spelled_keyword (k : Keyword) : (Token.keyword k).Spelled :=
  trivial

mutual

theorem Primary.allSpelled : ∀ p : Primary, AllSpelled p.tokens → AllSpelled p.expr.phrase.tokens
  | .name _, h | .str _, h | .true, h | .false, h | .null, h | .emptyHash, h => by
    simpa [Primary.expr, Expr.phrase] using h
  | .int _ _ _, _ => by simp [Primary.expr, Expr.phrase, Primary.tokens, Token.Spelled]
  | .group e, h => by
    simp only [Primary.tokens, allSpelled_cons, allSpelled_append] at h
    exact Phrase.allSpelled e h.2.1
  | .array es, h => by
    simp only [Primary.tokens, allSpelled_cons, allSpelled_append] at h
    simp [Primary.expr, Expr.phrase, Primary.tokens, Phrase.allSpelled_items es h.2.1]
  | .hash k v ps _, h => by
    simp only [Primary.tokens, allSpelled_cons, allSpelled_append] at h
    obtain ⟨-, hk, -, hv, hp, -⟩ := h
    simp [Primary.expr, Expr.phrase, Primary.tokens, closeHash, Phrase.allSpelled k hk,
      Phrase.allSpelled v hv, Phrase.allSpelled_morePairs ps hp]

theorem Phrase.allSpelled : ∀ e : Phrase, AllSpelled e.tokens → AllSpelled e.expr.phrase.tokens
  | .mk p calls, h => by
    simp only [Phrase.tokens, allSpelled_append] at h
    exact Phrase.allSpelled_calls calls (Primary.allSpelled p h.1) h.2

theorem Phrase.allSpelled_items : ∀ es : List Phrase, AllSpelled (Phrase.itemTokens es) →
    AllSpelled (Phrase.itemTokens (Expr.phrases (Phrase.exprs es)))
  | [], _ => allSpelled_nil
  | e :: es, h => by
    simp only [Phrase.itemTokens, allSpelled_append] at h
    simp [Phrase.exprs, Expr.phrases, Phrase.itemTokens, Phrase.allSpelled e h.1,
      Phrase.allSpelled_moreItems es h.2]

theorem Phrase.allSpelled_moreItems : ∀ es : List Phrase, AllSpelled (Phrase.moreItemTokens es) →
    AllSpelled (Phrase.moreItemTokens (Expr.phrases (Phrase.exprs es)))
  | [], _ => allSpelled_nil
  | e :: es, h => by
    simp only [Phrase.moreItemTokens, allSpelled_cons, allSpelled_append] at h
    simp [Phrase.exprs, Expr.phrases, Phrase.moreItemTokens, Phrase.allSpelled e h.2.1,
      Phrase.allSpelled_moreItems es h.2.2]

theorem Phrase.allSpelled_morePairs : ∀ ps : List (Phrase × Phrase),
    AllSpelled (Phrase.morePairTokens ps) →
      AllSpelled (Phrase.morePairTokens (Expr.pairPhrases (Phrase.pairExprs ps)))
  | [], _ => allSpelled_nil
  | (k, v) :: ps, h => by
    simp only [Phrase.morePairTokens, allSpelled_cons, allSpelled_append] at h
    obtain ⟨-, hk, -, hv, hp⟩ := h
    simp [Phrase.pairExprs, Expr.pairPhrases, Phrase.morePairTokens, Phrase.allSpelled k hk,
      Phrase.allSpelled v hv, Phrase.allSpelled_morePairs ps hp]

theorem Phrase.allSpelled_calls : ∀ (calls : List (List Phrase)) {f : Expr},
    AllSpelled f.phrase.tokens → AllSpelled (Phrase.callTokens calls) →
      AllSpelled (Phrase.applied f calls).phrase.tokens
  | [], _, hf, _ => hf
  | args :: calls, f, hf, h => by
    simp only [Phrase.callTokens, allSpelled_cons, allSpelled_append] at h
    obtain ⟨-, ha, -, hc⟩ := h
    refine Phrase.allSpelled_calls calls ?_ hc
    simp [Expr.phrase, Phrase.tokens_call, hf, Phrase.allSpelled_items args ha]

end

theorem Clause.allSpelled {c : Clause} (h : AllSpelled c.tokens) :
    AllSpelled c.statement.clause.tokens := by
  obtain ⟨purpose, e, closed⟩ := c
  simp only [Clause.tokens, allSpelled_append] at h
  have he := e.allSpelled h.2.1
  cases purpose <;>
    simpa [statement, Purpose.statement, Statement.clause, Clause.tokens, he] using h.1

theorem allSpelled_of_read {source : String} {script : Script} (h : read source = .ok script) :
    AllSpelled (shownTokens script) := by
  obtain ⟨cs, hcs, -, rfl⟩ := readTokens_eq_ok_iff.mp h
  intro t ht
  rw [shownTokens, List.flatMap_map] at ht
  obtain ⟨c, hc, ht⟩ := List.mem_flatMap.mp ht
  refine Clause.allSpelled (fun u hu => ?_) t ht
  have hu : u ∈ tokens source.toList := hcs ▸ List.mem_flatMap_of_mem hc hu
  exact spelled_of_mem_tokens hu

/-- The content that a script reads from the quoted form of a text. -/
def rereadText (hidden : Char → Bool) (s : String) : String :=
  String.ofList (reread hidden s.toList)

variable {hidden : Char → Bool}

theorem rereadText_eq_self_iff (hg : ∀ c, IsGraphic c → hidden c = false) {s : String} :
    rereadText hidden s = s ↔ ∀ c ∈ s.toList, ¬ StaysEscaped hidden c := by
  rw [← reread_eq_self_iff hg, rereadText, ← String.toList_inj, String.toList_ofList]

theorem rereadText_rereadText (hg : ∀ c, IsGraphic c → hidden c = false) (s : String) :
    rereadText hidden (rereadText hidden s) = rereadText hidden s := by
  rw [rereadText, rereadText, String.toList_ofList, reread_reread hg]

/-- The texts of a list after its first. -/
def moreTexts (ts : List String) : List Char :=
  ts.flatMap fun t => ',' :: ' ' :: t.toList

theorem toList_intercalate (t : String) (ts : List String) :
    (", ".intercalate (t :: ts)).toList = t.toList ++ moreTexts ts := by
  induction ts generalizing t with
  | nil => simp [moreTexts]
  | cons u ts ih =>
    rw [String.intercalate_cons_cons, String.toList_append, String.toList_append, ih]
    simp [moreTexts]

theorem stops_moreTexts (ts : List String) {rest : List Char} (h : Stops rest) :
    Stops (moreTexts ts ++ rest) := by
  cases ts with
  | nil => exact h
  | cons t ts => exact stops_mark .comma _

theorem tokens_moreTexts_cons (t : String) (ts : List String) (rest : List Char) :
    tokens (moreTexts (t :: ts) ++ rest) =
      .mark .comma :: tokens (t.toList ++ (moreTexts ts ++ rest)) := by
  have ht : moreTexts (t :: ts) ++ rest =
      Mark.comma.char :: ' ' :: (t.toList ++ (moreTexts ts ++ rest)) := by
    simp [moreTexts, Mark.char]
  rw [ht, tokens_mark, tokens_blank rfl]

theorem tokens_pair {k v : Expr} {kts vts : List Token} {rest : List Char}
    (hk : ∀ {rest}, Stops rest → tokens ((k.text hidden).toList ++ rest) = kts ++ tokens rest)
    (hv : tokens ((v.text hidden).toList ++ rest) = vts ++ tokens rest) :
    tokens ((k.text hidden ++ ": " ++ v.text hidden).toList ++ rest) =
      kts ++ .mark .colon :: (vts ++ tokens rest) := by
  have ht : (k.text hidden ++ ": " ++ v.text hidden).toList ++ rest =
      (k.text hidden).toList ++ Mark.colon.char :: ' ' :: ((v.text hidden).toList ++ rest) := by
    simp [Mark.char]
  rw [ht, hk (stops_mark .colon _), tokens_mark, tokens_blank rfl, hv]

mutual

theorem Expr.tokens_text : ∀ (e : Expr) {rest : List Char}, AllSpelled e.phrase.tokens →
    Stops rest → tokens ((e.text hidden).toList ++ rest) =
      (e.mapLiterals (rereadText hidden)).phrase.tokens ++ tokens rest
  | .name s, _, h, hs => by
    simp only [Expr.phrase, Phrase.tokens_mk_nil, Primary.tokens, allSpelled_cons] at h
    exact tokens_name h.1 hs
  | .int n, _, _, hs => tokens_numeral n.toInt hs
  | .str s, rest, _, _ => tokens_quoted s rest
  | .bool true, _, _, hs => tokens_keyword .true hs
  | .bool false, _, _, hs => tokens_keyword .false hs
  | .null, _, _, hs => tokens_keyword .null hs
  | .array es, rest, h, _ => by
    simp only [Expr.phrase, Phrase.tokens_mk_nil, Primary.tokens, allSpelled_append,
      allSpelled_cons] at h
    have ht : ((Expr.array es).text hidden).toList ++ rest = Mark.openBracket.char ::
        ((", ".intercalate (Expr.texts hidden es)).toList ++ Mark.closeBracket.char :: rest) := by
      simp [Expr.text, Mark.char]
    rw [ht, tokens_mark, Expr.tokens_items es h.2.1 (stops_mark .closeBracket rest), tokens_mark]
    simp [Expr.mapLiterals, Expr.phrase, Primary.tokens]
  | .hash [], rest, _, _ => by
    have ht : ((Expr.hash []).text hidden).toList ++ rest =
        Mark.openBrace.char :: Mark.closeBrace.char :: rest := by
      simp [Expr.text, Expr.pairTexts, Mark.char]
    rw [ht, tokens_mark, tokens_mark]
    simp [Expr.mapLiterals, Expr.mapPairs, Expr.phrase, Primary.tokens]
  | .hash ((k, v) :: ps), rest, h, _ => by
    simp only [Expr.phrase, Phrase.tokens_mk_nil, Primary.tokens, allSpelled_append,
      allSpelled_cons] at h
    obtain ⟨-, hk, -, hv, hp, -⟩ := h
    have ht : ((Expr.hash ((k, v) :: ps)).text hidden).toList ++ rest = Mark.openBrace.char ::
        ((k.text hidden ++ ": " ++ v.text hidden).toList ++
          (moreTexts (Expr.pairTexts hidden ps) ++ Mark.closeBrace.char :: rest)) := by
      rw [Expr.text, Expr.pairTexts, String.toList_append, String.toList_append,
        toList_intercalate]
      simp [Mark.char]
    have hs := stops_mark .closeBrace rest
    rw [ht, tokens_mark, tokens_pair (Expr.tokens_text k hk)
      (Expr.tokens_text v hv (stops_moreTexts _ hs)), Expr.tokens_morePairs ps hp hs, tokens_mark]
    simp [Expr.mapLiterals, Expr.mapPairs, Expr.phrase, Primary.tokens, closeHash]
  | .call f args, rest, h, _ => by
    simp only [Expr.phrase, Phrase.tokens_call, allSpelled_append, allSpelled_cons] at h
    obtain ⟨hf, -, ha, -⟩ := h
    have ht : ((Expr.call f args).text hidden).toList ++ rest =
        (f.text hidden).toList ++ Mark.openParen.char ::
          ((", ".intercalate (Expr.texts hidden args)).toList ++ Mark.closeParen.char :: rest) := by
      simp [Expr.text, Mark.char]
    rw [ht, Expr.tokens_text f hf (stops_mark .openParen _), tokens_mark,
      Expr.tokens_items args ha (stops_mark .closeParen rest), tokens_mark]
    simp [Expr.mapLiterals, Expr.phrase, Phrase.tokens_call]

theorem Expr.tokens_items : ∀ (es : List Expr) {rest : List Char},
    AllSpelled (Phrase.itemTokens (Expr.phrases es)) → Stops rest →
      tokens ((", ".intercalate (Expr.texts hidden es)).toList ++ rest) =
        Phrase.itemTokens (Expr.phrases (Expr.mapList (rereadText hidden) es)) ++ tokens rest
  | [], _, _, _ => rfl
  | e :: es, _, h, hs => by
    simp only [Expr.phrases, Phrase.itemTokens, allSpelled_append] at h
    rw [Expr.texts, toList_intercalate, List.append_assoc,
      Expr.tokens_text e h.1 (stops_moreTexts _ hs), Expr.tokens_moreItems es h.2 hs,
      Expr.mapList, Expr.phrases, Phrase.itemTokens, List.append_assoc]

theorem Expr.tokens_moreItems : ∀ (es : List Expr) {rest : List Char},
    AllSpelled (Phrase.moreItemTokens (Expr.phrases es)) → Stops rest →
      tokens (moreTexts (Expr.texts hidden es) ++ rest) =
        Phrase.moreItemTokens (Expr.phrases (Expr.mapList (rereadText hidden) es)) ++ tokens rest
  | [], _, _, _ => rfl
  | e :: es, _, h, hs => by
    simp only [Expr.phrases, Phrase.moreItemTokens, allSpelled_cons, allSpelled_append] at h
    rw [Expr.texts, tokens_moreTexts_cons, Expr.tokens_text e h.2.1 (stops_moreTexts _ hs),
      Expr.tokens_moreItems es h.2.2 hs]
    simp [Expr.mapList, Expr.phrases, Phrase.moreItemTokens]

theorem Expr.tokens_morePairs : ∀ (ps : List (Expr × Expr)) {rest : List Char},
    AllSpelled (Phrase.morePairTokens (Expr.pairPhrases ps)) → Stops rest →
      tokens (moreTexts (Expr.pairTexts hidden ps) ++ rest) =
        Phrase.morePairTokens (Expr.pairPhrases (Expr.mapPairs (rereadText hidden) ps)) ++
          tokens rest
  | [], _, _, _ => rfl
  | (k, v) :: ps, _, h, hs => by
    simp only [Expr.pairPhrases, Phrase.morePairTokens, allSpelled_cons, allSpelled_append] at h
    obtain ⟨-, hk, -, hv, hp⟩ := h
    rw [Expr.pairTexts, tokens_moreTexts_cons, tokens_pair (Expr.tokens_text k hk)
      (Expr.tokens_text v hv (stops_moreTexts _ hs)), Expr.tokens_morePairs ps hp hs]
    simp [Expr.mapPairs, Expr.pairPhrases, Phrase.morePairTokens]

end

theorem Expr.tokens_line (e : Expr) (h : AllSpelled e.phrase.tokens) (rest : List Char) :
    tokens ((e.text hidden).toList ++ Mark.semicolon.char :: '\n' :: rest) =
      (e.mapLiterals (rereadText hidden)).phrase.tokens ++ .mark .semicolon :: tokens rest := by
  rw [e.tokens_text h (stops_mark .semicolon _), tokens_mark, tokens_blank rfl]

theorem Statement.tokens_text {s : Statement} (h : AllSpelled s.clause.tokens)
    (rest : List Char) : tokens ((s.text hidden).toList ++ '\n' :: rest) =
      (s.mapLiterals (rereadText hidden)).clause.tokens ++ tokens rest := by
  cases s with
  | binding name e =>
    simp only [clause, Clause.tokens, Purpose.tokens, allSpelled_append, allSpelled_cons] at h
    obtain ⟨⟨-, hn, -⟩, he, -⟩ := h
    have ht : ((Statement.binding name e).text hidden).toList ++ '\n' :: rest =
        Keyword.bind.text.toList ++ ' ' :: (name.toList ++ ' ' :: Mark.equals.char :: ' ' ::
          ((e.text hidden).toList ++ Mark.semicolon.char :: '\n' :: rest)) := by
      simp [Statement.text, Keyword.text, Mark.char]
    rw [ht, tokens_keyword .bind (stops_space _), tokens_blank rfl, tokens_name hn (stops_space _),
      tokens_blank rfl, tokens_mark, tokens_blank rfl, e.tokens_line he]
    simp [mapLiterals, clause, Clause.tokens, Purpose.tokens]
  | result e =>
    simp only [clause, Clause.tokens, Purpose.tokens, allSpelled_append, allSpelled_cons] at h
    have ht : ((Statement.result e).text hidden).toList ++ '\n' :: rest =
        Keyword.result.text.toList ++ ' ' ::
          ((e.text hidden).toList ++ Mark.semicolon.char :: '\n' :: rest) := by
      simp [Statement.text, Keyword.text, Mark.char]
    rw [ht, tokens_keyword .result (stops_space _), tokens_blank rfl, e.tokens_line h.2.1]
    simp [mapLiterals, clause, Clause.tokens, Purpose.tokens]
  | expr e =>
    simp only [clause, Clause.tokens, Purpose.tokens, allSpelled_append] at h
    have ht : ((Statement.expr e).text hidden).toList ++ '\n' :: rest =
        (e.text hidden).toList ++ Mark.semicolon.char :: '\n' :: rest := by
      simp [Statement.text, Mark.char]
    rw [ht, e.tokens_line h.2.1]
    simp [mapLiterals, clause, Clause.tokens, Purpose.tokens]

theorem tokens_text {script : Script} (h : AllSpelled (shownTokens script)) :
    tokens (text hidden script).toList = shownTokens (mapLiterals (rereadText hidden) script) := by
  induction script with
  | nil => exact tokens_of_nextToken_none rfl
  | cons s script ih =>
    rw [shownTokens, List.flatMap_cons, allSpelled_append] at h
    have ht : (text hidden (s :: script)).toList =
        (s.text hidden).toList ++ '\n' :: (text hidden script).toList := by
      simp [text]
    rw [ht, Statement.tokens_text h.1, ih h.2]
    rfl

theorem read_text_of_read {source : String} {script : Script} (h : read source = .ok script) :
    read (text hidden script) = .ok (mapLiterals (rereadText hidden) script) := by
  rw [read, tokens_text (allSpelled_of_read h), readTokens_shownTokens]

/--
The text of a script that was read is read as that script, but for the characters in its strings
that no script reads from their escapes: these turn into their escapes. A second time nothing
changes any more. Any characters may be written by number but the visible ones of ASCII, which the
escapes themselves are spelled with.
-/
theorem read_text_round_trip (hg : ∀ c, IsGraphic c → hidden c = false) {source : String}
    {script : Script} (h : read source = .ok script) :
    read (text hidden script) = .ok (mapLiterals (rereadText hidden) script) ∧
    (read (text hidden script) = .ok script ↔
      ∀ s ∈ literals script, ∀ c ∈ s.toList, ¬ StaysEscaped hidden c) ∧
    read (text hidden (mapLiterals (rereadText hidden) script)) =
      .ok (mapLiterals (rereadText hidden) script) := by
  have ht := @read_text_of_read hidden _ _ h
  refine ⟨ht, ?_, ?_⟩
  · rw [ht, Except.ok.injEq, mapLiterals_eq_self_iff]
    simp only [rereadText_eq_self_iff hg]
  · have hi : mapLiterals (rereadText hidden) (mapLiterals (rereadText hidden) script) =
        mapLiterals (rereadText hidden) script := by
      rw [mapLiterals_eq_self_iff, literals_mapLiterals]
      simp [rereadText_rereadText hg]
    rw [read_text_of_read ht, hi]

/-- A combining accent turns into its escape, once; all else is read as it was. -/
theorem read_text_round_trip_accent :
    let shown : Script := [.binding "f" (.int 7), .expr (.call (.call (.name "f") [.int (-9)])
      [.hash [(.str "e\u0301\n\\x", .array [.null])]])]
    let again : Script := [.binding "f" (.int 7), .expr (.call (.call (.name "f") [.int (-9)])
      [.hash [(.str "e\\u\x7b301\x7d\n\\x", .array [.null])]])]
    read "let f = 007 f(-9)(\x7b\"e\u0301\\n\\x\": ([null]),\x7d)" = .ok shown ∧
      read (text isHidden shown) = .ok again ∧ read (text isHidden shown) ≠ .ok shown ∧
      read (text isHidden again) = .ok again := by
  intro shown again
  have h : read "let f = 007 f(-9)(\x7b\"e\u0301\\n\\x\": ([null]),\x7d)" = .ok shown := by cbv
  have ha : mapLiterals (rereadText isHidden) shown = again := by rfl
  obtain ⟨ht, hi, hr⟩ := read_text_round_trip (fun _ => isHidden_eq_false_of_isGraphic) h
  rw [ha] at ht hr
  refine ⟨h, ht, ?_, hr⟩
  intro hs
  exact hi.mp hs "e\u0301\n\\x" (List.mem_singleton_self _) '\u0301' (by decide)
    (.inr (.inr rfl))

end Wanda.Script

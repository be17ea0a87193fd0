import Wanda.Proofs.Script.Cursor
import Mathlib

/-!
A text is cut into lexemes with trivia around them, and there is one way to do it. A lexeme spells
its token and is as long as it can be; together with the trivia the lexemes are the whole text, so
that no character is lost, read twice or moved. Reading token by token walks through this cut from
left to right and stays at the end of the text once it is there.
-/
namespace Wanda.Script
open Text

/-- Blanks and comments, before the given rest of the text. A comment ends before the next newline
or where the text ends. -/
inductive Trivia : List Char → List Char → Prop
  | nil {rest : List Char} : Trivia [] rest
  | blank {c : Char} {cs rest : List Char} :
      isBlank c = true → Trivia cs rest → Trivia (c :: cs) rest
  | comment (body : List Char) {cs rest : List Char} :
      '\n' ∉ body → (∀ c ∈ (cs ++ rest).head?, c = '\n') → Trivia cs rest →
      Trivia ('#' :: (body ++ cs)) rest

/-- What a backslash before the character stands for. -/
inductive Escape : Char → List Char → Prop
  | newline : Escape 'n' ['\n']
  | tab : Escape 't' ['\t']
  | quote : Escape '"' ['"']
  | backslash : Escape '\\' ['\\']
  | other {c : Char} : c ∉ ['n', 't', '"', '\\'] → Escape c ['\\', c]

/-- A stretch of a string without an unescaped quote, and what it says. -/
inductive Quotes : List Char → List Char → Prop
  | nil : Quotes [] []
  | plain {c : Char} {body content : List Char} :
      c ≠ '"' → c ≠ '\\' → Quotes body content → Quotes (c :: body) (c :: content)
  | escape {c : Char} {meaning body content : List Char} :
      Escape c meaning → Quotes body content →
      Quotes ('\\' :: c :: body) (meaning ++ content)

/-- More than a lone character can start at the character, given what follows it. -/
inductive Starts : Char → List Char → Prop
  | blank {c : Char} {cs : List Char} : isBlank c = true → Starts c cs
  | comment {cs : List Char} : Starts '#' cs
  | mark (m : Mark) {cs : List Char} : Starts m.char cs
  | quote {cs : List Char} : Starts '"' cs
  | name {c : Char} {cs : List Char} : isNameStart c = true → Starts c cs
  | digit {c : Char} {cs : List Char} : c.isDigit = true → Starts c cs
  | minus {d : Char} {cs : List Char} : d.isDigit = true → Starts '-' (d :: cs)

/-- How a token is spelled before the given rest of the text. -/
inductive Lexeme : List Char → Token → List Char → Prop
  | mark (m : Mark) {rest : List Char} : Lexeme [m.char] (.mark m) rest
  | keyword (k : Keyword) {rest : List Char} :
      Stops rest → Lexeme k.text.toList (.keyword k) rest
  | name {s : String} {rest : List Char} :
      isRun s = true → (∀ k : Keyword, s ≠ k.text) → Stops rest → Lexeme s.toList (.name s) rest
  | numeral (sign : List Char) {digits rest : List Char} :
      sign ∈ [[], ['-']] → digits ≠ [] → (∀ d ∈ digits, d.isDigit = true) →
      (∀ c ∈ rest.head?, c.isDigit = false) →
      Lexeme (sign ++ digits) (.int (String.ofList (sign ++ digits))) rest
  | string {body content rest : List Char} :
      Quotes body content → Lexeme ('"' :: (body ++ ['"'])) (.str (String.ofList content)) rest
  | lone {c : Char} {rest : List Char} :
      ¬ Starts c rest → Lexeme [c] (.illegal (String.singleton c)) rest
  /-- A string that the text ends in, maybe between a backslash and what it would escape. -/
  | unclosed {body content tail : List Char} :
      Quotes body content → tail ∈ [[], ['\\']] →
      Lexeme ('"' :: (body ++ tail)) (.illegal (String.ofList ('"' :: (content ++ tail)))) []

/-- The text consists of lexemes of the tokens, in order, with trivia around them. -/
inductive Cut : List Char → List Token → Prop
  | done {cs : List Char} : Trivia cs [] → Cut cs []
  | token {trivia lexeme rest : List Char} {t : Token} {ts : List Token} :
      Trivia trivia (lexeme ++ rest) → Lexeme lexeme t rest → Cut rest ts →
      Cut (trivia ++ (lexeme ++ rest)) (t :: ts)

theorem skipTrivia_comment {body : List Char} (h : '\n' ∉ body) (cs : List Char) :
    skipTrivia true (body ++ cs) = skipTrivia true cs := by
  induction body with
  | nil => rfl
  | cons c body ih =>
    rw [List.mem_cons, not_or] at h
    have hc : c ≠ '\n' := Ne.symm h.1
    simp [skipTrivia, hc, ih h.2]

theorem skipTrivia_lineEnd {cs : List Char} (h : ∀ c ∈ cs.head?, c = '\n') :
    skipTrivia true cs = skipTrivia false cs := by
  cases cs with
  | nil => rfl
  | cons c cs =>
    obtain rfl := h c rfl
    rfl

theorem Trivia.skipTrivia_append {trivia rest : List Char} (h : Trivia trivia rest) :
    skipTrivia false (trivia ++ rest) = skipTrivia false rest := by
  induction h with
  | nil => rfl
  | blank hb _ ih => simpa [skipTrivia, hb] using ih
  | @comment body cs rest hn hl _ ih =>
    calc skipTrivia false ('#' :: (body ++ cs) ++ rest)
      _ = skipTrivia true (body ++ (cs ++ rest)) := by rw [← List.append_assoc]; rfl
      _ = skipTrivia true (cs ++ rest) := skipTrivia_comment hn _
      _ = skipTrivia false (cs ++ rest) := skipTrivia_lineEnd hl
      _ = skipTrivia false rest := ih

theorem Trivia.comment_cons {c : Char} {cs rest : List Char} (hc : c ≠ '\n')
    (h : Trivia ('#' :: cs) rest) : Trivia ('#' :: c :: cs) rest := by
  cases h with
  | blank hb => cases hb
  | @comment body cs _ hn hl ht =>
    have hn : '\n' ∉ c :: body := by simp [hn, Ne.symm hc]
    exact .comment (c :: body) hn hl ht

/-- What is skipped is trivia; in a comment, it is once the comment is opened. -/
theorem exists_trivia (comment : Bool) (cs : List Char) : ∃ trivia,
    cs = trivia ++ skipTrivia comment cs ∧
      Trivia (if comment then '#' :: trivia else trivia) (skipTrivia comment cs) := by
  induction cs generalizing comment with
  | nil =>
    refine ⟨[], rfl, ?_⟩
    cases comment with
    | false => exact .nil
    | true => exact .comment [] (by simp) (by simp [skipTrivia]) .nil
  | cons c cs ih =>
    cases comment with
    | true =>
      obtain ⟨trivia, he, ht⟩ := ih (c ≠ '\n')
      refine ⟨c :: trivia, congrArg (c :: ·) he, ?_⟩
      by_cases hc : c = '\n'
      · subst hc
        exact .comment [] (by simp) (by simp) (.blank rfl ht)
      · rw [decide_eq_true hc] at ht
        simpa [skipTrivia, hc] using ht.comment_cons hc
    | false =>
      by_cases hb : isBlank c = true
      · obtain ⟨trivia, he, ht⟩ := ih false
        have hs : skipTrivia false (c :: cs) = skipTrivia false cs := by simp [skipTrivia, hb]
        rw [hs]
        exact ⟨c :: trivia, congrArg (c :: ·) he, .blank hb ht⟩
      by_cases hc : c = '#'
      · obtain ⟨trivia, he, ht⟩ := ih true
        subst hc
        exact ⟨'#' :: trivia, congrArg ('#' :: ·) he, ht⟩
      · have hs : skipTrivia false (c :: cs) = c :: cs := by simp [skipTrivia, hb, hc]
        rw [hs]
        exact ⟨[], rfl, .nil⟩

theorem skipTrivia_head {comment : Bool} {cs rest : List Char} {c : Char}
    (h : skipTrivia comment cs = c :: rest) : isBlank c = false ∧ c ≠ '#' := by
  fun_induction skipTrivia comment cs with
  | case1 => cases h
  | case2 _ _ ih => exact ih h
  | case3 _ _ _ _ _ ih => exact ih h
  | case4 _ _ _ _ ih => exact ih h
  | case5 _ _ _ _ hb hc =>
    cases h
    exact ⟨Bool.eq_false_of_not_eq_true hb, hc⟩

theorem escape_iff {c : Char} {meaning : List Char} :
    Escape c meaning ↔ unescape c = meaning := by
  constructor
  · intro h
    cases h with
    | newline => rfl
    | tab => rfl
    | quote => rfl
    | backslash => rfl
    | other hc =>
      simp only [List.mem_cons, List.not_mem_nil, or_false, not_or] at hc
      simp [unescape, hc]
  · rintro rfl
    unfold unescape
    split_ifs with hn ht hq
    · exact hn ▸ .newline
    · exact ht ▸ .tab
    · rcases hq with rfl | rfl
      · exact .quote
      · exact .backslash
    · exact .other (by simp_all)

theorem Quotes.stringBody_append {body content : List Char} (h : Quotes body content)
    (rest : List Char) :
    stringBody (body ++ rest) = (content ++ (stringBody rest).1, (stringBody rest).2) := by
  induction h with
  | nil => rfl
  | @plain c body content hq hb _ ih =>
    have hc : ∀ d ∈ [c], d ≠ '"' ∧ d ≠ '\\' := by simp [hq, hb]
    have hs := stringBody_plain hc (body ++ rest)
    rw [ih] at hs
    exact hs
  | @escape c meaning body content he _ ih =>
    rw [List.cons_append, List.cons_append, stringBody_backslash, ih, escape_iff.mp he,
      List.append_assoc]

/-- Every text says something up to its first unescaped quote, or up to its end. -/
theorem exists_quotes (cs : List Char) : ∃ body content tail, cs = body ++ tail ∧
    Quotes body content ∧ (tail ∈ [[], ['\\']] ∨ ∃ rest, tail = '"' :: rest) := by
  fun_induction stringBody cs with
  | case1 => exact ⟨[], [], [], rfl, .nil, by simp⟩
  | case2 => exact ⟨[], [], ['\\'], rfl, .nil, by simp⟩
  | case3 c cs _ _ _ ih =>
    obtain ⟨body, content, tail, rfl, hq, ht⟩ := ih
    exact ⟨_, _, tail, rfl, .escape (escape_iff.mpr rfl) hq, ht⟩
  | case4 cs => exact ⟨[], [], '"' :: cs, rfl, .nil, .inr ⟨cs, rfl⟩⟩
  | case5 c cs hl he hc _ _ _ ih =>
    have hb : c ≠ '\\' := by
      rintro rfl
      cases cs with
      | nil => exact hl rfl rfl
      | cons d cs => exact he d cs rfl rfl
    obtain ⟨body, content, tail, rfl, hq, ht⟩ := ih
    exact ⟨_, _, tail, rfl, .plain hc hb hq, ht⟩

theorem Trivia.nextToken_append {trivia rest : List Char} (h : Trivia trivia rest) :
    nextToken (trivia ++ rest) = nextToken rest := by
  rw [nextToken, nextToken, h.skipTrivia_append]

theorem Mark.char_of_ofChar? {c : Char} {m : Mark} (h : Mark.ofChar? c = some m) : m.char = c := by
  simpa using List.find?_some h

theorem Keyword.text_of_ofText? {s : String} {k : Keyword} (h : Keyword.ofText? s = some k) :
    k.text = s := by
  simpa using List.find?_some h

theorem Keyword.ofText?_eq_none_iff {s : String} :
    Keyword.ofText? s = none ↔ ∀ k : Keyword, s ≠ k.text := by
  rw [Keyword.ofText?, List.find?_eq_none]
  constructor
  · intro h k
    have hk : k ∈ Keyword.all := by cases k <;> decide
    simpa [eq_comm] using h k hk
  · intro h k _
    simpa [eq_comm] using h k

theorem starts_of_startsNumeral {c : Char} {cs : List Char} (h : startsNumeral c cs = true) :
    Starts c cs := by
  simp only [startsNumeral, Bool.or_eq_true, Bool.and_eq_true, decide_eq_true_eq] at h
  rcases h with hd | ⟨rfl, hd⟩
  · exact .digit hd
  · cases cs with
    | nil => cases hd
    | cons d cs => exact .minus hd

theorem nextToken_lone {c : Char} {cs : List Char} (h : ¬ Starts c cs) :
    nextToken (c :: cs) = (some (.illegal (String.singleton c)), cs) := by
  have hb : isBlank c = false := Bool.eq_false_of_not_eq_true fun hb => h (.blank hb)
  have hc : c ≠ '#' := by
    rintro rfl
    exact h .comment
  have hm : Mark.ofChar? c = none := by
    cases hm : Mark.ofChar? c with
    | none => rfl
    | some m => exact absurd (Mark.char_of_ofChar? hm ▸ .mark m) h
  have hq : c ≠ '"' := by
    rintro rfl
    exact h .quote
  have hd : ¬ startsNumeral c cs = true := fun hd => h (starts_of_startsNumeral hd)
  have hn : ¬ isNameStart c = true := fun hn => h (.name hn)
  rw [nextToken_cons cs hb hc, firstToken, hm]
  simp only [if_neg hq, if_neg hd, if_neg hn]

/-- A lexeme is read as its token, and nothing after it is touched. -/
theorem Lexeme.nextToken_append {lexeme rest : List Char} {t : Token} (h : Lexeme lexeme t rest) :
    nextToken (lexeme ++ rest) = (some t, rest) := by
  cases h with
  | mark m => exact nextToken_mark m rest
  | keyword k hs => exact nextToken_keyword k hs
  | name hr hk hs => exact nextToken_name ⟨hr, Keyword.ofText?_eq_none_iff.mpr hk⟩ hs
  | numeral sign hs hn hd hr => exact nextToken_numeral hs hn hd hr
  | @string body content _ hq =>
    rw [List.cons_append, List.append_assoc, nextToken_quote, hq.stringBody_append]
    simp [stringBody]
  | lone hc => exact nextToken_lone hc
  | @unclosed body content tail hq ht =>
    rw [List.append_nil, nextToken_quote, hq.stringBody_append]
    simp only [List.mem_cons, List.not_mem_nil, or_false] at ht
    rcases ht with rfl | rfl
    · simp [stringBody]
    · simp [stringBody]

theorem lexeme_ofRun {s : String} {rest : List Char} (hr : isRun s = true) (hs : Stops rest) :
    Lexeme s.toList (.ofRun s) rest := by
  unfold Token.ofRun
  split
  case h_1 k hk =>
    obtain rfl := Keyword.text_of_ofText? hk
    exact .keyword k hs
  case h_2 hk => exact .name hr (Keyword.ofText?_eq_none_iff.mp hk) hs

theorem exists_lexeme_numeral (sign : List Char) (hs : sign ∈ [[], ['-']]) {d : Char}
    (hd : d.isDigit = true) (cs : List Char) :
    ∃ lexeme t rest, sign ++ d :: cs = lexeme ++ rest ∧ Lexeme lexeme t rest := by
  have hds : ∀ c ∈ d :: cs.takeWhile Char.isDigit, c.isDigit = true := by
    intro c hc
    rcases List.mem_cons.mp hc with rfl | hc
    · exact hd
    · exact List.mem_takeWhile_imp hc
  refine ⟨_, _, cs.dropWhile Char.isDigit, ?_,
    .numeral sign hs (List.cons_ne_nil d _) hds fun c hc => head?_dropWhile_eq_false hc⟩
  simp [List.takeWhile_append_dropWhile]

/-- Where no trivia starts, a lexeme does. -/
theorem exists_lexeme {c : Char} (hb : isBlank c = false) (hc : c ≠ '#') (cs : List Char) :
    ∃ lexeme t rest, c :: cs = lexeme ++ rest ∧ Lexeme lexeme t rest := by
  by_cases h : Starts c cs
  case neg => exact ⟨[c], _, cs, rfl, .lone h⟩
  cases h with
  | blank ht =>
    rw [hb] at ht
    cases ht
  | comment => exact absurd rfl hc
  | mark m => exact ⟨[m.char], _, cs, rfl, .mark m⟩
  | quote =>
    obtain ⟨body, content, tail, rfl, hq, ht | ⟨rest, rfl⟩⟩ := exists_quotes cs
    · exact ⟨_, _, [], (List.append_nil _).symm, .unclosed hq ht⟩
    · exact ⟨'"' :: (body ++ ['"']), _, rest, by simp, .string hq⟩
  | name hn =>
    have hr : isRun (String.ofList (c :: cs.takeWhile isNameRest)) = true := by simp [isRun, hn]
    refine ⟨_, _, cs.dropWhile isNameRest, ?_,
      lexeme_ofRun hr fun d hd => head?_dropWhile_eq_false hd⟩
    simp [List.takeWhile_append_dropWhile]
  | digit hd => exact exists_lexeme_numeral [] (by simp) hd cs
  | minus hd => exact exists_lexeme_numeral ['-'] (by simp) hd _

/-- All that one reading can do. -/
theorem nextToken_cases (cs : List Char) : (Trivia cs [] ∧ nextToken cs = (none, [])) ∨
    ∃ trivia lexeme t rest, cs = trivia ++ (lexeme ++ rest) ∧ Trivia trivia (lexeme ++ rest) ∧
      Lexeme lexeme t rest ∧ nextToken cs = (some t, rest) := by
  obtain ⟨trivia, he, ht⟩ := exists_trivia false cs
  cases hs : skipTrivia false cs with
  | nil =>
    rw [hs, List.append_nil] at he
    obtain rfl := he
    refine .inl ⟨hs ▸ ht, ?_⟩
    rw [nextToken, hs]
  | cons c rest =>
    obtain ⟨hb, hc⟩ := skipTrivia_head hs
    obtain ⟨lexeme, t, rest, hl, hx⟩ := exists_lexeme hb hc rest
    rw [hs, hl] at he ht
    subst he
    exact .inr ⟨trivia, lexeme, t, rest, rfl, ht, hx,
      (Trivia.nextToken_append ht).trans hx.nextToken_append⟩

theorem Cut.tokens_eq {cs : List Char} {ts : List Token} (h : Cut cs ts) : tokens cs = ts := by
  induction h with
  | @done cs ht =>
    have hn := ht.nextToken_append
    rw [List.append_nil] at hn
    exact tokens_of_nextToken_none hn
  | token ht hl _ ih =>
    rw [tokens_of_nextToken (ht.nextToken_append.trans hl.nextToken_append), ih]

theorem Cut.length_le {cs : List Char} {ts : List Token} (h : Cut cs ts) :
    ts.length ≤ cs.length := by
  induction h with
  | done => exact Nat.zero_le _
  | token ht hl _ ih =>
    have hr := length_lt_of_nextToken (ht.nextToken_append.trans hl.nextToken_append)
    exact Nat.lt_of_le_of_lt ih hr

theorem cut_tokens (cs : List Char) : Cut cs (tokens cs) := by
  induction hn : cs.length using Nat.strong_induction_on generalizing cs with
  | h n ih =>
    rcases nextToken_cases cs with ⟨ht, -⟩ | ⟨trivia, lexeme, t, rest, he, ht, hl, hr⟩
    · have hc := Cut.done ht
      rwa [hc.tokens_eq]
    · rw [tokens_of_nextToken hr]
      have hc := ih rest.length (hn ▸ length_lt_of_nextToken hr) rest rfl
      rw [he]
      exact .token ht hl hc

theorem head?_tokens (cs : List Char) : (tokens cs).head? = (nextToken cs).1 := by
  rcases nextToken_cases cs with ⟨ht, hr⟩ | ⟨_, _, t, rest, -, -, -, hr⟩
  · rw [hr, (Cut.done ht).tokens_eq]
    rfl
  · rw [hr, tokens_of_nextToken hr]
    rfl

theorem tail_tokens (cs : List Char) : (tokens cs).tail = tokens (nextToken cs).2 := by
  rcases nextToken_cases cs with ⟨ht, hr⟩ | ⟨_, _, t, rest, -, -, -, hr⟩
  · rw [hr, (Cut.done ht).tokens_eq, (Cut.done .nil).tokens_eq]
    rfl
  · rw [hr, tokens_of_nextToken hr]
    rfl

theorem nextToken_suffix (cs : List Char) : (nextToken cs).2 <:+ cs := by
  rcases nextToken_cases cs with ⟨-, hr⟩ | ⟨trivia, lexeme, t, rest, rfl, -, -, hr⟩
  · rw [hr]
    exact List.nil_suffix
  · rw [hr, ← List.append_assoc]
    exact List.suffix_append _ rest

/-- What is left of the text after so many readings. -/
def unread (cs : List Char) : ℕ → List Char
  | 0 => cs
  | k + 1 => (nextToken (unread cs k)).2

theorem tokens_unread (cs : List Char) (k : ℕ) : tokens (unread cs k) = (tokens cs).drop k := by
  induction k with
  | zero => rfl
  | succ k ih => rw [unread, ← tail_tokens, ih, List.tail_drop]

theorem unread_suffix (cs : List Char) (k : ℕ) : unread cs k <:+ cs := by
  induction k with
  | zero => exact List.suffix_rfl
  | succ k ih => exact (nextToken_suffix _).trans ih

/-- The cursor after so many readings. -/
def Cursor.after (c : Cursor) : ℕ → Option Cursor
  | 0 => some c
  | k + 1 => (c.after k).bind fun d => d.next.map Prod.snd

theorem Cursor.exists_after (cs : List Char) (k : ℕ) :
    ∃ c, (Cursor.start cs).after k = some c ∧ c.text = cs ∧ c.rest = unread cs k := by
  induction k with
  | zero => exact ⟨_, rfl, rfl, rfl⟩
  | succ k ih =>
    obtain ⟨c, hc, ht, hr⟩ := ih
    obtain ⟨next, hn, hnt, hnr, -⟩ := c.exists_next
    refine ⟨next, ?_, hnt.trans ht, ?_⟩
    · rw [after, hc, Option.bind_some, hn]
      rfl
    · rw [hnr, hr, unread]

/-- The tokens of a text are those of its one cut into lexemes and trivia, and there are no more of
them than characters. Each reading gives the next of them, and none once there are no more; it
leaves an end of what it found, which is cut into the tokens still to come. Read by position, the
text gives the same tokens: no reading steps back from the first character, and each one ends
further on. -/
theorem tokens_cut_text (cs : List Char) :
    (∀ ts, Cut cs ts ↔ tokens cs = ts) ∧ (tokens cs).length ≤ cs.length ∧
      ∀ k, (nextToken (unread cs k)).1 = (tokens cs)[k]? ∧
        Cut (unread cs k) ((tokens cs).drop k) ∧
        unread cs (k + 1) <:+ unread cs k ∧ unread cs k <:+ cs ∧
        ∃ c next, (Cursor.start cs).after k = some c ∧ c.text = cs ∧ c.rest = unread cs k ∧
          c.next = some ((tokens cs)[k]?, next) ∧ c.position < next.position := by
  have hc := cut_tokens cs
  refine ⟨fun ts => ⟨Cut.tokens_eq, fun h => h ▸ hc⟩, hc.length_le, fun k => ?_⟩
  have hk := tokens_unread cs k
  have hn : (nextToken (unread cs k)).1 = (tokens cs)[k]? := by
    rw [← head?_tokens, hk, List.head?_drop]
  refine ⟨hn, hk ▸ cut_tokens _, nextToken_suffix _, unread_suffix cs k, ?_⟩
  obtain ⟨c, ha, ht, hr⟩ := Cursor.exists_after cs k
  obtain ⟨next, he, -, -, hlt⟩ := c.exists_next
  rw [hr, hn] at he
  exact ⟨c, next, ha, ht, hr, he, hlt⟩

example : tokens "a-1--2#-3\n_9\"\\\"\\".toList =
    [.name "a", .int "-1", .illegal "-", .int "-2", .name "_9", .illegal "\"\"\\"] := by
  cbv

end Wanda.Script

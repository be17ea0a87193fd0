import Wanda.Proofs.Script.Cutting

/-!
Tokens written out with gaps between them. The text is cut into the same tokens again, whatever
blanks and comments the gaps are made of and whatever stands inside the strings: no gap reaches
into a token, and no token reaches over the gap after it.
-/
namespace Wanda.Script
open Text

/-- Blanks and comments, each comment with the newline that ends it. -/
inductive Gap : List Char → Prop
  | nil : Gap []
  | blank {c : Char} {cs : List Char} : isBlank c = true → Gap cs → Gap (c :: cs)
  | comment (body : List Char) {cs : List Char} :
      '\n' ∉ body → Gap cs → Gap ('#' :: (body ++ '\n' :: cs))

/-- The token is spelled as tokens of its kind are, and a string in it needs no escape but those
that are read. -/
inductive Token.Writable (hidden : Char → Bool) : Token → Prop
  | name {s : String} : isRun s = true → (∀ k : Keyword, s ≠ k.text) → Writable hidden (.name s)
  | int (sign digits : List Char) : sign ∈ [[], ['-']] → digits ≠ [] →
      (∀ d ∈ digits, d.isDigit = true) → Writable hidden (.int (String.ofList (sign ++ digits)))
  | str {s : String} : (∀ c ∈ s.toList, ¬ StaysEscaped hidden c) → Writable hidden (.str s)
  | mark (m : Mark) : Writable hidden (.mark m)
  | keyword (k : Keyword) : Writable hidden (.keyword k)

/-- The texts of tokens with a gap after each, and a gap in front of all. -/
def layOut (hidden : Char → Bool) (front : List Char) (items : List (Token × List Char)) :
    List Char :=
  front ++ items.flatMap fun item => (item.1.text hidden).toList ++ item.2

variable {hidden : Char → Bool}

theorem Trivia.tokens_append {trivia rest : List Char} (h : Trivia trivia rest) :
    tokens (trivia ++ rest) = tokens rest :=
  tokens_congr h.skipTrivia_append

/-- A comment with its newline is over, so it does not matter what comes next. -/
theorem Gap.trivia {gap : List Char} (h : Gap gap) (rest : List Char) : Trivia gap rest := by
  induction h with
  | nil => exact .nil
  | blank hb _ ih => exact .blank hb ih
  | @comment body cs hn _ ih =>
    have hl : ∀ c ∈ ('\n' :: cs ++ rest).head?, c = '\n' := by simp
    exact .comment body hn hl (.blank rfl ih)

theorem isNameRest_eq_false_of_isBlank {c : Char} (h : isBlank c = true) :
    isNameRest c = false := by
  by_contra hr
  rw [Bool.not_eq_false] at hr
  have hg : IsGraphic c := by
    by_cases hd : c.isDigit = true
    · have hb := isDigit_iff_toNat.mp hd
      exact ⟨by omega, by omega⟩
    · have hs : isNameStart c = true := by
        simpa [isNameRest, isNameStart, Char.isAlphanum, hd] using hr
      have hb := toNat_of_isNameStart hs
      exact ⟨by omega, by omega⟩
  rw [hg.isBlank_eq_false] at h
  cases h

/-- No name and no numeral goes on over a gap, or over the end of the text. -/
theorem Gap.stops {gap rest : List Char} (h : Gap gap) (hr : gap = [] → rest = []) :
    Stops (gap ++ rest) := by
  intro c hc
  cases h with
  | nil => simp [hr rfl] at hc
  | blank hb =>
    cases hc
    exact isNameRest_eq_false_of_isBlank hb
  | comment =>
    cases hc
    rfl

/-- The text of a token is read as the token where no name or numeral goes on after it. -/
theorem Token.Writable.tokens_append {t : Token} (h : t.Writable hidden) {rest : List Char}
    (hs : Stops rest) : tokens ((t.text hidden).toList ++ rest) = t :: tokens rest := by
  cases h with
  | name hr hk => exact tokens_name ⟨hr, Keyword.ofText?_eq_none_iff.mpr hk⟩ hs
  | int sign digits hsign hn hd =>
    refine tokens_of_nextToken ?_
    rw [Token.text, String.toList_ofList, nextToken_numeral hsign hn hd hs.isDigit_eq_false]
  | @str s hc =>
    have hq := @tokens_quoted hidden s rest
    rwa [reread_eq_self hc, String.ofList_toList] at hq
  | mark m =>
    rw [Token.text, Mark.text, String.toList_singleton]
    exact tokens_mark m rest
  | keyword k => exact tokens_keyword k hs

theorem tokens_items {items : List (Token × List Char)}
    (hi : ∀ item ∈ items, item.1.Writable hidden ∧ Gap item.2)
    (hs : ∀ item ∈ items.dropLast, item.2 ≠ []) :
    tokens (layOut hidden [] items) = items.map (·.1) := by
  induction items with
  | nil => exact (Cut.done .nil).tokens_eq
  | cons item items ih =>
    rw [List.forall_mem_cons] at hi
    obtain ⟨⟨ht, hg⟩, hi⟩ := hi
    have hlay : layOut hidden [] (item :: items) =
        (item.1.text hidden).toList ++ (item.2 ++ layOut hidden [] items) := by
      simp [layOut]
    have hend : item.2 = [] → layOut hidden [] items = [] := by
      intro he
      cases items with
      | nil => rfl
      | cons next items => exact absurd he (hs item (by simp))
    have hrest : ∀ next ∈ items.dropLast, next.2 ≠ [] := by
      intro next hn
      cases items with
      | nil => cases hn
      | cons second items => exact hs next (List.mem_cons_of_mem _ hn)
    rw [hlay, ht.tokens_append (hg.stops hend), (hg.trivia _).tokens_append, ih hi hrest,
      List.map_cons]

/-- Tokens that are laid out with a gap between any two of them are the tokens of the text. -/
theorem tokens_layOut {front : List Char} {items : List (Token × List Char)} (hf : Gap front)
    (hi : ∀ item ∈ items, item.1.Writable hidden ∧ Gap item.2)
    (hs : ∀ item ∈ items.dropLast, item.2 ≠ []) :
    tokens (layOut hidden front items) = items.map (·.1) := by
  have hlay : layOut hidden front items = front ++ layOut hidden [] items := by simp [layOut]
  rw [hlay, (hf.trivia _).tokens_append, tokens_items hi hs]

/-- A string that looks like a comment and holds escapes, a comment that looks like the start of a
string, and a name that starts with a keyword. -/
def tangled : List (Token × List Char) :=
  [(.str "# \"\\n\n", ['#', '"', '\\', '#', '\n']), (.int "-07", ['\u2028', ' ']),
    (.name "nulls", ['\n']), (.keyword .null, ['\t']), (.mark .colon, [])]

theorem tokens_layOut_tangled :
    (∀ item ∈ tangled, item.1.Writable isHidden ∧ Gap item.2) ∧
      tokens (layOut isHidden ['\r'] tangled) =
        [.str "# \"\\n\n", .int "-07", .name "nulls", .keyword .null, .mark .colon] := by
  have hf : Gap ['\r'] := .blank rfl .nil
  have hstr : (Token.str "# \"\\n\n").Writable isHidden :=
    .str ((reread_eq_self_iff fun _ => isHidden_eq_false_of_isGraphic).mp rfl)
  have hint : (Token.int "-07").Writable isHidden :=
    Token.Writable.int ['-'] ['0', '7'] (by decide) (by decide) (by simp)
  have hname : (Token.name "nulls").Writable isHidden := .name rfl (by intro k; cases k <;> decide)
  have hcomment : Gap ['#', '"', '\\', '#', '\n'] :=
    .comment ['"', '\\', '#'] (by decide) .nil
  have hi : ∀ item ∈ tangled, item.1.Writable isHidden ∧ Gap item.2 := by
    simp only [tangled, List.forall_mem_cons]
    exact ⟨⟨hstr, hcomment⟩, ⟨hint, .blank rfl (.blank rfl .nil)⟩, ⟨hname, .blank rfl .nil⟩,
      ⟨.keyword .null, .blank rfl .nil⟩, ⟨.mark .colon, .nil⟩, by simp⟩
  exact ⟨hi, tokens_layOut hf hi (by decide)⟩

end Wanda.Script

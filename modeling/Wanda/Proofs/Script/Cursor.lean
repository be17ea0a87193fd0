import Wanda.Proofs.Script.Lexing

/-!
Reading tokens by a position in the text. Whatever was read is followed by one step forward, so a
reader that stops before a character steps back from it. There is no step back from the first
character. No reading asks for one, each moves forward, and it gives the next token and leaves the
same text as `nextToken`.
-/
namespace Wanda.Script
open Text

/-- A position in a text. It may lie behind the end. -/
structure Cursor where
  text : List Char
  position : Nat
  deriving DecidableEq, Repr

namespace Cursor

def start (cs : List Char) : Cursor :=
  ⟨cs, 0⟩

def char? (c : Cursor) : Option Char :=
  c.text[c.position]?

def advance (c : Cursor) : Cursor :=
  { c with position := c.position + 1 }

/-- There is no position below zero. -/
def back? (c : Cursor) : Option Cursor :=
  if 0 < c.position then some { c with position := c.position - 1 } else none

def rest (c : Cursor) : List Char :=
  c.text.drop c.position

theorem lt_of_char? {c : Cursor} {d : Char} (h : c.char? = some d) :
    c.position < c.text.length :=
  (List.getElem?_eq_some_iff.mp h).1

theorem char?_eq_none_iff {c : Cursor} : c.char? = none ↔ c.rest = [] := by
  rw [char?, ← List.head?_drop, List.head?_eq_none_iff]
  rfl

theorem char?_eq_some_iff {c : Cursor} {d : Char} :
    c.char? = some d ↔ ∃ cs, c.rest = d :: cs := by
  rw [char?, ← List.head?_drop, List.head?_eq_some_iff]
  rfl

@[simp] theorem rest_advance (c : Cursor) : c.advance.rest = c.rest.tail :=
  List.tail_drop.symm

def skipLine (c : Cursor) : Cursor :=
  match _h : c.char? with
  | none => c
  | some d => if d = '\n' then c else skipLine c.advance
termination_by c.text.length - c.position
decreasing_by
  have := lt_of_char? _h
  simp only [advance]
  omega

/-- The cursor stands in the same text, no further back, and before the given rest of it. -/
structure Reaches (c next : Cursor) (rest : List Char) : Prop where
  text_eq : next.text = c.text
  position_le : c.position ≤ next.position
  rest_eq : next.rest = rest

theorem Reaches.refl (c : Cursor) : Reaches c c c.rest :=
  ⟨rfl, le_rfl, rfl⟩

theorem Reaches.trans {c middle last : Cursor} {rest others : List Char}
    (h : Reaches c middle rest) (h' : Reaches middle last others) : Reaches c last others :=
  ⟨h'.text_eq.trans h.text_eq, h.position_le.trans h'.position_le, h'.rest_eq⟩

theorem reaches_advance (c : Cursor) : Reaches c c.advance c.rest.tail :=
  ⟨rfl, Nat.le_succ _, rest_advance c⟩

theorem reaches_skipLine (c : Cursor) :
    Reaches c c.skipLine (c.rest.dropWhile (· ≠ '\n')) := by
  fun_induction skipLine c with
  | case1 c hc =>
    rw [char?_eq_none_iff] at hc
    simpa [hc] using Reaches.refl c
  | case2 c hc =>
    obtain ⟨cs, hc⟩ := char?_eq_some_iff.mp hc
    simpa [hc] using Reaches.refl c
  | case3 c d hc hn ih =>
    obtain ⟨cs, hc⟩ := char?_eq_some_iff.mp hc
    simpa [hc, hn] using (reaches_advance c).trans ih

def skip (c : Cursor) : Cursor :=
  match _h : c.char? with
  | none => c
  | some d =>
    if isBlank d then skip c.advance
    else if d = '#' then skip c.advance.skipLine
    else c
termination_by c.text.length - c.position
decreasing_by
  · have := lt_of_char? _h
    simp only [advance]
    omega
  · have := lt_of_char? _h
    have := (reaches_skipLine c.advance).text_eq
    have := (reaches_skipLine c.advance).position_le
    simp_all only [advance]
    omega

/-- Collect characters up to one that stops, and step back from that one. -/
def readUntil (stop : Char → Bool) (c : Cursor) (read : List Char) :
    Option (List Char × Cursor) :=
  match _h : c.char? with
  | none => some (read, c)
  | some d => if stop d then c.back?.map (read, ·) else readUntil stop c.advance (read ++ [d])
termination_by c.text.length - c.position
decreasing_by
  have := lt_of_char? _h
  simp only [advance]
  omega

/-- From the opening quote, or the last character that was read, on to the closing quote. -/
def readString (c : Cursor) (read : List Char) : Token × Cursor :=
  match _h : c.advance.char? with
  | none => (.illegal (String.ofList ('"' :: read)), c.advance)
  | some d =>
    if d = '"' then (.str (String.ofList read), c.advance)
    else if d = '\\' then
      match c.advance.advance.char? with
      | none => (.illegal (String.ofList ('"' :: (read ++ ['\\']))), c.advance.advance)
      | some e => readString c.advance.advance (read ++ unescape e)
    else readString c.advance (read ++ [d])
termination_by c.text.length - c.position
decreasing_by
  all_goals
    have := lt_of_char? _h
    simp only [advance] at this ⊢
    omega

/-- The token that starts at the cursor, with the character there. -/
def readToken (d : Char) (c : Cursor) : Option (Token × Cursor) :=
  match Mark.ofChar? d with
  | some m => some (.mark m, c)
  | none =>
    if d = '"' then some (c.readString [])
    else if d = '-' ∧ c.advance.char?.any Char.isDigit = true then
      (c.advance.readUntil (!·.isDigit) []).map fun (digits, last) =>
        (.int (String.ofList ('-' :: digits)), last)
    else if d.isDigit then
      (c.readUntil (!·.isDigit) []).map fun (digits, last) => (.int (String.ofList digits), last)
    else if isNameStart d then
      (c.readUntil (!isNameRest ·) []).map fun (run, last) => (.ofRun (String.ofList run), last)
    else some (.illegal (String.singleton d), c)

/-- The next token, if there is one. Every reading ends with a step forward. -/
def next (c : Cursor) : Option (Option Token × Cursor) :=
  match c.skip.char? with
  | none => some (none, c.skip.advance)
  | some d => (c.skip.readToken d).map fun (t, last) => (some t, last.advance)

theorem skipTrivia_true (cs : List Char) :
    skipTrivia true cs = skipTrivia false (cs.dropWhile (· ≠ '\n')) := by
  induction cs with
  | nil => rfl
  | cons c cs ih =>
    by_cases hc : c = '\n'
    · subst hc
      rfl
    · simp [skipTrivia, hc, ih]

theorem reaches_skip (c : Cursor) : Reaches c c.skip (skipTrivia false c.rest) := by
  fun_induction skip c with
  | case1 c hc =>
    rw [char?_eq_none_iff] at hc
    simpa [hc, skipTrivia] using Reaches.refl c
  | case2 c d hc hb ih =>
    obtain ⟨cs, hc⟩ := char?_eq_some_iff.mp hc
    simpa [hc, skipTrivia, hb] using (reaches_advance c).trans ih
  | case3 c hc hb ih =>
    obtain ⟨cs, hc⟩ := char?_eq_some_iff.mp hc
    have hl := (reaches_advance c).trans (reaches_skipLine c.advance)
    rw [hl.rest_eq] at ih
    simpa [hc, skipTrivia, hb, skipTrivia_true] using hl.trans ih
  | case4 c d hc hb hn =>
    obtain ⟨cs, hc⟩ := char?_eq_some_iff.mp hc
    simpa [hc, skipTrivia, hb, hn] using Reaches.refl c

theorem exists_back? {c : Cursor} (h : 0 < c.position) :
    ∃ before, c.back? = some before ∧ before.advance = c := by
  refine ⟨_, if_pos h, ?_⟩
  rw [advance, Nat.sub_add_cancel h]

/-- At the first position there is nowhere to step back to, so the first character has to count. -/
theorem exists_readUntil (p : Char → Bool) {c : Cursor} (read : List Char)
    (hp : 0 < c.position ∨ ∀ d ∈ c.rest.head?, p d = true) : ∃ last,
      c.readUntil (!p ·) read = some (read ++ c.rest.takeWhile p, last) ∧
        Reaches c last.advance (c.rest.dropWhile p) := by
  fun_induction readUntil (!p ·) c read with
  | case1 c read hc =>
    rw [char?_eq_none_iff] at hc
    refine ⟨c, by simp [hc], ?_⟩
    simpa [hc] using reaches_advance c
  | case2 c read d hc hs =>
    obtain ⟨cs, hc⟩ := char?_eq_some_iff.mp hc
    have hd : p d = false := by simpa using hs
    have hpos : 0 < c.position := hp.resolve_right fun h => by simp [hc, hd] at h
    obtain ⟨before, hb, ha⟩ := exists_back? hpos
    refine ⟨before, by simp [hb, hc, hd], ?_⟩
    rw [ha]
    simpa [hc, hd] using Reaches.refl c
  | case3 c read d hc hs ih =>
    obtain ⟨cs, hc⟩ := char?_eq_some_iff.mp hc
    have hd : p d = true := by simpa using hs
    obtain ⟨last, hr, hl⟩ := ih (.inl (Nat.succ_pos _))
    refine ⟨last, by simp [hr, hc, hd], ?_⟩
    simpa [hc, hd] using (reaches_advance c).trans hl

theorem exists_readUntil_cons {p : Char → Bool} {c : Cursor} {d : Char} {ds : List Char}
    (hc : c.rest = d :: ds) (hd : p d = true) : ∃ last,
      c.readUntil (!p ·) [] = some (d :: ds.takeWhile p, last) ∧
        Reaches c last.advance (ds.dropWhile p) := by
  have hp : 0 < c.position ∨ ∀ e ∈ c.rest.head?, p e = true := .inr (by simp [hc, hd])
  obtain ⟨last, hr, hl⟩ := exists_readUntil p [] hp
  rw [hc, List.takeWhile_cons_of_pos hd, List.nil_append] at hr
  rw [hc, List.dropWhile_cons_of_pos hd] at hl
  exact ⟨last, hr, hl⟩

/-- The token of a string after what was read of it, and what is left of the text. -/
def stringToken (read : List Char) : List Char × Option (List Char) → Token × List Char
  | (content, some rest) => (.str (String.ofList (read ++ content)), rest)
  | (content, none) => (.illegal (String.ofList ('"' :: (read ++ content))), [])

theorem stringToken_append (read more content : List Char) (after : Option (List Char)) :
    stringToken (read ++ more) (content, after) = stringToken read (more ++ content, after) := by
  cases after <;> simp [stringToken]

theorem exists_readString (c : Cursor) (read : List Char) : ∃ last,
    c.readString read = ((stringToken read (stringBody c.rest.tail)).1, last) ∧
      Reaches c last.advance (stringToken read (stringBody c.rest.tail)).2 := by
  fun_induction readString c read with
  | case1 c read hc =>
    have hn := char?_eq_none_iff.mp hc
    rw [rest_advance] at hn
    refine ⟨c.advance, by simp [hn, stringBody, stringToken], ?_⟩
    simpa [hn, stringBody, stringToken] using (reaches_advance c).trans (reaches_advance c.advance)
  | case2 c read hc =>
    obtain ⟨cs, hn⟩ := char?_eq_some_iff.mp hc
    rw [rest_advance] at hn
    refine ⟨c.advance, by simp [hn, stringBody, stringToken], ?_⟩
    simpa [hn, stringBody, stringToken] using (reaches_advance c).trans (reaches_advance c.advance)
  | case3 c read he hc hq =>
    obtain ⟨cs, hn⟩ := char?_eq_some_iff.mp hc
    have hm := char?_eq_none_iff.mp he
    rw [rest_advance, hn, List.tail_cons] at hm
    have hr := ((reaches_advance c).trans (reaches_advance c.advance)).trans
      (reaches_advance c.advance.advance)
    rw [rest_advance] at hn
    subst hm
    refine ⟨c.advance.advance, by simp [hn, stringBody, stringToken], ?_⟩
    simpa [hn, stringBody, stringToken] using hr
  | case4 c read e he hc hq ih =>
    obtain ⟨cs, hn⟩ := char?_eq_some_iff.mp hc
    obtain ⟨ds, hm⟩ := char?_eq_some_iff.mp he
    rw [rest_advance, hn, List.tail_cons] at hm
    subst hm
    have hs : stringToken read (stringBody c.rest.tail) =
        stringToken (read ++ unescape e) (stringBody ds) := by
      rw [← rest_advance, hn, stringBody_backslash, ← stringToken_append]
    obtain ⟨last, hr, hl⟩ := ih
    rw [rest_advance, hn, List.tail_cons, List.tail_cons] at hr hl
    rw [hs]
    exact ⟨last, hr, ((reaches_advance c).trans (reaches_advance c.advance)).trans hl⟩
  | case5 c read d hc hq hb ih =>
    obtain ⟨cs, hn⟩ := char?_eq_some_iff.mp hc
    have hs : stringToken read (stringBody c.rest.tail) =
        stringToken (read ++ [d]) (stringBody cs) := by
      have hp : ∀ e ∈ [d], e ≠ '"' ∧ e ≠ '\\' := by simp [hq, hb]
      rw [← rest_advance, hn, ← List.singleton_append, stringBody_plain hp, ← stringToken_append]
    obtain ⟨last, hr, hl⟩ := ih
    rw [hn, List.tail_cons] at hr hl
    rw [hs]
    exact ⟨last, hr, (reaches_advance c).trans hl⟩

theorem exists_readToken {c : Cursor} {d : Char} {ds : List Char} (hc : c.rest = d :: ds) :
    ∃ last, c.readToken d = some ((firstToken d ds).1, last) ∧
      Reaches c last.advance (firstToken d ds).2 := by
  have hstay : Reaches c c.advance ds := by simpa [hc] using reaches_advance c
  have hahead : c.advance.char? = ds.head? := by
    rw [char?, ← List.head?_drop]
    exact congrArg List.head? hstay.rest_eq
  unfold readToken firstToken
  cases hm : Mark.ofChar? d with
  | some m => exact ⟨c, rfl, hstay⟩
  | none =>
    dsimp only
    by_cases hq : d = '"'
    · obtain ⟨last, hr, hl⟩ := c.exists_readString []
      rw [if_pos hq, if_pos hq, hr, hq]
      rw [hc, List.tail_cons] at hl ⊢
      cases hs : stringBody ds with
      | mk content after =>
        rw [hs] at hl
        cases after with
        | none => exact ⟨last, rfl, hl⟩
        | some rest => exact ⟨last, rfl, hl⟩
    rw [if_neg hq, if_neg hq, hahead]
    by_cases hs : d = '-' ∧ ds.head?.any Char.isDigit = true
    · obtain ⟨last, hr, hl⟩ :=
        exists_readUntil Char.isDigit (c := c.advance) [] (.inl (Nat.succ_pos _))
      have hn : startsNumeral d ds = true := by simp [startsNumeral, hs]
      rw [hstay.rest_eq] at hr hl
      rw [if_pos hs, if_pos hn, hr, hs.1]
      exact ⟨last, rfl, hstay.trans hl⟩
    rw [if_neg hs]
    by_cases hd : d.isDigit = true
    · obtain ⟨last, hr, hl⟩ := exists_readUntil_cons hc hd
      have hn : startsNumeral d ds = true := by simp [startsNumeral, hd]
      rw [if_pos hd, if_pos hn, hr]
      exact ⟨last, rfl, hl⟩
    have hn : ¬ startsNumeral d ds = true := by simpa [startsNumeral, hd] using hs
    rw [if_neg hd, if_neg hn]
    by_cases hr : isNameStart d = true
    · have hrest : isNameRest d = true := by
        simp_all [isNameStart, isNameRest, Char.isAlphanum]
      obtain ⟨last, he, hl⟩ := exists_readUntil_cons hc hrest
      rw [if_pos hr, if_pos hr, he]
      exact ⟨last, rfl, hl⟩
    · rw [if_neg hr, if_neg hr]
      exact ⟨c, rfl, hstay⟩

/-- A reading by position is the one of `nextToken`, from any position in any text. -/
theorem exists_next (c : Cursor) : ∃ after,
    c.next = some ((nextToken c.rest).1, after) ∧ after.text = c.text ∧
      after.rest = (nextToken c.rest).2 ∧ c.position < after.position := by
  have hs := reaches_skip c
  unfold next nextToken
  cases hc : skipTrivia false c.rest with
  | nil =>
    rw [hc] at hs
    have hr := reaches_advance c.skip
    rw [hs.rest_eq] at hr
    rw [char?_eq_none_iff.mpr hs.rest_eq]
    exact ⟨_, rfl, hr.text_eq.trans hs.text_eq, hr.rest_eq, Nat.lt_succ_of_le hs.position_le⟩
  | cons d ds =>
    rw [hc] at hs
    obtain ⟨last, hr, hl⟩ := exists_readToken hs.rest_eq
    rw [char?_eq_some_iff.mpr ⟨ds, hs.rest_eq⟩]
    have ht := hs.trans hl
    refine ⟨last.advance, by simp [hr], ht.text_eq, ht.rest_eq, ?_⟩
    have hlt : (nextToken c.rest).2.length < c.rest.length :=
      length_lt_of_nextToken (t := (firstToken d ds).1) (by simp [nextToken, hc])
    have hle := ht.position_le
    refine hle.lt_of_ne fun he => ?_
    have hr : last.advance.rest = c.rest := by rw [rest, rest, ht.text_eq, he]
    simp [nextToken, hc, ← ht.rest_eq, hr] at hlt

end Cursor
end Wanda.Script

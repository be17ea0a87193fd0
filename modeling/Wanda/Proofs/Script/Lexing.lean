import Wanda.Script.Reading
import Wanda.Proofs.Text.Numeral
import Wanda.Proofs.Text.Words
import Mathlib

/-!
Cutting text into tokens. The text of a token is cut into that token again wherever it ends before
a character that could not be part of it. Strings are the exception: a script reads fewer escapes
than quoted text is written with, and keeps the others as they are spelled.
-/
namespace Wanda.Script
open Text

theorem tokens_of_nextToken {cs rest : List Char} {t : Token}
    (h : nextToken cs = (some t, rest)) : tokens cs = t :: tokens rest := by
  rw [tokens]
  split
  · simp_all
  · simp_all

theorem tokens_of_nextToken_none {cs rest : List Char} (h : nextToken cs = (none, rest)) :
    tokens cs = [] := by
  rw [tokens]
  split
  · rfl
  · simp_all

theorem tokens_congr {cs ds : List Char} (h : skipTrivia false cs = skipTrivia false ds) :
    tokens cs = tokens ds := by
  have hn : nextToken cs = nextToken ds := by rw [nextToken, nextToken, h]
  rcases hd : nextToken ds with ⟨_ | t, rest⟩
  · rw [tokens_of_nextToken_none (hn.trans hd), tokens_of_nextToken_none hd]
  · rw [tokens_of_nextToken (hn.trans hd), tokens_of_nextToken hd]

theorem tokens_blank {c : Char} (h : isBlank c = true) (cs : List Char) :
    tokens (c :: cs) = tokens cs :=
  tokens_congr (by simp [skipTrivia, h])

theorem nextToken_cons {c : Char} (cs : List Char) (hv : isBlank c = false) (hc : c ≠ '#') :
    nextToken (c :: cs) = (some (firstToken c cs).1, (firstToken c cs).2) := by
  simp [nextToken, skipTrivia, hv, hc]

theorem Mark.ofChar?_char (m : Mark) : Mark.ofChar? m.char = some m := by
  cases m <;> rfl

theorem nextToken_mark (m : Mark) (cs : List Char) :
    nextToken (m.char :: cs) = (some (.mark m), cs) := by
  have hf : firstToken m.char cs = (.mark m, cs) := by rw [firstToken, Mark.ofChar?_char]
  rw [nextToken_cons cs (by cases m <;> rfl) (by cases m <;> decide), hf]

theorem tokens_mark (m : Mark) (cs : List Char) : tokens (m.char :: cs) = .mark m :: tokens cs :=
  tokens_of_nextToken (nextToken_mark m cs)

theorem toNat_of_isNameStart {c : Char} (h : isNameStart c = true) :
    0x41 ≤ c.toNat ∧ c.toNat ≤ 0x7A := by
  simp only [isNameStart, Char.isAlpha, Char.isUpper, Char.isLower, Bool.or_eq_true,
    Bool.and_eq_true, decide_eq_true_eq, ge_iff_le, UInt32.le_iff_toNat_le, Char.ext_iff,
    ← UInt32.toNat_inj, Char.reduceVal, UInt32.reduceToNat] at h
  unfold Char.toNat
  omega

theorem isDigit_iff_toNat {c : Char} : c.isDigit = true ↔ 0x30 ≤ c.toNat ∧ c.toNat ≤ 0x39 := by
  simp only [Char.isDigit, Bool.and_eq_true, decide_eq_true_eq, ge_iff_le, UInt32.le_iff_toNat_le,
    Char.reduceVal, UInt32.reduceToNat, Char.toNat]

/-- A character of a kind that no mark is of is no mark. -/
theorem Mark.ofChar?_eq_none {p : Char → Bool} (hp : ∀ m : Mark, p m.char = false) {c : Char}
    (hc : p c = true) : Mark.ofChar? c = none := by
  rw [Mark.ofChar?, List.find?_eq_none]
  intro m _ hm
  obtain rfl := of_decide_eq_true hm
  rw [hp] at hc
  cases hc

theorem startsNumeral_eq_false {c : Char} (h : isNameStart c = true) (cs : List Char) :
    startsNumeral c cs = false := by
  obtain ⟨hl, hu⟩ := toNat_of_isNameStart h
  have hd : ¬ c.isDigit = true := fun hd => by
    have := (isDigit_iff_toNat.mp hd).2
    omega
  have hm : c ≠ '-' := by
    rintro rfl
    cases h
  simp [startsNumeral, hd, hm]

/-- A run of name characters is one token, as far as it goes. -/
theorem nextToken_nameStart {c : Char} (h : isNameStart c = true) (cs : List Char) :
    nextToken (c :: cs) = (some (.ofRun (String.ofList (c :: cs.takeWhile isNameRest))),
      cs.dropWhile isNameRest) := by
  obtain ⟨hl, hu⟩ := toNat_of_isNameStart h
  have hv : IsGraphic c := ⟨by omega, by omega⟩
  have hq : c ≠ '"' := by
    rintro rfl
    cases h
  rw [nextToken_cons cs hv.isBlank_eq_false (by rintro rfl; cases h), firstToken,
    Mark.ofChar?_eq_none (fun m => by cases m <;> rfl) h]
  simp only [if_neg hq, startsNumeral_eq_false h, h, if_true, Bool.false_eq_true, if_false]

/-- A run of digits is one token, as far as it goes. -/
theorem nextToken_startsNumeral {c : Char} {cs : List Char} (h : startsNumeral c cs = true) :
    nextToken (c :: cs) = (some (.int (String.ofList (c :: cs.takeWhile Char.isDigit))),
      cs.dropWhile Char.isDigit) := by
  have hc : c = '-' ∨ c.isDigit = true := by
    simp only [startsNumeral, Bool.or_eq_true, Bool.and_eq_true, decide_eq_true_eq] at h
    exact h.symm.imp_left And.left
  have hv : IsGraphic c := by
    rcases hc with rfl | hd
    · decide
    · have := isDigit_iff_toNat.mp hd
      exact ⟨by omega, by omega⟩
  have hq : c ≠ '"' := by
    rintro rfl
    cases h
  rw [nextToken_cons cs hv.isBlank_eq_false (by rintro rfl; cases h), firstToken,
    Mark.ofChar?_eq_none (p := (startsNumeral · cs)) (fun m => by cases m <;> rfl) h]
  simp only [if_neg hq, h, if_true]

/-- No name and no numeral goes on with what follows. -/
def Stops (rest : List Char) : Prop :=
  ∀ c ∈ rest.head?, isNameRest c = false

theorem stops_mark (m : Mark) (rest : List Char) : Stops (m.char :: rest) := by
  intro c hc
  cases hc
  cases m <;> rfl

theorem stops_space (rest : List Char) : Stops (' ' :: rest) := by
  intro c hc
  cases hc
  rfl

theorem Stops.isDigit_eq_false {rest : List Char} (h : Stops rest) :
    ∀ c ∈ rest.head?, c.isDigit = false := by
  intro c hc
  by_contra hd
  simpa [isNameRest, Char.isAlphanum, hd] using h c hc

/-- The text is a run of name characters, as names and keywords are. -/
def isRun (s : String) : Bool :=
  match s.toList with
  | [] => false
  | c :: cs => isNameStart c && cs.all isNameRest

theorem nextToken_run {s : String} (h : isRun s = true) {rest : List Char} (hs : Stops rest) :
    nextToken (s.toList ++ rest) = (some (.ofRun s), rest) := by
  unfold isRun at h
  split at h
  case h_1 => cases h
  case h_2 c cs hcs =>
    simp only [Bool.and_eq_true, List.all_eq_true] at h
    obtain ⟨hc, hr⟩ := h
    rw [hcs, List.cons_append, nextToken_nameStart hc, takeWhile_run hr hs, dropWhile_run hr hs,
      ← hcs, String.ofList_toList]

/-- A run of digits and a minus sign directly before it, if there is one, are one token. -/
theorem nextToken_numeral {sign digits rest : List Char} (hs : sign ∈ [[], ['-']])
    (hn : digits ≠ []) (hd : ∀ d ∈ digits, d.isDigit = true)
    (hr : ∀ c ∈ rest.head?, c.isDigit = false) :
    nextToken (sign ++ digits ++ rest) = (some (.int (String.ofList (sign ++ digits))), rest) := by
  obtain ⟨c, cs, rfl⟩ := List.exists_cons_of_ne_nil hn
  have hc : c.isDigit = true := hd c List.mem_cons_self
  simp only [List.mem_cons, List.not_mem_nil, or_false] at hs
  rcases hs with rfl | rfl
  · have hcs : ∀ d ∈ cs, d.isDigit = true := fun d h => hd d (List.mem_cons_of_mem c h)
    have hst : startsNumeral c (cs ++ rest) = true := by simp [startsNumeral, hc]
    rw [List.nil_append, List.cons_append, nextToken_startsNumeral hst, takeWhile_run hcs hr,
      dropWhile_run hcs hr]
  · have hst : startsNumeral '-' (c :: cs ++ rest) = true := by simp [startsNumeral, hc]
    rw [List.append_assoc, List.singleton_append, nextToken_startsNumeral hst,
      takeWhile_run hd hr, dropWhile_run hd hr]
    rfl

theorem exists_sign_digits (n : Int) : ∃ sign ∈ [[], ['-']], ∃ digits,
    Numeral.digits n = sign ++ digits ∧ digits ≠ [] ∧ ∀ d ∈ digits, d.isDigit = true := by
  have hd : ∀ d ∈ Nat.toDigits 10 n.natAbs, d.isDigit = true := fun d hd =>
    Nat.isDigit_of_mem_toDigits (by omega) (by omega) hd
  unfold Numeral.digits
  split
  · exact ⟨['-'], by simp, _, rfl, Nat.toDigits_ne_nil, hd⟩
  · exact ⟨[], by simp, _, rfl, Nat.toDigits_ne_nil, hd⟩

theorem tokens_numeral (n : Int) {rest : List Char} (hs : Stops rest) :
    tokens ((Numeral.text n).toList ++ rest) = .int (Numeral.text n) :: tokens rest := by
  obtain ⟨sign, hsign, digits, hn, hne, hd⟩ := exists_sign_digits n
  refine tokens_of_nextToken ?_
  rw [Numeral.text, String.toList_ofList, hn, nextToken_numeral hsign hne hd hs.isDigit_eq_false]

/-- A name is a run of name characters that is no keyword. -/
def Token.Spelled : Token → Prop
  | .name s => isRun s = true ∧ Keyword.ofText? s = none
  | _ => True

theorem Token.spelled_ofRun {s : String} (h : isRun s = true) : (Token.ofRun s).Spelled := by
  unfold Token.ofRun
  split
  · trivial
  · exact ⟨h, ‹_›⟩

theorem spelled_firstToken (c : Char) (cs : List Char) : (firstToken c cs).1.Spelled := by
  unfold firstToken
  repeat' split
  case h_2.isFalse.isFalse.isTrue _ _ _ hc =>
    refine Token.spelled_ofRun ?_
    simp [isRun, hc]
  all_goals trivial

theorem spelled_of_nextToken {cs rest : List Char} {t : Token}
    (h : nextToken cs = (some t, rest)) : t.Spelled := by
  unfold nextToken at h
  split at h
  case h_1 => cases h
  case h_2 c ds _ =>
    cases h
    exact spelled_firstToken c ds

theorem spelled_of_mem_tokens {cs : List Char} {t : Token} (h : t ∈ tokens cs) : t.Spelled := by
  fun_induction tokens cs with
  | case1 => cases h
  | case2 cs t rest hn ih =>
    rcases List.mem_cons.mp h with rfl | h
    · exact spelled_of_nextToken hn
    · exact ih h

theorem nextToken_name {s : String} (h : (Token.name s).Spelled) {rest : List Char}
    (hs : Stops rest) : nextToken (s.toList ++ rest) = (some (.name s), rest) := by
  rw [nextToken_run h.1 hs, Token.ofRun, h.2]

theorem tokens_name {s : String} (h : (Token.name s).Spelled) {rest : List Char}
    (hs : Stops rest) : tokens (s.toList ++ rest) = .name s :: tokens rest :=
  tokens_of_nextToken (nextToken_name h hs)

theorem nextToken_keyword (k : Keyword) {rest : List Char} (hs : Stops rest) :
    nextToken (k.text.toList ++ rest) = (some (.keyword k), rest) := by
  have hr : isRun k.text = true := by cases k <;> rfl
  have hk : Keyword.ofText? k.text = some k := by cases k <;> rfl
  rw [nextToken_run hr hs, Token.ofRun, hk]

theorem tokens_keyword (k : Keyword) {rest : List Char} (hs : Stops rest) :
    tokens (k.text.toList ++ rest) = .keyword k :: tokens rest :=
  tokens_of_nextToken (nextToken_keyword k hs)

/-- The character is written as `\r`, as `\0` or by number, which no script reads as a character. -/
def StaysEscaped (hidden : Char → Bool) (c : Char) : Prop :=
  Quoted.escape hidden c = ['\\', 'r'] ∨ Quoted.escape hidden c = ['\\', '0'] ∨
    Quoted.escape hidden c = Quoted.escapeByNumber c

instance (hidden : Char → Bool) (c : Char) : Decidable (StaysEscaped hidden c) :=
  inferInstanceAs (Decidable (_ ∨ _ ∨ _))

/-- What quoted text is read as: an escape that is not read stands for its own characters. -/
def reread (hidden : Char → Bool) (cs : List Char) : List Char :=
  cs.flatMap fun c => if StaysEscaped hidden c then Quoted.escape hidden c else [c]

variable {hidden : Char → Bool}

theorem exists_digitChar_of_mem_toDigits {b : Nat} (hb : 1 < b) {n : Nat} {c : Char}
    (h : c ∈ Nat.toDigits b n) : ∃ d < b, c = Nat.digitChar d := by
  induction n using Nat.strongRecOn with
  | ind n ih =>
    rw [Nat.toDigits_eq_if hb] at h
    split at h
    case isTrue hn => exact ⟨n, hn, List.mem_singleton.mp h⟩
    case isFalse hn =>
      rcases List.mem_append.mp h with h | h
      · exact ih (n / b) (Nat.div_lt_self (by omega) hb) h
      · exact ⟨n % b, Nat.mod_lt n (by omega), List.mem_singleton.mp h⟩

theorem isHidden_eq_false_of_isGraphic {c : Char} (h : IsGraphic c) : isHidden c = false := by
  have hr : hiddenRanges = (0x0, 0x1F) :: (0x7F, 0xA0) :: hiddenRanges.tail.tail := rfl
  obtain ⟨hl, hu⟩ := h
  rw [isHidden, hr, inRanges, inRanges]
  simp only [Bool.and_eq_false_imp, Bool.or_eq_false_iff, decide_eq_true_eq,
    decide_eq_false_iff_not]
  omega

theorem not_staysEscaped_of_isGraphic (hg : ∀ c, IsGraphic c → hidden c = false) {c : Char}
    (h : IsGraphic c) : ¬ StaysEscaped hidden c := by
  unfold StaysEscaped
  generalize he : Quoted.escape hidden c = e
  unfold Quoted.escape at he
  split_ifs at he with hq hb hn hr ht h0 hh
  · simp [← he, Quoted.escapeByNumber]
  · simp [← he, Quoted.escapeByNumber]
  · exact absurd (hn ▸ h) (by decide)
  · exact absurd (hr ▸ h) (by decide)
  · exact absurd (ht ▸ h) (by decide)
  · exact absurd (h0 ▸ h) (by decide)
  · rw [hg c h] at hh
    cases hh
  · simp [← he, Quoted.escapeByNumber]

theorem StaysEscaped.isGraphic_of_mem_escape {c d : Char} (hc : StaysEscaped hidden c)
    (hd : d ∈ Quoted.escape hidden c) : IsGraphic d := by
  have hx : ∀ n < 16, IsGraphic (Nat.digitChar n) := by decide
  rcases hc with hc | hc | hc
  · simp only [hc, List.mem_cons, List.not_mem_nil, or_false] at hd
    rcases hd with rfl | rfl <;> decide
  · simp only [hc, List.mem_cons, List.not_mem_nil, or_false] at hd
    rcases hd with rfl | rfl <;> decide
  · simp only [hc, Quoted.escapeByNumber, List.cons_append, List.nil_append, List.mem_cons,
      List.mem_append, List.not_mem_nil, or_false] at hd
    rcases hd with rfl | rfl | rfl | hd | rfl
    · decide
    · decide
    · decide
    · obtain ⟨n, hn, rfl⟩ := exists_digitChar_of_mem_toDigits (by decide) hd
      exact hx n hn
    · decide

theorem not_staysEscaped_of_mem_reread (hg : ∀ c, IsGraphic c → hidden c = false)
    {cs : List Char} {d : Char} (h : d ∈ reread hidden cs) :
    ¬ StaysEscaped hidden d := by
  obtain ⟨c, -, hd⟩ := List.mem_flatMap.mp h
  split at hd
  case isTrue hc => exact not_staysEscaped_of_isGraphic hg (hc.isGraphic_of_mem_escape hd)
  case isFalse hc =>
    rw [List.mem_singleton.mp hd]
    exact hc

theorem reread_eq_self {cs : List Char} (h : ∀ c ∈ cs, ¬ StaysEscaped hidden c) :
    reread hidden cs = cs := by
  induction cs with
  | nil => rfl
  | cons c cs ih =>
    have hc := h c List.mem_cons_self
    have hcs := ih fun d hd => h d (List.mem_cons_of_mem c hd)
    rw [reread, List.flatMap_cons, if_neg hc, ← reread, hcs, List.singleton_append]

theorem reread_eq_self_iff (hg : ∀ c, IsGraphic c → hidden c = false) {cs : List Char} :
    reread hidden cs = cs ↔ ∀ c ∈ cs, ¬ StaysEscaped hidden c := by
  refine ⟨fun h c hc => ?_, reread_eq_self⟩
  rw [← h] at hc
  exact not_staysEscaped_of_mem_reread hg hc

theorem reread_reread (hg : ∀ c, IsGraphic c → hidden c = false) (cs : List Char) :
    reread hidden (reread hidden cs) = reread hidden cs :=
  reread_eq_self fun _ h => not_staysEscaped_of_mem_reread hg h

theorem stringBody_plain {cs : List Char} (h : ∀ c ∈ cs, c ≠ '"' ∧ c ≠ '\\') (rest : List Char) :
    stringBody (cs ++ rest) = (cs ++ (stringBody rest).1, (stringBody rest).2) := by
  induction cs with
  | nil => rfl
  | cons c cs ih =>
    obtain ⟨hq, hb⟩ := h c List.mem_cons_self
    have hcs := ih fun d hd => h d (List.mem_cons_of_mem c hd)
    rw [List.cons_append, stringBody, if_neg hq, hcs]
    · rfl
    · simp [hb]
    · simp [hb]

theorem stringBody_backslash (c : Char) (cs : List Char) : stringBody ('\\' :: c :: cs) =
    (unescape c ++ (stringBody cs).1, (stringBody cs).2) := by
  rw [stringBody]

theorem stringBody_escapeByNumber (c : Char) (rest : List Char) :
    stringBody (Quoted.escapeByNumber c ++ rest) =
      (Quoted.escapeByNumber c ++ (stringBody rest).1, (stringBody rest).2) := by
  have hx : ∀ n < 16, Nat.digitChar n ≠ '"' ∧ Nat.digitChar n ≠ '\\' := by decide
  have hp : ∀ d ∈ '\x7b' :: (Nat.toDigits 16 c.toNat ++ ['\x7d']), d ≠ '"' ∧ d ≠ '\\' := by
    intro d hd
    simp only [List.mem_cons, List.mem_append, List.not_mem_nil, or_false] at hd
    rcases hd with rfl | hd | rfl
    · decide
    · obtain ⟨n, hn, rfl⟩ := exists_digitChar_of_mem_toDigits (by decide) hd
      exact hx n hn
    · decide
  have he : Quoted.escapeByNumber c =
      '\\' :: 'u' :: ('\x7b' :: (Nat.toDigits 16 c.toNat ++ ['\x7d'])) := rfl
  rw [he, List.cons_append, List.cons_append, stringBody_backslash, stringBody_plain hp]
  rfl

theorem escape_of_not_staysEscaped {c : Char} (h : ¬ StaysEscaped hidden c) :
    (∃ d, Quoted.escape hidden c = ['\\', d] ∧ unescape d = [c]) ∨
      Quoted.escape hidden c = [c] ∧ c ≠ '"' ∧ c ≠ '\\' := by
  unfold StaysEscaped at h
  generalize he : Quoted.escape hidden c = e at h ⊢
  unfold Quoted.escape at he
  split_ifs at he with hq hb hn hr ht h0 hh
  · exact .inl ⟨'"', he.symm, by rw [hq]; rfl⟩
  · exact .inl ⟨'\\', he.symm, by rw [hb]; rfl⟩
  · exact .inl ⟨'n', he.symm, by rw [hn]; rfl⟩
  · exact absurd (.inl he.symm) h
  · exact .inl ⟨'t', he.symm, by rw [ht]; rfl⟩
  · exact absurd (.inr (.inl he.symm)) h
  · exact absurd (.inr (.inr he.symm)) h
  · exact .inr ⟨he.symm, hq, hb⟩

theorem stringBody_escape (c : Char) (rest : List Char) :
    stringBody (Quoted.escape hidden c ++ rest) =
      ((if StaysEscaped hidden c then Quoted.escape hidden c else [c]) ++ (stringBody rest).1,
        (stringBody rest).2) := by
  by_cases hs : StaysEscaped hidden c
  · rw [if_pos hs]
    rcases hs with he | he | he
    · rw [he]
      exact stringBody_backslash 'r' rest
    · rw [he]
      exact stringBody_backslash '0' rest
    · rw [he, stringBody_escapeByNumber]
  · rw [if_neg hs]
    rcases escape_of_not_staysEscaped hs with ⟨d, he, hu⟩ | ⟨he, hc⟩
    · rw [he, ← hu]
      exact stringBody_backslash d rest
    · rw [he]
      exact stringBody_plain (by simpa using hc) rest

theorem stringBody_quoted (cs rest : List Char) :
    stringBody (cs.flatMap (Quoted.escape hidden) ++ '"' :: rest) = (reread hidden cs, some rest) := by
  induction cs with
  | nil => simp [stringBody, reread]
  | cons c cs ih =>
    rw [List.flatMap_cons, List.append_assoc, stringBody_escape, ih]
    rfl

/-- A string is one token if it is closed; otherwise all that is left of the text is. -/
theorem nextToken_quote (cs : List Char) : nextToken ('"' :: cs) =
    match stringBody cs with
    | (content, some rest) => (some (.str (String.ofList content)), rest)
    | (content, none) => (some (.illegal (String.ofList ('"' :: content))), []) := by
  have hm : Mark.ofChar? '"' = none := rfl
  rw [nextToken_cons cs (by decide) (by decide), firstToken, hm]
  simp only [if_true]
  split <;> simp_all

theorem tokens_quoted (s : String) (rest : List Char) :
    tokens ((Quoted.text hidden s).toList ++ rest) =
      .str (String.ofList (reread hidden s.toList)) :: tokens rest := by
  refine tokens_of_nextToken ?_
  rw [Quoted.text, String.toList_ofList, Quoted.chars, List.cons_append, List.cons_append,
    List.append_assoc, nextToken_quote]
  simp [stringBody_quoted]

end Wanda.Script

import Wanda.Script.Token
import Wanda.Text.Blank

/-! Cutting script text into tokens. -/

namespace Wanda.Script
open Text

/-- What follows the leading blanks and comments. A comment runs from `#` to the end of its line. -/
def skipTrivia (comment : Bool) : List Char → List Char
  | [] => []
  | c :: cs =>
    if comment then skipTrivia (c ≠ '\n') cs
    else if isBlank c then skipTrivia false cs
    else if c = '#' then skipTrivia true cs
    else c :: cs

/-- The meaning of a backslash and the character after it; an unknown pair stands for itself. -/
def unescape (c : Char) : List Char :=
  if c = 'n' then ['\n']
  else if c = 't' then ['\t']
  else if c = '"' ∨ c = '\\' then [c]
  else ['\\', c]

/-- The content of a string after its opening quote, and what follows the closing one if any. -/
def stringBody : List Char → List Char × Option (List Char)
  | [] => ([], none)
  | ['\\'] => (['\\'], none)
  | '\\' :: c :: cs =>
    let (content, rest) := stringBody cs
    (unescape c ++ content, rest)
  | c :: cs =>
    if c = '"' then ([], some cs)
    else
      let (content, rest) := stringBody cs
      (c :: content, rest)

def isNameStart (c : Char) : Bool :=
  c.isAlpha || c = '_'

def isNameRest (c : Char) : Bool :=
  c.isAlphanum || c = '_'

def startsNumeral (c : Char) (cs : List Char) : Bool :=
  c.isDigit || (c = '-' && cs.head?.any Char.isDigit)

def firstToken (c : Char) (cs : List Char) : Token × List Char :=
  match Mark.ofChar? c with
  | some m => (.mark m, cs)
  | none =>
    if c = '"' then
      match stringBody cs with
      | (content, some rest) => (.str (String.ofList content), rest)
      | (content, none) => (.illegal (String.ofList (c :: content)), [])
    else if startsNumeral c cs then
      (.int (String.ofList (c :: cs.takeWhile Char.isDigit)), cs.dropWhile Char.isDigit)
    else if isNameStart c then
      (.ofRun (String.ofList (c :: cs.takeWhile isNameRest)), cs.dropWhile isNameRest)
    else (.illegal (String.singleton c), cs)

theorem length_skipTrivia_le (comment : Bool) (cs : List Char) :
    (skipTrivia comment cs).length ≤ cs.length := by
  induction cs generalizing comment with
  | nil => simp [skipTrivia]
  | cons c cs ih =>
    have ht := ih true
    have hf := ih false
    have hn := ih (c ≠ '\n')
    simp only [skipTrivia, List.length_cons]
    split
    · omega
    · split
      · omega
      · split
        · omega
        · simp

theorem length_stringBody_lt {cs content rest : List Char}
    (h : stringBody cs = (content, some rest)) : rest.length < cs.length := by
  fun_induction stringBody cs generalizing content with
  | case1 => simp at h
  | case2 => simp at h
  | case3 c cs s r hs ih =>
    cases h
    have := ih hs
    simp only [List.length_cons]
    omega
  | case4 cs => simp_all
  | case5 c cs _ _ _ s r hs ih =>
    cases h
    have := ih hs
    simp only [List.length_cons]
    omega

theorem length_firstToken_le (c : Char) (cs : List Char) :
    (firstToken c cs).2.length ≤ cs.length := by
  have hd (p : Char → Bool) : (cs.dropWhile p).length ≤ cs.length :=
    (List.dropWhile_suffix p).length_le
  unfold firstToken
  repeat' split
  · exact Nat.le_refl _
  · exact Nat.le_of_lt (length_stringBody_lt ‹_›)
  · exact Nat.zero_le _
  · exact hd _
  · exact hd _
  · exact Nat.le_refl _

/-- The next token, if there is one, and what is left of the text. -/
def nextToken (cs : List Char) : Option Token × List Char :=
  match skipTrivia false cs with
  | [] => (none, [])
  | c :: rest => (some (firstToken c rest).1, (firstToken c rest).2)

theorem length_lt_of_nextToken {cs rest : List Char} {t : Token}
    (h : nextToken cs = (some t, rest)) : rest.length < cs.length := by
  have hs := length_skipTrivia_le false cs
  unfold nextToken at h
  split at h
  case h_1 => cases h
  case h_2 c ds hc =>
    cases h
    have hf := length_firstToken_le c ds
    rw [hc, List.length_cons] at hs
    omega

def tokens (cs : List Char) : List Token :=
  match _h : nextToken cs with
  | (none, _) => []
  | (some t, rest) => t :: tokens rest
termination_by cs.length
decreasing_by exact length_lt_of_nextToken _h

end Wanda.Script

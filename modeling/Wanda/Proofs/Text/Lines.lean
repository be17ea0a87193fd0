import Wanda.Text.Lines
import Wanda.Proofs.Text.Words
import Mathlib.Tactic.SplitIfs

/-!
The lines of a text that is read as bytes. No character but the newline has the byte of a newline
in its code, so cutting the bytes cuts the text, and the words of a text are those of its lines.
-/
namespace Wanda.Text

/-- The bytes of a text in UTF-8. -/
def encode (s : String) : List UInt8 :=
  s.toUTF8.data.toList

theorem decode?_encode (s : String) : decode? (encode s) = some s := by
  have hb : (⟨(encode s).toArray⟩ : ByteArray) = s.toByteArray := by
    rw [encode, Array.toArray_toList, String.toUTF8_eq_toByteArray]
  rw [decode?, hb, String.fromUTF8?, dif_pos s.isValidUTF8]
  rfl

theorem encode_ofList (cs : List Char) :
    encode (String.ofList cs) = cs.flatMap String.utf8EncodeChar := by
  rw [encode, String.toUTF8_eq_toByteArray, String.toByteArray_ofList, List.utf8Encode]
  simp

theorem ofNat_eq_newline_iff {n : Nat} (h : n < 0x100) : 0x0A = UInt8.ofNat n ↔ n = 0x0A := by
  have hn : (UInt8.ofNat n).toNat = n := UInt8.toNat_ofNat_of_lt' h
  rw [← UInt8.toNat_inj, hn]
  exact eq_comm

theorem newline_mem_utf8EncodeChar_iff {c : Char} :
    0x0A ∈ String.utf8EncodeChar c ↔ c = '\n' := by
  have hc : c = '\n' ↔ c.val.toNat = 0x0A := by
    rw [← Char.toNat_inj]
    rfl
  rw [hc]
  simp only [String.utf8EncodeChar]
  generalize c.val.toNat = n
  split_ifs
  · rw [List.mem_singleton, ofNat_eq_newline_iff (by omega)]
  all_goals
    simp (disch := omega) only [List.mem_cons, List.not_mem_nil, or_false, ofNat_eq_newline_iff]
    omega

/-- A text and its lines. What follows the last newline is a line unless empty. -/
inductive Lined : List Char → List (List Char) → Prop
  | nil : Lined [] []
  | last {line : List Char} : line ≠ [] → '\n' ∉ line → Lined line [line]
  | cons {line rest : List Char} {lines : List (List Char)} : '\n' ∉ line → Lined rest lines →
      Lined (line ++ '\n' :: rest) (line :: lines)

theorem exists_lined (cs : List Char) : ∃ lines, Lined cs lines := by
  induction cs with
  | nil => exact ⟨[], .nil⟩
  | cons c cs ih =>
    obtain ⟨lines, h⟩ := ih
    by_cases hc : c = '\n'
    · subst hc
      exact ⟨[] :: lines, @Lined.cons [] cs lines (by simp) h⟩
    · have hm {line : List Char} (hl : '\n' ∉ line) : '\n' ∉ c :: line := by
        simp [Ne.symm hc, hl]
      cases h with
      | nil => exact ⟨[[c]], .last (by simp) (hm (by simp))⟩
      | last _ hl => exact ⟨[c :: cs], .last (by simp) (hm hl)⟩
      | @cons line rest lines hl hr => exact ⟨(c :: line) :: lines, .cons (hm hl) hr⟩

theorem splitLines_append_newline {line : List UInt8} (h : 0x0A ∉ line) (rest : List UInt8) :
    splitLines (line ++ 0x0A :: rest) = line :: splitLines rest := by
  induction line with
  | nil => simp [splitLines]
  | cons b line ih =>
    rw [List.mem_cons, not_or] at h
    rw [List.cons_append, splitLines, if_neg (Ne.symm h.1), ih h.2]

theorem splitLines_of_not_mem {line : List UInt8} (hn : line ≠ []) (h : 0x0A ∉ line) :
    splitLines line = [line] := by
  induction line with
  | nil => exact absurd rfl hn
  | cons b line ih =>
    rw [List.mem_cons, not_or] at h
    rw [splitLines, if_neg (Ne.symm h.1)]
    cases line with
    | nil => simp [splitLines]
    | cons d line => rw [ih (by simp) h.2]

theorem newline_mem_flatMap_iff {cs : List Char} :
    0x0A ∈ cs.flatMap String.utf8EncodeChar ↔ '\n' ∈ cs := by
  simp [List.mem_flatMap, newline_mem_utf8EncodeChar_iff]

theorem Lined.splitLines_eq {cs : List Char} {lines : List (List Char)} (h : Lined cs lines) :
    splitLines (cs.flatMap String.utf8EncodeChar) =
      lines.map (·.flatMap String.utf8EncodeChar) := by
  induction h with
  | nil => rfl
  | @last line hn hl =>
    have hb : line.flatMap String.utf8EncodeChar ≠ [] := by
      obtain ⟨c, cs, rfl⟩ := List.exists_cons_of_ne_nil hn
      simp
    exact splitLines_of_not_mem hb (mt newline_mem_flatMap_iff.mp hl)
  | @cons line rest lines hl _ ih =>
    have he : String.utf8EncodeChar '\n' = [0x0A] := by decide
    rw [List.flatMap_append, List.flatMap_cons, he, List.singleton_append,
      splitLines_append_newline (mt newline_mem_flatMap_iff.mp hl), ih, List.map_cons]

theorem Lined.words_eq {cs : List Char} {lines : List (List Char)} (h : Lined cs lines) :
    words cs = lines.flatMap words := by
  induction h with
  | nil => exact words_of_blank (by simp)
  | last => simp
  | cons _ _ ih => rw [words_append_blank (by decide), ih, List.flatMap_cons]

def OneLine (s : String) : Prop :=
  '\n' ∉ s.toList

instance (s : String) : Decidable (OneLine s) :=
  inferInstanceAs (Decidable (_ ∉ _))

theorem OneLine.append {s t : String} (hs : OneLine s) (ht : OneLine t) : OneLine (s ++ t) := by
  rw [OneLine, String.toList_append, List.mem_append, not_or]
  exact ⟨hs, ht⟩

theorem oneLine_toString (n : Nat) : OneLine (toString n) := by
  intro h
  have hm : '\n' ∈ Nat.toDigits 10 n := by simpa using h
  have hd : '\n'.isDigit = true := Nat.isDigit_of_mem_toDigits (by omega) (by omega) hm
  exact absurd hd (by decide)

/-- The text ends with this line. -/
def LastLine (text line : String) : Prop :=
  OneLine line ∧ ∃ before, (before = "" ∨ ∃ s, before = s ++ "\n") ∧ text = before ++ line ++ "\n"

theorem exists_dropEndWhile_append (p : Char → Bool) (cs : List Char) :
    ∃ tail, (∀ c ∈ tail, p c = true) ∧ cs = dropEndWhile p cs ++ tail := by
  refine ⟨(cs.reverse.takeWhile p).reverse, ?_, ?_⟩
  · intro c hc
    exact List.mem_takeWhile_imp (List.mem_reverse.mp hc)
  · rw [dropEndWhile, ← List.reverse_append, List.takeWhile_append_dropWhile, List.reverse_reverse]

theorem words_append_blanks {blanks : List Char} (h : ∀ c ∈ blanks, isBlank c = true)
    (cs : List Char) : words (cs ++ blanks) = words cs := by
  cases blanks with
  | nil => rw [List.append_nil]
  | cons b blanks =>
    rw [List.forall_mem_cons] at h
    rw [words_append_blank h.1, words_of_blank h.2, List.append_nil]

theorem words_dropEndWhile {p : Char → Bool} (hp : ∀ c, p c = true → isBlank c = true)
    (cs : List Char) : words (dropEndWhile p cs) = words cs := by
  obtain ⟨tail, ht, he⟩ := exists_dropEndWhile_append p cs
  have hb : ∀ c ∈ tail, isBlank c = true := fun c hc => hp c (ht c hc)
  calc words (dropEndWhile p cs) = words (dropEndWhile p cs ++ tail) :=
        (words_append_blanks hb _).symm
    _ = words cs := by rw [← he]

theorem words_trim (cs : List Char) : words (trim cs) = words cs := by
  have hb : ∀ c ∈ cs.takeWhile isBlank, isBlank c = true := fun c hc => List.mem_takeWhile_imp hc
  calc words (trim cs) = words (cs.dropWhile isBlank) := words_dropEndWhile (fun _ h => h) _
    _ = words (cs.takeWhile isBlank ++ cs.dropWhile isBlank) := (words_blank_append hb _).symm
    _ = words cs := by rw [List.takeWhile_append_dropWhile]

theorem words_dropReturns (s : String) : words (dropReturns s).toList = words s.toList := by
  have hr : ∀ c, decide (c = '\r') = true → isBlank c = true := by
    intro c hc
    rw [of_decide_eq_true hc]
    rfl
  rw [dropReturns, String.toList_ofList, words_dropEndWhile hr]

/-- The lines of a text, without the carriage returns at their ends. -/
def TypedAs (s : String) (typed : List String) : Prop :=
  ∃ parts, Lined s.toList parts ∧ typed = parts.map fun cs => dropReturns (String.ofList cs)

theorem exists_typedAs (s : String) : ∃ typed, TypedAs s typed := by
  obtain ⟨parts, h⟩ := exists_lined s.toList
  exact ⟨_, parts, h, rfl⟩

/-- Cutting the bytes of a text gives the lines of the text. -/
theorem TypedAs.lines_encode {s : String} {typed : List String} (h : TypedAs s typed) :
    lines (encode s) = typed.map some := by
  obtain ⟨parts, hp, rfl⟩ := h
  have he : encode s = s.toList.flatMap String.utf8EncodeChar := by
    rw [← encode_ofList, String.ofList_toList]
  rw [lines, he, hp.splitLines_eq]
  simp [← encode_ofList, decode?_encode]

theorem TypedAs.words_eq {s : String} {typed : List String} (h : TypedAs s typed) :
    words s.toList = typed.flatMap fun line => words line.toList := by
  obtain ⟨parts, hp, rfl⟩ := h
  simp [hp.words_eq, List.flatMap_map, words_dropReturns]

/-- Putting a newline after every line gives a text with the same words. -/
theorem TypedAs.words_join {s : String} {typed : List String} (h : TypedAs s typed) :
    words (String.join (typed.map (· ++ "\n"))).toList = words s.toList := by
  rw [h.words_eq]
  clear h
  induction typed with
  | nil => exact words_of_blank (by simp)
  | cons line typed ih =>
    have hl : (String.join ((line :: typed).map (· ++ "\n"))).toList =
        line.toList ++ '\n' :: (String.join (typed.map (· ++ "\n"))).toList := by
      simp
    rw [hl, words_append_blank (by decide), ih, List.flatMap_cons]

end Wanda.Text

import Wanda.Proofs.Program.Refusal
import Wanda.Proofs.Reduction.Forms

/-!
The kinds of atoms. Every atom that reading lets pass is of exactly one kind, and it is an integer
for reduction if and only if it is one for reading.
-/
namespace Wanda.Atom
open Text

inductive Kind where
  | reserved | word | operator | integer
  deriving DecidableEq, Repr

/-- The spellings of each kind. The arrow is spelled as an operator, but it is reserved. -/
inductive OfKind : Atom → Kind → Prop
  | reserved {a : Atom} : a ∈ ["$", ":", ";", "->"] → OfKind a .reserved
  | word {c : Char} {cs : List Char} : (IsLetter c ∨ c = '_') →
      (∀ d ∈ cs, IsLetter d ∨ IsDigit d ∨ d ∈ "_/?!'.-".toList) →
      OfKind (String.ofList (c :: cs)) .word
  | operator {cs : List Char} : cs ≠ [] → (∀ c ∈ cs, c ∈ "+-*/<>=!%^&|~@#".toList) →
      String.ofList cs ≠ "->" → OfKind (String.ofList cs) .operator
  | integer {a : Atom} {n : Int} : Denotes a n → -2 ^ 63 ≤ n → n ≤ 2 ^ 63 - 1 → OfKind a .integer

/-- The kind of an atom, if it has one. -/
def kind? (a : Atom) : Option Kind :=
  if isReserved a then some .reserved
  else if isWord a then some .word
  else if isOperator a then some .operator
  else if (integer? a).isSome then some .integer
  else none

theorem map_integer?_eq_some_iff {a : Atom} {n : Int} :
    (integer? a).map Int64.toInt = some n ↔ Denotes a n ∧ -2 ^ 63 ≤ n ∧ n ≤ 2 ^ 63 - 1 := by
  rw [← value?_eq_some_iff, Option.map_eq_some_iff]
  constructor
  · intro h
    obtain ⟨w, hw, rfl⟩ := h
    obtain ⟨v, hv, hw⟩ := Option.bind_eq_some_iff.mp hw
    obtain rfl := Numeral.word?_eq_some_iff.mp hw
    have hl := w.le_toInt
    have hu := w.toInt_lt
    exact ⟨hv, hl, by omega⟩
  · intro h
    obtain ⟨hv, hl, hu⟩ := h
    have hs : (Numeral.word? n).isSome := isSome_word?_iff.mpr (by omega)
    obtain ⟨w, hw⟩ := Option.isSome_iff_exists.mp hs
    exact ⟨w, by rw [integer?, hv, Option.bind_some, hw], Numeral.word?_eq_some_iff.mp hw⟩

theorem isSome_integer?_iff {a : Atom} : (integer? a).isSome = true ↔ OfKind a .integer := by
  rw [← Option.isSome_map (f := Int64.toInt), Option.isSome_iff_exists]
  constructor
  · intro h
    obtain ⟨n, hn⟩ := h
    obtain ⟨hd, hl, hu⟩ := map_integer?_eq_some_iff.mp hn
    exact .integer hd hl hu
  · intro h
    cases h with
    | integer hd hl hu => exact ⟨_, map_integer?_eq_some_iff.mpr ⟨hd, hl, hu⟩⟩

theorem text_eq_toString (n : Int) : Numeral.text n = toString n := by
  cases n with
  | ofNat m => rfl
  | negSucc m =>
    have hn : Int.negSucc m < 0 := Int.negSucc_lt_zero m
    rw [Numeral.text, Numeral.digits, if_pos hn, ← List.singleton_append, String.ofList_append]
    rfl

/-- A character that no word starts with and that is no digit. -/
def IsSymbol (c : Char) : Prop :=
  ¬ (IsLetter c ∨ c = '_') ∧ ¬ IsDigit c

theorem isSymbol_of_all {cs : List Char}
    (h : cs.all (fun c => !isWordStart c && !c.isDigit) = true) : ∀ c ∈ cs, IsSymbol c := by
  intro c hc
  have h := List.all_eq_true.mp h c hc
  rw [Bool.and_eq_true, Bool.not_eq_true', Bool.not_eq_true'] at h
  rw [IsSymbol, ← isWordStart_iff, ← isDigit_iff, h.1, h.2]
  exact ⟨Bool.false_ne_true, Bool.false_ne_true⟩

theorem isSymbol_of_isReserved {a : Atom} (h : isReserved a = true) :
    ∀ c ∈ a.toList, IsSymbol c := by
  rcases isReserved_iff.mp h with rfl | rfl | rfl | rfl
  all_goals exact isSymbol_of_all (by decide)

theorem isSymbol_of_isOperator {a : Atom} (h : isOperator a = true) :
    ∀ c ∈ a.toList, IsSymbol c := by
  have hs : ∀ c ∈ "+-*/<>=!%^&|~@#".toList, IsSymbol c := isSymbol_of_all (by decide)
  obtain ⟨cs, rfl, -, hcs⟩ := isOperator_iff.mp h
  rw [String.toList_ofList]
  exact fun c hc => hs c (hcs c hc)

theorem not_wordStart_of_isDigit {c : Char} (h : IsDigit c) : ¬ (IsLetter c ∨ c = '_') := by
  simp only [IsDigit, IsLetter, Char.le_def, UInt32.le_iff_toNat_le, Char.reduceVal,
    UInt32.reduceToNat] at h ⊢
  rintro (hl | rfl)
  · omega
  · revert h
    decide

/-- A word is told by its first character. -/
theorem isWord_eq_false {a : Atom} {c : Char} {cs : List Char} (ha : a.toList = c :: cs)
    (hc : ¬ (IsLetter c ∨ c = '_')) : isWord a = false := by
  rw [Bool.eq_false_iff]
  intro hw
  obtain ⟨d, ds, rfl, hd, -⟩ := isWord_iff.mp hw
  rw [String.toList_ofList] at ha
  cases ha
  exact hc hd

theorem Denotes.exists_isDigit {a : Atom} {n : Int} (h : Denotes a n) :
    ∃ d ∈ a.toList, IsDigit d := by
  cases h with
  | natural hn hd =>
    obtain ⟨d, hm⟩ := List.exists_mem_of_ne_nil _ hn
    exact ⟨d, by rwa [String.toList_ofList], hd d hm⟩
  | negative hn hd =>
    obtain ⟨d, hm⟩ := List.exists_mem_of_ne_nil _ hn
    exact ⟨d, by rw [String.toList_ofList]; exact .tail _ hm, hd d hm⟩

theorem Denotes.isWord_eq_false {a : Atom} {n : Int} (h : Denotes a n) : isWord a = false := by
  cases h with
  | natural hn hd =>
    obtain ⟨d, ds, rfl⟩ := List.exists_cons_of_ne_nil hn
    exact Atom.isWord_eq_false (String.toList_ofList) (not_wordStart_of_isDigit (hd d (by simp)))
  | negative hn hd =>
    refine Atom.isWord_eq_false (String.toList_ofList) ?_
    rw [← isWordStart_iff]
    decide

theorem isWord_eq_false_of_isSymbol {a : Atom} (h : ∀ c ∈ a.toList, IsSymbol c) :
    isWord a = false := by
  cases ha : a.toList with
  | nil => rw [isWord, ha]
  | cons c cs => exact isWord_eq_false ha (h c (by simp [ha])).1

theorem Denotes.not_isSymbol {a : Atom} {n : Int} (h : Denotes a n) :
    ¬ ∀ c ∈ a.toList, IsSymbol c := by
  intro hs
  obtain ⟨d, hm, hd⟩ := h.exists_isDigit
  exact (hs d hm).2 hd

theorem ofKind_reserved_iff {a : Atom} : OfKind a .reserved ↔ isReserved a = true := by
  rw [isReserved_iff]
  constructor
  · intro h
    cases h with
    | reserved h => simpa [or_comm, or_left_comm] using h
  · intro h
    exact .reserved (by simpa [or_comm, or_left_comm] using h)

theorem ofKind_word_iff {a : Atom} : OfKind a .word ↔ isWord a = true := by
  rw [isWord_iff]
  constructor
  · intro h
    cases h with
    | word hc hcs => exact ⟨_, _, rfl, hc, hcs⟩
  · intro h
    obtain ⟨c, cs, rfl, hc, hcs⟩ := h
    exact .word hc hcs

/-- Of the reserved atoms, the arrow alone is spelled as an operator. -/
theorem isOperator_and_isReserved_iff {a : Atom} :
    isOperator a = true ∧ isReserved a = true ↔ a = "->" := by
  rw [isReserved_iff]
  constructor
  · intro h
    obtain ⟨ho, rfl | rfl | rfl | rfl⟩ := h
    · exact absurd ho (by decide)
    · exact absurd ho (by decide)
    · rfl
    · exact absurd ho (by decide)
  · rintro rfl
    exact ⟨by decide, by decide⟩

theorem ofKind_operator_iff {a : Atom} :
    OfKind a .operator ↔ isOperator a = true ∧ isReserved a = false := by
  have hr := isOperator_and_isReserved_iff (a := a)
  constructor
  · intro h
    cases h with
    | operator hn hcs ha =>
      have ho := isOperator_iff.mpr ⟨_, rfl, hn, hcs⟩
      exact ⟨ho, Bool.eq_false_iff.mpr fun h => ha (hr.mp ⟨ho, h⟩)⟩
  · intro h
    obtain ⟨ho, hn⟩ := h
    obtain ⟨cs, rfl, hne, hcs⟩ := isOperator_iff.mp ho
    refine .operator hne hcs ?_
    intro ha
    rw [(hr.mpr ha).2] at hn
    cases hn

theorem OfKind.kind?_eq {a : Atom} {k : Kind} (h : OfKind a k) : kind? a = some k := by
  unfold kind?
  cases k with
  | reserved => rw [if_pos (ofKind_reserved_iff.mp h)]
  | word =>
    have hw := ofKind_word_iff.mp h
    have hr : ¬ isReserved a = true := by
      intro hr
      rw [isWord_eq_false_of_isSymbol (isSymbol_of_isReserved hr)] at hw
      cases hw
    rw [if_neg hr, if_pos hw]
  | operator =>
    obtain ⟨ho, hr⟩ := ofKind_operator_iff.mp h
    have hw := isWord_eq_false_of_isSymbol (isSymbol_of_isOperator ho)
    simp only [hr, hw, ho, if_true, Bool.false_eq_true, if_false]
  | integer =>
    have hi := isSome_integer?_iff.mpr h
    cases h with
    | integer hd =>
      have hr : ¬ isReserved a = true := fun hr => hd.not_isSymbol (isSymbol_of_isReserved hr)
      have ho : ¬ isOperator a = true := fun ho => hd.not_isSymbol (isSymbol_of_isOperator ho)
      rw [if_neg hr, hd.isWord_eq_false, if_neg Bool.false_ne_true, if_neg ho, if_pos hi]

theorem kind?_eq_some_iff {a : Atom} {k : Kind} : kind? a = some k ↔ OfKind a k := by
  refine ⟨?_, OfKind.kind?_eq⟩
  intro h
  unfold kind? at h
  split_ifs at h with hr hw ho hi
  · cases h
    exact ofKind_reserved_iff.mpr hr
  · cases h
    exact ofKind_word_iff.mpr hw
  · cases h
    exact ofKind_operator_iff.mpr ⟨ho, Bool.eq_false_iff.mpr hr⟩
  · cases h
    exact isSome_integer?_iff.mp hi

instance (a : Atom) (k : Kind) : Decidable (OfKind a k) :=
  decidable_of_iff _ kind?_eq_some_iff

theorem isSome_kind?_iff {a : Atom} : (kind? a).isSome = true ↔ Legal a := by
  rw [legal_iff]
  unfold kind?
  split_ifs <;> simp_all

theorem legal_iff_existsUnique {a : Atom} : Legal a ↔ ∃! k, OfKind a k := by
  rw [← isSome_kind?_iff, Option.isSome_iff_exists]
  constructor
  · intro h
    obtain ⟨k, hk⟩ := h
    refine ⟨k, kind?_eq_some_iff.mp hk, ?_⟩
    intro l hl
    exact Option.some.inj (hl.kind?_eq.symm.trans hk)
  · intro h
    obtain ⟨k, hk, -⟩ := h
    exact ⟨k, hk.kind?_eq⟩

end Wanda.Atom

namespace Wanda.Reduction
open Atom

/-- The atoms that a form reads as integers. -/
def Form.operands : Form → List Atom → List Atom
  | .arithmetic, rest => rest.take 2
  | .sign, rest => rest.take 1
  | .push, rest => (rest.drop 1).take 1
  | _, _ => []

/-- The atom that a form reads as its name. -/
def Form.name : Form → List Atom → List Atom
  | .arithmetic, rest => (rest.drop 3).take 1
  | .sign, rest => (rest.drop 2).take 1
  | .pop, rest => (rest.drop 2).take 1
  | .dup, rest => (rest.drop 2).take 1
  | _, _ => []

theorem ofKind_of_integer? {a : Atom} {n : Int64} (h : integer? a = some n) :
    OfKind a .integer := by
  rw [← isSome_integer?_iff, h]
  rfl

theorem Rewrites.ofKind_operands {rules : List Rule} {position : Nat} {form : Form}
    {rest : List Atom} {out : Except Fault (List Rule × List Atom)}
    (h : Rewrites rules position form rest out) : ∀ a ∈ form.operands rest, OfKind a .integer := by
  cases h with
  | arithmetic hx hy => simp [Form.operands, ofKind_of_integer? hx, ofKind_of_integer? hy]
  | overflow hx hy => simp [Form.operands, ofKind_of_integer? hx, ofKind_of_integer? hy]
  | sign hx => simp [Form.operands, ofKind_of_integer? hx]
  | push hn => simp [Form.operands, ofKind_of_integer? hn]
  | _ => simp [Form.operands]

theorem Operation.ofKind {op : Atom} {f : Int → Int → Int} (h : Operation op f) :
    OfKind op .operator := by
  cases h <;> decide

theorem Rewrites.ofKind_name {rules : List Rule} {position : Nat} {form : Form}
    {rest : List Atom} {out : Except Fault (List Rule × List Atom)}
    (h : Rewrites rules position form rest out) :
    ∀ a ∈ form.name rest, OfKind a .word ∨ OfKind a .operator := by
  have hw : ∀ a ∈ ["sgn", "pop", "dup"], OfKind a .word := by decide
  cases h with
  | arithmetic _ _ hf => simp [Form.name, hf.ofKind]
  | overflow _ _ hf => simp [Form.name, hf.ofKind]
  | sign => simp [Form.name, hw]
  | pop => simp [Form.name, hw]
  | dup => simp [Form.name, hw]
  | _ => simp [Form.name]

/-- An integer next to the cursor is moved over it, whatever the rules are. -/
theorem matchAt_of_integer {a : Atom} (h : OfKind a .integer) (rules : List Rule) (position : Nat)
    (rest : List Atom) :
    matchAt rules position (cursor :: a :: rest) = some (.ok (.swap [cursor, a] [a, cursor])) := by
  have hi := isSome_integer?_iff.mpr h
  have hc : integer? cursor = none := by decide
  have ha : a ≠ cursor := by
    rintro rfl
    rw [hc] at hi
    cases hi
  have hd : a ≠ define := by
    rintro rfl
    exact absurd hi (by decide)
  have hdef : definition? position (cursor :: a :: rest) = none := by simp [definition?, hd]
  have harith : arithmetic? (cursor :: a :: rest) = none := by
    rcases rest with _ | ⟨c, _ | ⟨op, rest⟩⟩
    · rfl
    · rfl
    · simp [arithmetic?, hc]
  have hsign : sign? (cursor :: a :: rest) = none := by
    cases rest with
    | nil => rfl
    | cons op rest => simp [sign?, ha]
  have hstack : stackWord? (cursor :: a :: rest) = none := by
    cases rest with
    | nil => rfl
    | cons op rest => simp [stackWord?, ha]
  have hpush : push? (cursor :: a :: rest) = some (.swap [cursor, a] [a, cursor]) :=
    if_pos ⟨rfl, hi⟩
  rw [matchAt, hdef, harith, hsign, hstack, hpush]
  rfl

/--
Integers are the numerals within 64 bits, and the decimal text of an integer is one of them. What
reading lets pass is of exactly one kind; reduction takes for integers the atoms of this kind and
no others, and for names of forms only words and operators.
-/
theorem integers_told_alike :
    (∀ a n, (integer? a).map Int64.toInt = some n ↔
      Denotes a n ∧ -2 ^ 63 ≤ n ∧ n ≤ 2 ^ 63 - 1) ∧
    (∀ n : Int64, ofInt64 n = toString n.toInt ∧ integer? (toString n.toInt) = some n) ∧
    (∀ position a, Program.checkAtom position a = .ok () ↔ ∃! k, OfKind a k) ∧
    (∀ a, (integer? a).isSome = true ↔ OfKind a .integer) ∧
    (∀ rules position rest out, told rules rest (matchAt rules position rest) = some out →
      ∃ form, First rules position rest form out ∧
        (∀ a ∈ form.operands rest, OfKind a .integer) ∧
        ∀ a ∈ form.name rest, OfKind a .word ∨ OfKind a .operator) ∧
    (∀ a, OfKind a .integer → ∀ rules position rest,
      matchAt rules position (cursor :: a :: rest) =
        some (.ok (.swap [cursor, a] [a, cursor]))) := by
  refine ⟨?_, ?_, ?_, ?_, ?_, ?_⟩
  · intro a n
    exact map_integer?_eq_some_iff
  · intro n
    have ht : ofInt64 n = toString n.toInt := text_eq_toString n.toInt
    exact ⟨ht, by rw [← ht, integer?_ofInt64]⟩
  · intro position a
    rw [Program.checkAtom_eq_ok_iff, legal_iff_existsUnique]
  · intro a
    exact isSome_integer?_iff
  · intro rules position rest out h
    obtain ⟨form, hf⟩ := told_matchAt_eq_some_iff.mp h
    exact ⟨form, hf, hf.1.ofKind_operands, hf.1.ofKind_name⟩
  · intro a h
    exact matchAt_of_integer h

theorem integers_told_alike_extremes :
    integer? "-009223372036854775808" = some Int64.minValue ∧
      Program.checkAtom 0 "9223372036854775808" ≠ .ok () ∧
      matchAt [] 0 ["$", "-009223372036854775808"] =
        some (.ok (.swap ["$", "-009223372036854775808"] ["-009223372036854775808", "$"])) := by
  obtain ⟨-, -, hcheck, hkind, -, hpush⟩ := integers_told_alike
  have hi : integer? "-009223372036854775808" = some Int64.minValue := by decide
  have hk : OfKind "-009223372036854775808" .integer := (hkind _).mp (by rw [hi]; rfl)
  have hn : kind? "9223372036854775808" = none := by decide
  refine ⟨hi, ?_, hpush _ hk [] 0 []⟩
  rw [ne_eq, hcheck]
  rintro ⟨k, hk, -⟩
  rw [hk.kind?_eq] at hn
  cases hn

end Wanda.Reduction

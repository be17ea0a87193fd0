import Wanda.Program
import Wanda.Proofs.Text.Numeral
import Wanda.Proofs.Text.Words
import Mathlib

/-!
The atoms that a program may hold, class by class. They are what reading lets pass, and none has a
blank in it.
-/
namespace Wanda.Atom
open Text

def IsLetter (c : Char) : Prop :=
  'A' ≤ c ∧ c ≤ 'Z' ∨ 'a' ≤ c ∧ c ≤ 'z'

def IsDigit (c : Char) : Prop :=
  '0' ≤ c ∧ c ≤ '9'

/-- The value of digits in the decimal system, the highest first. -/
def decimal (ds : List Char) : Nat :=
  Nat.ofDigits 10 (ds.reverse.map fun d => d.toNat - '0'.toNat)

/-- An integer counts if some 64-bit word has its value. -/
inductive Legal : Atom → Prop
  | cursor : Legal "$"
  | define : Legal ":"
  | close : Legal ";"
  | arrow : Legal "->"
  | word {c : Char} {cs : List Char} : (IsLetter c ∨ c = '_') →
      (∀ d ∈ cs, IsLetter d ∨ IsDigit d ∨ d ∈ "_/?!'.-".toList) → Legal (String.ofList (c :: cs))
  | operator {cs : List Char} : cs ≠ [] → (∀ c ∈ cs, c ∈ "+-*/<>=!%^&|~@#".toList) →
      Legal (String.ofList cs)
  | natural {ds : List Char} {n : Int64} : ds ≠ [] → (∀ d ∈ ds, IsDigit d) →
      n.toInt = decimal ds → Legal (String.ofList ds)
  | negative {ds : List Char} {n : Int64} : ds ≠ [] → (∀ d ∈ ds, IsDigit d) →
      n.toInt = -decimal ds → Legal (String.ofList ('-' :: ds))

theorem isDigit_iff {c : Char} : c.isDigit = true ↔ IsDigit c := by
  simp [Char.isDigit, IsDigit, Char.le_def]

theorem isAlpha_iff {c : Char} : c.isAlpha = true ↔ IsLetter c := by
  simp [Char.isAlpha, Char.isUpper, Char.isLower, IsLetter, Char.le_def]

theorem isWordStart_iff {c : Char} : isWordStart c = true ↔ IsLetter c ∨ c = '_' := by
  simp [isWordStart, isAlpha_iff]

theorem isWordRest_iff {c : Char} :
    isWordRest c = true ↔ IsLetter c ∨ IsDigit c ∨ c ∈ "_/?!'.-".toList := by
  simp only [isWordRest, Char.isAlphanum, Bool.or_eq_true, isAlpha_iff, isDigit_iff, or_assoc,
    List.contains_iff_mem]

theorem isOperatorChar_iff {c : Char} :
    isOperatorChar c = true ↔ c ∈ "+-*/<>=!%^&|~@#".toList := by
  simp only [isOperatorChar, List.contains_iff_mem]

theorem decimal_eq_ofDigitChars (ds : List Char) : decimal ds = Nat.ofDigitChars 10 ds 0 := by
  rw [decimal, Nat.ofDigitChars_eq_foldl, Nat.ofDigits_eq_foldr, List.map_reverse,
    List.foldr_reverse, List.foldl_map]
  simp [Nat.add_comm]

theorem isWord_iff {a : Atom} : isWord a = true ↔ ∃ c cs, a = String.ofList (c :: cs) ∧
    (IsLetter c ∨ c = '_') ∧ ∀ d ∈ cs, IsLetter d ∨ IsDigit d ∨ d ∈ "_/?!'.-".toList := by
  simp only [← isWordStart_iff, ← isWordRest_iff]
  constructor
  · intro h
    unfold isWord at h
    cases ha : a.toList with
    | nil => simp [ha] at h
    | cons c cs =>
      rw [ha] at h
      obtain ⟨hc, hcs⟩ := Bool.and_eq_true_iff.mp h
      exact ⟨c, cs, by rw [← ha, String.ofList_toList], hc, List.all_eq_true.mp hcs⟩
  · intro h
    obtain ⟨c, cs, rfl, hc, hcs⟩ := h
    simp [isWord, hc, List.all_eq_true.mpr hcs]

theorem isOperator_iff {a : Atom} : isOperator a = true ↔ ∃ cs, a = String.ofList cs ∧ cs ≠ [] ∧
    ∀ c ∈ cs, c ∈ "+-*/<>=!%^&|~@#".toList := by
  simp only [← isOperatorChar_iff]
  constructor
  · intro h
    simp only [isOperator, Bool.and_eq_true, Bool.not_eq_true', List.isEmpty_eq_false_iff,
      List.all_eq_true] at h
    exact ⟨a.toList, by rw [String.ofList_toList], h⟩
  · intro h
    obtain ⟨cs, rfl, hn, hcs⟩ := h
    simpa [isOperator, hn] using hcs

theorem isDigits_iff {ds : List Char} :
    Numeral.isDigits ds = true ↔ ds ≠ [] ∧ ∀ d ∈ ds, IsDigit d := by
  simp only [Numeral.isDigits, Bool.and_eq_true, Bool.not_eq_true', List.isEmpty_eq_false_iff,
    List.all_eq_true, isDigit_iff]

theorem value?_natural {ds : List Char} (hn : ds ≠ []) (hd : ∀ d ∈ ds, IsDigit d) :
    Numeral.value? ds = some (decimal ds : Int) := by
  rw [Numeral.value?_of_isDigits (isDigits_iff.mpr ⟨hn, hd⟩), decimal_eq_ofDigitChars]

theorem value?_negative {ds : List Char} (hn : ds ≠ []) (hd : ∀ d ∈ ds, IsDigit d) :
    Numeral.value? ('-' :: ds) = some (-decimal ds : Int) := by
  rw [Numeral.value?, if_pos (isDigits_iff.mpr ⟨hn, hd⟩), decimal_eq_ofDigitChars]

/-- A numeral is a row of digits, maybe after a minus sign. -/
theorem exists_digits_of_value? {cs : List Char} {n : Int} (h : Numeral.value? cs = some n) :
    ∃ ds, ds ≠ [] ∧ (∀ d ∈ ds, IsDigit d) ∧
      (cs = ds ∧ n = decimal ds ∨ cs = '-' :: ds ∧ n = -decimal ds) := by
  unfold Numeral.value? at h
  split at h
  · rename_i ds
    split at h
    · rename_i hds
      obtain ⟨hn, hd⟩ := isDigits_iff.mp hds
      cases h
      exact ⟨ds, hn, hd, .inr ⟨rfl, by rw [decimal_eq_ofDigitChars]⟩⟩
    · cases h
  · split at h
    · rename_i hds
      obtain ⟨hn, hd⟩ := isDigits_iff.mp hds
      cases h
      exact ⟨cs, hn, hd, .inl ⟨rfl, by rw [decimal_eq_ofDigitChars]⟩⟩
    · cases h

theorem integer?_eq_some_iff {a : Atom} {n : Int64} :
    integer? a = some n ↔ ∃ ds, ds ≠ [] ∧ (∀ d ∈ ds, IsDigit d) ∧
      (a = String.ofList ds ∧ n.toInt = decimal ds ∨
        a = String.ofList ('-' :: ds) ∧ n.toInt = -decimal ds) := by
  rw [integer?, Option.bind_eq_some_iff]
  simp only [Numeral.word?_eq_some_iff]
  constructor
  · intro h
    obtain ⟨v, hv, rfl⟩ := h
    obtain ⟨ds, hn, hd, ⟨he, hv⟩ | ⟨he, hv⟩⟩ := exists_digits_of_value? hv
    · exact ⟨ds, hn, hd, .inl ⟨by rw [← he, String.ofList_toList], hv⟩⟩
    · exact ⟨ds, hn, hd, .inr ⟨by rw [← he, String.ofList_toList], hv⟩⟩
  · intro h
    obtain ⟨ds, hn, hd, ⟨rfl, hv⟩ | ⟨rfl, hv⟩⟩ := h
    · exact ⟨_, by rw [String.toList_ofList, value?_natural hn hd], hv⟩
    · exact ⟨_, by rw [String.toList_ofList, value?_negative hn hd], hv⟩

theorem isReserved_iff {a : Atom} :
    isReserved a = true ↔ a = "$" ∨ a = ":" ∨ a = "->" ∨ a = ";" := by
  simp only [isReserved, Bool.or_eq_true, decide_eq_true_eq, or_assoc]
  rfl

theorem legal_iff {a : Atom} : Legal a ↔
    isReserved a = true ∨ isWord a = true ∨ isOperator a = true ∨ (integer? a).isSome = true := by
  rw [isReserved_iff, isWord_iff, isOperator_iff, Option.isSome_iff_exists]
  simp only [integer?_eq_some_iff]
  constructor
  · intro h
    cases h with
    | cursor => exact .inl (.inl rfl)
    | define => exact .inl (.inr (.inl rfl))
    | arrow => exact .inl (.inr (.inr (.inl rfl)))
    | close => exact .inl (.inr (.inr (.inr rfl)))
    | word hc hcs => exact .inr (.inl ⟨_, _, rfl, hc, hcs⟩)
    | operator hn hcs => exact .inr (.inr (.inl ⟨_, rfl, hn, hcs⟩))
    | natural hn hd hv => exact .inr (.inr (.inr ⟨_, _, hn, hd, .inl ⟨rfl, hv⟩⟩))
    | negative hn hd hv => exact .inr (.inr (.inr ⟨_, _, hn, hd, .inr ⟨rfl, hv⟩⟩))
  · intro h
    rcases h with (rfl | rfl | rfl | rfl) | ⟨c, cs, rfl, hc, hcs⟩ | ⟨cs, rfl, hn, hcs⟩ |
      ⟨n, ds, hn, hd, ⟨rfl, hv⟩ | ⟨rfl, hv⟩⟩
    · exact .cursor
    · exact .define
    · exact .arrow
    · exact .close
    · exact .word hc hcs
    · exact .operator hn hcs
    · exact .natural hn hd hv
    · exact .negative hn hd hv

theorem integer?_ofInt64 (n : Int64) : integer? (ofInt64 n) = some n := by
  rw [integer?, ofInt64, Numeral.value?_text, Option.bind_some]
  exact Numeral.word?_eq_some_iff.mpr rfl

theorem legal_of_integer? {a : Atom} {n : Int64} (h : integer? a = some n) : Legal a := by
  refine legal_iff.mpr (.inr (.inr (.inr ?_)))
  rw [h]
  rfl

theorem legal_ofInt64 (n : Int64) : Legal (ofInt64 n) :=
  legal_of_integer? (integer?_ofInt64 n)

theorem isGraphic_of_isLetter {c : Char} (h : IsLetter c) : IsGraphic c := by
  simp only [IsLetter, Char.le_def, UInt32.le_iff_toNat_le, Char.reduceVal, UInt32.reduceToNat] at h
  unfold IsGraphic Char.toNat
  omega

theorem isGraphic_of_isDigit {c : Char} (h : IsDigit c) : IsGraphic c := by
  simp only [IsDigit, Char.le_def, UInt32.le_iff_toNat_le, Char.reduceVal, UInt32.reduceToNat] at h
  unfold IsGraphic Char.toNat
  omega

/-- Atoms are spelled with the visible characters of ASCII. -/
theorem Legal.isGraphic {a : Atom} (h : Legal a) : ∀ c ∈ a.toList, IsGraphic c := by
  have hw : ∀ c ∈ "_/?!'.-".toList, IsGraphic c := isGraphic_of_all (by decide)
  have ho : ∀ c ∈ "+-*/<>=!%^&|~@#".toList, IsGraphic c := isGraphic_of_all (by decide)
  cases h with
  | cursor => exact isGraphic_of_all (by decide)
  | define => exact isGraphic_of_all (by decide)
  | close => exact isGraphic_of_all (by decide)
  | arrow => exact isGraphic_of_all (by decide)
  | word hc hcs =>
    rw [String.toList_ofList, List.forall_mem_cons]
    refine ⟨?_, ?_⟩
    · rcases hc with hc | rfl
      · exact isGraphic_of_isLetter hc
      · decide
    · intro d hd
      rcases hcs d hd with h | h | h
      · exact isGraphic_of_isLetter h
      · exact isGraphic_of_isDigit h
      · exact hw d h
  | operator hn hcs =>
    rw [String.toList_ofList]
    exact fun c hc => ho c (hcs c hc)
  | natural hn hd =>
    rw [String.toList_ofList]
    exact fun d h => isGraphic_of_isDigit (hd d h)
  | negative hn hd =>
    rw [String.toList_ofList, List.forall_mem_cons]
    exact ⟨by decide, fun d h => isGraphic_of_isDigit (hd d h)⟩

theorem Legal.toList_ne_nil {a : Atom} (h : Legal a) : a.toList ≠ [] := by
  cases h with
  | cursor => decide
  | define => decide
  | close => decide
  | arrow => decide
  | _ => simp_all

/-- No atom but the one that opens a definition starts with a colon. -/
theorem Legal.eq_define_of_colon {a : Atom} (h : Legal a) {cs : List Char}
    (ha : a.toList = ':' :: cs) : a = Atom.define := by
  have hd : ¬ IsDigit ':' := by unfold IsDigit; decide
  have hl : ¬ IsLetter ':' := by unfold IsLetter; decide
  cases h with
  | define => rfl
  | cursor => simp at ha
  | close => simp at ha
  | arrow => simp at ha
  | word hc =>
    rw [String.toList_ofList] at ha
    cases ha
    rcases hc with hc | hc
    · exact absurd hc hl
    · cases hc
  | operator hn hcs =>
    rw [String.toList_ofList] at ha
    exact absurd (hcs ':' (by simp [ha])) (by decide)
  | natural hn hds =>
    rw [String.toList_ofList] at ha
    exact absurd (hds ':' (by simp [ha])) hd
  | negative => simp at ha

end Wanda.Atom

namespace Wanda.Program
open Atom Text

theorem checkAtom_eq_ok_iff {position : Nat} {a : Atom} :
    checkAtom position a = .ok () ↔ Legal a := by
  rw [legal_iff]
  unfold checkAtom
  split
  · rename_i h
    simp only [Bool.or_eq_true, or_assoc] at h
    exact iff_of_true rfl (by tauto)
  · rename_i h
    simp only [Bool.or_eq_true, not_or] at h
    simp only [h, Bool.false_eq_true, false_or, integer?]
    cases Numeral.value? a.toList with
    | none => simp
    | some n => simp [Option.isSome_iff_ne_none]

theorem checkAtoms_eq_ok_iff {position : Nat} {atoms : List Atom} :
    checkAtoms position atoms = .ok () ↔ ∀ a ∈ atoms, Legal a := by
  induction atoms generalizing position with
  | nil => simp [checkAtoms]
  | cons a rest ih =>
    have ha := @checkAtom_eq_ok_iff position a
    have hr := @ih (position + 1)
    rw [checkAtoms, List.forall_mem_cons, ← ha, ← hr]
    cases checkAtom position a with
    | error e => simp [bind, Except.bind]
    | ok u => simp [bind, Except.bind]

end Wanda.Program

import Wanda.Atom
import Mathlib.Data.Nat.Digits.Defs

/-! Numerals are read back as what they were written for. -/
namespace Wanda.Text.Numeral

theorem isDigits_toDigits (n : Nat) : isDigits (Nat.toDigits 10 n) = true := by
  have hd : ∀ c ∈ Nat.toDigits 10 n, c.isDigit = true := fun c hc =>
    Nat.isDigit_of_mem_toDigits (by omega) (by omega) hc
  simp [isDigits, Nat.toDigits_ne_nil, List.all_eq_true.mpr hd]

theorem value?_of_isDigits {ds : List Char} (h : isDigits ds = true) :
    value? ds = some (Nat.ofDigitChars 10 ds 0 : Int) := by
  unfold value?
  split
  · simp [isDigits] at h
  · rw [if_pos h]

theorem value?_digits (n : Int) : value? (digits n) = some n := by
  have hd := isDigits_toDigits n.natAbs
  unfold digits
  split_ifs with hn
  · simp only [value?, hd, if_true, Nat.ofDigitChars_ten_toDigits]
    congr 1
    omega
  · rw [value?_of_isDigits hd, Nat.ofDigitChars_ten_toDigits]
    congr 1
    omega

theorem value?_text (n : Int) : value? (text n).toList = some n := by
  rw [text, String.toList_ofList, value?_digits]

theorem text_ne {a : Atom} (h : value? a.toList = none) (n : Int) : text n ≠ a := by
  rintro rfl
  rw [value?_text] at h
  cases h

end Wanda.Text.Numeral

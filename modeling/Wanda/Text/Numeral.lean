/-! Decimal numerals: an optional minus sign and at least one ASCII digit. -/

namespace Wanda.Text.Numeral

def isDigits (cs : List Char) : Bool :=
  !cs.isEmpty && cs.all Char.isDigit

/-- The value of a numeral, however large. -/
def value? : List Char → Option Int
  | '-' :: ds => if isDigits ds then some (-(Nat.ofDigitChars 10 ds 0 : Int)) else none
  | ds => if isDigits ds then some (Nat.ofDigitChars 10 ds 0 : Int) else none

def word? (n : Int) : Option Int64 :=
  if -0x8000000000000000 ≤ n ∧ n < 0x8000000000000000 then some (Int64.ofInt n) else none

/-- The numeral without leading zeros. -/
def digits (n : Int) : List Char :=
  if n < 0 then '-' :: Nat.toDigits 10 n.natAbs else Nat.toDigits 10 n.natAbs

def text (n : Int) : String :=
  String.ofList (digits n)

theorem word?_eq_some_iff {n : Int} {w : Int64} : word? n = some w ↔ w.toInt = n := by
  unfold word?
  constructor
  · intro h
    split at h
    · rename_i hn
      cases h
      exact Int64.toInt_ofInt_of_le hn.1 hn.2
    · cases h
  · rintro rfl
    rw [if_pos ⟨w.le_toInt, w.toInt_lt⟩, Int64.ofInt_toInt]

end Wanda.Text.Numeral

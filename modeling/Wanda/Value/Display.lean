import Wanda.Text.Truth
import Wanda.Value.Basic

/-! The texts of values, as scripts and their users see them. -/

namespace Wanda

def Key.text : Key → String
  | int n => Text.Numeral.text n.toInt
  | str s => s
  | bool b => Text.truth b

namespace Value

variable {κ : Type}

def enclosed (opening closing : String) (items : List String) : String :=
  opening ++ ", ".intercalate items ++ closing

def sortTexts (items : List String) : List String :=
  items.mergeSort fun a b => decide (a ≤ b)

mutual

/-- Strings stand as they are, and the pairs of a hash in the order of their texts. -/
def text : Value κ → String
  | int n => Text.Numeral.text n.toInt
  | str s => s
  | bool b => Text.truth b
  | null => "null"
  | array vs => enclosed "[" "]" (texts vs)
  | hash ⟨es⟩ => enclosed "\x7b" "\x7d" (sortTexts (pairTexts es))
  | returning v => "return " ++ v.text
  | builtin _ => "builtin function"

def texts : List (Value κ) → List String
  | [] => []
  | v :: vs => v.text :: texts vs

def pairTexts : List (Key × Value κ) → List String
  | [] => []
  | (k, v) :: es => (k.text ++ ": " ++ v.text) :: pairTexts es

end

end Value
end Wanda

import Wanda.Text.Numeral

/-! Atoms, the blank-free pieces a program is made of, and their classes. -/

namespace Wanda

abbrev Atom := String

namespace Atom
open Text

/-- The cursor parts the stack on its left from the work on its right. -/
def cursor : Atom := "$"

def define : Atom := ":"

def arrow : Atom := "->"

def close : Atom := ";"

def isReserved (a : Atom) : Bool :=
  a = cursor || a = define || a = arrow || a = close

def isWordStart (c : Char) : Bool :=
  c.isAlpha || c = '_'

def isWordRest (c : Char) : Bool :=
  c.isAlphanum || "_/?!'.-".toList.contains c

def isWord (a : Atom) : Bool :=
  match a.toList with
  | [] => false
  | c :: rest => isWordStart c && rest.all isWordRest

def isOperatorChar (c : Char) : Bool :=
  "+-*/<>=!%^&|~@#".toList.contains c

def isOperator (a : Atom) : Bool :=
  !a.toList.isEmpty && a.toList.all isOperatorChar

/-- The value of a numeral that fits in a 64-bit word. -/
def integer? (a : Atom) : Option Int64 :=
  (Numeral.value? a.toList).bind Numeral.word?

def ofInt64 (n : Int64) : Atom :=
  Numeral.text n.toInt

end Atom
end Wanda

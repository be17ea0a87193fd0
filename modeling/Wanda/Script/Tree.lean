import Wanda.Script.Token
import Wanda.Text.Numeral
import Wanda.Text.Truth

/-! Scripts as trees, and the text they are shown as. -/

namespace Wanda.Script

inductive Expr where
  | name (text : String)
  | int (n : Int64)
  | str (content : String)
  | bool (b : Bool)
  | null
  | array (elements : List Expr)
  | hash (pairs : List (Expr × Expr))
  | call (function : Expr) (arguments : List Expr)
  deriving Repr

inductive Statement where
  | binding (name : String) (value : Expr)
  | result (value : Expr)
  | expr (value : Expr)
  deriving Repr

end Script

abbrev Script := List Script.Statement

namespace Script

mutual

def Expr.text (hidden : Char → Bool) : Expr → String
  | .name s => s
  | .int n => Text.Numeral.text n.toInt
  | .str s => Text.Quoted.text hidden s
  | .bool b => Text.truth b
  | .null => "null"
  | .array es => "[" ++ ", ".intercalate (texts hidden es) ++ "]"
  | .hash ps => "\x7b" ++ ", ".intercalate (pairTexts hidden ps) ++ "\x7d"
  | .call f args => f.text hidden ++ "(" ++ ", ".intercalate (texts hidden args) ++ ")"

def Expr.texts (hidden : Char → Bool) : List Expr → List String
  | [] => []
  | e :: es => e.text hidden :: texts hidden es

def Expr.pairTexts (hidden : Char → Bool) : List (Expr × Expr) → List String
  | [] => []
  | (k, v) :: ps => (k.text hidden ++ ": " ++ v.text hidden) :: pairTexts hidden ps

end

def Statement.text (hidden : Char → Bool) : Statement → String
  | binding name value => "let " ++ name ++ " = " ++ value.text hidden ++ ";"
  | result value => "return " ++ value.text hidden ++ ";"
  | expr value => value.text hidden ++ ";"

def text (hidden : Char → Bool) (script : Script) : String :=
  String.join (script.map (·.text hidden ++ "\n"))

end Wanda.Script

import Wanda.Text.Quoted

/-! The tokens of the script language and how they are spelled. -/

namespace Wanda.Script

inductive Mark where
  | equals | comma | semicolon | colon
  | openParen | closeParen | openBrace | closeBrace | openBracket | closeBracket
  deriving DecidableEq, Repr

def Mark.char : Mark → Char
  | equals => '='
  | comma => ','
  | semicolon => ';'
  | colon => ':'
  | openParen => '('
  | closeParen => ')'
  | openBrace => '\x7b'
  | closeBrace => '\x7d'
  | openBracket => '['
  | closeBracket => ']'

def Mark.all : List Mark :=
  [equals, comma, semicolon, colon, openParen, closeParen, openBrace, closeBrace, openBracket,
    closeBracket]

def Mark.ofChar? (c : Char) : Option Mark :=
  all.find? (·.char = c)

def Mark.text (m : Mark) : String :=
  String.singleton m.char

inductive Keyword where
  | bind | result | true | false | null
  deriving DecidableEq, Repr

def Keyword.text : Keyword → String
  | bind => "let"
  | result => "return"
  | true => "true"
  | false => "false"
  | null => "null"

def Keyword.all : List Keyword :=
  [bind, result, true, false, null]

def Keyword.ofText? (s : String) : Option Keyword :=
  all.find? (·.text = s)

inductive Token where
  | name (text : String)
  /-- A numeral as it is spelled. -/
  | int (numeral : String)
  | str (content : String)
  | mark (m : Mark)
  | keyword (k : Keyword)
  | illegal (text : String)
  deriving DecidableEq, Repr

def Token.text (hidden : Char → Bool) : Token → String
  | name s => s
  | int s => s
  | str s => Text.Quoted.text hidden s
  | mark m => m.text
  | keyword k => k.text
  | illegal s => s

/-- A run of name characters is a name unless it is a keyword. -/
def Token.ofRun (s : String) : Token :=
  match Keyword.ofText? s with
  | some k => keyword k
  | none => name s

end Wanda.Script

import Wanda.Text.Blank

/-! Lines of bytes, each of which may or may not be text. -/

namespace Wanda.Text

def decode? (bytes : List UInt8) : Option String :=
  String.fromUTF8? ⟨bytes.toArray⟩

/-- Cut at every newline, which belongs to no line. What follows the last one is a line unless
empty. -/
def splitLines : List UInt8 → List (List UInt8)
  | [] => []
  | b :: bs =>
    if b = 0x0A then [] :: splitLines bs
    else match splitLines bs with
      | [] => [[b]]
      | line :: rest => (b :: line) :: rest

def dropReturns (s : String) : String :=
  String.ofList (dropEndWhile (· = '\r') s.toList)

/-- The lines of an input, `none` for one that is not text. -/
def lines (bytes : List UInt8) : List (Option String) :=
  (splitLines bytes).map fun line => (decode? line).map dropReturns

end Wanda.Text

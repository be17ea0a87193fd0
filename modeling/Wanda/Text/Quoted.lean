/-!
Quoted text: double quotes around the characters, with escapes for what cannot stand as is. Which
characters are hidden, and so written by number, is a choice of the writer.
-/

namespace Wanda.Text.Quoted

/-- The number of a character in lower-case hexadecimal, between braces. -/
def escapeByNumber (c : Char) : List Char :=
  ['\\', 'u', '\x7b'] ++ Nat.toDigits 16 c.toNat ++ ['\x7d']

def escape (hidden : Char → Bool) (c : Char) : List Char :=
  if c = '"' then ['\\', '"']
  else if c = '\\' then ['\\', '\\']
  else if c = '\n' then ['\\', 'n']
  else if c = '\r' then ['\\', 'r']
  else if c = '\t' then ['\\', 't']
  else if c = '\x00' then ['\\', '0']
  else if hidden c then escapeByNumber c
  else [c]

def chars (hidden : Char → Bool) (cs : List Char) : List Char :=
  '"' :: cs.flatMap (escape hidden) ++ ['"']

def text (hidden : Char → Bool) (s : String) : String :=
  String.ofList (chars hidden s.toList)

end Wanda.Text.Quoted

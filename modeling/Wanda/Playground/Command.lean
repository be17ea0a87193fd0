import Wanda.Text.Blank

/-! What a line typed into the playground asks for. -/

namespace Wanda.Playground
open Text

inductive Command where
  | run
  | print
  | clear
  | list
  | select (label : String)
  | help
  | quit
  | unknown (name : String)
  | line (text : String)
  deriving DecidableEq, Repr

namespace Command

def ofName (name argument : String) : Command :=
  if name = "run" then run
  else if name = "show" then print
  else if name = "clear" then clear
  else if name = "list" then list
  else if name = "select" then select argument
  else if name = "help" then help
  else if name = "quit" ∨ name = "q" then quit
  else unknown name

/--
A command is a colon and a name directly after it. A colon that stands alone opens a rule
definition, so that line is part of the program.
-/
def parse (text : String) : Command :=
  match trim text.toList with
  | ':' :: c :: cs =>
    if isBlank c then line text
    else
      let name := (c :: cs).takeWhile (!isBlank ·)
      let argument := trim ((c :: cs).dropWhile (!isBlank ·))
      ofName (String.ofList name) (String.ofList argument)
  | _ => line text

end Command
end Wanda.Playground

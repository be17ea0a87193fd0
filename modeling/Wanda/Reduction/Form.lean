import Wanda.Program

/-!
The forms that reduction acts on. A form is tried on the atoms from some position to the end;
`matchAt` tries them in the order of their precedence.
-/

namespace Wanda.Reduction
open Atom

structure Rule where
  pattern : List Atom
  replacement : List Atom
  deriving DecidableEq, Repr

inductive Fault where
  | overflow (operation : List Atom)
  | emptyPattern (position : Nat)
  deriving DecidableEq, Repr

def Fault.message : Fault → String
  | overflow operation =>
    let shown := Program.render operation
    s!"integer overflow in `{shown}`"
  | emptyPattern position => s!"rule defined at position {position} has an empty pattern"

/-- A form that applies: the next `width` atoms give way to `replacement`. -/
structure Match where
  width : Nat
  /-- The atoms that give way; a definition stands abridged. -/
  pattern : List Atom
  replacement : List Atom
  rule : Option Rule := none
  deriving DecidableEq, Repr

def Match.swap (pattern replacement : List Atom) : Match :=
  { width := pattern.length, pattern, replacement }

/-- The rule written in the body of a definition. Arrows after the first count for nothing. -/
def Rule.ofBody (body : List Atom) : Rule where
  pattern := body.takeWhile (· ≠ arrow)
  replacement := (body.dropWhile (· ≠ arrow)).filter (· ≠ arrow)

/-- `$ : pattern -> replacement ;`, where a missing `;` makes the body run to the end. -/
def definition? (position : Nat) : List Atom → Option (Except Fault Match)
  | c :: d :: rest =>
    if c = cursor ∧ d = define then
      let body := rest.takeWhile (· ≠ close)
      let rule := Rule.ofBody body
      if rule.pattern = [] then some (.error (.emptyPattern position))
      else some (.ok
        { width := min (body.length + 3) (rest.length + 2)
          pattern := [cursor, define, "...", close]
          replacement := [cursor]
          rule := some rule })
    else none
  | _ => none

def operation? (op : Atom) : Option (Int → Int → Int) :=
  if op = "+" then some (· + ·)
  else if op = "*" then some (· * ·)
  else if op = "-" then some (· - ·)
  else none

/-- `x y $ op` for integers `x` and `y`. -/
def arithmetic? : List Atom → Option (Except Fault Match)
  | x :: y :: c :: op :: _ => do
    guard (c = cursor)
    let a ← integer? x
    let b ← integer? y
    let f ← operation? op
    return match Text.Numeral.word? (f a.toInt b.toInt) with
      | some n => .ok (.swap [x, y, c, op] [ofInt64 n, cursor])
      | none => .error (.overflow [x, y, c, op])
  | _ => none

def sign? : List Atom → Option Match
  | x :: c :: op :: _ => do
    guard (c = cursor ∧ op = "sgn")
    let a ← integer? x
    return .swap [x, c, op] [Text.Numeral.text a.toInt.sign, cursor]
  | _ => none

def stackWord? : List Atom → Option Match
  | x :: c :: op :: _ =>
    if c = cursor then
      if op = "pop" then some (.swap [x, c, op] [cursor])
      else if op = "dup" then some (.swap [x, c, op] [x, x, cursor])
      else none
    else none
  | _ => none

/-- `$ n` moves an integer onto the stack as it is written. -/
def push? : List Atom → Option Match
  | c :: n :: _ => if c = cursor ∧ (integer? n).isSome then some (.swap [c, n] [n, c]) else none
  | _ => none

/-- The first rule whose pattern comes next. -/
def userRule? (rules : List Rule) (rest : List Atom) : Option Match :=
  (rules.find? (·.pattern.isPrefixOf rest)).map fun r => .swap r.pattern r.replacement

def matchAt (rules : List Rule) (position : Nat) (rest : List Atom) :
    Option (Except Fault Match) :=
  definition? position rest <|> arithmetic? rest <|>
    (sign? rest <|> stackWord? rest <|> push? rest <|> userRule? rules rest).map .ok

end Wanda.Reduction

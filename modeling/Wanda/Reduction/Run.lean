import Wanda.Reduction.Form

/-! Reducing at the leftmost position until no form applies. -/

namespace Wanda.Reduction

/-- The rules installed so far, newest first, and the atoms under reduction. -/
structure State where
  rules : List Rule
  redex : List Atom
  deriving DecidableEq, Repr

def State.initial (atoms : List Atom) : State :=
  ⟨[], atoms⟩

/--
Act on the leftmost position at which a form applies. `position` is that of the first atom, and the
atoms that come out are all those there are then.
-/
def leftmost? (rules : List Rule) (position : Nat) :
    List Atom → Option (Except Fault (Match × List Atom))
  | [] => none
  | a :: rest =>
    match matchAt rules position (a :: rest) with
    | some (.error f) => some (.error f)
    | some (.ok m) => some (.ok (m, m.replacement ++ (a :: rest).drop m.width))
    | none => (leftmost? rules (position + 1) rest).map (·.map fun (m, r) => (m, a :: r))

structure Contraction where
  pattern : List Atom
  replacement : List Atom
  redex : List Atom
  deriving DecidableEq, Repr

def Contraction.text (c : Contraction) : String :=
  ":" ++ Program.render c.pattern ++ " -> " ++ Program.render c.replacement ++ "; => " ++
    Program.render c.redex

/-- `none` when no form applies anywhere. -/
def State.step? (s : State) : Option (Except Fault (Contraction × State)) :=
  (leftmost? s.rules 0 s.redex).map (·.map fun (m, redex) =>
    (⟨m.pattern, m.replacement, redex⟩, ⟨m.rule.toList ++ s.rules, redex⟩))

/-- Reduce to the end; `none` when that means visiting more than `fuel` states. -/
def run : Nat → State → Option (Except Fault (List Atom))
  | 0, _ => none
  | fuel + 1, s =>
    match s.step? with
    | none => some (.ok s.redex)
    | some (.error f) => some (.error f)
    | some (.ok (_, t)) => run fuel t

/-- The steps that `run` makes, in order, whether or not it comes to an end. -/
def trace : Nat → State → List Contraction
  | 0, _ => []
  | fuel + 1, s =>
    match s.step? with
    | some (.ok (c, t)) => c :: trace fuel t
    | _ => []

end Wanda.Reduction

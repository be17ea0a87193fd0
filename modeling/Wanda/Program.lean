import Wanda.Atom
import Wanda.Text.Blank

/-! Programs as lists of atoms: reading them from text and writing them back. -/

namespace Wanda.Program
open Atom

/-- Why a text is no program. Positions count atoms from zero. -/
inductive ReadError where
  | malformed (atom : Atom) (position : Nat)
  | outOfRange (atom : Atom) (position : Nat)
  | nestedDefinition (position opened : Nat)
  | strayArrow (position : Nat)
  | secondArrow (position : Nat)
  | emptyPattern (opened : Nat)
  | strayClose (position : Nat)
  | unterminated (opened : Nat)
  deriving DecidableEq, Repr

def ReadError.message : ReadError → String
  | malformed a p => s!"malformed atom `{a}` at position {p}"
  | outOfRange a p => s!"integer `{a}` at position {p} is out of range"
  | nestedDefinition p s => s!"nested rule definition at position {p} (opened at position {s})"
  | strayArrow p => s!"`->` outside of a rule definition at position {p}"
  | secondArrow p => s!"second `->` in rule definition at position {p}"
  | emptyPattern s => s!"empty rule pattern at position {s}"
  | strayClose p => s!"`;` without a rule definition at position {p}"
  | unterminated s => s!"unterminated rule definition at position {s}"

/-- The blank-separated atoms of a text, legal or not. -/
def split (text : String) : List Atom :=
  (Text.words text.toList).map String.ofList

def checkAtom (position : Nat) (a : Atom) : Except ReadError Unit :=
  if isReserved a || isWord a || isOperator a then .ok ()
  else match Text.Numeral.value? a.toList with
    | none => .error (.malformed a position)
    | some n => if (Text.Numeral.word? n).isSome then .ok () else .error (.outOfRange a position)

def checkAtoms : Nat → List Atom → Except ReadError Unit
  | _, [] => .ok ()
  | p, a :: rest => do
    checkAtom p a
    checkAtoms (p + 1) rest

/-- Where reading stands with respect to rule definitions. -/
inductive Place where
  | outside
  | pattern (opened : Nat) (empty : Bool)
  | replacement (opened : Nat)
  deriving DecidableEq, Repr

def Place.next (position : Nat) (a : Atom) : Place → Except ReadError Place
  | .outside =>
    if a = define then .ok (.pattern position true)
    else if a = arrow then .error (.strayArrow position)
    else if a = close then .error (.strayClose position)
    else .ok .outside
  | .pattern opened empty =>
    if a = define then .error (.nestedDefinition position opened)
    else if a = arrow then
      if empty then .error (.emptyPattern opened) else .ok (.replacement opened)
    else if a = close then
      if empty then .error (.emptyPattern opened) else .ok .outside
    else .ok (.pattern opened false)
  | .replacement opened =>
    if a = define then .error (.nestedDefinition position opened)
    else if a = arrow then .error (.secondArrow position)
    else if a = close then .ok .outside
    else .ok (.replacement opened)

def Place.finish : Place → Except ReadError Unit
  | .outside => .ok ()
  | .pattern opened _ => .error (.unterminated opened)
  | .replacement opened => .error (.unterminated opened)

def checkDefinitions : Nat → Place → List Atom → Except ReadError Unit
  | _, place, [] => place.finish
  | p, place, a :: rest => do
    checkDefinitions (p + 1) (← place.next p a) rest

/-- Every atom is checked before any definition is. -/
def check (atoms : List Atom) : Except ReadError Unit := do
  checkAtoms 0 atoms
  checkDefinitions 0 .outside atoms

def read (text : String) : Except ReadError (List Atom) := do
  let atoms := split text
  check atoms
  return atoms

def render (atoms : List Atom) : String :=
  " ".intercalate atoms

end Wanda.Program

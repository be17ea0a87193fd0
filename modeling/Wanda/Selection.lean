import Wanda.Example

/-! Choosing one of several examples, and telling observers of the choice. -/

namespace Wanda

structure Selection (ω : Type) where
  examples : List Example
  /-- The index of the chosen example. -/
  chosen : Option Nat := none
  observers : List ω := []

namespace Selection

variable {ω : Type}

def current (s : Selection ω) : Option Example :=
  s.chosen.bind fun i => s.examples[i]?

def source (s : Selection ω) : String :=
  (s.current.map (·.source)).getD ""

def observe (s : Selection ω) (o : ω) : Selection ω :=
  { s with observers := s.observers ++ [o] }

/-- Choose the first example with a label; `none` if there is none. Every observer is told. -/
def select? (s : Selection ω) (label : String) : Option (Selection ω × List (ω × Example)) :=
  (s.examples.findFinIdx? (·.label = label)).map fun i =>
    ({ s with chosen := some i.val }, s.observers.map (·, s.examples[i]))

end Selection
end Wanda

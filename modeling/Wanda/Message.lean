import Wanda.Reduction.Run

/-! What the program tells about its work, beside the results. -/

namespace Wanda

inductive Level where
  | warn | info | debug
  deriving DecidableEq, Repr

/-- Whether messages of the second level are shown at the first. -/
def Level.shows : Level → Level → Bool
  | debug, _ => true
  | info, l => l ≠ debug
  | warn, l => l = warn

inductive Message where
  | runningExample (label : String)
  | runningProgram (bytes : Nat)
  | reduced (w : Reduction.Contraction)
  deriving DecidableEq, Repr

namespace Message

def text : Message → String
  | runningExample label => "running example " ++ label
  | runningProgram bytes => s!"running program ({bytes} bytes)"
  | reduced w => w.text

def level : Message → Level
  | runningExample _ => .info
  | runningProgram _ => .debug
  | reduced _ => .debug

/-- The level, padded, and the part of the program that speaks. -/
def heading : Message → String
  | runningExample _ => "INFO  wanda"
  | runningProgram _ => "DEBUG wanda_playground::bridge"
  | reduced _ => "DEBUG wanda_playground::wanda::rewrite"

def line (m : Message) : String :=
  "[" ++ m.heading ++ "] " ++ m.text ++ "\n"

end Message
end Wanda

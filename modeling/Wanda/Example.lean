/-! The example programs that come with the playground. -/

namespace Wanda

structure Example where
  label : String
  source : String
  deriving DecidableEq, Repr

namespace Example

def factorial : Example where
  label := "fact.wanda"
  source :=
    "$\n" ++
    ": $ fact -> $ dup sgn fact/sgn ;\n" ++
    ": 1 $ fact/sgn -> $ dup 1 - fact * ;\n" ++
    ": 0 $ fact/sgn -> $ pop 1 ;\n" ++
    "5 fact\n"

def arithmetic : Example where
  label := "arith.wanda"
  source := "$ 2 3 + 4 *\n"

def square : Example where
  label := "square.wanda"
  source :=
    "$\n" ++
    ": $ square -> $ dup * ;\n" ++
    "7 square\n"

def stack : Example where
  label := "stack.wanda"
  source := "$ 10 dup * -3 sgn pop\n"

def countdown : Example where
  label := "countdown.wanda"
  source :=
    "$\n" ++
    ": $ countdown -> $ dup sgn countdown/sgn ;\n" ++
    ": 1 $ countdown/sgn -> $ dup 1 - countdown ;\n" ++
    ": 0 $ countdown/sgn -> $ pop ;\n" ++
    "3 countdown\n"

def bundled : List Example :=
  [factorial, arithmetic, square, stack, countdown]

/-- The example taken when none is named. -/
def standard : Example :=
  factorial

/-- The first of some examples with a label. -/
def find? (examples : List Example) (label : String) : Option Example :=
  examples.find? (·.label = label)

/-- One label a line, with an asterisk at the marked one. -/
def listing (examples : List Example) (marked : Option String) : String :=
  String.join (examples.map fun e =>
    (if marked = some e.label then "* " else "  ") ++ e.label ++ "\n")

end Example
end Wanda

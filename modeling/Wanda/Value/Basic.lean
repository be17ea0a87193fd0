import Wanda.Program
import Wanda.Table

/-! The values that scripts compute with. -/

namespace Wanda

inductive Key where
  | int (n : Int64)
  | str (s : String)
  | bool (b : Bool)
  deriving DecidableEq, Repr

namespace Key

/-- Integers by value, then strings by code point, then `false` and `true`. -/
def precedes : Key → Key → Bool
  | int a, int b => a < b
  | int _, _ => true
  | str _, int _ => false
  | str a, str b => a < b
  | str _, bool _ => true
  | bool a, bool b => !a && b
  | bool _, _ => false

instance : LT Key := ⟨fun a b => a.precedes b = true⟩

instance : DecidableLT Key := fun a b => inferInstanceAs (Decidable (a.precedes b = true))

end Key

/-- The functions scripts can call: the three stages, and those the host adds. -/
inductive Builtin (κ : Type) where
  | parse
  | evaluate
  | format
  | host (function : κ)
  deriving DecidableEq, Repr

inductive Value (κ : Type) where
  | int (n : Int64)
  | str (s : String)
  | bool (b : Bool)
  | null
  | array (elements : List (Value κ))
  | hash (table : Table Key (Value κ))
  /-- A value on its way out of the script. -/
  | returning (v : Value κ)
  | builtin (f : Builtin κ)

namespace Value

variable {κ : Type}

def key? : Value κ → Option Key
  | int n => some (.int n)
  | str s => some (.str s)
  | bool b => some (.bool b)
  | _ => none

def ofAtoms (atoms : List Atom) : Value κ :=
  array (atoms.map str)

/-- Insert a pair of values into a hash; fails with the first of them if it can be no key. -/
def put (table : Table Key (Value κ)) (k v : Value κ) : Except (Value κ) (Table Key (Value κ)) :=
  match k.key? with
  | some key => .ok (table.insert key v)
  | none => .error k

def typeName : Value κ → String
  | int _ => "integer"
  | str _ => "string"
  | bool _ => "boolean"
  | null => "null"
  | array _ => "array"
  | hash _ => "hash"
  | returning _ => "return value"
  | builtin _ => "builtin function"

end Value
end Wanda

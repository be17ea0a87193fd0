import Wanda.Proofs.Interpreter.FreshScope
import Wanda.Proofs.Latest

/-!
Requests that a host makes of an interpreter, in any order and number: to set and remove globals,
to load scripts and to run them. A global is what was last left under its name, and scripts have no
part in that.
-/
namespace Wanda.Interpreter

variable {κ : Type}

/-- What a host asks for. A run comes with what calls of functions do while it lasts. -/
inductive Request (κ : Type) where
  | set (name : String) (v : Value κ)
  | register (name : String) (f : Builtin κ)
  | remove (name : String)
  | load (source : String)
  | exec (calls : Script.Calls κ) (script : Script)
  | run (calls : Script.Calls κ) (source : String)

inductive Reply (κ : Type) where
  | done
  | removed (found : Option (Value κ))
  | loaded (result : Except Failure Script)
  | ran (report : Report Failure (Value κ))

/--
Run a script in a scope inside that of the globals. The globals are then whatever the run left in
the outer scope.
-/
def runInScopes (i : Interpreter κ) (calls : Script.Calls κ) (script : Script) :
    Option (Interpreter κ × Reply κ) :=
  (i.scopes.exec calls 1 script).map fun (after, report) => (⟨after.own 0⟩, .ran report)

/-- The interpreter after a request, and the reply; `none` for a run that comes to no end. -/
def respond (i : Interpreter κ) : Request κ → Option (Interpreter κ × Reply κ)
  | .set name v => some (i.setGlobal name v, .done)
  | .register name f => some (i.register name f, .done)
  | .remove name =>
    let (found, next) := i.removeGlobal name
    some (next, .removed found)
  | .load source => some (i, .loaded (load source))
  | .exec calls script => i.runInScopes calls script
  | .run calls source =>
    match load source with
    | .error f => some (i, .ran ⟨[], .error f⟩)
    | .ok script => i.runInScopes calls script

/-- An interpreter and what it comes to by the requests, each of which had its reply. -/
inductive Serves (first : Interpreter κ) : List (Request κ × Reply κ) → Interpreter κ → Prop
  | nil : Serves first [] first
  | snoc {served : List (Request κ × Reply κ)} {i next : Interpreter κ} {r : Request κ}
      {reply : Reply κ} : Serves first served i → i.respond r = some (next, reply) →
      Serves first (served ++ [(r, reply)]) next

/-- The name that a request has to do with, and what it leaves there. -/
def Request.leaves? : Request κ → Option (String × Option (Value κ))
  | .set name v => some (name, some v)
  | .register name f => some (name, some (.builtin f))
  | .remove name => some (name, none)
  | .load _ | .exec .. | .run .. => none

def Request.Leaves (name : String) (r : Request κ) (found : Option (Value κ)) : Prop :=
  r.leaves? = some (name, found)

/-- The last request that has to do with the name left this under it. -/
def LastLeft (globals : List (String × Value κ)) (requests : List (Request κ)) (name : String)
    (found : Option (Value κ)) : Prop :=
  ∃ after, Latest (Request.Leaves name) (globals.lookup name) requests found after

theorem LastLeft.unique {globals : List (String × Value κ)} {requests : List (Request κ)}
    {name : String} {found other : Option (Value κ)} (h : LastLeft globals requests name found)
    (h' : LastLeft globals requests name other) : found = other := by
  obtain ⟨after, h⟩ := h
  obtain ⟨after', h'⟩ := h'
  refine (h.unique ?_ h').1
  intro r b c hb hc
  rw [Request.Leaves] at hb hc
  simpa [hb] using hc

/-- It binds the names of two globals and then fails. -/
def shadowing : Script :=
  [.binding "x" (.int 2), .binding "parse" .null, .expr (.name "y")]

def shadowed : List (Request Unit × Reply Unit) :=
  [(.set "x" (.int 1), .done),
    (.exec (fun _ _ => .done .null) shadowing, .ran ⟨[], .error ⟨.unknownName "y", []⟩⟩),
    (.remove "x", .removed (some (.int 1))),
    (.register "x" .format, .done)]

end Wanda.Interpreter

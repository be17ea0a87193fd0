import Wanda.Message

/-! Computations that speak, that can fail, and that are given a bounded amount of work. -/

namespace Wanda

/-- What a finished computation said, and its value or error. -/
structure Report (ε α : Type) where
  log : List Message
  result : Except ε α

def Report.after {ε α : Type} (log : List Message) (r : Report ε α) : Report ε α :=
  { r with log := log ++ r.log }

/-- There is no report on a computation that was not given enough work to finish. -/
structure Attempt (ε α : Type) where
  report? : Option (Report ε α)

namespace Attempt

variable {ε δ α β : Type}

def done (a : α) : Attempt ε α :=
  ⟨some ⟨[], .ok a⟩⟩

def fail (e : ε) : Attempt ε α :=
  ⟨some ⟨[], .error e⟩⟩

/-- An error ends the computation, and what was said before it stays said. -/
def andThen (x : Attempt ε α) (f : α → Attempt ε β) : Attempt ε β :=
  match x.report? with
  | none => ⟨none⟩
  | some ⟨log, .error e⟩ => ⟨some ⟨log, .error e⟩⟩
  | some ⟨log, .ok a⟩ => ⟨(f a).report?.map (·.after log)⟩

instance : Monad (Attempt ε) where
  pure := done
  bind := andThen

def ofExcept : Except ε α → Attempt ε α
  | .ok a => done a
  | .error e => fail e

def mapError (f : ε → δ) (x : Attempt ε α) : Attempt δ α :=
  ⟨x.report?.map fun r => ⟨r.log, r.result.mapError f⟩⟩

def say (m : Message) : Attempt ε Unit :=
  ⟨some ⟨[m], .ok ()⟩⟩

end Attempt
end Wanda

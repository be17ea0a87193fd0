import Wanda.Interpreter.Stages
import Wanda.Proofs.Interpreter.Evaluation

/-! The stages on the values that they hand to one another. -/
namespace Wanda

variable {κ : Type}

theorem Value.texts_map_str (atoms : List Atom) :
    texts (atoms.map str : List (Value κ)) = atoms := by
  induction atoms with
  | nil => rfl
  | cons a atoms ih => simp [texts, text, ih]

namespace Stages

/-- The stages one after the other, without values in between. -/
def direct (fuel : Nat) (options : Options) (source : String) : Attempt StageError String := do
  let atoms ← .ofExcept ((Program.read source).mapError fun e => .parse e.message)
  let rest ← reduceWith fuel options atoms
  return Program.render rest

theorem direct_of_unreadable {source : String} {e : Program.ReadError}
    (h : Program.read source = .error e) (fuel : Nat) (options : Options) :
    direct fuel options source = .fail (.parse e.message) := by
  rw [direct, h]
  rfl

theorem report?_direct {source : String} {atoms : List Atom} (h : Program.read source = .ok atoms)
    (fuel : Nat) (options : Options) :
    (direct fuel options source).report? =
      (Reduction.run fuel (.initial atoms)).map fun result =>
        ⟨if options.trace then (Reduction.trace fuel (.initial atoms)).map .reduced else [],
          (result.map Program.render).mapError fun f => .evaluation f.message⟩ := by
  have hd : direct fuel options source =
      reduceWith fuel options atoms >>= fun rest => .done (Program.render rest) := by
    rw [direct, h]
    exact Attempt.done_bind _ _
  rw [hd]
  simp only [reduceWith, bind, Attempt.andThen]
  cases Reduction.run fuel (.initial atoms) with
  | none => rfl
  | some result =>
    cases result with
    | error f => rfl
    | ok rest => simp [Except.map, Except.mapError, Attempt.done, Report.after]

/-- The environment that says nothing but what differs from the defaults. -/
def Options.value (options : Options) : Value κ :=
  .hash (.ofList (if options.trace then [(.str "trace", .bool true)] else []))

theorem program_ofAtoms (atoms : List Atom) :
    program (.ofAtoms atoms : Value κ) = .ok atoms := by
  simp only [program, Value.ofAtoms]
  induction atoms with
  | nil => rfl
  | cons a atoms ih =>
    simp only [List.map_cons, List.mapM_cons, atom, ih]
    rfl

variable (listing : Table.Listing Key (Value κ))

/-- There is one order only of so few pairs. -/
theorem environment_value (options : Options) :
    environment listing options.value = .ok options := by
  obtain ⟨_ | _⟩ := options
  · have hp : listing.pairs ⟨[]⟩ = [] := List.perm_nil.mp (listing.perm _)
    simp only [environment, Options.value, Table.ofList, Table.empty]
    exact congrArg (·.foldlM option {}) hp
  · have hp : listing.pairs ⟨[(.str "trace", .bool true)]⟩ = [(.str "trace", .bool true)] :=
      List.perm_singleton.mp (listing.perm _)
    exact congrArg (·.foldlM option {}) hp

theorem format_ofAtoms (atoms : List Atom) :
    format [(.ofAtoms atoms : Value κ)] = .done (.str (Program.render atoms)) := by
  simp [format, Value.ofAtoms, Value.texts_map_str]

theorem parse_str (source : String) :
    parse [(.str source : Value κ)] =
      (Attempt.ofExcept ((Program.read source).mapError fun e => .parse e.message)).mapError
        (fun e => ⟨.stage e, []⟩) >>= fun atoms => .done (.ofAtoms atoms) := by
  simp only [parse]
  cases Program.read source with
  | error e => rfl
  | ok atoms => rfl

theorem evaluate_ofAtoms (fuel : Nat) (options : Options) (atoms : List Atom) :
    evaluate listing fuel [.ofAtoms atoms, options.value] =
      (reduceWith fuel options atoms).mapError (fun e => ⟨.stage e, []⟩) >>= fun rest =>
        .done (.ofAtoms rest) := by
  simp [evaluate, evaluateIn, program_ofAtoms, environment_value, Attempt.ofExcept, Except.mapError]

/-- The stages of a script do what they do without one. -/
theorem parse_evaluate_format (fuel : Nat) (options : Options) (source : String) :
    (parse [.str source] >>= fun p => evaluate listing fuel [p, options.value] >>= fun v =>
      format [v]) =
      (direct fuel options source).mapError (fun e => ⟨.stage e, []⟩) >>= fun text =>
        .done (.str text) := by
  simp [parse_str, evaluate_ofAtoms, format_ofAtoms, direct, Attempt.bind_assoc,
    Attempt.mapError_bind]

end Stages
end Wanda

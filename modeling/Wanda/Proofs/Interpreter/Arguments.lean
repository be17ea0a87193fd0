import Wanda.Proofs.Interpreter.Stages
import Wanda.Proofs.Program.Language
import Wanda.Proofs.Table

/-!
What the stages take for arguments. A stage fails as a stage only where its arguments are such as it
takes and its own work fails. All other arguments are a misuse of it, so that a mistake in a script
is never told as one in the program that the script runs.
-/
namespace Wanda.Stages
open Program Reduction

variable {κ : Type}

/-- The options that the arguments after the program stand for. -/
inductive Configures : List (Value κ) → Options → Prop
  | absent : Configures [] {}
  | null : Configures [.null] {}
  | empty : Configures [.hash ⟨[]⟩] {}
  | trace (b : Bool) : Configures [.hash ⟨[(.str "trace", .bool b)]⟩] ⟨b⟩

/-- What `evaluate` takes: an array of strings only, and what stands for options. -/
inductive Evaluable : List (Value κ) → List Atom → Options → Prop
  | mk (atoms : List Atom) {rest : List (Value κ)} {options : Options} :
      Configures rest options → Evaluable (.array (atoms.map .str) :: rest) atoms options

/-- What comes of the atoms: those that are left, or the fault as one of a stage. The steps are told
if they are to be traced. -/
def evaluation (fuel : Nat) (options : Options) (atoms : List Atom) :
    Option (Report Failure (Value κ)) :=
  (run fuel (.initial atoms)).map fun result =>
    { log := if options.trace then (trace fuel (.initial atoms)).map .reduced else []
      result := (result.map Value.ofAtoms).mapError fun f => ⟨.stage (.evaluation f.message), []⟩ }

/-- The failure is that of a stage, in whatever contexts. -/
def FailsAsStage {α : Type} (x : Attempt Failure α) : Prop :=
  ∃ log e contexts, x.report? = some ⟨log, .error ⟨.stage e, contexts⟩⟩

theorem not_failsAsStage_misuse {α : Type} (m : Misuse) :
    ¬ FailsAsStage (misuse m : Attempt Failure α) := by
  rintro ⟨log, e, contexts, h⟩
  cases h

theorem bind_eq_ok {ε α β : Type} {x : Except ε α} {f : α → Except ε β} {b : β}
    (h : (x >>= f) = .ok b) : ∃ a, x = .ok a ∧ f a = .ok b := by
  cases x with
  | error e => cases h
  | ok a => exact ⟨a, rfl, h⟩

theorem atom_eq_ok_iff {v : Value κ} {a : Atom} : atom v = .ok a ↔ v = .str a := by
  cases v <;> simp [atom]

theorem eq_map_of_mapM_atom {vs : List (Value κ)} {atoms : List Atom}
    (h : vs.mapM atom = .ok atoms) : vs = atoms.map .str := by
  induction vs generalizing atoms with
  | nil =>
    cases h
    rfl
  | cons v vs ih =>
    rw [List.mapM_cons] at h
    obtain ⟨a, ha, h⟩ := bind_eq_ok h
    obtain ⟨rest, hr, h⟩ := bind_eq_ok h
    cases h
    rw [List.map_cons, ← ih hr, atom_eq_ok_iff.mp ha]

theorem program_eq_ok_iff {v : Value κ} {atoms : List Atom} :
    program v = .ok atoms ↔ v = .array (atoms.map .str) := by
  constructor
  · intro h
    cases v with
    | array vs => rw [eq_map_of_mapM_atom h]
    | _ => cases h
  · rintro rfl
    exact program_ofAtoms atoms

theorem option_eq_ok_iff {options taken : Options} {entry : Key × Value κ} :
    option options entry = .ok taken ↔
      ∃ b, entry = (.str "trace", .bool b) ∧ taken = ⟨b⟩ := by
  obtain ⟨k, v⟩ := entry
  unfold option
  by_cases hk : k = .str "trace"
  · cases v <;> simp [hk, eq_comm]
  · simp [hk]

theorem foldlM_option_eq_ok_iff {entries : List (Key × Value κ)}
    (hd : (entries.map (·.1)).Nodup) {options : Options} :
    entries.foldlM option {} = .ok options ↔ Configures [.hash ⟨entries⟩] options := by
  constructor
  · intro h
    cases entries with
    | nil =>
      cases h
      exact .empty
    | cons e rest =>
      rw [List.foldlM_cons] at h
      obtain ⟨first, he, h⟩ := bind_eq_ok h
      obtain ⟨b, rfl, rfl⟩ := option_eq_ok_iff.mp he
      cases rest with
      | nil =>
        cases h
        exact .trace b
      | cons e rest =>
        rw [List.foldlM_cons] at h
        obtain ⟨second, he, -⟩ := bind_eq_ok h
        obtain ⟨c, rfl, -⟩ := option_eq_ok_iff.mp he
        simp at hd
  · intro h
    cases h with
    | empty => rfl
    | trace b => rfl

theorem Configures.perm {entries others : List (Key × Value κ)} (hp : entries.Perm others)
    {options : Options} (h : Configures [.hash ⟨entries⟩] options) :
    Configures [.hash ⟨others⟩] options := by
  cases h with
  | empty =>
    rw [List.nil_perm.mp hp]
    exact .empty
  | trace b =>
    rw [← List.singleton_perm.mp hp]
    exact .trace b

variable {listing : Table.Listing Key (Value κ)}

/-- The order of the pairs has no part in which options are taken. -/
theorem environment_hash_eq_ok_iff {t : Table Key (Value κ)} (hd : t.Distinct)
    {options : Options} :
    environment listing (.hash t) = .ok options ↔ Configures [.hash t] options := by
  have hp := listing.perm t
  have hl : ((listing.pairs t).map (·.1)).Nodup := (hp.map _).nodup_iff.mpr hd
  exact (foldlM_option_eq_ok_iff hl).trans ⟨Configures.perm hp, Configures.perm hp.symm⟩

theorem environment_eq_ok_iff {env : Value κ} (hd : ∀ t, env = .hash t → t.Distinct)
    {options : Options} : environment listing env = .ok options ↔ Configures [env] options := by
  cases env with
  | hash t => exact environment_hash_eq_ok_iff (hd t rfl)
  | null =>
    constructor
    · intro h
      cases h
      exact .null
    · intro h
      cases h
      rfl
  | _ =>
    constructor
    · intro h
      cases h
    · intro h
      cases h

theorem report?_evaluateIn {v env : Value κ} {atoms : List Atom} {options : Options}
    (hp : program v = .ok atoms) (he : environment listing env = .ok options) (fuel : Nat) :
    (evaluateIn listing fuel v env).report? = evaluation fuel options atoms := by
  have hr : evaluateIn listing fuel v env =
      (reduceWith fuel options atoms).mapError (fun e => ⟨.stage e, []⟩) >>= fun rest =>
        .done (.ofAtoms rest) := by
    rw [evaluateIn, hp, he]
    simp [Attempt.ofExcept, Except.mapError]
  rw [hr, evaluation]
  simp only [reduceWith, bind, Attempt.andThen, Attempt.mapError]
  cases run fuel (.initial atoms) with
  | none => rfl
  | some result =>
    cases result with
    | error f => rfl
    | ok rest => simp [Except.map, Except.mapError, Attempt.done, Report.after]

theorem evaluateIn_eq_misuse {v env : Value κ} (fuel : Nat)
    (h : ∀ atoms options, program v = .ok atoms → environment listing env ≠ .ok options) :
    ∃ m, evaluateIn listing fuel v env = misuse m := by
  unfold evaluateIn
  cases hp : program v with
  | error m => exact ⟨m, rfl⟩
  | ok atoms =>
    cases he : environment listing env with
    | error m => exact ⟨m, rfl⟩
    | ok options => exact absurd he (h atoms options hp)

/-- How the stages keep misuse and failures of their own apart. -/
structure KeepsApart (listing : Table.Listing Key (Value κ)) (fuel : Nat)
    (args : List (Value κ)) : Prop where
  /-- `parse` fails as a stage on a single text that is no program, and on nothing else. -/
  parse_stage : FailsAsStage (parse args) ↔
    ∃ text e, args = [.str text] ∧ read text = .error e
  parse_atoms : ∀ text atoms, args = [.str text] → read text = .ok atoms →
    parse args = .done (.ofAtoms atoms)
  parse_misuse : (∀ text, args ≠ [.str text]) → ∃ m, parse args = misuse m
  /-- `evaluate` fails as a stage where reducing the atoms that it was given fails. -/
  evaluate_stage : FailsAsStage (evaluate listing fuel args) ↔
    ∃ atoms options f, Evaluable args atoms options ∧ run fuel (.initial atoms) = some (.error f)
  evaluate_atoms : ∀ atoms options, Evaluable args atoms options →
    (evaluate listing fuel args).report? = evaluation fuel options atoms
  evaluate_misuse : (∀ atoms options, ¬ Evaluable args atoms options) →
    ∃ m, evaluate listing fuel args = misuse m
  /-- `format` takes any value, if there is one only. -/
  format_text : ∀ v, args = [v] → ∃ s, format args = .done (.str s)
  format_misuse : (∀ v, args ≠ [v]) → ∃ m, format args = misuse m

theorem report?_evaluate {args : List (Value κ)} {atoms : List Atom} {options : Options}
    (h : Evaluable args atoms options) (fuel : Nat) :
    (evaluate listing fuel args).report? = evaluation fuel options atoms := by
  obtain ⟨atoms, hc⟩ := h
  have hp : program (.array (atoms.map .str) : Value κ) = .ok atoms := program_eq_ok_iff.mpr rfl
  cases hc with
  | absent => exact report?_evaluateIn hp rfl fuel
  | null => exact report?_evaluateIn hp rfl fuel
  | empty =>
    have hd : Table.Distinct (⟨[]⟩ : Table Key (Value κ)) := by simp [Table.Distinct]
    exact report?_evaluateIn hp ((environment_hash_eq_ok_iff hd).mpr .empty) fuel
  | trace b =>
    have hd : Table.Distinct (⟨[(.str "trace", .bool b)]⟩ : Table Key (Value κ)) := by
      simp [Table.Distinct]
    exact report?_evaluateIn hp ((environment_hash_eq_ok_iff hd).mpr (.trace b)) fuel

theorem evaluate_eq_misuse {args : List (Value κ)}
    (hd : ∀ t, .hash t ∈ args → Table.Distinct t)
    (h : ∀ atoms options, ¬ Evaluable args atoms options) (fuel : Nat) :
    ∃ m, evaluate listing fuel args = misuse m := by
  match args with
  | [] => exact ⟨_, rfl⟩
  | [v] =>
    refine evaluateIn_eq_misuse fuel ?_
    intro atoms options hp _
    rw [program_eq_ok_iff.mp hp] at h
    exact h atoms {} (.mk atoms .absent)
  | [v, env] =>
    refine evaluateIn_eq_misuse fuel ?_
    intro atoms options hp he
    have hc : Configures [env] options := by
      refine (environment_eq_ok_iff ?_).mp he
      rintro t rfl
      exact hd t (by simp)
    rw [program_eq_ok_iff.mp hp] at h
    exact h atoms options (.mk atoms hc)
  | _ :: _ :: _ :: _ => exact ⟨_, rfl⟩

theorem failsAsStage_evaluate_iff {args : List (Value κ)}
    (hd : ∀ t, .hash t ∈ args → Table.Distinct t) (fuel : Nat) :
    FailsAsStage (evaluate listing fuel args) ↔ ∃ atoms options f,
      Evaluable args atoms options ∧ run fuel (.initial atoms) = some (.error f) := by
  constructor
  · intro h
    by_cases he : ∃ atoms options, Evaluable args atoms options
    · obtain ⟨atoms, options, he⟩ := he
      obtain ⟨log, e, contexts, hr⟩ := h
      rw [report?_evaluate he, evaluation] at hr
      obtain ⟨result, hrun, hr⟩ := Option.map_eq_some_iff.mp hr
      cases result with
      | error f => exact ⟨atoms, options, f, he, hrun⟩
      | ok rest => cases hr
    · push Not at he
      obtain ⟨m, hm⟩ := evaluate_eq_misuse hd he fuel
      rw [hm] at h
      exact absurd h (not_failsAsStage_misuse m)
  · intro h
    obtain ⟨atoms, options, f, he, hrun⟩ := h
    have hr := @report?_evaluate κ listing _ _ _ he fuel
    rw [evaluation, hrun] at hr
    exact ⟨_, .evaluation f.message, [], hr⟩

theorem parse_eq_misuse {args : List (Value κ)} (h : ∀ text, args ≠ [.str text]) :
    ∃ m, parse args = misuse m := by
  unfold parse
  split
  case h_1 text => exact absurd rfl (h text)
  case h_2 => exact ⟨_, rfl⟩
  case h_3 => exact ⟨_, rfl⟩

theorem failsAsStage_parse_iff {args : List (Value κ)} :
    FailsAsStage (parse args) ↔ ∃ text e, args = [.str text] ∧ read text = .error e := by
  constructor
  · intro h
    by_cases ha : ∃ text, args = [.str text]
    · obtain ⟨text, rfl⟩ := ha
      cases hr : read text with
      | error e => exact ⟨text, e, rfl, hr⟩
      | ok atoms =>
        obtain ⟨log, e, contexts, h⟩ := h
        simp only [parse, hr] at h
        cases h
    · push Not at ha
      obtain ⟨m, hm⟩ := parse_eq_misuse ha
      rw [hm] at h
      exact absurd h (not_failsAsStage_misuse m)
  · rintro ⟨text, e, rfl, hr⟩
    refine ⟨[], .parse e.message, [], ?_⟩
    simp only [parse, hr]
    rfl

theorem keepsApart (fuel : Nat) {args : List (Value κ)}
    (hd : ∀ t, .hash t ∈ args → Table.Distinct t) : KeepsApart listing fuel args where
  parse_stage := failsAsStage_parse_iff
  parse_atoms := by
    rintro text atoms rfl hr
    simp only [parse, hr]
  parse_misuse := parse_eq_misuse
  evaluate_stage := failsAsStage_evaluate_iff hd fuel
  evaluate_atoms := fun _ _ he => report?_evaluate he fuel
  evaluate_misuse := fun h => evaluate_eq_misuse hd h fuel
  format_text := by
    rintro v rfl
    cases v <;> exact ⟨_, rfl⟩
  format_misuse := by
    intro h
    unfold format
    split
    case h_1 => exact absurd rfl (h _)
    case h_2 => exact absurd rfl (h _)
    case h_3 => exact ⟨_, rfl⟩

/-- The text of the atoms of a program is read as these atoms. -/
theorem parse_format {text : String} {v : Value κ} (h : parse [.str text] = .done v) :
    ∃ s, format [v] = .done (.str s) ∧ parse [.str s] = .done v := by
  cases hr : read text with
  | error e =>
    simp only [parse, hr] at h
    cases h
  | ok atoms =>
    simp only [parse, hr] at h
    cases h
    have hc : check atoms = .ok () := (read_eq_ok_iff_check.mp hr).2
    exact ⟨render atoms, format_ofAtoms atoms, by simp only [parse, read_render hc]⟩

/--
Whatever the stages are given, they tell a misuse from a failure of their own. The options that are
read from a hash do not depend on the order of its pairs, and what was read is read again from its
text.
-/
theorem stages_tell_misuse (listing : Table.Listing Key (Value κ)) (fuel : Nat)
    {args : List (Value κ)} (hd : ∀ t, .hash t ∈ args → Table.Distinct t) :
    KeepsApart listing fuel args ∧
      (∀ (other : Table.Listing Key (Value κ)) (entries others : List (Key × Value κ)),
        Table.Distinct ⟨entries⟩ → entries.Perm others →
        ∀ options, environment listing (.hash ⟨entries⟩) = .ok options ↔
          environment other (.hash ⟨others⟩) = .ok options) ∧
      ∀ (text : String) (v : Value κ), parse [.str text] = .done v →
        ∃ s, format [v] = .done (.str s) ∧ parse [.str s] = .done v := by
  refine ⟨keepsApart fuel hd, ?_, fun _ _ h => parse_format h⟩
  intro other entries others he hp options
  have ho : Table.Distinct ⟨others⟩ := (hp.map Prod.fst).nodup_iff.mp he
  refine (environment_hash_eq_ok_iff he).trans (Iff.trans ?_ (environment_hash_eq_ok_iff ho).symm)
  exact ⟨Configures.perm hp, Configures.perm hp.symm⟩

/-- The greatest integer and one, to be traced. -/
def overflowing : List (Value Empty) :=
  [.array ([("$" : Atom), "9223372036854775807", "1", "+"].map .str),
    .hash ⟨[(.str "trace", .bool true)]⟩]

/-- The stage fails there, and nothing is misused. -/
theorem stages_tell_misuse_overflow :
    (∀ t, .hash t ∈ overflowing → Table.Distinct t) ∧ KeepsApart .ascending 9 overflowing ∧
      FailsAsStage (evaluate .ascending 9 overflowing) := by
  have hd : ∀ t, .hash t ∈ overflowing → Table.Distinct t := by
    intro t ht
    obtain rfl : t = ⟨[(.str "trace", .bool true)]⟩ := by simpa [overflowing] using ht
    simp [Table.Distinct]
  have hk := (stages_tell_misuse .ascending 9 hd).1
  exact ⟨hd, hk, hk.evaluate_stage.mpr ⟨_, ⟨true⟩, _, .mk _ (.trace true), rfl⟩⟩

end Wanda.Stages

import Wanda.Runner
import Wanda.Proofs.Interpreter.FreshScope
import Wanda.Proofs.Table
import Mathlib

/-!
The slot of a runner. During a run it holds the source, nested runs are turned away, and afterwards
the globals are those of before without the slot, so that no run leaves anything to the next.
-/
namespace Wanda.Runner

variable {κ : Type}

/-- The runner comes to an end with the source, with this result. -/
def Answers (host : Host κ) (r : Runner κ) (source : String) (result : Except RunError String) :
    Prop :=
  ∃ fuel after log, r.execute host fuel source = some (after, ⟨log, result⟩)

/-- A run that was made: what stood around it, its source and its result. -/
structure Run (κ : Type) where
  host : Host κ
  source : String
  result : Except RunError String

/-- Runs that one runner made one after the other. -/
inductive History : Runner κ → List (Run κ) → Runner κ → Prop
  | nil {r : Runner κ} : History r [] r
  | cons {host : Host κ} {r next last : Runner κ} {fuel : Nat} {source : String}
      {log : List Message} {result : Except RunError String} {rest : List (Run κ)} :
      r.execute host fuel source = some (next, ⟨log, result⟩) → History next rest last →
      History r (⟨host, source, result⟩ :: rest) last

@[simp] theorem busy_hold (r : Runner κ) (source : String) : (r.hold source).busy = true := rfl

@[simp] theorem driver_hold (r : Runner κ) (source : String) :
    (r.hold source).driver = r.driver := rfl

@[simp] theorem busy_release (r : Runner κ) : r.release.busy = false := rfl

theorem global?_hold (r : Runner κ) (source name : String) :
    (r.hold source).interpreter.global? name =
      if name = slot then some (.str source) else r.interpreter.global? name :=
  Table.get?_insert _ _ _ _

theorem global?_release (r : Runner κ) (name : String) :
    r.release.interpreter.global? name =
      if name = slot then none else r.interpreter.global? name :=
  Table.get?_erase _ _ _

@[simp] theorem release_hold (r : Runner κ) (source : String) :
    (r.hold source).release = r.release := by
  simp [hold, release, Interpreter.setGlobal, Interpreter.removeGlobal]

@[simp] theorem release_release (r : Runner κ) : r.release.release = r.release := by
  simp [release, Interpreter.removeGlobal]

/-- What was in the slot before a run does not matter to it. -/
theorem hold_release {r : Runner κ} (h : r.interpreter.globals.Ordered) (source : String) :
    r.release.hold source = r.hold source := by
  simp [hold, release, Interpreter.setGlobal, Interpreter.removeGlobal, h.insert_erase]

/-- The result that a driver's value or failure stands for. -/
def verdict : Except Failure (Value κ) → Except RunError String
  | .ok (.str s) => .ok s
  | .ok v => .error (.embedded ("driver returned " ++ v.typeName ++ " instead of string"))
  | .error f => .error (.ofFailure f)

theorem verdict_ne_busy (x : Except Failure (Value κ)) : verdict x ≠ .error .busy := by
  cases x with
  | error f =>
    obtain ⟨cause, contexts⟩ := f
    cases cause with
    | stage e => cases e <;> simp [verdict, RunError.ofFailure]
    | _ => simp [verdict, RunError.ofFailure]
  | ok v => cases v <;> simp [verdict]

theorem report?_drive (host : Host κ) (fuel : Nat) (held : Runner κ) (source : String) :
    (drive host fuel held source).report? =
      (held.interpreter.exec (host.calls fuel held) held.driver).report?.map fun x =>
        ⟨.runningProgram source.utf8ByteSize :: x.log, verdict x.result⟩ := by
  simp only [drive, bind, Attempt.andThen, Attempt.say, Attempt.mapError]
  cases hx : (held.interpreter.exec (host.calls fuel held) held.driver).report? with
  | none => rfl
  | some x =>
    obtain ⟨log, result⟩ := x
    cases result with
    | error f => rfl
    | ok v =>
      cases v <;>
        simp [Except.mapError, verdict, result, Report.after, Attempt.done, Attempt.fail]

theorem execute_of_busy {r : Runner κ} (h : r.busy = true) (host : Host κ) (fuel : Nat)
    (source : String) : r.execute host fuel source = some (r, ⟨[], .error .busy⟩) := by
  rw [execute, if_pos h]

theorem execute_of_idle {r : Runner κ} (h : r.busy = false) (host : Host κ) (fuel : Nat)
    (source : String) :
    r.execute host fuel source =
      (drive host fuel (r.hold source) source).report?.map (r.release, ·) := by
  simp [execute, h]

theorem History.eq_or_eq_release {fresh last : Runner κ} {history : List (Run κ)}
    (h : History fresh history last) (hb : fresh.busy = false) :
    last = fresh ∨ last = fresh.release := by
  induction h with
  | nil => exact .inl rfl
  | cons he _ ih =>
    rw [execute_of_idle hb] at he
    obtain ⟨report, -, hr⟩ := Option.map_eq_some_iff.mp he
    cases hr
    rcases ih rfl with rfl | rfl
    · exact .inr rfl
    · exact .inr (release_release _)

theorem withDriver_eq_ok {i : Interpreter κ} {driver : String} {r : Runner κ}
    (h : withDriver i driver = .ok r) : r.interpreter = i ∧ r.busy = false := by
  unfold withDriver at h
  cases hr : Script.read driver with
  | error e => simp [hr] at h
  | ok script =>
    rw [hr] at h
    cases h
    exact ⟨rfl, rfl⟩

/-- How a run of a source uses the globals of the runner. -/
structure KeepsSlot (host : Host κ) (fuel : Nat) (r : Runner κ) (source : String) : Prop where
  /-- The run is that of the driver, in a scope inside the globals of the held runner. -/
  run : r.execute host fuel source =
    ((r.hold source).interpreter.scopes.exec (host.calls fuel (r.hold source)) 1
      r.driver).map fun x =>
        (r.release, ⟨.runningProgram source.utf8ByteSize :: x.2.log, verdict x.2.result⟩)
  /-- The globals of the held runner have the source in the slot. -/
  held : ∀ name, (r.hold source).interpreter.global? name =
    if name = slot then some (.str source) else r.interpreter.global? name
  /-- After any part of the driver the globals are still those of the held runner. -/
  throughout : ∀ done rest, r.driver = done ++ rest → ∀ after report,
    (r.hold source).interpreter.scopes.exec (host.calls fuel (r.hold source)) 1 done =
      some (after, report) → after.own 0 = (r.hold source).interpreter.globals
  /-- Functions of the host that are called in the run see no other runner. -/
  seen : ∀ other : Host κ, other.listing = host.listing →
    (∀ k args, other.call (r.hold source) k args = host.call (r.hold source) k args) →
    r.execute other fuel source = r.execute host fuel source
  /-- A run that is started from inside changes nothing. -/
  nested : ∀ inner fuel source', (r.hold source).execute inner fuel source' =
    some (r.hold source, ⟨[], .error .busy⟩)
  /-- However the run ends, the slot is empty, nothing else changed, and the next run can start. -/
  after : ∀ next report, r.execute host fuel source = some (next, report) →
    next.interpreter.globals = r.interpreter.globals.erase slot ∧
      (∀ name, next.interpreter.global? name =
        if name = slot then none else r.interpreter.global? name) ∧
      next.driver = r.driver ∧ next.busy = false ∧ report.result ≠ .error .busy

theorem execute_eq_map_exec_scopes {r : Runner κ} (h : r.busy = false) (host : Host κ) (fuel : Nat)
    (source : String) : r.execute host fuel source =
    ((r.hold source).interpreter.scopes.exec (host.calls fuel (r.hold source)) 1
      r.driver).map fun x =>
        (r.release, ⟨.runningProgram source.utf8ByteSize :: x.2.log, verdict x.2.result⟩) := by
  rw [execute_of_idle h, report?_drive, Interpreter.exec_eq_exec_scopes, driver_hold]
  simp only [Option.map_map, Function.comp_def]

theorem keepsSlot_of_idle {r : Runner κ} (h : r.busy = false) (host : Host κ) (fuel : Nat)
    (source : String) : KeepsSlot host fuel r source where
  run := execute_eq_map_exec_scopes h host fuel source
  held := global?_hold r source
  throughout := by
    intro done rest _ after report he
    exact Interpreter.own_globals_of_exec he
  seen := by
    intro other hl ho
    have hh : other.call (r.hold source) = host.call (r.hold source) := by
      funext k args
      exact ho k args
    have hc : other.calls fuel (r.hold source) = host.calls fuel (r.hold source) := by
      rw [Host.calls, Host.calls, hl, hh]
    rw [execute_eq_map_exec_scopes h, execute_eq_map_exec_scopes h, hc]
  nested := by
    intro inner fuel source'
    exact execute_of_busy rfl inner fuel source'
  after := by
    intro next report he
    rw [execute_eq_map_exec_scopes h] at he
    obtain ⟨x, -, hx⟩ := Option.map_eq_some_iff.mp he
    cases hx
    exact ⟨rfl, global?_release r, rfl, rfl, verdict_ne_busy _⟩

/--
Whatever globals a runner starts with and whatever runs it made, the next run keeps the slot, and
what comes of it depends on the first globals without the slot, the driver and the source alone,
once the host is given with the order in which hashes give their pairs.
-/
theorem slot_discipline (bindings : List (String × Value κ)) (driver : String)
    (fresh r : Runner κ) (hd : withDriver ⟨.ofList bindings⟩ driver = .ok fresh)
    (history : List (Run κ)) (hr : History fresh history r) (host : Host κ) (fuel : Nat)
    (source : String) :
    KeepsSlot host fuel r source ∧
      r.execute host fuel source = fresh.release.execute host fuel source := by
  obtain ⟨hi, hb⟩ := withDriver_eq_ok hd
  have ho : fresh.interpreter.globals.Ordered := by
    rw [hi]
    exact Table.ordered_ofList bindings
  rcases hr.eq_or_eq_release hb with rfl | rfl
  · refine ⟨keepsSlot_of_idle hb host fuel source, ?_⟩
    rw [execute_of_idle hb, execute_of_idle (busy_release r), hold_release ho, release_release]
  · exact ⟨keepsSlot_of_idle rfl host fuel source, rfl⟩

def idleHost : Host Unit where
  call := fun _ _ _ => .done .null
  listing := .ascending

/-- A host whose one function starts a run from inside a run and tells the error. -/
def reentrant : Host Unit where
  call := fun r _ _ =>
    match r.execute idleHost 1 "$" with
    | some (_, ⟨_, .error e⟩) => .done (.str e.text)
    | _ => .done .null
  listing := .ascending

/-- A runner that starts with something in the slot. -/
def occupied : Runner Unit where
  interpreter := ⟨.ofList [(slot, .int 1), ("again", .builtin (.host ()))]⟩
  driver := [.expr (.call (.name "again") [])]

theorem slot_discipline_reentrant :
    withDriver occupied.interpreter "again()" = .ok occupied ∧
      History occupied [⟨reentrant, "$ 1", .ok "a run is already in progress"⟩]
        occupied.release ∧
      KeepsSlot reentrant 1 occupied.release "$ 2" := by
  have hd : withDriver occupied.interpreter "again()" = .ok occupied := by cbv
  have he : occupied.execute reentrant 1 "$ 1" =
      some (occupied.release, ⟨[.runningProgram 3], .ok "a run is already in progress"⟩) := by
    have hk : reentrant.call (occupied.hold "$ 1") =
        fun _ _ => .done (.str "a run is already in progress") := by
      funext k args
      simp only [reentrant, execute_of_busy (busy_hold occupied "$ 1")]
      rfl
    rw [execute_of_idle rfl, report?_drive, Host.calls, hk]
    cbv
  have hr := History.cons he .nil
  exact ⟨hd, hr, (slot_discipline _ _ _ _ hd _ hr reentrant 1 "$ 2").1⟩

end Wanda.Runner

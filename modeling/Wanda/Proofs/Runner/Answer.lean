import Wanda.Proofs.Program.Language
import Wanda.Proofs.Reduction.Trace
import Wanda.Proofs.Runner.Pipeline
import Wanda.Proofs.Text.Lines

/-!
A source that comes to a result comes to it in every run with enough work. Where the result is an
error, and it is not about an atom that cannot be read, it is told on one line.
-/
namespace Wanda
open Atom Text

theorem Program.ReadError.IsStructural.oneLine {e : Program.ReadError} (h : e.IsStructural) :
    OneLine e.message := by
  have hn {s : String} (hs : OneLine s) (n : Nat) : OneLine (s ++ toString n) :=
    hs.append (oneLine_toString n)
  cases e with
  | malformed => exact h.elim
  | outOfRange => exact h.elim
  | nestedDefinition position opened =>
    have hp := (hn (by decide : OneLine "nested rule definition at position ") position).append
      (by decide : OneLine " (opened at position ")
    exact (hn hp opened).append (by decide)
  | strayArrow position => exact hn (by decide) position
  | secondArrow position => exact hn (by decide) position
  | emptyPattern opened => exact hn (by decide) opened
  | strayClose position => exact hn (by decide) position
  | unterminated opened => exact hn (by decide) opened

theorem Program.oneLine_render {atoms : List Atom} (h : ∀ a ∈ atoms, Legal a) :
    OneLine (render atoms) := by
  induction atoms with
  | nil => decide
  | cons a rest ih =>
    rw [List.forall_mem_cons] at h
    have ha : OneLine a := by
      intro hm
      exact absurd (h.1.isGraphic _ hm) (by decide)
    cases rest with
    | nil => simpa [render] using ha
    | cons b rest =>
      have hr := (ha.append (by decide : OneLine " ")).append (ih h.2)
      simpa [render, String.intercalate_cons_cons] using hr

namespace Reduction

theorem Operation.legal {op : Atom} {f : Int → Int → Int} (h : Operation op f) : Legal op := by
  have ho {a : Atom} (ha : Program.checkAtom 0 a = .ok ()) : Legal a :=
    Program.checkAtom_eq_ok_iff.mp ha
  cases h with
  | add => exact ho (by decide)
  | mul => exact ho (by decide)
  | sub => exact ho (by decide)

theorem Yields.legal_of_overflow {atoms operation : List Atom}
    (h : Yields atoms (.error (.overflow operation))) : ∀ a ∈ operation, Legal a := by
  obtain ⟨fuel, hf⟩ := h
  obtain ⟨t, -, position, form, ha⟩ := run_eq_error hf
  have hr := ha.first.1
  generalize t.redex.drop position = rest at hr
  cases hr with
  | overflow hx hy ho =>
    have hc : Legal cursor := .cursor
    simp [legal_of_integer? hx, legal_of_integer? hy, hc, ho.legal]

theorem Yields.oneLine {atoms : List Atom} {f : Fault} (h : Yields atoms (.error f)) :
    OneLine f.message := by
  cases f with
  | overflow operation =>
    have ho := Program.oneLine_render h.legal_of_overflow
    exact ((by decide : OneLine _).append ho).append (by decide)
  | emptyPattern position =>
    exact ((by decide : OneLine _).append (oneLine_toString position)).append (by decide)

end Reduction

namespace Runner
open Program Reduction

variable {κ : Type}

theorem Delivers.oneLine {source : String} {e : RunError} (hl : ∀ a ∈ split source, Legal a)
    (h : Delivers source (.error e)) : OneLine e.text := by
  cases h with
  | unreadable hr =>
    exact (by decide : OneLine _).append (isStructural_of_read hl hr).oneLine
  | faulty hr hy => exact (by decide : OneLine _).append hy.oneLine

/-- Nothing of a source counts but its atoms. -/
theorem Delivers.of_split_eq {source other : String} {result : Except RunError String}
    (h : Delivers source result) (hs : split other = split source) : Delivers other result := by
  have hr : read other = read source := by
    rw [read_eq_map_check, read_eq_map_check, hs]
  cases h with
  | unreadable he => exact .unreadable (hr.trans he)
  | faulty ha hy => exact .faulty (hr.trans ha) hy
  | finished ha hy => exact .finished (hr.trans ha) hy

/-- With enough work every run of the source is the same, in any host. -/
theorem Ready.exists_execute {options : Stages.Options} {r : Runner κ} (h : Ready options r)
    {source : String} {result : Except RunError String} (hd : Delivers source result) :
    ∃ log enough, ∀ host, ∀ fuel ≥ enough,
      r.execute host fuel source = some (r.release, ⟨log, result⟩) := by
  cases hr : read source with
  | error e =>
    rw [delivers_of_unreadable hr] at hd
    refine ⟨[.runningProgram source.utf8ByteSize], 0, ?_⟩
    intro host fuel _
    rw [h.execute, Stages.direct_of_unreadable hr, hd]
    rfl
  | ok atoms =>
    rw [delivers_of_readable hr] at hd
    obtain ⟨reduced, ⟨enough, hy⟩, rfl⟩ := hd
    refine ⟨.runningProgram source.utf8ByteSize ::
      if options.trace then (trace enough (.initial atoms)).map .reduced else [], enough, ?_⟩
    intro host fuel hf
    rw [h.execute, Stages.report?_direct hr, run_mono hy hf, trace_eq_of_run hy hf]
    cases reduced with
    | error f => rfl
    | ok rest => rfl

end Runner
end Wanda

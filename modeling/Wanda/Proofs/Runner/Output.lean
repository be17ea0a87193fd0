import Wanda.Proofs.Reduction.Provenance
import Wanda.Proofs.Runner.Pipeline

/-!
The output of a run as a program of its own. Its atoms can be read back, and running it changes
nothing, unless what is left of definitions keeps it from being a program at all.
-/
namespace Wanda.Program
open Atom Reduction

/-- The cursor, any definitions, and then atoms none of which opens another. -/
def Fronted (atoms : List Atom) : Prop :=
  ∃ (definitions : List (List Atom)) (body : List Atom),
    (∀ d ∈ definitions, Definition d) ∧ define ∉ body ∧
      atoms = cursor :: (definitions.flatten ++ body)

theorem legal_of_yields {source : String} {atoms rest : List Atom} (hr : read source = .ok atoms)
    (hy : Yields atoms (.ok rest)) : ∀ a ∈ rest, Legal a := by
  intro a ha
  rcases hy.mem_or_eq_ofInt64 a ha with hm | ⟨n, rfl⟩
  · exact (read_eq_ok_iff.mp hr).legal a hm
  · exact legal_ofInt64 n

theorem read_render_eq_ok_iff {atoms : List Atom} (h : ∀ a ∈ atoms, Legal a) :
    read (render atoms) = .ok atoms ↔ Itemized atoms := by
  rw [read_eq_ok_iff_check, check_eq_ok_iff, split_render h]
  exact ⟨fun hr => hr.2.2, fun hi => ⟨rfl, h, hi⟩⟩

theorem Fronted.itemized_of_yields {source : String} {atoms rest : List Atom}
    (hf : Fronted atoms) (hr : read source = .ok atoms) (hy : Yields atoms (.ok rest)) :
    Itemized rest := by
  obtain ⟨definitions, body, hd, hb, rfl⟩ := hf
  have hi : Itemized (definitions.flatten ++ body) := by
    rcases (itemized_cons_iff 0).mp (read_eq_ok_iff.mp hr).items with ⟨-, hi⟩ | ⟨hc, -⟩
    · exact hi
    · exact absurd hc (by decide)
  have hbody : ∀ a ∈ body, IsPlain a := (itemized_of_definitions hd hi).isPlain hb
  exact itemized_of_plain (hy.isPlain_of_definitions hd hbody)

end Wanda.Program

namespace Wanda.Runner
open Atom Program Reduction

variable {κ : Type}

theorem delivers_render {source : String} {atoms rest : List Atom} (hr : read source = .ok atoms)
    (hy : Yields atoms (.ok rest)) :
    Delivers (render rest) (.ok (render rest)) ∨
      ∃ e : ReadError, e.IsStructural ∧ Delivers (render rest) (.error (.parse e.message)) := by
  have hl := legal_of_yields hr hy
  have hs := split_render hl
  cases hread : read (render rest) with
  | error e =>
    right
    refine ⟨e, isStructural_of_read ?_ hread, .unreadable hread⟩
    rwa [hs]
  | ok again =>
    left
    obtain rfl : rest = again := hs.symm.trans (read_eq_ok_iff_check.mp hread).1
    exact .finished hread hy.self

/--
The atoms of an output are those of the source and numerals, and its text is cut into these atoms
again. Whatever ran before, running the text gives the text back or fails by what is left of
definitions, and where the source has all of its definitions in front it gives the text back.
-/
theorem output_is_fixed_point (host : Host κ) (options : Stages.Options) {source : String}
    {atoms rest : List Atom} (hr : read source = .ok atoms) (hy : Yields atoms (.ok rest)) :
    (∀ a ∈ rest, a ∈ atoms ∨ ∃ n : Int64, a = ofInt64 n) ∧
      (∀ a ∈ rest, ∀ position, checkAtom position a = .ok ()) ∧
      split (render rest) = rest ∧
      ∃ fresh : Runner κ, standard options = .ok fresh ∧ ∀ history r, History fresh history r →
        (∀ result, r.Answers host source result ↔ result = .ok (render rest)) ∧
        ((∀ result, r.Answers host (render rest) result ↔ result = .ok (render rest)) ∨
          ∃ e : ReadError, e.IsStructural ∧
            ∀ result, r.Answers host (render rest) result ↔ result = .error (.parse e.message)) ∧
        (Fronted atoms →
          ∀ result, r.Answers host (render rest) result ↔ result = .ok (render rest)) := by
  have hl := legal_of_yields hr hy
  obtain ⟨fresh, hs, hf⟩ := exists_standard options
  refine ⟨hy.mem_or_eq_ofInt64, fun a ha position => checkAtom_eq_ok_iff.mpr (hl a ha),
    split_render hl, fresh, hs, ?_⟩
  intro history r hh
  have ha := (hf.history hh).answers_iff_delivers host
  simp only [ha]
  refine ⟨(Delivers.finished hr hy).iff_eq, ?_, ?_⟩
  · rcases delivers_render hr hy with hd | ⟨e, he, hd⟩
    · exact .inl hd.iff_eq
    · exact .inr ⟨e, he, hd.iff_eq⟩
  · intro hfront
    have hread := (read_render_eq_ok_iff hl).mpr (hfront.itemized_of_yields hr hy)
    exact (Delivers.finished hread hy.self).iff_eq

/-- A program that defines the square and takes it of seven. -/
def squareOfSeven : List Atom :=
  ["$", ":", "$", "sq", "->", "$", "dup", "*", ";", "7", "sq"]

theorem output_is_fixed_point_square :
    read (render squareOfSeven) = .ok squareOfSeven ∧ Yields squareOfSeven (.ok ["49", "$"]) ∧
      Fronted squareOfSeven ∧ ∃ fresh : Runner Unit, standard {} = .ok fresh ∧
        fresh.Answers reentrant (render ["49", "$"]) (.ok (render ["49", "$"])) := by
  have hc : check squareOfSeven = .ok () := by decide
  obtain ⟨hl, hi⟩ := check_eq_ok_iff.mp hc
  have hr : read (render squareOfSeven) = .ok squareOfSeven := (read_render_eq_ok_iff hl).mpr hi
  have hy : Yields squareOfSeven (.ok ["49", "$"]) := ⟨6, by cbv⟩
  have hd : Definition (define :: (["$", "sq"] ++ arrow :: (["$", "dup", "*"] ++ [close]))) :=
    .replacing (by decide) (by decide) (by decide)
  have hf : Fronted squareOfSeven :=
    ⟨[_], ["7", "sq"], List.forall_mem_singleton.mpr hd, by decide, by decide⟩
  obtain ⟨-, -, -, fresh, hs, hh⟩ := output_is_fixed_point reentrant {} hr hy
  exact ⟨hr, hy, hf, fresh, hs, ((hh [] fresh .nil).2.2 hf _).mpr rfl⟩

example : Yields [":", "$", "pop", "->", "b", ";"] (.ok ["$", "->", "b", ";"]) ∧
    check ["$", "->", "b", ";"] = .error (.strayArrow 1) :=
  ⟨⟨3, by cbv⟩, by decide⟩

end Wanda.Runner

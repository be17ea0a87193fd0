import Wanda.Proofs.Program.Language
import Wanda.Proofs.Reduction.Definitions
import Wanda.Proofs.Reduction.NormalForm

/-!
Where the atoms of a reduction come from. No step invents an atom but a numeral, so what holds of
numerals and of all atoms at the start holds of all atoms at the end.
-/
namespace Wanda.Reduction
open Atom Program

/-- All atoms, and all that the rules can bring in, have a property. -/
structure State.Within (p : Atom → Prop) (s : State) : Prop where
  redex : ∀ a ∈ s.redex, p a
  rules : ∀ rule ∈ s.rules, ∀ a ∈ rule.replacement, p a

theorem Body.subset {rest body tail : List Atom} (h : Body rest body tail) :
    body ⊆ rest ∧ tail ⊆ rest := by
  cases h with
  | closed => simp
  | unclosed => simp

theorem Writes.subset {body : List Atom} {rule : Rule} (h : Writes body rule) :
    rule.replacement ⊆ body := by
  cases h with
  | pattern => simp
  | both =>
    intro a ha
    simp only [List.mem_filter] at ha
    simp [ha.1]

theorem exists_ofInt64_sign (a : Int64) :
    ∃ n : Int64, Text.Numeral.text a.toInt.sign = ofInt64 n := by
  unfold ofInt64
  rcases Int.sign_trichotomy a.toInt with h | h | h
  · exact ⟨1, by rw [h]; rfl⟩
  · exact ⟨0, by rw [h]; rfl⟩
  · exact ⟨-1, by rw [h]; rfl⟩

section
variable {p : Atom → Prop} (hint : ∀ n : Int64, p (ofInt64 n))
include hint

theorem Rewrites.within {rules : List Rule} {position : Nat} {form : Form} {rest : List Atom}
    {left : List Rule × List Atom} (h : Rewrites rules position form rest (.ok left))
    (hs : State.Within p ⟨rules, rest⟩) : State.Within p ⟨left.1, left.2⟩ := by
  obtain ⟨ha, hr⟩ := hs
  cases h with
  | definition hb hw =>
    simp only [List.forall_mem_cons] at ha
    obtain ⟨hc, -, ha⟩ := ha
    refine ⟨List.forall_mem_cons.mpr ⟨hc, fun a h => ha a (hb.subset.2 h)⟩, ?_⟩
    exact List.forall_mem_cons.mpr ⟨fun a h => ha a (hb.subset.1 (hw.subset h)), hr⟩
  | @arithmetic x y op rest a b n =>
    simp only [List.forall_mem_cons] at ha
    obtain ⟨-, -, hc, -, ha⟩ := ha
    exact ⟨List.forall_mem_cons.mpr ⟨hint n, List.forall_mem_cons.mpr ⟨hc, ha⟩⟩, hr⟩
  | @sign x rest a =>
    obtain ⟨n, hn⟩ := exists_ofInt64_sign a
    simp only [List.forall_mem_cons] at ha
    obtain ⟨-, hc, -, ha⟩ := ha
    rw [hn]
    exact ⟨List.forall_mem_cons.mpr ⟨hint n, List.forall_mem_cons.mpr ⟨hc, ha⟩⟩, hr⟩
  | pop =>
    simp only [List.forall_mem_cons] at ha
    obtain ⟨-, hc, -, ha⟩ := ha
    exact ⟨List.forall_mem_cons.mpr ⟨hc, ha⟩, hr⟩
  | dup =>
    simp only [List.forall_mem_cons] at ha
    obtain ⟨hx, hc, -, ha⟩ := ha
    refine ⟨?_, hr⟩
    simp only [List.forall_mem_cons]
    exact ⟨hx, hx, hc, ha⟩
  | push =>
    simp only [List.forall_mem_cons] at ha
    obtain ⟨hc, hn, ha⟩ := ha
    exact ⟨List.forall_mem_cons.mpr ⟨hn, List.forall_mem_cons.mpr ⟨hc, ha⟩⟩, hr⟩
  | @user newer older rule rest hrules =>
    have hm : rule ∈ rules := by simp [hrules]
    simp only [List.forall_mem_append] at ha
    exact ⟨List.forall_mem_append.mpr ⟨hr rule hm, ha.2⟩, hr⟩

theorem Step.within {s t : State} (h : Step s t) (hs : s.Within p) : t.Within p := by
  obtain ⟨ha⟩ := h
  rename_i position form left
  have hd : State.Within p ⟨s.rules, s.redex.drop position⟩ :=
    ⟨fun a h => hs.redex a (List.mem_of_mem_drop h), hs.rules⟩
  have hl := ha.first.1.within hint hd
  refine ⟨List.forall_mem_append.mpr ⟨?_, hl.redex⟩, hl.rules⟩
  intro a h
  exact hs.redex a (List.mem_of_mem_take h)

theorem steps_within {s t : State} (h : Relation.ReflTransGen Step s t) (hs : s.Within p) :
    t.Within p := by
  induction h with
  | refl => exact hs
  | tail _ ht ih => exact ht.within hint ih

end

/-- The atoms of a result are atoms of the program or numerals. -/
theorem Yields.mem_or_eq_ofInt64 {atoms r : List Atom} (h : Yields atoms (.ok r)) :
    ∀ a ∈ r, a ∈ atoms ∨ ∃ n : Int64, a = ofInt64 n := by
  obtain ⟨fuel, hf⟩ := h
  obtain ⟨rules, hs, -⟩ := run_eq_ok hf
  have h0 : State.Within (fun a => a ∈ atoms ∨ ∃ n : Int64, a = ofInt64 n) (.initial atoms) :=
    ⟨fun a ha => .inl ha, by simp [State.initial]⟩
  exact (steps_within (fun n => .inr ⟨n, rfl⟩) hs h0).redex

theorem notMem_of_isPlain {atoms : List Atom} (h : ∀ a ∈ atoms, IsPlain a) :
    arrow ∉ atoms ∧ close ∉ atoms :=
  ⟨fun ha => (h _ ha).2.1 rfl, fun hc => (h _ hc).2.2 rfl⟩

/-- What the rule of a definition brings in is plain. -/
theorem exists_defines {d : List Atom} (h : Definition d) :
    ∃ rule, (∀ a ∈ rule.replacement, IsPlain a) ∧ Defines d rule := by
  cases h with
  | @erasing pattern hn hp =>
    have hw : Rule.Writable ⟨pattern, []⟩ := ⟨hn, notMem_of_isPlain hp, by simp⟩
    exact ⟨⟨pattern, []⟩, by simp, (Wording.erasing pattern).defines hw⟩
  | @replacing pattern replacement hn hp hr =>
    have hw : Rule.Writable ⟨pattern, replacement⟩ :=
      ⟨hn, notMem_of_isPlain hp, notMem_of_isPlain hr⟩
    exact ⟨⟨pattern, replacement⟩, hr, (Wording.replacing ⟨pattern, replacement⟩).defines hw⟩

theorem exists_forall₂_defines {definitions : List (List Atom)}
    (hd : ∀ d ∈ definitions, Definition d) :
    ∃ rules, (∀ rule ∈ rules, ∀ a ∈ rule.replacement, IsPlain a) ∧
      List.Forall₂ Defines definitions rules := by
  induction definitions with
  | nil => exact ⟨[], by simp, .nil⟩
  | cons d definitions ih =>
    rw [List.forall_mem_cons] at hd
    obtain ⟨rule, hp, hr⟩ := exists_defines hd.1
    obtain ⟨rules, hps, hrs⟩ := ih hd.2
    exact ⟨rule :: rules, List.forall_mem_cons.mpr ⟨hp, hps⟩, .cons hr hrs⟩

theorem isPlain_ofInt64 (n : Int64) : IsPlain (ofInt64 n) :=
  ⟨Text.Numeral.text_ne rfl _, Text.Numeral.text_ne rfl _, Text.Numeral.text_ne rfl _⟩

/-- Definitions that all stand in front leave nothing of themselves in a result. -/
theorem Yields.isPlain_of_definitions {definitions : List (List Atom)} {body r : List Atom}
    (h : Yields (cursor :: (definitions.flatten ++ body)) (.ok r))
    (hd : ∀ d ∈ definitions, Definition d) (hb : ∀ a ∈ body, IsPlain a) : ∀ a ∈ r, IsPlain a := by
  obtain ⟨fuel, hf⟩ := h
  obtain ⟨rules, hs, hn⟩ := run_eq_ok hf
  obtain ⟨installed, hr, hdef⟩ := exists_forall₂_defines hd
  have hi := (installs_of_defines hdef [] body).steps
  have hc : IsPlain cursor := by decide
  have h0 : State.Within IsPlain ⟨installed.reverse ++ [], cursor :: body⟩ :=
    ⟨List.forall_mem_cons.mpr ⟨hc, hb⟩, by simpa using hr⟩
  exact (steps_within isPlain_ofInt64 (steps_to_normal hi hs hn) h0).redex

end Wanda.Reduction

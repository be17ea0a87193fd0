import Wanda.Text.Blank
import Mathlib.Data.List.TakeWhile

/-!
The words of a text are its maximal runs of non-blank characters. A blank anywhere parts the words
before it from the words after it.
-/
namespace Wanda.Text

/-- The visible characters of ASCII. -/
def IsGraphic (c : Char) : Prop :=
  0x20 < c.toNat ∧ c.toNat < 0x7F

instance (c : Char) : Decidable (IsGraphic c) :=
  inferInstanceAs (Decidable (_ ∧ _))

theorem isGraphic_of_all {cs : List Char} (h : cs.all (IsGraphic ·) = true) :
    ∀ c ∈ cs, IsGraphic c := by
  simpa using h

theorem IsGraphic.isBlank_eq_false {c : Char} (h : IsGraphic c) : isBlank c = false := by
  obtain ⟨hl, hu⟩ := h
  simp only [isBlank, Bool.or_eq_false_iff, Bool.and_eq_false_imp, decide_eq_true_eq,
    decide_eq_false_iff_not, beq_eq_false_iff_ne]
  omega

theorem takeWhile_run {p : Char → Bool} {run rest : List Char} (hr : ∀ c ∈ run, p c = true)
    (hs : ∀ c ∈ rest.head?, p c = false) : (run ++ rest).takeWhile p = run := by
  rw [List.takeWhile_append_of_pos hr]
  cases rest with
  | nil => simp
  | cons c rest => simp [hs c rfl]

theorem dropWhile_run {p : Char → Bool} {run rest : List Char} (hr : ∀ c ∈ run, p c = true)
    (hs : ∀ c ∈ rest.head?, p c = false) : (run ++ rest).dropWhile p = rest := by
  rw [List.dropWhile_append_of_pos hr]
  cases rest with
  | nil => rfl
  | cons c rest => simp [hs c rfl]

/-- A text and all its maximal runs of non-blank characters, in order. -/
inductive Runs : List Char → List (List Char) → Prop
  | blank {cs : List Char} : (∀ c ∈ cs, isBlank c = true) → Runs cs []
  | run {blanks run rest : List Char} {runs : List (List Char)} :
      (∀ c ∈ blanks, isBlank c = true) → run ≠ [] → (∀ c ∈ run, isBlank c = false) →
      (∀ c ∈ rest.head?, isBlank c = true) → Runs rest runs →
      Runs (blanks ++ (run ++ rest)) (run :: runs)

theorem words_of_dropWhile_nil {cs : List Char} (h : cs.dropWhile isBlank = []) :
    words cs = [] := by
  rw [words]
  split
  · rfl
  · simp_all

theorem words_of_dropWhile_cons {cs rest : List Char} {c : Char}
    (h : cs.dropWhile isBlank = c :: rest) :
    words cs = (c :: rest.takeWhile (!isBlank ·)) :: words (rest.dropWhile (!isBlank ·)) := by
  rw [words]
  split
  · simp_all
  · simp_all

theorem words_of_blank {cs : List Char} (h : ∀ c ∈ cs, isBlank c = true) : words cs = [] :=
  words_of_dropWhile_nil (List.dropWhile_eq_nil_iff.mpr h)

/-- Leading blanks do not matter. -/
theorem words_blank_append {blanks : List Char} (h : ∀ c ∈ blanks, isBlank c = true)
    (cs : List Char) : words (blanks ++ cs) = words cs := by
  have hd : (blanks ++ cs).dropWhile isBlank = cs.dropWhile isBlank :=
    List.dropWhile_append_of_pos h
  cases hc : cs.dropWhile isBlank with
  | nil => rw [words_of_dropWhile_nil hc, words_of_dropWhile_nil (hd.trans hc)]
  | cons c rest => rw [words_of_dropWhile_cons hc, words_of_dropWhile_cons (hd.trans hc)]

theorem words_run_append {run rest : List Char} (hn : run ≠ [])
    (hr : ∀ c ∈ run, isBlank c = false) (hs : ∀ c ∈ rest.head?, isBlank c = true) :
    words (run ++ rest) = run :: words rest := by
  obtain ⟨c, cs, rfl⟩ := List.exists_cons_of_ne_nil hn
  have hc : isBlank c = false := hr c List.mem_cons_self
  have hp : ∀ d ∈ cs, (!isBlank d) = true := by
    intro d hd
    rw [hr d (List.mem_cons_of_mem c hd)]
    rfl
  have hq : ∀ d ∈ rest.head?, (!isBlank d) = false := by
    intro d hd
    rw [hs d hd]
    rfl
  have hd : (c :: cs ++ rest).dropWhile isBlank = c :: (cs ++ rest) := by simp [hc]
  rw [words_of_dropWhile_cons hd, takeWhile_run hp hq, dropWhile_run hp hq]

theorem words_of_run {run : List Char} (hn : run ≠ []) (hr : ∀ c ∈ run, isBlank c = false) :
    words run = [run] := by
  have hw : words (run ++ []) = run :: words [] := words_run_append hn hr (by simp)
  have he : words [] = [] := words_of_blank (by simp)
  rwa [List.append_nil, he] at hw

theorem head?_dropWhile_eq_false {p : Char → Bool} {cs : List Char} {c : Char}
    (h : c ∈ (cs.dropWhile p).head?) : p c = false := by
  have hn := List.head?_dropWhile_not p cs
  rw [Option.mem_def.mp h] at hn
  exact hn

theorem runs_words (cs : List Char) : Runs cs (words cs) := by
  fun_induction words cs with
  | case1 cs h => exact .blank (List.dropWhile_eq_nil_iff.mp h)
  | case2 cs c rest h ih =>
    have hc : isBlank c = false := by
      have hm : c ∈ (cs.dropWhile isBlank).head? := by simp [h]
      exact head?_dropWhile_eq_false hm
    have he : cs = cs.takeWhile isBlank ++
        (c :: rest.takeWhile (!isBlank ·) ++ rest.dropWhile (!isBlank ·)) := by
      rw [List.cons_append, List.takeWhile_append_dropWhile, ← h, List.takeWhile_append_dropWhile]
    rw [he]
    refine .run (fun d hd => List.mem_takeWhile_imp hd) (List.cons_ne_nil _ _) ?_ ?_ ih
    · intro d hd
      rcases List.mem_cons.mp hd with rfl | hd
      · exact hc
      · simpa using List.mem_takeWhile_imp hd
    · intro d hd
      simpa using head?_dropWhile_eq_false hd

theorem Runs.words_eq {cs : List Char} {ws : List (List Char)} (h : Runs cs ws) :
    words cs = ws := by
  induction h with
  | blank hb => exact words_of_blank hb
  | run hb hn hr hs _ ih => rw [words_blank_append hb, words_run_append hn hr hs, ih]

theorem runs_iff {cs : List Char} {ws : List (List Char)} : Runs cs ws ↔ words cs = ws := by
  refine ⟨Runs.words_eq, ?_⟩
  rintro rfl
  exact runs_words cs

theorem Runs.words_append_blank {cs : List Char} {ws : List (List Char)} (h : Runs cs ws) {b : Char}
    (hb : isBlank b = true) (ds : List Char) : words (cs ++ b :: ds) = ws ++ words ds := by
  induction h with
  | @blank cs hc =>
    have hcb : ∀ c ∈ cs ++ [b], isBlank c = true := by
      intro c hm
      rcases List.mem_append.mp hm with hm | hm
      · exact hc c hm
      · rw [List.mem_singleton.mp hm]
        exact hb
    rw [List.append_cons, words_blank_append hcb, List.nil_append]
  | @run blanks run rest runs hc hn hr hs _ ih =>
    have hs' : ∀ c ∈ (rest ++ b :: ds).head?, isBlank c = true := by
      cases rest with
      | nil =>
        intro c hm
        cases hm
        exact hb
      | cons d rest => exact hs
    rw [List.append_assoc, List.append_assoc, words_blank_append hc, words_run_append hn hr hs', ih,
      List.cons_append]

/-- A blank parts the words before it from those after it. -/
theorem words_append_blank {b : Char} (hb : isBlank b = true) (cs ds : List Char) :
    words (cs ++ b :: ds) = words cs ++ words ds :=
  (runs_words cs).words_append_blank hb ds

end Wanda.Text

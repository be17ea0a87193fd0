import Wanda.Proofs.Reduction.Forms

/-!
Reduction as a rewriting system: each step acts at the leftmost position where a form applies, by
the form of highest precedence there. `run` follows its steps to a normal form or to a fault, and
comes to no end exactly if the steps go on forever.
-/
namespace Wanda.Reduction

/-- The position, the form and the outcome of the next step. -/
structure Acts (s : State) (position : Nat) (form : Form)
    (out : Except Fault (List Rule × List Atom)) : Prop where
  inside : position < s.redex.length
  leftmost : ∀ i < position, ∀ g o, ¬ Rewrites s.rules i g (s.redex.drop i) o
  first : First s.rules position (s.redex.drop position) form out

/-- The state after a step that leaves rules and atoms at a position. -/
def State.after (s : State) (position : Nat) (left : List Rule × List Atom) : State :=
  ⟨left.1, s.redex.take position ++ left.2⟩

inductive Step (s : State) : State → Prop
  | intro {position : Nat} {form : Form} {left : List Rule × List Atom} :
      Acts s position form (.ok left) → Step s (s.after position left)

def Faults (s : State) (f : Fault) : Prop :=
  ∃ position form, Acts s position form (.error f)

/-- No form applies anywhere. -/
def Normal (s : State) : Prop :=
  ∀ i < s.redex.length, ∀ form out, ¬ Rewrites s.rules i form (s.redex.drop i) out

/-- Reducing the atoms comes to an end, with this result. -/
def Yields (atoms : List Atom) (result : Except Fault (List Atom)) : Prop :=
  ∃ fuel, run fuel (.initial atoms) = some result

theorem leftmost?_of_none {rules : List Rule} {position : Nat} {redex : List Atom}
    (h : ∀ i < redex.length, matchAt rules (position + i) (redex.drop i) = none) :
    leftmost? rules position redex = none := by
  induction redex generalizing position with
  | nil => rfl
  | cons a rest ih =>
    have ha : matchAt rules position (a :: rest) = none := h 0 (by simp)
    have hr : leftmost? rules (position + 1) rest = none := by
      apply ih
      intro i hi
      rw [Nat.add_right_comm]
      exact h (i + 1) (by simpa using hi)
    simp only [leftmost?, ha, hr, Option.map_none]

theorem leftmost?_of_first {rules : List Rule} {position i : Nat} {redex : List Atom}
    {found : Except Fault Match} (hi : i < redex.length)
    (hl : ∀ j < i, matchAt rules (position + j) (redex.drop j) = none)
    (hf : matchAt rules (position + i) (redex.drop i) = some found) :
    leftmost? rules position redex = some (found.map fun m =>
      (m, redex.take i ++ (m.outcome rules (redex.drop i)).2)) := by
  induction redex generalizing position i with
  | nil => simp at hi
  | cons a rest ih =>
    cases i with
    | zero =>
      have hm : matchAt rules position (a :: rest) = some found := hf
      cases found <;> simp only [leftmost?, hm] <;> rfl
    | succ i =>
      have ha : matchAt rules position (a :: rest) = none := hl 0 (by omega)
      have hl' : ∀ j < i, matchAt rules (position + 1 + j) (rest.drop j) = none := by
        intro j hj
        rw [Nat.add_right_comm]
        exact hl (j + 1) (by omega)
      have hf' : matchAt rules (position + 1 + i) (rest.drop i) = some found := by
        rw [Nat.add_right_comm]
        exact hf
      simp only [leftmost?, ha, ih (by simpa using hi) hl' hf']
      cases found <;> rfl

theorem step?_of_normal {s : State} (h : Normal s) : s.step? = none := by
  have hl : leftmost? s.rules 0 s.redex = none := by
    apply leftmost?_of_none
    intro i hi
    rw [Nat.zero_add]
    exact matchAt_eq_none_iff.mpr (h i hi)
  rw [State.step?, hl]
  rfl

theorem step?_of_acts {s : State} {position : Nat} {form : Form}
    {out : Except Fault (List Rule × List Atom)} (h : Acts s position form out) :
    s.step?.map (·.map (·.2)) = some (out.map (s.after position)) := by
  obtain ⟨found, hf, rfl⟩ :=
    Option.map_eq_some_iff.mp (told_matchAt_eq_some_iff.mpr ⟨form, h.first⟩)
  have hl : ∀ j < position, matchAt s.rules (0 + j) (s.redex.drop j) = none := by
    intro j hj
    rw [Nat.zero_add]
    exact matchAt_eq_none_iff.mpr (h.leftmost j hj)
  have hp : matchAt s.rules (0 + position) (s.redex.drop position) = some found := by
    rw [Nat.zero_add]
    exact hf
  rw [State.step?, leftmost?_of_first h.inside hl hp]
  cases found <;> rfl

theorem normal_or_acts (s : State) : Normal s ∨ ∃ position form out, Acts s position form out := by
  classical
  by_cases h : ∃ i, i < s.redex.length ∧ ∃ form out, Rewrites s.rules i form (s.redex.drop i) out
  · right
    obtain ⟨hi, form, out, hr⟩ := Nat.find_spec h
    obtain ⟨g, o, hg⟩ := exists_first hr
    refine ⟨Nat.find h, g, o, hi, ?_, hg⟩
    intro j hj g o hr
    exact Nat.find_min h hj ⟨by omega, g, o, hr⟩
  · left
    intro i hi form out hr
    exact h ⟨i, hi, form, out, hr⟩

theorem step?_eq_none_iff {s : State} : s.step? = none ↔ Normal s := by
  refine ⟨?_, step?_of_normal⟩
  intro h
  rcases normal_or_acts s with hn | ⟨position, form, out, ha⟩
  · exact hn
  · have hs := step?_of_acts ha
    simp [h] at hs

theorem step?_eq_error_iff {s : State} {f : Fault} :
    s.step? = some (.error f) ↔ Faults s f := by
  constructor
  · intro h
    rcases normal_or_acts s with hn | ⟨position, form, out, ha⟩
    · simp [step?_of_normal hn] at h
    · have hs := step?_of_acts ha
      cases out with
      | error g =>
        obtain rfl : f = g := by simpa [h, Except.map] using hs
        exact ⟨position, form, ha⟩
      | ok left => simp [h, Except.map] at hs
  · intro h
    obtain ⟨position, form, ha⟩ := h
    obtain ⟨found, hf, he⟩ := Option.map_eq_some_iff.mp (step?_of_acts ha)
    cases found with
    | error g =>
      cases he
      exact hf
    | ok left => cases he

theorem step_iff {s t : State} : Step s t ↔ ∃ c, s.step? = some (.ok (c, t)) := by
  constructor
  · intro h
    obtain ⟨ha⟩ := h
    obtain ⟨found, hf, he⟩ := Option.map_eq_some_iff.mp (step?_of_acts ha)
    cases found with
    | error g => cases he
    | ok left =>
      obtain ⟨c, u⟩ := left
      cases he
      exact ⟨c, hf⟩
  · intro h
    obtain ⟨c, h⟩ := h
    rcases normal_or_acts s with hn | ⟨position, form, out, ha⟩
    · simp [step?_of_normal hn] at h
    · have hs := step?_of_acts ha
      cases out with
      | error g => simp [h, Except.map] at hs
      | ok left =>
        obtain rfl : t = s.after position left := by simpa [h, Except.map] using hs
        exact .intro ha

/-- A state that takes no step keeps `run` from looking further. -/
theorem run_of_normal {s : State} (h : Normal s) (fuel : Nat) :
    run (fuel + 1) s = some (.ok s.redex) := by
  rw [run, step?_eq_none_iff.mpr h]

theorem run_of_faults {s : State} {f : Fault} (h : Faults s f) (fuel : Nat) :
    run (fuel + 1) s = some (.error f) := by
  rw [run, step?_eq_error_iff.mpr h]

theorem run_of_step {s t : State} (h : Step s t) (fuel : Nat) :
    run (fuel + 1) s = run fuel t := by
  obtain ⟨c, hc⟩ := step_iff.mp h
  rw [run, hc]

theorem normal_or_faults_or_step (s : State) :
    Normal s ∨ (∃ f, Faults s f) ∨ ∃ t, Step s t := by
  rcases normal_or_acts s with hn | ⟨position, form, out, ha⟩
  · exact .inl hn
  · cases out with
    | error f => exact .inr (.inl ⟨f, position, form, ha⟩)
    | ok left => exact .inr (.inr ⟨_, .intro ha⟩)

theorem run_eq_ok {fuel : Nat} {s : State} {r : List Atom} (h : run fuel s = some (.ok r)) :
    ∃ rules, Relation.ReflTransGen Step s ⟨rules, r⟩ ∧ Normal ⟨rules, r⟩ := by
  induction fuel generalizing s with
  | zero => simp [run] at h
  | succ fuel ih =>
    rcases normal_or_faults_or_step s with hn | ⟨f, hf⟩ | ⟨t, ht⟩
    · rw [run_of_normal hn] at h
      cases h
      exact ⟨s.rules, .refl, hn⟩
    · rw [run_of_faults hf] at h
      cases h
    · rw [run_of_step ht] at h
      obtain ⟨rules, hr, hn⟩ := ih h
      exact ⟨rules, .head ht hr, hn⟩

theorem run_eq_error {fuel : Nat} {s : State} {f : Fault} (h : run fuel s = some (.error f)) :
    ∃ t, Relation.ReflTransGen Step s t ∧ Faults t f := by
  induction fuel generalizing s with
  | zero => simp [run] at h
  | succ fuel ih =>
    rcases normal_or_faults_or_step s with hn | ⟨g, hg⟩ | ⟨t, ht⟩
    · rw [run_of_normal hn] at h
      cases h
    · rw [run_of_faults hg] at h
      cases h
      exact ⟨s, .refl, hg⟩
    · rw [run_of_step ht] at h
      obtain ⟨u, hu, hf⟩ := ih h
      exact ⟨u, .head ht hu, hf⟩

theorem run_mono {fuel more : Nat} {s : State} {result : Except Fault (List Atom)}
    (h : run fuel s = some result) (hm : fuel ≤ more) : run more s = some result := by
  induction fuel generalizing more s with
  | zero => simp [run] at h
  | succ fuel ih =>
    obtain ⟨more, rfl⟩ := Nat.exists_eq_add_of_le' (show 1 ≤ more by omega)
    rcases normal_or_faults_or_step s with hn | ⟨f, hf⟩ | ⟨t, ht⟩
    · rw [run_of_normal hn] at h ⊢
      exact h
    · rw [run_of_faults hf] at h ⊢
      exact h
    · rw [run_of_step ht] at h ⊢
      exact ih h (by omega)

theorem Yields.unique {atoms : List Atom} {x y : Except Fault (List Atom)} (hx : Yields atoms x)
    (hy : Yields atoms y) : x = y := by
  obtain ⟨fuel, hx⟩ := hx
  obtain ⟨fuel', hy⟩ := hy
  have hx' := run_mono hx (Nat.le_max_left fuel fuel')
  have hy' := run_mono hy (Nat.le_max_right fuel fuel')
  rw [hx'] at hy'
  exact Option.some.inj hy'

/-- Steps only put off what `run` comes to. -/
theorem exists_run_of_steps {s t : State} {result : Except Fault (List Atom)}
    (h : Relation.ReflTransGen Step s t) (ht : ∃ fuel, run fuel t = some result) :
    ∃ fuel, run fuel s = some result := by
  induction h using Relation.ReflTransGen.head_induction_on with
  | refl => exact ht
  | head hs _ ih =>
    obtain ⟨fuel, hf⟩ := ih
    exact ⟨fuel + 1, by rw [run_of_step hs, hf]⟩

/-- The state after a step, or the state itself if there is no step. -/
def State.next (s : State) : State :=
  match s.step? with
  | some (.ok (_, t)) => t
  | _ => s

theorem step_next {s : State} (h : ∀ fuel, run fuel s = none) :
    Step s s.next ∧ ∀ fuel, run fuel s.next = none := by
  rcases normal_or_faults_or_step s with hn | ⟨f, hf⟩ | ⟨t, ht⟩
  · have h1 := h 1
    rw [run_of_normal hn] at h1
    cases h1
  · have h1 := h 1
    rw [run_of_faults hf] at h1
    cases h1
  · obtain ⟨c, hc⟩ := step_iff.mp ht
    have hnext : s.next = t := by rw [State.next, hc]
    rw [hnext]
    refine ⟨ht, ?_⟩
    intro fuel
    rw [← run_of_step ht]
    exact h (fuel + 1)

theorem forall_run_eq_none_iff {s : State} :
    (∀ fuel, run fuel s = none) ↔
      ∃ states : Nat → State, states 0 = s ∧ ∀ n, Step (states n) (states (n + 1)) := by
  constructor
  · intro h
    have hall : ∀ n fuel, run fuel (State.next^[n] s) = none := by
      intro n
      induction n with
      | zero => exact h
      | succ n ih =>
        rw [Function.iterate_succ_apply']
        exact (step_next ih).2
    refine ⟨fun n => State.next^[n] s, rfl, ?_⟩
    intro n
    beta_reduce
    rw [Function.iterate_succ_apply']
    exact (step_next (hall n)).1
  · intro h fuel
    obtain ⟨states, rfl, hs⟩ := h
    induction fuel generalizing states with
    | zero => rfl
    | succ fuel ih =>
      rw [run_of_step (hs 0)]
      exact ih (fun n => states (n + 1)) (fun n => hs (n + 1))

/--
Reduction is rewriting at the leftmost position by the first form: it results in a normal form
reached by steps, or in the fault of a state reached by steps, or else the steps never end.
-/
theorem reduction_eq_leftmost_rewriting (atoms : List Atom) :
    (∀ r, Yields atoms (.ok r) ↔
      ∃ rules, Relation.ReflTransGen Step (.initial atoms) ⟨rules, r⟩ ∧ Normal ⟨rules, r⟩) ∧
    (∀ f, Yields atoms (.error f) ↔
      ∃ s, Relation.ReflTransGen Step (.initial atoms) s ∧ Faults s f) ∧
    ((∀ result, ¬ Yields atoms result) ↔
      ∃ states : Nat → State, states 0 = .initial atoms ∧
        ∀ n, Step (states n) (states (n + 1))) := by
  refine ⟨?_, ?_, ?_⟩
  · intro r
    constructor
    · intro h
      obtain ⟨fuel, h⟩ := h
      exact run_eq_ok h
    · intro h
      obtain ⟨rules, hs, hn⟩ := h
      exact exists_run_of_steps hs ⟨1, run_of_normal hn 0⟩
  · intro f
    constructor
    · intro h
      obtain ⟨fuel, h⟩ := h
      exact run_eq_error h
    · intro h
      obtain ⟨s, hs, hf⟩ := h
      exact exists_run_of_steps hs ⟨1, run_of_faults hf 0⟩
  · rw [← forall_run_eq_none_iff]
    constructor
    · intro h fuel
      refine Option.eq_none_iff_forall_ne_some.mpr ?_
      intro result hr
      exact h result ⟨fuel, hr⟩
    · intro h result hy
      obtain ⟨fuel, hr⟩ := hy
      rw [h fuel] at hr
      cases hr

end Wanda.Reduction

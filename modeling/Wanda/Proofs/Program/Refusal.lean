import Wanda.Proofs.Program.Language

/-!
What reading tells of a text that it refuses. An atom of no class comes before everything else.
Where all atoms are legal, what is told is the first atom after which nothing makes a program any
more, and the text is called unterminated only if it could have gone on.
-/
namespace Wanda.Atom
open Text

/-- Digits, maybe after a minus sign, and the integer that they stand for. -/
inductive Denotes : Atom → Int → Prop
  | natural {ds : List Char} : ds ≠ [] → (∀ d ∈ ds, IsDigit d) →
      Denotes (String.ofList ds) (decimal ds)
  | negative {ds : List Char} : ds ≠ [] → (∀ d ∈ ds, IsDigit d) →
      Denotes (String.ofList ('-' :: ds)) (-decimal ds)

/-- A numeral for which 64 bits are too few. -/
def OutOfRange (a : Atom) : Prop :=
  ∃ n, Denotes a n ∧ (n < -2 ^ 63 ∨ 2 ^ 63 ≤ n)

/-- In no class, and not a numeral of any size either. -/
def Malformed (a : Atom) : Prop :=
  ¬ Legal a ∧ ∀ n, ¬ Denotes a n

theorem value?_eq_some_iff {a : Atom} {n : Int} :
    Numeral.value? a.toList = some n ↔ Denotes a n := by
  constructor
  · intro h
    obtain ⟨ds, hn, hd, ⟨he, rfl⟩ | ⟨he, rfl⟩⟩ := exists_digits_of_value? h
    · rw [← a.ofList_toList, he]
      exact .natural hn hd
    · rw [← a.ofList_toList, he]
      exact .negative hn hd
  · intro h
    cases h with
    | natural hn hd => rw [String.toList_ofList, value?_natural hn hd]
    | negative hn hd => rw [String.toList_ofList, value?_negative hn hd]

theorem isSome_word?_iff {n : Int} :
    (Numeral.word? n).isSome = true ↔ ¬ (n < -2 ^ 63 ∨ 2 ^ 63 ≤ n) := by
  unfold Numeral.word?
  split_ifs with h
  · simp only [Option.isSome_some, true_iff]
    omega
  · simp only [Option.isSome_none, Bool.false_eq_true, false_iff, not_not]
    omega

end Wanda.Atom

namespace Wanda.Program
open Atom Text

/-- What is told of an illegal atom. -/
inductive Blames (position : Nat) (a : Atom) : ReadError → Prop
  | malformed : Malformed a → Blames position a (.malformed a position)
  | outOfRange : OutOfRange a → Blames position a (.outOfRange a position)

theorem blames_of_checkAtom {position : Nat} {a : Atom} {e : ReadError}
    (h : checkAtom position a = .error e) : Blames position a e := by
  have hl : ¬ Legal a := by
    intro hl
    rw [checkAtom_eq_ok_iff.mpr hl] at h
    cases h
  unfold checkAtom at h
  split at h
  · cases h
  · split at h
    case h_1 hv =>
      cases h
      refine .malformed ⟨hl, ?_⟩
      intro n hn
      rw [value?_eq_some_iff.mpr hn] at hv
      cases hv
    case h_2 n hv =>
      split at h
      · cases h
      · rename_i hw
        cases h
        rw [isSome_word?_iff, not_not] at hw
        exact .outOfRange ⟨n, value?_eq_some_iff.mp hv, hw⟩

/-- The check of the atoms stops at the first illegal one. -/
theorem checkAtoms_append {before : List Atom} (h : ∀ b ∈ before, Legal b) (position : Nat)
    (rest : List Atom) :
    checkAtoms position (before ++ rest) = checkAtoms (position + before.length) rest := by
  induction before generalizing position with
  | nil => rfl
  | cons b before ih =>
    rw [List.forall_mem_cons] at h
    have hb : checkAtom position b = .ok () := checkAtom_eq_ok_iff.mpr h.1
    rw [List.cons_append, checkAtoms, hb]
    refine (ih h.2 (position + 1)).trans ?_
    rw [List.length_cons, Nat.add_assoc, Nat.add_comm 1]

theorem exists_first_illegal {atoms : List Atom} (h : ∃ a ∈ atoms, ¬ Legal a) :
    ∃ before a after, atoms = before ++ a :: after ∧ (∀ b ∈ before, Legal b) ∧ ¬ Legal a := by
  induction atoms with
  | nil => simp at h
  | cons a rest ih =>
    by_cases ha : Legal a
    · have hr : ∃ b ∈ rest, ¬ Legal b := by simpa [ha] using h
      obtain ⟨before, b, after, rfl, hbefore, hb⟩ := ih hr
      exact ⟨a :: before, b, after, rfl, List.forall_mem_cons.mpr ⟨ha, hbefore⟩, hb⟩
    · exact ⟨[], a, rest, rfl, by simp, ha⟩

theorem exists_blames {text : String} (h : ∃ a ∈ split text, ¬ Legal a) :
    ∃ before a after e, split text = before ++ a :: after ∧ (∀ b ∈ before, Legal b) ∧
      Blames before.length a e ∧ read text = .error e := by
  obtain ⟨before, a, after, hs, hb, ha⟩ := exists_first_illegal h
  cases hc : checkAtom before.length a with
  | ok u => exact absurd (checkAtom_eq_ok_iff.mp hc) ha
  | error e =>
    refine ⟨before, a, after, e, hs, hb, blames_of_checkAtom hc, ?_⟩
    have hatoms : checkAtoms 0 (before ++ a :: after) = .error e := by
      rw [checkAtoms_append hb, Nat.zero_add, checkAtoms, hc]
      rfl
    rw [read_eq_map_check, check, hs, hatoms]
    rfl

/-- Some text is read as these atoms. -/
def Accepted (atoms : List Atom) : Prop :=
  ∃ text, read text = .ok atoms

/-- Something can follow the atoms that makes a program of them. -/
def Viable (atoms : List Atom) : Prop :=
  ∃ more, Accepted (atoms ++ more)

theorem accepted_iff {atoms : List Atom} :
    Accepted atoms ↔ (∀ a ∈ atoms, Legal a) ∧ checkDefinitions 0 .outside atoms = .ok () := by
  rw [checkDefinitions_eq_ok_iff]
  change Accepted atoms ↔ (∀ a ∈ atoms, Legal a) ∧ Itemized atoms
  rw [← check_eq_ok_iff]
  constructor
  · rintro ⟨text, h⟩
    exact (read_eq_ok_iff_check.mp h).2
  · intro h
    exact ⟨render atoms, read_render h⟩

/-- The place that reading comes to after atoms of which it refuses none. -/
inductive Reaches : List Atom → Place → Prop
  | start : Reaches [] .outside
  | next {before : List Atom} {place next : Place} {a : Atom} : Reaches before place →
      place.next before.length a = .ok next → Reaches (before ++ [a]) next

/-- Reading takes the atoms before and then refuses this one. -/
def Refuses (before : List Atom) (a : Atom) (e : ReadError) : Prop :=
  ∃ place, Reaches before place ∧ place.next before.length a = .error e

theorem Reaches.checkDefinitions_append {before : List Atom} {place : Place}
    (h : Reaches before place) (rest : List Atom) :
    checkDefinitions 0 .outside (before ++ rest) =
      checkDefinitions before.length place rest := by
  induction h generalizing rest with
  | start => rfl
  | @next before place next a _ hn ih =>
    rw [List.append_assoc, List.singleton_append, ih, checkDefinitions, hn, List.length_append]
    rfl

theorem Refuses.checkDefinitions_append {before : List Atom} {a : Atom} {e : ReadError}
    (h : Refuses before a e) (rest : List Atom) :
    checkDefinitions 0 .outside (before ++ a :: rest) = .error e := by
  obtain ⟨place, hr, hn⟩ := h
  rw [hr.checkDefinitions_append, checkDefinitions, hn]
  rfl

/-- Every atom is taken, or there is a first one that is refused. -/
theorem reaches_or_refuses (atoms : List Atom) :
    (∃ place, Reaches atoms place) ∨
      ∃ before a after e, atoms = before ++ a :: after ∧ Refuses before a e := by
  induction atoms using List.reverseRecOn with
  | nil => exact .inl ⟨.outside, .start⟩
  | append_singleton atoms a ih =>
    rcases ih with ⟨place, hr⟩ | ⟨before, b, after, e, rfl, hb⟩
    · cases hn : place.next atoms.length a with
      | ok next => exact .inl ⟨next, hr.next hn⟩
      | error e => exact .inr ⟨atoms, a, [], e, rfl, place, hr, hn⟩
    · exact .inr ⟨before, b, after ++ [a], e, by simp, hb⟩

/-- Atoms that end the definition at a place, if one is open there. -/
def Place.ending : Place → List Atom
  | .outside => []
  | .pattern _ true => [cursor, close]
  | .pattern _ false => [close]
  | .replacement _ => [close]

theorem Place.leads_ending (place : Place) : place.Leads place.ending := by
  have hc : Closed [close] := ⟨[], rfl, itemized_nil⟩
  match place with
  | .outside => exact itemized_nil
  | .pattern _ true => exact ⟨cursor, [close], rfl, by decide, [], _, by simp, .inl hc, rfl⟩
  | .pattern _ false => exact ⟨[], _, by simp, .inl hc, rfl⟩
  | .replacement _ => exact ⟨[], _, by simp, hc, rfl⟩

theorem Place.legal_ending (place : Place) : ∀ a ∈ place.ending, Legal a := by
  match place with
  | .outside => simp [ending]
  | .pattern _ true =>
    exact List.forall_mem_cons.mpr ⟨.cursor, List.forall_mem_singleton.mpr .close⟩
  | .pattern _ false => exact List.forall_mem_singleton.mpr .close
  | .replacement _ => exact List.forall_mem_singleton.mpr .close

theorem Reaches.viable {before : List Atom} {place : Place} (h : Reaches before place)
    (hl : ∀ b ∈ before, Legal b) : Viable before := by
  refine ⟨place.ending, accepted_iff.mpr ⟨?_, ?_⟩⟩
  · exact List.forall_mem_append.mpr ⟨hl, place.legal_ending⟩
  · rw [h.checkDefinitions_append]
    exact checkDefinitions_eq_ok_iff.mpr place.leads_ending

theorem Refuses.viable {before : List Atom} {a : Atom} {e : ReadError} (h : Refuses before a e)
    (hl : ∀ b ∈ before, Legal b) : Viable before := by
  obtain ⟨place, hr, -⟩ := h
  exact hr.viable hl

theorem Refuses.not_viable {before : List Atom} {a : Atom} {e : ReadError}
    (h : Refuses before a e) : ¬ Viable (before ++ [a]) := by
  rintro ⟨more, hm⟩
  have hd := (accepted_iff.mp hm).2
  rw [List.append_assoc, List.singleton_append, h.checkDefinitions_append] at hd
  cases hd

theorem Viable.of_append {before rest : List Atom} (h : Viable (before ++ rest)) :
    Viable before := by
  obtain ⟨more, hm⟩ := h
  exact ⟨rest ++ more, by rwa [← List.append_assoc]⟩

theorem Viable.legal {atoms : List Atom} (h : Viable atoms) : ∀ a ∈ atoms, Legal a := by
  obtain ⟨more, hm⟩ := h
  exact (List.forall_mem_append.mp (accepted_iff.mp hm).1).1

theorem Viable.exists_reaches {atoms : List Atom} (h : Viable atoms) :
    ∃ place, Reaches atoms place := by
  rcases reaches_or_refuses atoms with hr | ⟨before, a, after, e, rfl, hr⟩
  · exact hr
  · rw [← List.singleton_append, ← List.append_assoc] at h
    exact absurd h.of_append hr.not_viable

/-- The definition that starts at the position comes after a row of items and has not ended. -/
def OpenAt (atoms : List Atom) (opened : Nat) : Prop :=
  ∃ front inner, atoms = front ++ define :: inner ∧ front.length = opened ∧ Itemized front ∧
    define ∉ inner ∧ close ∉ inner

/-- What was read on the way to a place. -/
def Place.Comes : Place → List Atom → Prop
  | .outside, atoms => Itemized atoms
  | .pattern opened empty, atoms => ∃ front pattern, atoms = front ++ define :: pattern ∧
      front.length = opened ∧ Itemized front ∧ (∀ a ∈ pattern, IsPlain a) ∧
      (empty = true ↔ pattern = [])
  | .replacement opened, atoms => ∃ front pattern replacement,
      atoms = front ++ define :: (pattern ++ arrow :: replacement) ∧ front.length = opened ∧
      Itemized front ∧ pattern ≠ [] ∧ (∀ a ∈ pattern, IsPlain a) ∧ ∀ a ∈ replacement, IsPlain a

/-- What is wrong with an atom that reading refuses after others. -/
inductive Misplaced (before : List Atom) : Atom → ReadError → Prop
  | nested {opened : Nat} : OpenAt before opened →
      Misplaced before define (.nestedDefinition before.length opened)
  | strayArrow : Itemized before → Misplaced before arrow (.strayArrow before.length)
  | secondArrow {opened : Nat} : OpenAt before opened → arrow ∈ before.drop opened →
      Misplaced before arrow (.secondArrow before.length)
  | emptyPattern {opened : Nat} {a : Atom} : OpenAt before opened → before.length = opened + 1 →
      a = arrow ∨ a = close → Misplaced before a (.emptyPattern opened)
  | strayClose : Itemized before → Misplaced before close (.strayClose before.length)

theorem openAt_of_pattern {front pattern : List Atom} (hf : Itemized front)
    (hp : ∀ a ∈ pattern, IsPlain a) : OpenAt (front ++ define :: pattern) front.length :=
  ⟨front, pattern, rfl, rfl, hf, fun h => (hp _ h).1 rfl, fun h => (hp _ h).2.2 rfl⟩

theorem openAt_of_replacement {front pattern replacement : List Atom} (hf : Itemized front)
    (hp : ∀ a ∈ pattern, IsPlain a) (hr : ∀ a ∈ replacement, IsPlain a) :
    OpenAt (front ++ define :: (pattern ++ arrow :: replacement)) front.length := by
  have hd : define ∉ pattern ++ arrow :: replacement := by
    rw [List.mem_append, List.mem_cons]
    rintro (h | h | h)
    · exact (hp _ h).1 rfl
    · exact absurd h (by decide)
    · exact (hr _ h).1 rfl
  have hc : close ∉ pattern ++ arrow :: replacement := by
    rw [List.mem_append, List.mem_cons]
    rintro (h | h | h)
    · exact (hp _ h).2.2 rfl
    · exact absurd h (by decide)
    · exact (hr _ h).2.2 rfl
  exact ⟨front, _, rfl, rfl, hf, hd, hc⟩

/-- An atom is taken to the place that its row leads to, or it is misplaced. -/
def Judged (before : List Atom) (a : Atom) : Except ReadError Place → Prop
  | .ok next => next.Comes (before ++ [a])
  | .error e => Misplaced before a e

theorem Place.Comes.judged {place : Place} {before : List Atom} (h : place.Comes before)
    (a : Atom) : Judged before a (place.next before.length a) := by
  have had : arrow ≠ define := by decide
  have hcd : close ≠ define := by decide
  have hca : close ≠ arrow := by decide
  match place with
  | .outside =>
    rcases isPlain_or_eq a with ha | rfl | rfl | rfl
    · simp only [next, ha.1, ha.2.1, ha.2.2, if_false]
      exact Itemized.append h (itemized_of_plain (List.forall_mem_singleton.mpr ha))
    · simp only [next, if_true]
      exact ⟨before, [], rfl, rfl, h, by simp, by simp⟩
    · simp only [next, had, if_false, if_true]
      exact .strayArrow h
    · simp only [next, hcd, hca, if_false, if_true]
      exact .strayClose h
  | .pattern opened empty =>
    obtain ⟨front, pattern, rfl, rfl, hf, hp, he⟩ := h
    have hopen : OpenAt (front ++ define :: pattern) front.length := openAt_of_pattern hf hp
    rcases isPlain_or_eq a with ha | rfl | rfl | rfl
    · simp only [next, ha.1, ha.2.1, ha.2.2, if_false]
      refine ⟨front, pattern ++ [a], by simp, rfl, hf, ?_, by simp⟩
      exact List.forall_mem_append.mpr ⟨hp, List.forall_mem_singleton.mpr ha⟩
    · simp only [next, if_true]
      exact .nested hopen
    · simp only [next, had, if_false, if_true]
      cases empty with
      | true => exact .emptyPattern hopen (by simp [he.mp rfl]) (.inl rfl)
      | false =>
        have hn : pattern ≠ [] := fun hn => Bool.noConfusion (he.mpr hn)
        exact ⟨front, pattern, [], by simp, rfl, hf, hn, hp, by simp⟩
    · simp only [next, hcd, hca, if_false, if_true]
      cases empty with
      | true => exact .emptyPattern hopen (by simp [he.mp rfl]) (.inr rfl)
      | false =>
        have hn : pattern ≠ [] := fun hn => Bool.noConfusion (he.mpr hn)
        have hd : Itemized (define :: (pattern ++ [close])) := by
          simpa using (Item.definition (.erasing hn hp)).append itemized_nil
        simpa [Judged, Comes] using hf.append hd
  | .replacement opened =>
    obtain ⟨front, pattern, replacement, rfl, rfl, hf, hn, hp, hr⟩ := h
    have hopen := openAt_of_replacement hf hp hr
    rcases isPlain_or_eq a with ha | rfl | rfl | rfl
    · simp only [next, ha.1, ha.2.1, ha.2.2, if_false]
      refine ⟨front, pattern, replacement ++ [a], by simp, rfl, hf, hn, hp, ?_⟩
      exact List.forall_mem_append.mpr ⟨hr, List.forall_mem_singleton.mpr ha⟩
    · simp only [next, if_true]
      exact .nested hopen
    · simp only [next, had, if_false, if_true]
      exact .secondArrow hopen (by simp)
    · simp only [next, hcd, hca, if_false, if_true]
      have hd : Itemized (define :: (pattern ++ arrow :: (replacement ++ [close]))) := by
        simpa using (Item.definition (.replacing hn hp hr)).append itemized_nil
      simpa [Judged, Comes] using hf.append hd

theorem Reaches.comes {before : List Atom} {place : Place} (h : Reaches before place) :
    place.Comes before := by
  induction h with
  | start => exact itemized_nil
  | @next before place next a _ hn ih =>
    have hj := ih.judged a
    rwa [hn] at hj

theorem Refuses.misplaced {before : List Atom} {a : Atom} {e : ReadError}
    (h : Refuses before a e) : Misplaced before a e := by
  obtain ⟨place, hr, hn⟩ := h
  have hj := hr.comes.judged a
  rwa [hn] at hj

/-- Only an end inside a definition is no end of a program. -/
theorem Place.Comes.openAt {place : Place} {atoms : List Atom} {e : ReadError}
    (h : place.Comes atoms) (he : place.finish = .error e) :
    ∃ opened, e = .unterminated opened ∧ OpenAt atoms opened := by
  match place with
  | .outside => cases he
  | .pattern opened _ =>
    cases he
    obtain ⟨front, pattern, rfl, rfl, hf, hp, -⟩ := h
    exact ⟨_, rfl, openAt_of_pattern hf hp⟩
  | .replacement opened =>
    cases he
    obtain ⟨front, pattern, replacement, rfl, rfl, hf, -, hp, hr⟩ := h
    exact ⟨_, rfl, openAt_of_replacement hf hp hr⟩

theorem checkDefinitions_eq_error_iff {atoms : List Atom} {e : ReadError} :
    checkDefinitions 0 .outside atoms = .error e ↔
      (∃ before a after, atoms = before ++ a :: after ∧ Refuses before a e) ∨
        ∃ place, Reaches atoms place ∧ place.finish = .error e := by
  constructor
  · intro h
    rcases reaches_or_refuses atoms with ⟨place, hr⟩ | ⟨before, a, after, e', rfl, hr⟩
    · have hd := hr.checkDefinitions_append []
      rw [List.append_nil, h] at hd
      exact .inr ⟨place, hr, hd.symm⟩
    · rw [hr.checkDefinitions_append] at h
      cases h
      exact .inl ⟨before, a, after, rfl, hr⟩
  · rintro (⟨before, a, after, rfl, hr⟩ | ⟨place, hr, he⟩)
    · exact hr.checkDefinitions_append after
    · have hd := hr.checkDefinitions_append []
      rw [List.append_nil] at hd
      exact hd.trans he

/-- A text is unterminated if every atom of it was taken and it is no program all the same. -/
theorem exists_unterminated_iff {text : String} :
    (∃ opened, read text = .error (.unterminated opened)) ↔
      Viable (split text) ∧ ¬ Accepted (split text) := by
  constructor
  · rintro ⟨opened, h⟩
    have hl : ∀ a ∈ split text, Legal a := by
      by_contra hn
      have hi : ∃ a ∈ split text, ¬ Legal a := by simpa using hn
      obtain ⟨before, a, after, e, -, -, hb, he⟩ := exists_blames hi
      cases h.symm.trans he
      cases hb
    have hd := (read_eq_error_iff_of_legal hl).mp h
    refine ⟨?_, ?_⟩
    · rcases checkDefinitions_eq_error_iff.mp hd with ⟨before, a, after, -, hr⟩ | ⟨place, hr, -⟩
      · cases hr.misplaced
      · exact hr.viable hl
    · intro ha
      rw [(accepted_iff.mp ha).2] at hd
      cases hd
  · rintro ⟨hv, ha⟩
    obtain ⟨place, hr⟩ := hv.exists_reaches
    have hd := hr.checkDefinitions_append []
    rw [List.append_nil] at hd
    cases hf : place.finish with
    | ok u => exact absurd (accepted_iff.mpr ⟨hv.legal, hd.trans hf⟩) ha
    | error e =>
      obtain ⟨opened, rfl, -⟩ := hr.comes.openAt hf
      exact ⟨opened, (read_eq_error_iff_of_legal hv.legal).mpr (hd.trans hf)⟩

/-- What is told of a text that is no program. -/
structure TellsFirstFault (text : String) : Prop where
  /-- The leftmost illegal atom, whatever the definitions look like. -/
  illegal : (∃ a ∈ split text, ¬ Legal a) → ∃ before a after e,
    split text = before ++ a :: after ∧ (∀ b ∈ before, Legal b) ∧ Blames before.length a e ∧
      read text = .error e
  /-- An atom that is refused after others is the first that spoils all programs. -/
  refused : (∀ a ∈ split text, Legal a) → ∀ before a after e,
    split text = before ++ a :: after → Refuses before a e →
      read text = .error e ∧ Viable before ∧ ¬ Viable (before ++ [a]) ∧ Misplaced before a e
  /-- The first atom that spoils all programs is refused. -/
  spoiled : (∀ a ∈ split text, Legal a) → ∀ before a after,
    split text = before ++ a :: after → Viable before → ¬ Viable (before ++ [a]) →
      ∃ e, Refuses before a e
  unterminated : (∃ opened, read text = .error (.unterminated opened)) ↔
    (∀ before, before <+: split text → Viable before) ∧ ¬ Accepted (split text)
  /-- The definition that lacks its end is the one that is open there. -/
  opened : ∀ opened, read text = .error (.unterminated opened) → OpenAt (split text) opened
  /-- Nothing else is ever told. -/
  told : (∀ a ∈ split text, Legal a) → ∀ e, read text = .error e →
    (∃ before a after, split text = before ++ a :: after ∧ Refuses before a e) ∨
      ∃ opened, e = .unterminated opened

/-- Reading tells the first thing that makes a text hopeless. -/
theorem refusal_tells_first_fault (text : String) : TellsFirstFault text where
  illegal := exists_blames
  refused := by
    intro hl before a after e hs hr
    have hd := hr.checkDefinitions_append after
    rw [← hs] at hd
    have hb : ∀ b ∈ before, Legal b := by
      intro b hb
      exact hl b (by simp [hs, hb])
    exact ⟨(read_eq_error_iff_of_legal hl).mpr hd, hr.viable hb, hr.not_viable, hr.misplaced⟩
  spoiled := by
    intro hl before a after hs hv hn
    obtain ⟨place, hr⟩ := hv.exists_reaches
    cases hnext : place.next before.length a with
    | error e => exact ⟨e, place, hr, hnext⟩
    | ok next =>
      refine absurd ((hr.next hnext).viable ?_) hn
      intro b hb
      refine hl b ?_
      rw [hs, ← List.singleton_append, ← List.append_assoc]
      exact List.mem_append_left after hb
  unterminated := by
    rw [exists_unterminated_iff]
    refine and_congr_left' ⟨?_, fun h => h _ List.prefix_rfl⟩
    rintro hv before ⟨rest, hs⟩
    rw [← hs] at hv
    exact hv.of_append
  opened := by
    intro opened h
    have hv := (exists_unterminated_iff.mp ⟨opened, h⟩).1
    have hd := (read_eq_error_iff_of_legal hv.legal).mp h
    rcases checkDefinitions_eq_error_iff.mp hd with ⟨before, a, after, -, hr⟩ | ⟨place, hr, hf⟩
    · cases hr.misplaced
    · obtain ⟨other, he, ho⟩ := hr.comes.openAt hf
      cases he
      exact ho
  told := by
    intro hl e h
    have hd := (read_eq_error_iff_of_legal hl).mp h
    rcases checkDefinitions_eq_error_iff.mp hd with hr | ⟨place, hr, hf⟩
    · exact .inl hr
    · obtain ⟨opened, he, -⟩ := hr.comes.openAt hf
      exact .inr ⟨opened, he⟩

/-- The illegal atom is told, though the definition went wrong before it. -/
example : read ": -> 7up ;" = .error (.malformed "7up" 2) := by
  decide +kernel

end Wanda.Program

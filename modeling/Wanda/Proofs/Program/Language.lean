import Wanda.Interpreter.Stages
import Wanda.Proofs.Program.Legal

/-!
The language of programs. A program is a row of items, each of them a plain atom or the definition
of a rule, and reading accepts exactly the texts that spell one.
-/
namespace Wanda.Program
open Atom Text

/-- An atom that has no part in writing definitions. -/
def IsPlain (a : Atom) : Prop :=
  a ≠ define ∧ a ≠ arrow ∧ a ≠ close

instance (a : Atom) : Decidable (IsPlain a) :=
  inferInstanceAs (Decidable (_ ∧ _))

inductive Definition : List Atom → Prop
  | erasing {pattern : List Atom} : pattern ≠ [] → (∀ a ∈ pattern, IsPlain a) →
      Definition (define :: (pattern ++ [close]))
  | replacing {pattern replacement : List Atom} : pattern ≠ [] → (∀ a ∈ pattern, IsPlain a) →
      (∀ a ∈ replacement, IsPlain a) →
      Definition (define :: (pattern ++ arrow :: (replacement ++ [close])))

inductive Item : List Atom → Prop
  | plain {a : Atom} : IsPlain a → Item [a]
  | definition {atoms : List Atom} : Definition atoms → Item atoms

/-- A row of items. -/
def Itemized (atoms : List Atom) : Prop :=
  ∃ items : List (List Atom), (∀ item ∈ items, Item item) ∧ atoms = items.flatten

/-- The text is cut into these atoms, each of them is legal, and they are a row of items. -/
structure Spells (text : String) (atoms : List Atom) : Prop where
  runs : Runs text.toList (atoms.map String.toList)
  legal : ∀ a ∈ atoms, Legal a
  items : Itemized atoms

theorem itemized_nil : Itemized [] :=
  ⟨[], by simp, rfl⟩

theorem Item.append {item rest : List Atom} (hi : Item item) (hr : Itemized rest) :
    Itemized (item ++ rest) := by
  obtain ⟨items, hitems, rfl⟩ := hr
  exact ⟨item :: items, List.forall_mem_cons.mpr ⟨hi, hitems⟩, rfl⟩

theorem Itemized.append {a b : List Atom} (ha : Itemized a) (hb : Itemized b) :
    Itemized (a ++ b) := by
  obtain ⟨items, hi, rfl⟩ := ha
  obtain ⟨items', hi', rfl⟩ := hb
  exact ⟨items ++ items', List.forall_mem_append.mpr ⟨hi, hi'⟩, List.flatten_append.symm⟩

theorem itemized_of_plain {atoms : List Atom} (h : ∀ a ∈ atoms, IsPlain a) : Itemized atoms := by
  induction atoms with
  | nil => exact itemized_nil
  | cons a rest ih =>
    rw [List.forall_mem_cons] at h
    exact (Item.plain h.1).append (ih h.2)

/-- Plain atoms, and then a row of some kind. -/
def AfterPlain (kind : List Atom → Prop) (atoms : List Atom) : Prop :=
  ∃ row tail, (∀ a ∈ row, IsPlain a) ∧ kind tail ∧ atoms = row ++ tail

/-- The end of a definition, and a row of items. -/
def Closed (atoms : List Atom) : Prop :=
  ∃ rest, atoms = close :: rest ∧ Itemized rest

/-- What follows a pattern: the end of the definition, or a replacement before it. -/
def Replaced (atoms : List Atom) : Prop :=
  Closed atoms ∨ ∃ rest, atoms = arrow :: rest ∧ AfterPlain Closed rest

/-- The atoms that lead from a place to the end of a program. -/
def Place.Leads : Place → List Atom → Prop
  | .outside, atoms => Itemized atoms
  | .pattern _ true, atoms => ∃ a rest, atoms = a :: rest ∧ IsPlain a ∧ AfterPlain Replaced rest
  | .pattern _ false, atoms => AfterPlain Replaced atoms
  | .replacement _, atoms => AfterPlain Closed atoms

theorem afterPlain_cons_iff {kind : List Atom → Prop} {a : Atom} {rest : List Atom} :
    AfterPlain kind (a :: rest) ↔ kind (a :: rest) ∨ IsPlain a ∧ AfterPlain kind rest := by
  constructor
  · intro h
    obtain ⟨row, tail, hr, hk, he⟩ := h
    cases row with
    | nil => exact .inl (he ▸ hk)
    | cons b row =>
      cases he
      rw [List.forall_mem_cons] at hr
      exact .inr ⟨hr.1, row, tail, hr.2, hk, rfl⟩
  · intro h
    rcases h with hk | ⟨ha, row, tail, hr, hk, rfl⟩
    · exact ⟨[], a :: rest, by simp, hk, rfl⟩
    · exact ⟨a :: row, tail, List.forall_mem_cons.mpr ⟨ha, hr⟩, hk, rfl⟩

theorem not_afterPlain_nil {kind : List Atom → Prop} (h : ¬ kind []) : ¬ AfterPlain kind [] := by
  intro ha
  obtain ⟨row, tail, -, hk, he⟩ := ha
  rw [(List.append_eq_nil_iff.mp he.symm).2] at hk
  exact h hk

theorem closed_cons_iff {a : Atom} {rest : List Atom} :
    Closed (a :: rest) ↔ a = close ∧ Itemized rest := by
  simp [Closed]

theorem replaced_cons_iff {a : Atom} {rest : List Atom} :
    Replaced (a :: rest) ↔ a = close ∧ Itemized rest ∨ a = arrow ∧ AfterPlain Closed rest := by
  simp [Replaced, Closed]

theorem Definition.exists_leads {d : List Atom} (h : Definition d) {tail : List Atom}
    (ht : Itemized tail) (opened : Nat) :
    ∃ rest, d ++ tail = define :: rest ∧ (Place.pattern opened true).Leads rest := by
  cases h with
  | @erasing pattern hn hp =>
    obtain ⟨a, row, rfl⟩ := List.exists_cons_of_ne_nil hn
    rw [List.forall_mem_cons] at hp
    exact ⟨_, rfl, a, row ++ close :: tail, by simp, hp.1, row, _, hp.2, .inl ⟨tail, rfl, ht⟩, rfl⟩
  | @replacing pattern replacement hn hp hr =>
    obtain ⟨a, row, rfl⟩ := List.exists_cons_of_ne_nil hn
    rw [List.forall_mem_cons] at hp
    exact ⟨_, rfl, a, row ++ arrow :: (replacement ++ close :: tail), by simp, hp.1, row, _, hp.2,
      .inr ⟨_, rfl, replacement, _, hr, ⟨tail, rfl, ht⟩, rfl⟩, rfl⟩

theorem itemized_of_leads {opened : Nat} {rest : List Atom}
    (h : (Place.pattern opened true).Leads rest) : Itemized (define :: rest) := by
  obtain ⟨a, _, rfl, ha, row, _, hrow, ⟨tail, rfl, ht⟩ |
    ⟨_, rfl, replacement, _, hr, ⟨tail, rfl, ht⟩, rfl⟩, rfl⟩ := h
  · have hd := Definition.erasing (List.cons_ne_nil a row) (List.forall_mem_cons.mpr ⟨ha, hrow⟩)
    simpa using (Item.definition hd).append ht
  · have hd := Definition.replacing (List.cons_ne_nil a row)
      (List.forall_mem_cons.mpr ⟨ha, hrow⟩) hr
    simpa using (Item.definition hd).append ht

theorem itemized_cons_iff (opened : Nat) {a : Atom} {rest : List Atom} :
    Itemized (a :: rest) ↔
      IsPlain a ∧ Itemized rest ∨ a = define ∧ (Place.pattern opened true).Leads rest := by
  constructor
  · intro h
    obtain ⟨items, hitems, he⟩ := h
    cases items with
    | nil => cases he
    | cons item items =>
      rw [List.forall_mem_cons] at hitems
      have ht : Itemized items.flatten := ⟨items, hitems.2, rfl⟩
      cases hitems.1 with
      | plain ha =>
        cases he
        exact .inl ⟨ha, ht⟩
      | definition hd =>
        obtain ⟨r, hr, hl⟩ := hd.exists_leads ht opened
        cases he.trans hr
        exact .inr ⟨rfl, hl⟩
  · intro h
    rcases h with ⟨ha, hr⟩ | ⟨rfl, hl⟩
    · exact (Item.plain ha).append hr
    · exact itemized_of_leads hl

theorem Place.leads_nil_iff {place : Place} : place.Leads [] ↔ place.finish = .ok () := by
  have hc : ¬ Closed [] := by simp [Closed]
  have hr : ¬ Replaced [] := by simp [Replaced, Closed]
  match place with
  | .outside => exact iff_of_true itemized_nil rfl
  | .pattern _ true => simp [Leads, finish]
  | .pattern _ false => simpa [Leads, finish] using not_afterPlain_nil hr
  | .replacement _ => simpa [Leads, finish] using not_afterPlain_nil hc

theorem isPlain_or_eq (a : Atom) : IsPlain a ∨ a = define ∨ a = arrow ∨ a = close := by
  unfold IsPlain
  tauto

theorem not_isPlain_define : ¬ IsPlain define := by decide

theorem not_isPlain_arrow : ¬ IsPlain arrow := by decide

theorem not_isPlain_close : ¬ IsPlain close := by decide

/-- An atom leads on to the place after it. -/
theorem Place.leads_cons_iff {place : Place} {position : Nat} {a : Atom} {rest : List Atom} :
    place.Leads (a :: rest) ↔ ∃ next, place.next position a = .ok next ∧ next.Leads rest := by
  have had : arrow ≠ define := by decide
  have hcd : close ≠ define := by decide
  have hca : close ≠ arrow := by decide
  match place with
  | .outside =>
    rw [Leads, itemized_cons_iff position]
    rcases isPlain_or_eq a with ha | rfl | rfl | rfl
    · simp [next, ha, ha.1, ha.2.1, ha.2.2, Leads]
    · simp [next, not_isPlain_define]
    · simp [next, not_isPlain_arrow, had]
    · simp [next, not_isPlain_close, hcd, hca]
  | .pattern opened true =>
    rcases isPlain_or_eq a with ha | rfl | rfl | rfl
    · simp [next, ha, ha.1, ha.2.1, ha.2.2, Leads]
    · simp [next, not_isPlain_define, Leads]
    · simp [next, not_isPlain_arrow, had, Leads]
    · simp [next, not_isPlain_close, hcd, hca, Leads]
  | .pattern opened false =>
    rw [Leads, afterPlain_cons_iff, replaced_cons_iff]
    rcases isPlain_or_eq a with ha | rfl | rfl | rfl
    · simp [next, ha, ha.1, ha.2.1, ha.2.2, Leads]
    · simp [next, not_isPlain_define, had.symm, hcd.symm]
    · simp [next, not_isPlain_arrow, had, hca.symm, Leads]
    · simp [next, not_isPlain_close, hcd, hca, Leads]
  | .replacement opened =>
    rw [Leads, afterPlain_cons_iff, closed_cons_iff]
    rcases isPlain_or_eq a with ha | rfl | rfl | rfl
    · simp [next, ha, ha.1, ha.2.1, ha.2.2, Leads]
    · simp [next, not_isPlain_define, hcd.symm]
    · simp [next, not_isPlain_arrow, had, hca.symm]
    · simp [next, not_isPlain_close, hcd, hca, Leads]

theorem checkDefinitions_eq_ok_iff {position : Nat} {place : Place} {atoms : List Atom} :
    checkDefinitions position place atoms = .ok () ↔ place.Leads atoms := by
  induction atoms generalizing position place with
  | nil => exact Place.leads_nil_iff.symm
  | cons a rest ih =>
    have hl := @Place.leads_cons_iff place position a rest
    rw [checkDefinitions, hl]
    cases place.next position a with
    | error e => simp [bind, Except.bind]
    | ok next => simpa [bind, Except.bind] using ih

theorem check_eq_ok_iff {atoms : List Atom} :
    check atoms = .ok () ↔ (∀ a ∈ atoms, Legal a) ∧ Itemized atoms := by
  have ha := @checkAtoms_eq_ok_iff 0 atoms
  have hd : checkDefinitions 0 .outside atoms = .ok () ↔ Itemized atoms :=
    checkDefinitions_eq_ok_iff
  rw [← ha, ← hd, check]
  cases checkAtoms 0 atoms with
  | error e => simp [bind, Except.bind]
  | ok u => simp [bind, Except.bind]

theorem read_eq_map_check (text : String) :
    read text = (check (split text)).map fun _ => split text := by
  simp only [read]
  cases check (split text) with
  | error e => rfl
  | ok u => rfl

theorem read_eq_ok_iff_check {text : String} {atoms : List Atom} :
    read text = .ok atoms ↔ split text = atoms ∧ check atoms = .ok () := by
  rw [read_eq_map_check]
  constructor
  · intro h
    cases hc : check (split text) with
    | error e => simp [hc, Except.map] at h
    | ok u =>
      obtain rfl : split text = atoms := by simpa [hc, Except.map] using h
      exact ⟨rfl, hc⟩
  · intro h
    obtain ⟨rfl, hc⟩ := h
    rw [hc]
    rfl

theorem split_eq_iff {text : String} {atoms : List Atom} :
    split text = atoms ↔ Runs text.toList (atoms.map String.toList) := by
  rw [runs_iff, split]
  constructor
  · intro h
    simp [← h]
  · intro h
    simp [h]

theorem read_eq_ok_iff {text : String} {atoms : List Atom} :
    read text = .ok atoms ↔ Spells text atoms := by
  rw [read_eq_ok_iff_check, split_eq_iff, check_eq_ok_iff]
  exact ⟨fun h => ⟨h.1, h.2.1, h.2.2⟩, fun h => ⟨h.runs, h.legal, h.items⟩⟩

theorem exists_error_iff {text : String} :
    (¬ ∃ atoms, read text = .ok atoms) ↔ ∃ e, read text = .error e := by
  cases read text <;> simp

theorem afterPlain_append_iff {kind : List Atom → Prop}
    (hk : ∀ a rest, IsPlain a → ¬ kind (a :: rest)) {row tail : List Atom}
    (hr : ∀ a ∈ row, IsPlain a) : AfterPlain kind (row ++ tail) ↔ AfterPlain kind tail := by
  induction row with
  | nil => rfl
  | cons a row ih =>
    rw [List.forall_mem_cons] at hr
    rw [List.cons_append, afterPlain_cons_iff, ih hr.2]
    simp [hk a _ hr.1, hr.1]

theorem not_closed_of_isPlain (a : Atom) (rest : List Atom) (h : IsPlain a) :
    ¬ Closed (a :: rest) := by
  rw [closed_cons_iff]
  exact fun hc => h.2.2 hc.1

theorem not_replaced_of_isPlain (a : Atom) (rest : List Atom) (h : IsPlain a) :
    ¬ Replaced (a :: rest) := by
  rw [replaced_cons_iff]
  rintro (hc | ha)
  · exact h.2.2 hc.1
  · exact h.2.1 ha.1

theorem afterPlain_iff_of_not_isPlain {kind : List Atom → Prop} {a : Atom} {rest : List Atom}
    (h : ¬ IsPlain a) : AfterPlain kind (a :: rest) ↔ kind (a :: rest) := by
  rw [afterPlain_cons_iff]
  simp [h]

theorem itemized_define_iff {pattern tail : List Atom} (hn : pattern ≠ [])
    (hp : ∀ a ∈ pattern, IsPlain a) :
    Itemized (define :: (pattern ++ tail)) ↔ AfterPlain Replaced tail := by
  obtain ⟨a, row, rfl⟩ := List.exists_cons_of_ne_nil hn
  rw [List.forall_mem_cons] at hp
  rw [itemized_cons_iff 0]
  simp [not_isPlain_define, Place.Leads, hp.1, afterPlain_append_iff not_replaced_of_isPlain hp.2]

theorem Definition.itemized_of_append {d rest : List Atom} (h : Definition d)
    (hi : Itemized (d ++ rest)) : Itemized rest := by
  have hca : close ≠ arrow := by decide
  cases h with
  | @erasing pattern hn hp =>
    rw [List.cons_append, List.append_assoc, itemized_define_iff hn hp, List.singleton_append,
      afterPlain_iff_of_not_isPlain not_isPlain_close, replaced_cons_iff] at hi
    simpa [hca] using hi
  | @replacing pattern replacement hn hp hr =>
    rw [List.cons_append, List.append_assoc, itemized_define_iff hn hp, List.cons_append,
      afterPlain_iff_of_not_isPlain not_isPlain_arrow, replaced_cons_iff, List.append_assoc,
      afterPlain_append_iff not_closed_of_isPlain hr, List.singleton_append,
      afterPlain_iff_of_not_isPlain not_isPlain_close, closed_cons_iff] at hi
    simpa [hca.symm] using hi

theorem itemized_of_definitions {definitions : List (List Atom)} {rest : List Atom}
    (hd : ∀ d ∈ definitions, Definition d) (hi : Itemized (definitions.flatten ++ rest)) :
    Itemized rest := by
  induction definitions with
  | nil => exact hi
  | cons d definitions ih =>
    rw [List.forall_mem_cons] at hd
    rw [List.flatten_cons, List.append_assoc] at hi
    exact ih hd.2 (hd.1.itemized_of_append hi)

theorem Itemized.isPlain {atoms : List Atom} (h : Itemized atoms) (hd : define ∉ atoms) :
    ∀ a ∈ atoms, IsPlain a := by
  induction atoms with
  | nil => simp
  | cons a rest ih =>
    rw [List.mem_cons, not_or] at hd
    rcases (itemized_cons_iff 0).mp h with ⟨ha, hr⟩ | ⟨ha, -⟩
    · exact List.forall_mem_cons.mpr ⟨ha, ih hr hd.2⟩
    · exact absurd ha.symm hd.1

theorem toList_render_cons (a b : Atom) (rest : List Atom) :
    (render (a :: b :: rest)).toList = a.toList ++ ' ' :: (render (b :: rest)).toList := by
  simp [render, String.intercalate_cons_cons]

theorem words_of_legal {a : Atom} (h : Legal a) : words a.toList = [a.toList] := by
  have hr : ∀ c ∈ a.toList, isBlank c = false := by
    intro c hc
    exact (h.isGraphic c hc).isBlank_eq_false
  exact words_of_run h.toList_ne_nil hr

/-- Atoms are cut out again of the text that they are written as. -/
theorem split_render {atoms : List Atom} (h : ∀ a ∈ atoms, Legal a) :
    split (render atoms) = atoms := by
  rw [split_eq_iff, runs_iff]
  induction atoms with
  | nil => exact words_of_blank (by simp [render])
  | cons a rest ih =>
    rw [List.forall_mem_cons] at h
    cases rest with
    | nil => simpa [render] using words_of_legal h.1
    | cons b rest =>
      rw [toList_render_cons, words_append_blank (by decide), words_of_legal h.1, ih h.2]
      rfl

theorem read_render {atoms : List Atom} (h : check atoms = .ok ()) :
    read (render atoms) = .ok atoms :=
  read_eq_ok_iff_check.mpr ⟨split_render (check_eq_ok_iff.mp h).1, h⟩

/-- The error is about a definition and not about an atom. -/
def ReadError.IsStructural : ReadError → Prop
  | .malformed _ _ | .outOfRange _ _ => False
  | _ => True

theorem Place.isStructural_of_finish {place : Place} {e : ReadError}
    (h : place.finish = .error e) : e.IsStructural := by
  cases place with
  | outside => cases h
  | pattern => cases h; trivial
  | replacement => cases h; trivial

theorem Place.isStructural_of_next {place : Place} {position : Nat} {a : Atom} {e : ReadError}
    (h : place.next position a = .error e) : e.IsStructural := by
  cases place with
  | outside =>
    simp only [next] at h
    split_ifs at h <;> cases h <;> trivial
  | pattern opened empty =>
    simp only [next] at h
    split_ifs at h <;> cases h <;> trivial
  | replacement opened =>
    simp only [next] at h
    split_ifs at h <;> cases h <;> trivial

theorem isStructural_of_checkDefinitions {position : Nat} {place : Place} {atoms : List Atom}
    {e : ReadError} (h : checkDefinitions position place atoms = .error e) : e.IsStructural := by
  induction atoms generalizing position place with
  | nil => exact place.isStructural_of_finish h
  | cons a rest ih =>
    rw [checkDefinitions] at h
    cases hn : place.next position a with
    | error e' =>
      rw [hn] at h
      cases h
      exact place.isStructural_of_next hn
    | ok next =>
      rw [hn] at h
      exact ih h

/-- Where all atoms are legal, reading fails as the check of the definitions does. -/
theorem read_eq_error_iff_of_legal {text : String} {e : ReadError}
    (hl : ∀ a ∈ split text, Legal a) :
    read text = .error e ↔ checkDefinitions 0 .outside (split text) = .error e := by
  have ha : checkAtoms 0 (split text) = .ok () := checkAtoms_eq_ok_iff.mpr hl
  rw [read_eq_map_check, check, ha]
  cases checkDefinitions 0 .outside (split text) with
  | error e' => simp [bind, Except.bind, Except.map]
  | ok u => simp [bind, Except.bind, Except.map]

/-- A text whose atoms are all legal can fail to be a program only by its definitions. -/
theorem isStructural_of_read {text : String} {e : ReadError}
    (hl : ∀ a ∈ split text, Legal a) (h : read text = .error e) : e.IsStructural :=
  isStructural_of_checkDefinitions ((read_eq_error_iff_of_legal hl).mp h)

/-- Reading accepts a text as the program it spells, and refuses every text that spells none. -/
theorem reading_eq_language {κ : Type} (text : String) :
    (∀ atoms, read text = .ok atoms ↔ Spells text atoms) ∧
      ((¬ ∃ atoms, Spells text atoms) ↔ ∃ e, read text = .error e ∧
        Stages.parse [(.str text : Value κ)] = .fail ⟨.stage (.parse e.message), []⟩) := by
  refine ⟨fun atoms => read_eq_ok_iff, ?_⟩
  simp only [← read_eq_ok_iff, exists_error_iff]
  constructor
  · intro h
    obtain ⟨e, he⟩ := h
    exact ⟨e, he, by simp only [Stages.parse, he]⟩
  · intro h
    obtain ⟨e, he, -⟩ := h
    exact ⟨e, he⟩

end Wanda.Program

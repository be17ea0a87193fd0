import Wanda.Selection
import Wanda.Proofs.Latest
import Mathlib.Data.List.Induction

/-!
Requests to a selection over any examples: to register observers and to choose by label. The current
example is the first with the label that was last found, and every choice is told to the observers
that were registered by then, in their order.
-/
namespace Wanda

/-- The example stands at the index, and none before it has its label. -/
structure Example.FirstAt (examples : List Example) (k : Nat) (e : Example) : Prop where
  here : examples[k]? = some e
  first : ∀ j < k, ∀ f, examples[j]? = some f → f.label ≠ e.label

theorem Example.FirstAt.lt {examples : List Example} {k : Nat} {e : Example}
    (h : FirstAt examples k e) : k < examples.length :=
  (List.getElem?_eq_some_iff.mp h.here).1

theorem Example.find?_eq_some_iff {examples : List Example} {label : String} {e : Example} :
    find? examples label = some e ↔ e.label = label ∧ ∃ k, FirstAt examples k e := by
  rw [find?, List.find?_eq_some_iff_getElem, decide_eq_true_iff]
  refine and_congr_right fun hl => ⟨?_, ?_⟩
  · rintro ⟨k, hk, he, hf⟩
    refine ⟨k, List.getElem?_eq_some_iff.mpr ⟨hk, he⟩, ?_⟩
    intro j hj f hfj
    obtain ⟨_, rfl⟩ := List.getElem?_eq_some_iff.mp hfj
    simpa [hl] using hf j hj
  · rintro ⟨k, h⟩
    obtain ⟨hk, he⟩ := List.getElem?_eq_some_iff.mp h.here
    refine ⟨k, hk, he, ?_⟩
    intro j hj
    have hjl : j < examples.length := Nat.lt_trans hj hk
    simpa [hl] using h.first j hj examples[j] (List.getElem?_eq_getElem hjl)

namespace Selection

variable {ω : Type}

inductive Request (ω : Type) where
  | observe (o : ω)
  | select (label : String)

inductive Reply (ω : Type) where
  | registered
  /-- Whether the label was found, and which observers were told of which example. -/
  | answered (found : Bool) (told : List (ω × Example))

def Reply.told : Reply ω → List (ω × Example)
  | .registered => []
  | .answered _ told => told

def respond (s : Selection ω) : Request ω → Selection ω × Reply ω
  | .observe o => (s.observe o, .registered)
  | .select label =>
    match s.select? label with
    | some (next, told) => (next, .answered true told)
    | none => (s, .answered false [])

/-- The selection after requests, and the replies, from the start with nothing selected. -/
def run (examples : List Example) (requests : List (Request ω)) : Selection ω × List (Reply ω) :=
  requests.foldl (fun (s, replies) r => ((s.respond r).1, replies ++ [(s.respond r).2]))
    ({ examples }, [])

/-- The request chooses the example at the index. -/
inductive Request.Chooses (examples : List Example) : Request ω → Nat → Example → Prop
  | select {k : Nat} {e : Example} : Example.FirstAt examples k e →
      Chooses examples (.select e.label) k e

/-- What a request leaves as the choice: an example with its index. -/
def Request.Leaves (examples : List Example) (r : Request ω) (choice : Option (Nat × Example)) :
    Prop :=
  ∃ k e, choice = some (k, e) ∧ r.Chooses examples k e

def Request.observer? : Request ω → Option ω
  | .observe o => some o
  | .select _ => none

/-- The observers that requests register, in their order. -/
def registered (requests : List (Request ω)) : List ω :=
  requests.filterMap Request.observer?

/-- What observers are told by requests: of each choice, the observers registered before it. -/
inductive Tells (examples : List Example) : List (Request ω) → List (ω × Example) → Prop
  | nil : Tells examples [] []
  | chosen {before : List (Request ω)} {told : List (ω × Example)} {r : Request ω} {k : Nat}
      {e : Example} : Tells examples before told → r.Chooses examples k e →
      Tells examples (before ++ [r]) (told ++ (registered before).map (·, e))
  | silent {before : List (Request ω)} {told : List (ω × Example)} {r : Request ω} :
      Tells examples before told → (∀ k e, ¬ r.Chooses examples k e) →
      Tells examples (before ++ [r]) told

/-- What a selection has come to by requests. -/
structure Follows (examples : List Example) (requests : List (Request ω)) (s : Selection ω)
    (replies : List (Reply ω)) : Prop where
  examples_eq : s.examples = examples
  observers : s.observers = registered requests
  /-- The last request that chose an example left it, and before any did there is none. -/
  choice : ∃ choice after, Latest (Request.Leaves examples) none requests choice after ∧
    s.chosen = choice.map (·.1) ∧ s.current = choice.map (·.2)
  /-- All that observers were told, in order. -/
  told : Tells examples requests (replies.flatMap Reply.told)

theorem run_append_singleton (examples : List Example) (requests : List (Request ω))
    (r : Request ω) : run examples (requests ++ [r]) =
      (((run examples requests).1.respond r).1,
        (run examples requests).2 ++ [((run examples requests).1.respond r).2]) := by
  rw [run, List.foldl_append, List.foldl_cons, List.foldl_nil]
  rfl

theorem select?_cases (s : Selection ω) (label : String) :
    (∃ k e, e.label = label ∧ Example.FirstAt s.examples k e ∧
      s.select? label = some ({ s with chosen := some k }, s.observers.map (·, e))) ∨
    (∀ e ∈ s.examples, e.label ≠ label) ∧ s.select? label = none := by
  rw [select?]
  cases hf : s.examples.findFinIdx? (·.label = label) with
  | none =>
    rw [List.findFinIdx?_eq_none_iff] at hf
    exact .inr ⟨fun e he => by simpa using hf e he, rfl⟩
  | some i =>
    obtain ⟨hl, hf⟩ := List.findFinIdx?_eq_some_iff.mp hf
    have hl : s.examples[i].label = label := by simpa using hl
    refine .inl ⟨i, s.examples[i], hl, ⟨List.getElem?_eq_getElem i.isLt, ?_⟩, rfl⟩
    intro j hj f hfj
    obtain ⟨hjl, rfl⟩ := List.getElem?_eq_some_iff.mp hfj
    rw [hl]
    simpa using hf ⟨j, hjl⟩ hj

theorem respond_select_of_some {s next : Selection ω} {label : String}
    {told : List (ω × Example)} (h : s.select? label = some (next, told)) :
    s.respond (.select label) = (next, .answered true told) := by
  simp [respond, h]

theorem respond_select_of_none {s : Selection ω} {label : String} (h : s.select? label = none) :
    s.respond (.select label) = (s, .answered false []) := by
  simp [respond, h]

namespace Follows

variable {examples : List Example} {requests : List (Request ω)} {s : Selection ω}
  {replies : List (Reply ω)}

theorem start (examples : List Example) :
    Follows examples ([] : List (Request ω)) { examples } [] where
  examples_eq := rfl
  observers := rfl
  choice := ⟨none, [], .nil, rfl, rfl⟩
  told := .nil

theorem choice_silent (h : Follows examples requests s replies) {r : Request ω}
    (hr : ∀ k e, ¬ r.Chooses examples k e) :
    ∃ choice after, Latest (Request.Leaves examples) none (requests ++ [r]) choice after ∧
      s.chosen = choice.map (·.1) ∧ s.current = choice.map (·.2) := by
  obtain ⟨choice, after, hl, hc⟩ := h.choice
  refine ⟨choice, _, hl.append_silent ?_, hc⟩
  rintro _ ⟨k, e, -, he⟩
  exact hr k e he

theorem observe (h : Follows examples requests s replies) (o : ω) :
    Follows examples (requests ++ [.observe o]) (s.observe o) (replies ++ [.registered]) := by
  have hc (k : Nat) (e : Example) : ¬ (Request.observe o).Chooses examples k e := nofun
  refine ⟨h.examples_eq, ?_, h.choice_silent hc, ?_⟩
  · simp [Selection.observe, h.observers, registered, Request.observer?]
  · simpa [Reply.told] using h.told.silent hc

theorem select (h : Follows examples requests s replies) (label : String) :
    Follows examples (requests ++ [.select label]) (s.respond (.select label)).1
      (replies ++ [(s.respond (.select label)).2]) := by
  have ho : registered (requests ++ [.select label]) = registered requests := by
    simp [registered, Request.observer?]
  rcases s.select?_cases label with ⟨k, e, rfl, hf, hs⟩ | ⟨hn, hs⟩
  · have hc : (Request.select e.label : Request ω).Chooses examples k e :=
      .select (h.examples_eq ▸ hf)
    rw [respond_select_of_some hs]
    refine ⟨h.examples_eq, h.observers.trans ho.symm,
      ⟨_, [], Latest.append_said _ ⟨k, e, rfl, hc⟩, rfl, hf.here⟩, ?_⟩
    simpa [Reply.told, h.observers] using h.told.chosen hc
  · have hc (k : Nat) (e : Example) :
        ¬ (Request.select label : Request ω).Chooses examples k e := by
      rintro ⟨hf⟩
      exact hn e (h.examples_eq ▸ List.mem_of_getElem? hf.here) rfl
    rw [respond_select_of_none hs]
    refine ⟨h.examples_eq, h.observers.trans ho.symm, h.choice_silent hc, ?_⟩
    simpa [Reply.told] using h.told.silent hc

theorem respond (h : Follows examples requests s replies) (r : Request ω) :
    Follows examples (requests ++ [r]) (s.respond r).1 (replies ++ [(s.respond r).2]) := by
  cases r with
  | observe o => exact h.observe o
  | select label => exact h.select label

/-- A choice is of the first example with its label. -/
theorem choice_firstAt (h : Follows examples requests s replies) :
    (s.chosen = none ∧ s.current = none) ∨
      ∃ k e, s.chosen = some k ∧ s.current = some e ∧ Example.FirstAt examples k e := by
  obtain ⟨choice, after, hl, hk, he⟩ := h.choice
  cases hl with
  | silent => exact .inl ⟨hk, he⟩
  | said _ hr _ =>
    obtain ⟨k, e, rfl, hc⟩ := hr
    cases hc with
    | select hf => exact .inr ⟨k, e, hk, he, hf⟩

end Follows

theorem follows_run (examples : List Example) (requests : List (Request ω)) :
    Follows examples requests (run examples requests).1 (run examples requests).2 := by
  induction requests using List.reverseRecOn with
  | nil => exact .start examples
  | append_singleton requests r ih =>
    rw [run_append_singleton]
    exact ih.respond r

/-- How a selection answers after requests. -/
structure Answers (examples : List Example) (requests : List (Request ω)) (s : Selection ω)
    (replies : List (Reply ω)) : Prop extends Follows examples requests s replies where
  /-- The index is in range, and that of the first example with its label. -/
  index : ∀ k, s.chosen = some k →
    k < examples.length ∧ ∃ e, s.current = some e ∧ Example.FirstAt examples k e
  current : ∀ e, s.current = some e →
    ∃ k, k < examples.length ∧ s.chosen = some k ∧ Example.FirstAt examples k e
  source : s.source = match s.current with
    | some e => e.source
    | none => ""
  /-- A label is found if some example has it. -/
  found : ∀ label, (∃ next told, s.respond (.select label) = (next, .answered true told)) ↔
    ∃ e ∈ examples, e.label = label
  /-- A label that no example has changes nothing and is told to nobody. -/
  unknown : ∀ label, (¬ ∃ e ∈ examples, e.label = label) →
    s.respond (.select label) = (s, .answered false [])

/-- Whatever was asked of a selection, it holds the last choice, and its observers know of all. -/
theorem selection_follows_requests (examples : List Example) (requests : List (Request ω)) :
    Answers examples requests (run examples requests).1 (run examples requests).2 := by
  have h := follows_run examples requests
  generalize (run examples requests).1 = s at h ⊢
  refine ⟨h, ?_, ?_, ?_, ?_, ?_⟩
  · intro k hk
    rcases h.choice_firstAt with ⟨hn, -⟩ | ⟨j, e, hj, he, hf⟩
    · simp [hn] at hk
    · obtain rfl := Option.some.inj (hj.symm.trans hk)
      exact ⟨hf.lt, e, he, hf⟩
  · intro e he
    rcases h.choice_firstAt with ⟨-, hn⟩ | ⟨k, f, hk, hc, hf⟩
    · simp [hn] at he
    · obtain rfl := Option.some.inj (hc.symm.trans he)
      exact ⟨k, hf.lt, hk, hf⟩
  · rw [Selection.source]
    cases s.current <;> rfl
  · intro label
    rw [← h.examples_eq]
    rcases s.select?_cases label with ⟨k, e, hl, hf, hs⟩ | ⟨hn, hs⟩
    · exact iff_of_true ⟨_, _, respond_select_of_some hs⟩ ⟨e, List.mem_of_getElem? hf.here, hl⟩
    · rw [respond_select_of_none hs]
      simpa using hn
  · intro label hn
    rw [← h.examples_eq] at hn
    rcases s.select?_cases label with ⟨k, e, hl, hf, -⟩ | ⟨-, hs⟩
    · exact absurd ⟨e, List.mem_of_getElem? hf.here, hl⟩ hn
    · exact respond_select_of_none hs

/-- An observer hears of the first of two examples with a label, and of no choice before then. -/
example : (run [⟨"twice", "$ 1"⟩, ⟨"twice", "$ 2"⟩]
    [.select "twice", .observe 0, .select "never", .select "twice"]).2.flatMap Reply.told =
      [((0 : Nat), ⟨"twice", "$ 1"⟩)] := by
  decide

end Selection
end Wanda

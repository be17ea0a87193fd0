import Wanda.Proofs.Reduction.NormalForm
import Wanda.Proofs.Reduction.Trace

/-!
Reduction by positions. A position moves along the atoms, a match names the first and the last
position of what gives way, and an operation on positions that is asked for out of its bounds has
no result. No reduction ever asks for one, and it comes to what `run` comes to.
-/
namespace Wanda.Reduction
open Atom

/-- An operation that was asked for out of its bounds. -/
inductive Breach where
  | difference (minuend subtrahend : Nat)
  | element (position length : Nat)
  | tail (position length : Nat)
  | range (start stop length : Nat)
  deriving DecidableEq, Repr

/-- There is no difference below zero. -/
def difference (m n : Nat) : Except Breach Nat :=
  if n ≤ m then .ok (m - n) else .error (.difference m n)

def elementAt (atoms : List Atom) (i : Nat) : Except Breach Atom :=
  if h : i < atoms.length then .ok atoms[i] else .error (.element i atoms.length)

/-- The atoms from a position on; the position after the last atom is one too. -/
def tailFrom (atoms : List Atom) (i : Nat) : Except Breach (List Atom) :=
  if i ≤ atoms.length then .ok (atoms.drop i) else .error (.tail i atoms.length)

/-- Put other atoms in the place of those from `start` to `stop`, both included. -/
def splice (atoms : List Atom) (start stop : Nat) (others : List Atom) :
    Except Breach (List Atom) :=
  if start ≤ stop ∧ stop < atoms.length then
    .ok (atoms.take start ++ others ++ atoms.drop (stop + 1))
  else .error (.range start stop atoms.length)

/-- A match in its place: the atoms from `start` to `stop`, both included, give way. -/
structure Site where
  start : Nat
  stop : Nat
  pattern : List Atom
  replacement : List Atom
  rule : Option Rule := none
  deriving DecidableEq, Repr

def Match.between (m : Match) (start stop : Nat) : Site :=
  ⟨start, stop, m.pattern, m.replacement, m.rule⟩

/-- Where a match stands that was found at a position. -/
def Match.site (i : Nat) (m : Match) : Site :=
  m.between i (i + (m.width - 1))

/-- What is found at a position, told in its place. -/
abbrev placed (i : Nat) (found : Option (Except Fault Match)) : Option (Except Fault Site) :=
  found.map (·.map (Match.site i))

/--
Collect the body of a definition from position `j` on, and tell the position of its `;` or that
after the last atom. `seen` says whether an arrow came before.
-/
def collect (atoms : List Atom) (j : Nat) (seen : Bool) (rule : Rule) :
    Except Breach (Rule × Nat) :=
  if j < atoms.length then do
    let a ← elementAt atoms j
    if a = close then return (rule, j)
    else if a = arrow then collect atoms (j + 1) true rule
    else if seen then
      collect atoms (j + 1) seen { rule with replacement := rule.replacement ++ [a] }
    else collect atoms (j + 1) seen { rule with pattern := rule.pattern ++ [a] }
  else return (rule, j)
termination_by atoms.length - j

/-- The definition that starts at position `i`. Unclosed, it stops at the last atom. -/
def definitionAt (atoms : List Atom) (i : Nat) : Except Breach (Except Fault Site) := do
  let (rule, j) ← collect atoms (i + 2) false ⟨[], []⟩
  if rule.pattern = [] then return .error (.emptyPattern i)
  else
    let last ← difference atoms.length 1
    return .ok
      { start := i
        stop := min j last
        pattern := [cursor, define, "...", close]
        replacement := [cursor]
        rule := some rule }

/-- Give a match at position `i` its place, if it is one of `n + 1` atoms. -/
def spanning (i n : Nat) (found : Option (Except Fault Match)) : Option (Except Fault Site) :=
  found.map (·.map (·.between i (i + n)))

def builtInAt (atoms : List Atom) (i : Nat) : Option (Except Fault Site) :=
  spanning i 3 (arithmetic? (atoms.drop i)) <|>
    spanning i 2 ((sign? (atoms.drop i)).map .ok) <|>
    spanning i 2 ((stackWord? (atoms.drop i)).map .ok) <|>
    spanning i 1 ((push? (atoms.drop i)).map .ok)

def userRuleAt (rules : List Rule) (atoms : List Atom) (i : Nat) :
    Except Breach (Option (Except Fault Site)) := do
  let rest ← tailFrom atoms i
  match rules.find? (·.pattern.isPrefixOf rest) with
  | none => return none
  | some rule =>
    let last ← difference rule.pattern.length 1
    return some (.ok
      { start := i
        stop := i + last
        pattern := rule.pattern
        replacement := rule.replacement })

def siteAt (rules : List Rule) (atoms : List Atom) (i : Nat) :
    Except Breach (Option (Except Fault Site)) :=
  if atoms[i]? = some cursor ∧ atoms[i + 1]? = some define then some <$> definitionAt atoms i
  else match builtInAt atoms i with
    | some found => .ok (some found)
    | none => userRuleAt rules atoms i

/-- A reduction under way, and the position that it has come to. -/
structure Scan where
  rules : List Rule
  redex : List Atom
  position : Nat
  deriving DecidableEq, Repr

/-- Every state is looked through from its first position on. -/
def State.scan (s : State) : Scan :=
  ⟨s.rules, s.redex, 0⟩

/-- Reduce to the end; `none` when that means looking at more than `fuel` positions. -/
def Scan.run : Nat → Scan → Except Breach (Option (Except Fault (List Atom)))
  | 0, _ => .ok none
  | fuel + 1, s =>
    if s.position < s.redex.length then do
      match ← siteAt s.rules s.redex s.position with
      | none => run fuel { s with position := s.position + 1 }
      | some (.error f) => return some (.error f)
      | some (.ok site) =>
        let redex ← splice s.redex site.start site.stop site.replacement
        run fuel ⟨site.rule.toList ++ s.rules, redex, 0⟩
    else return some (.ok s.redex)

theorem difference_of_le {m n : Nat} (h : n ≤ m) : difference m n = .ok (m - n) :=
  if_pos h

theorem tailFrom_of_le {atoms : List Atom} {i : Nat} (h : i ≤ atoms.length) :
    tailFrom atoms i = .ok (atoms.drop i) :=
  if_pos h

theorem collect_of_drop_nil {atoms : List Atom} {j : Nat} (h : atoms.drop j = []) (seen : Bool)
    (rule : Rule) : collect atoms j seen rule = .ok (rule, j) := by
  have hj : ¬ j < atoms.length := Nat.not_lt.mpr (List.drop_eq_nil_iff.mp h)
  rw [collect, if_neg hj]
  rfl

theorem collect_of_drop_cons {atoms rest : List Atom} {a : Atom} {j : Nat}
    (h : atoms.drop j = a :: rest) (seen : Bool) (rule : Rule) :
    collect atoms j seen rule =
      if a = close then .ok (rule, j)
      else if a = arrow then collect atoms (j + 1) true rule
      else if seen then
        collect atoms (j + 1) seen { rule with replacement := rule.replacement ++ [a] }
      else collect atoms (j + 1) seen { rule with pattern := rule.pattern ++ [a] } := by
  have hj : j < atoms.length := by
    by_contra hj
    rw [List.drop_eq_nil_of_le (Nat.not_lt.mp hj)] at h
    cases h
  have ha : elementAt atoms j = .ok a := by
    rw [List.drop_eq_getElem_cons hj] at h
    rw [elementAt, dif_pos hj, (List.cons.inj h).1]
  rw [collect, if_pos hj, ha]
  rfl

/-- The atoms of a body, collected on top of others among which there was an arrow or not. -/
def Rule.extend (rule : Rule) (seen : Bool) (body : List Atom) : Rule :=
  let more := Rule.ofBody (if seen then arrow :: body else body)
  ⟨rule.pattern ++ more.pattern, rule.replacement ++ more.replacement⟩

theorem Rule.extend_nil (rule : Rule) (seen : Bool) : rule.extend seen [] = rule := by
  cases seen <;> simp [extend, ofBody]

theorem Rule.extend_arrow (rule : Rule) (seen : Bool) (body : List Atom) :
    rule.extend seen (arrow :: body) = rule.extend true body := by
  cases seen <;> simp [extend, ofBody]

theorem Rule.extend_cons_seen {a : Atom} (h : a ≠ arrow) (rule : Rule) (body : List Atom) :
    rule.extend true (a :: body) =
      extend { rule with replacement := rule.replacement ++ [a] } true body := by
  simp [extend, ofBody, h]

theorem Rule.extend_cons_unseen {a : Atom} (h : a ≠ arrow) (rule : Rule) (body : List Atom) :
    rule.extend false (a :: body) =
      extend { rule with pattern := rule.pattern ++ [a] } false body := by
  simp [extend, ofBody, h]

theorem collect_eq {atoms rest body : List Atom} {j : Nat} (h : atoms.drop j = rest)
    (hb : body = rest.takeWhile (· ≠ close)) (seen : Bool) (rule : Rule) :
    collect atoms j seen rule = .ok (rule.extend seen body, j + body.length) := by
  induction rest generalizing j seen rule body with
  | nil =>
    subst hb
    rw [collect_of_drop_nil h, List.takeWhile_nil, Rule.extend_nil]
    rfl
  | cons a rest ih =>
    have ht : atoms.drop (j + 1) = rest := by rw [← List.tail_drop, h, List.tail_cons]
    rw [collect_of_drop_cons h]
    by_cases hc : a = close
    · rw [List.takeWhile_cons_of_neg (by simpa using hc)] at hb
      rw [if_pos hc, hb, Rule.extend_nil]
      rfl
    · rw [List.takeWhile_cons_of_pos (by simpa using hc)] at hb
      have hl : j + body.length = j + 1 + (rest.takeWhile (· ≠ close)).length := by
        rw [hb, List.length_cons]
        omega
      rw [if_neg hc, hl, hb]
      by_cases ha : a = arrow
      · rw [if_pos ha, ih ht rfl, ha, Rule.extend_arrow]
      · cases seen with
        | true => rw [if_neg ha, if_pos rfl, ih ht rfl, Rule.extend_cons_seen ha]
        | false =>
          rw [if_neg ha, if_neg Bool.false_ne_true, ih ht rfl, Rule.extend_cons_unseen ha]

theorem definitionAt_of_drop {atoms rest : List Atom} {i : Nat} {found : Except Fault Match}
    (h : atoms.drop i = cursor :: define :: rest)
    (hf : definition? i (cursor :: define :: rest) = some found) :
    definitionAt atoms i = .ok (found.map (Match.site i)) := by
  have hr : atoms.drop (i + 2) = rest := by
    rw [← List.drop_drop, h, List.drop_succ_cons, List.drop_succ_cons, List.drop_zero]
  have hl : atoms.length = i + (rest.length + 2) := by
    have hd := congrArg List.length h
    rw [List.length_drop, List.length_cons, List.length_cons] at hd
    omega
  have hd : difference atoms.length 1 = .ok (i + (rest.length + 1)) := by
    rw [difference_of_le (by omega), hl]
    rfl
  have hc := collect_eq hr rfl false ⟨[], []⟩
  have he : Rule.extend ⟨[], []⟩ false = Rule.ofBody := rfl
  rw [he] at hc
  simp only [definition?, and_self, if_true] at hf
  simp only [definitionAt, hc, hd, bind, Except.bind]
  generalize rest.takeWhile (· ≠ close) = body at hf ⊢
  split_ifs at hf ⊢ with hp
  · cases hf
    rfl
  · cases hf
    simp only [Except.map, Match.site, Match.between, pure, Except.pure]
    congr 3
    omega

theorem userRule?_width_pos {rules : List Rule} (he : Effective rules) {rest : List Atom}
    {m : Match} (h : userRule? rules rest = some m) : 0 < m.width := by
  obtain ⟨rule, hr, rfl⟩ := Option.map_eq_some_iff.mp h
  exact List.length_pos_iff.mpr (he rule (List.mem_of_find?_eq_some hr))

theorem definition?_width {position : Nat} {rest : List Atom} {m : Match}
    (h : definition? position rest = some (.ok m)) : 0 < m.width ∧ m.width ≤ rest.length := by
  match rest with
  | [] | [_] => simp [definition?] at h
  | c :: d :: rest =>
    simp only [definition?] at h
    split_ifs at h
    · cases h
    · cases h
      simp only [List.length_cons]
      omega

/-- A match that is found has atoms to replace, and no more than there are. -/
theorem matchAt_width {rules : List Rule} (he : Effective rules) {position : Nat}
    {rest : List Atom} {m : Match} (h : matchAt rules position rest = some (.ok m)) :
    0 < m.width ∧ m.width ≤ rest.length := by
  simp only [matchAt, Option.orElse_eq_orElse, Option.orElse_eq_or, Option.or_eq_some_iff,
    Option.map_eq_some_iff, Except.ok.injEq, exists_eq_right] at h
  rcases h with h | ⟨-, h | ⟨-, h | ⟨-, h | ⟨-, h | ⟨-, h⟩⟩⟩⟩⟩
  · exact definition?_width h
  · obtain ⟨hs, hw⟩ := arithmetic?_isSwap h
    exact ⟨by omega, hs.width_le⟩
  · obtain ⟨hs, hw⟩ := sign?_isSwap h
    exact ⟨by omega, hs.width_le⟩
  · obtain ⟨hs, hw⟩ := stackWord?_isSwap h
    exact ⟨by omega, hs.width_le⟩
  · obtain ⟨hs, hw⟩ := push?_isSwap h
    exact ⟨by omega, hs.width_le⟩
  · exact ⟨userRule?_width_pos he h, (userRule?_isSwap h).width_le⟩

theorem spanning_eq_placed {found : Option (Except Fault Match)} {n : Nat}
    (h : ∀ m, found = some (.ok m) → m.width = n + 1) (i : Nat) :
    spanning i n found = placed i found := by
  refine Option.map_congr ?_
  intro out ho
  cases out with
  | error f => rfl
  | ok m => simp only [Except.map, Match.site, h m ho, Nat.add_sub_cancel]

theorem builtInAt_eq (atoms : List Atom) (i : Nat) :
    builtInAt atoms i =
      placed i ((arithmetic? (atoms.drop i)).or (((sign? (atoms.drop i)).or
        ((stackWord? (atoms.drop i)).or (push? (atoms.drop i)))).map .ok)) := by
  have ha : spanning i 3 (arithmetic? (atoms.drop i)) = _ :=
    spanning_eq_placed (fun m h => (arithmetic?_isSwap h).2) i
  have hs : spanning i 2 ((sign? (atoms.drop i)).map .ok) = _ :=
    spanning_eq_placed (fun m h => (sign?_isSwap (by simpa using h)).2) i
  have hw : spanning i 2 ((stackWord? (atoms.drop i)).map .ok) = _ :=
    spanning_eq_placed (fun m h => (stackWord?_isSwap (by simpa using h)).2) i
  have hp : spanning i 1 ((push? (atoms.drop i)).map .ok) = _ :=
    spanning_eq_placed (fun m h => (push?_isSwap (by simpa using h)).2) i
  rw [builtInAt, ha, hs, hw, hp]
  simp [Option.map_or]

theorem userRuleAt_eq {rules : List Rule} (he : Effective rules) {atoms : List Atom} {i : Nat}
    (hi : i ≤ atoms.length) :
    userRuleAt rules atoms i = .ok (placed i ((userRule? rules (atoms.drop i)).map .ok)) := by
  simp only [userRuleAt, tailFrom_of_le hi, userRule?, bind, Except.bind]
  cases hr : rules.find? (·.pattern.isPrefixOf (atoms.drop i)) with
  | none => rfl
  | some rule =>
    have hn : 1 ≤ rule.pattern.length :=
      List.length_pos_iff.mpr (he rule (List.mem_of_find?_eq_some hr))
    simp only [difference_of_le hn]
    rfl

example : userRuleAt [⟨[], ["b"]⟩] ["a"] 0 = .error (.difference 0 1) := rfl

theorem drop_eq_of_getElem? {atoms : List Atom} {i : Nat} {a b : Atom} (ha : atoms[i]? = some a)
    (hb : atoms[i + 1]? = some b) : atoms.drop i = a :: b :: atoms.drop (i + 2) := by
  obtain ⟨hi, rfl⟩ := List.getElem?_eq_some_iff.mp ha
  obtain ⟨hj, rfl⟩ := List.getElem?_eq_some_iff.mp hb
  rw [List.drop_eq_getElem_cons hi, List.drop_eq_getElem_cons hj]

theorem definition?_eq_none {atoms : List Atom} {i : Nat}
    (h : ¬ (atoms[i]? = some cursor ∧ atoms[i + 1]? = some define)) (position : Nat) :
    definition? position (atoms.drop i) = none := by
  rw [← List.head?_drop, ← List.head?_drop, ← List.tail_drop] at h
  match hd : atoms.drop i with
  | [] | [_] => rfl
  | c :: d :: rest =>
    rw [hd] at h
    have hcd : ¬ (c = cursor ∧ d = define) := by simpa using h
    rw [definition?, if_neg hcd]

/-- What is found by position is what `matchAt` finds, and nothing is out of bounds. -/
theorem siteAt_eq {rules : List Rule} (he : Effective rules) {atoms : List Atom} {i : Nat}
    (hi : i ≤ atoms.length) :
    siteAt rules atoms i = .ok (placed i (matchAt rules i (atoms.drop i))) := by
  unfold siteAt
  split_ifs with hd
  · have hr := drop_eq_of_getElem? hd.1 hd.2
    obtain ⟨found, hf⟩ : ∃ found,
        definition? i (cursor :: define :: atoms.drop (i + 2)) = some found := by
      simp only [definition?, and_self, if_true]
      split_ifs <;> exact ⟨_, rfl⟩
    rw [definitionAt_of_drop hr hf, hr, matchAt, hf]
    rfl
  · have hm : placed i (matchAt rules i (atoms.drop i)) =
        (builtInAt atoms i).or (placed i ((userRule? rules (atoms.drop i)).map .ok)) := by
      rw [matchAt, definition?_eq_none hd, builtInAt_eq]
      simp [Option.map_or, Option.or_assoc]
    rw [hm]
    cases builtInAt atoms i with
    | some found => rfl
    | none => exact userRuleAt_eq he hi

/-- The place of a match lies between its position and the last atom. -/
theorem site_bounds {rules : List Rule} (he : Effective rules) {atoms : List Atom} {i : Nat}
    (hi : i ≤ atoms.length) {m : Match} (h : matchAt rules i (atoms.drop i) = some (.ok m)) :
    (m.site i).start ≤ (m.site i).stop ∧ (m.site i).stop < atoms.length := by
  obtain ⟨hp, hl⟩ := matchAt_width he h
  rw [List.length_drop] at hl
  simp only [Match.site, Match.between]
  omega

theorem splice_site {rules : List Rule} (he : Effective rules) {atoms : List Atom} {i : Nat}
    (hi : i ≤ atoms.length) {m : Match} (h : matchAt rules i (atoms.drop i) = some (.ok m)) :
    splice atoms (m.site i).start (m.site i).stop (m.site i).replacement =
      .ok (atoms.take i ++ (m.outcome rules (atoms.drop i)).2) := by
  have hw : i + (m.width - 1) + 1 = i + m.width := by
    have := (matchAt_width he h).1
    omega
  rw [splice, if_pos (site_bounds he hi h)]
  simp only [Match.site, Match.between, Match.outcome, hw, List.drop_drop, List.append_assoc]

def Scan.state (s : Scan) : State :=
  ⟨s.rules, s.redex⟩

/-- The positions passed already are done with. -/
def Scan.Cleared (s : Scan) : Prop :=
  ∀ j < s.position, matchAt s.rules j (s.redex.drop j) = none

theorem State.cleared_scan (s : State) : s.scan.Cleared := by
  intro j hj
  cases hj

theorem Scan.Cleared.next {s : Scan} (h : s.Cleared)
    (hm : matchAt s.rules s.position (s.redex.drop s.position) = none) :
    Scan.Cleared { s with position := s.position + 1 } := by
  intro j hj
  rcases Nat.lt_succ_iff_lt_or_eq.mp hj with hj | rfl
  · exact h j hj
  · exact hm

theorem Scan.Cleared.acts {s : Scan} (h : s.Cleared) (hp : s.position < s.redex.length)
    {found : Except Fault Match}
    (hm : matchAt s.rules s.position (s.redex.drop s.position) = some found) :
    ∃ form, Acts s.state s.position form
      (found.map (Match.outcome s.rules (s.redex.drop s.position))) := by
  have ht := congrArg (told s.rules (s.redex.drop s.position)) hm
  obtain ⟨form, hf⟩ := told_matchAt_eq_some_iff.mp ht
  refine ⟨form, hp, ?_, hf⟩
  intro j hj
  exact matchAt_eq_none_iff.mp (h j hj)

/-- One look at a position: the reduction ends, takes a step, or goes on to the next position. -/
theorem Scan.run_succ {s : Scan} (he : Effective s.rules) (hc : s.Cleared) :
    (Normal s.state ∧ ∀ fuel, run (fuel + 1) s = .ok (some (.ok s.redex))) ∨
      (∃ f, Faults s.state f ∧ ∀ fuel, run (fuel + 1) s = .ok (some (.error f))) ∨
      (∃ t, Step s.state t ∧ ∀ fuel, run (fuel + 1) s = run fuel t.scan) ∨
      (s.position < s.redex.length ∧ Cleared { s with position := s.position + 1 } ∧
        ∀ fuel, run (fuel + 1) s = run fuel { s with position := s.position + 1 }) := by
  by_cases hp : s.position < s.redex.length
  · have hs := siteAt_eq he hp.le
    right
    cases hm : matchAt s.rules s.position (s.redex.drop s.position) with
    | none =>
      refine .inr (.inr ⟨hp, hc.next hm, ?_⟩)
      intro fuel
      rw [run, if_pos hp, hs, hm]
      rfl
    | some found =>
      obtain ⟨form, ha⟩ := hc.acts hp hm
      cases found with
      | error f =>
        refine .inl ⟨f, ⟨s.position, form, ha⟩, ?_⟩
        intro fuel
        rw [run, if_pos hp, hs, hm]
        rfl
      | ok m =>
        refine .inr (.inl ⟨_, .intro ha, ?_⟩)
        intro fuel
        rw [run, if_pos hp, hs, hm]
        change (splice s.redex (m.site s.position).start (m.site s.position).stop
          (m.site s.position).replacement >>= _) = _
        rw [splice_site he hp.le hm]
        rfl
  · refine .inl ⟨?_, ?_⟩
    · intro i hi
      have hi : i < s.position := lt_of_lt_of_le hi (Nat.not_lt.mp hp)
      exact matchAt_eq_none_iff.mp (hc i hi)
    · intro fuel
      rw [run, if_neg hp]
      rfl

theorem Scan.exists_run_eq_ok {s : Scan} (he : Effective s.rules) (hc : s.Cleared) (fuel : Nat) :
    ∃ answer, run fuel s = .ok answer := by
  induction fuel generalizing s with
  | zero => exact ⟨none, rfl⟩
  | succ fuel ih =>
    rcases run_succ he hc with ⟨-, hr⟩ | ⟨f, -, hr⟩ | ⟨t, ht, hr⟩ | ⟨-, hn, hr⟩
    · exact ⟨_, hr fuel⟩
    · exact ⟨_, hr fuel⟩
    · rw [hr]
      exact ih (ht.effective he) t.cleared_scan
    · rw [hr]
      exact ih (s := { s with position := s.position + 1 }) he hn

/-- An answer by position is the answer of `run`. -/
theorem Scan.exists_run_of_answer {s : Scan} (he : Effective s.rules) (hc : s.Cleared) {fuel : Nat}
    {result : Except Fault (List Atom)} (h : run fuel s = .ok (some result)) :
    ∃ fuel, Reduction.run fuel s.state = some result := by
  induction fuel generalizing s with
  | zero => cases h
  | succ fuel ih =>
    rcases run_succ he hc with ⟨hn, hr⟩ | ⟨f, hf, hr⟩ | ⟨t, ht, hr⟩ | ⟨-, hn, hr⟩
    · rw [hr] at h
      cases h
      exact ⟨1, run_of_normal hn 0⟩
    · rw [hr] at h
      cases h
      exact ⟨1, run_of_faults hf 0⟩
    · rw [hr] at h
      obtain ⟨more, hm⟩ := ih (ht.effective he) t.cleared_scan h
      exact ⟨more + 1, by rw [run_of_step ht]; exact hm⟩
    · rw [hr] at h
      exact ih (s := { s with position := s.position + 1 }) he hn h

/-- Looking on from position to position comes to the end of the reduction, or to its next step. -/
theorem Scan.exists_arrival {s : Scan} (he : Effective s.rules) (hc : s.Cleared) :
    ∃ n, (Normal s.state ∧ run n s = .ok (some (.ok s.redex))) ∨
      (∃ f, Faults s.state f ∧ run n s = .ok (some (.error f))) ∨
      ∃ t, Step s.state t ∧ ∀ fuel, run (fuel + n) s = run fuel t.scan := by
  rcases run_succ he hc with ⟨hn, hr⟩ | ⟨f, hf, hr⟩ | ⟨t, ht, hr⟩ | ⟨hp, hn, hr⟩
  · exact ⟨1, .inl ⟨hn, hr 0⟩⟩
  · exact ⟨1, .inr (.inl ⟨f, hf, hr 0⟩)⟩
  · exact ⟨1, .inr (.inr ⟨t, ht, hr⟩)⟩
  · obtain ⟨n, ha⟩ := exists_arrival (s := { s with position := s.position + 1 }) he hn
    refine ⟨n + 1, ?_⟩
    simp only [← Nat.add_assoc, hr]
    exact ha
termination_by s.redex.length - s.position

theorem State.exists_answer_of_run {s : State} (he : Effective s.rules) {fuel : Nat}
    {result : Except Fault (List Atom)} (h : Reduction.run fuel s = some result) :
    ∃ fuel, s.scan.run fuel = .ok (some result) := by
  induction fuel generalizing s with
  | zero => cases h
  | succ fuel ih =>
    obtain ⟨n, ⟨hn, hr⟩ | ⟨f, hf, hr⟩ | ⟨t, ht, hr⟩⟩ :=
      Scan.exists_arrival (s := s.scan) he s.cleared_scan
    · have h1 := run_of_normal hn fuel
      obtain rfl : .ok s.redex = result := Option.some.inj (h1.symm.trans h)
      exact ⟨n, hr⟩
    · have h1 := run_of_faults hf fuel
      obtain rfl : .error f = result := Option.some.inj (h1.symm.trans h)
      exact ⟨n, hr⟩
    · have h1 : Reduction.run fuel t = some result := (run_of_step ht fuel).symm.trans h
      obtain ⟨more, hm⟩ := ih (ht.effective he) h1
      exact ⟨more + n, (hr more).trans hm⟩

theorem siteAt_bounds {rules : List Rule} (he : Effective rules) {atoms : List Atom} {i : Nat}
    (hi : i ≤ atoms.length) {site : Site} (h : siteAt rules atoms i = .ok (some (.ok site))) :
    site.start = i ∧ i ≤ site.stop ∧ site.stop < atoms.length := by
  rw [siteAt_eq he hi, Except.ok.injEq] at h
  obtain ⟨found, hm, hs⟩ := Option.map_eq_some_iff.mp h
  cases found with
  | error f => cases hs
  | ok m =>
    cases hs
    exact ⟨rfl, site_bounds he hi hm⟩

/--
In every state of a reduction the rules have patterns, and what is found at a position stands
between this position and the last atom. Carried out by position, the reduction never asks for
anything out of bounds, and it ends if and as `run` does.
-/
theorem reduction_stays_in_bounds (atoms : List Atom) :
    (∀ s, Relation.ReflTransGen Step (.initial atoms) s →
      (∀ rule ∈ s.rules, 1 ≤ rule.pattern.length) ∧
      ∀ i < s.redex.length,
        siteAt s.rules s.redex i = .ok (placed i (matchAt s.rules i (s.redex.drop i))) ∧
        ∀ site, siteAt s.rules s.redex i = .ok (some (.ok site)) →
          site.start = i ∧ i ≤ site.stop ∧ site.stop < s.redex.length) ∧
    (∀ fuel breach, (State.initial atoms).scan.run fuel ≠ .error breach) ∧
    (∀ result, (∃ fuel, (State.initial atoms).scan.run fuel = .ok (some result)) ↔
      Yields atoms result) := by
  have he : Effective (State.initial atoms).scan.rules := steps_effective .refl
  have hc := (State.initial atoms).cleared_scan
  refine ⟨?_, ?_, ?_⟩
  · intro s hs
    have he := steps_effective hs
    refine ⟨fun rule hr => List.length_pos_iff.mpr (he rule hr), ?_⟩
    intro i hi
    exact ⟨siteAt_eq he hi.le, fun site => siteAt_bounds he hi.le⟩
  · intro fuel breach hb
    obtain ⟨answer, ha⟩ := Scan.exists_run_eq_ok he hc fuel
    rw [ha] at hb
    cases hb
  · intro result
    constructor
    · intro h
      obtain ⟨fuel, hf⟩ := h
      exact Scan.exists_run_of_answer he hc hf
    · intro h
      obtain ⟨fuel, hf⟩ := h
      exact State.exists_answer_of_run he hf

theorem reduction_stays_in_bounds_unclosed :
    ∃ site, siteAt [] [";", "$", ":", "", "->", "->"] 1 = .ok (some (.ok site)) ∧
      site.rule = some ⟨[""], []⟩ ∧ site.start = 1 ∧ 1 ≤ site.stop ∧ site.stop < 6 ∧
      ∃ fuel, (State.initial [";", "$", ":", "", "->", "->"]).scan.run fuel =
        .ok (some (.ok [";", "$"])) := by
  obtain ⟨hs, -, hr⟩ := reduction_stays_in_bounds [";", "$", ":", "", "->", "->"]
  obtain ⟨hf, hb⟩ := (hs _ .refl).2 1 (by decide)
  have hm : matchAt [] 1 ["$", ":", "", "->", "->"] =
      some (.ok ⟨5, ["$", ":", "...", ";"], ["$"], some ⟨[""], []⟩⟩) := by cbv
  have hy : Yields [";", "$", ":", "", "->", "->"] (.ok [";", "$"]) := ⟨2, by cbv⟩
  change _ = Except.ok (placed 1 (matchAt [] 1 ["$", ":", "", "->", "->"])) at hf
  rw [hm] at hf
  obtain ⟨hstart, hstop, hlast⟩ := hb _ hf
  exact ⟨_, hf, rfl, hstart, hstop, hlast, (hr _).mpr hy⟩

end Wanda.Reduction

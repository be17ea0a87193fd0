import Wanda.Proofs.Interpreter.FreshScope

/-!
Look-up along a chain of scopes. Where every scope lies inside an older one, a name stands for what
the scope itself binds it to, and else for what it stands for in the scope around it.
-/
namespace Wanda.Scopes

variable {κ : Type}

/-- The scope that a scope lies in. -/
def outer? (scopes : Scopes κ) (i : Nat) : Option Nat :=
  (scopes.scope? i).bind (·.outer)

/-- Every scope lies inside none or inside an older one. -/
def Nested (scopes : Scopes κ) : Prop :=
  ∀ i o, scopes.outer? i = some o → o < i

theorem lt_of_scope? {scopes : Scopes κ} {i : Nat} {s : Scope κ} (h : scopes.scope? i = some s) :
    i < scopes.length := by
  induction scopes with
  | nil => cases h
  | cons t older ih =>
    rw [scope?] at h
    split_ifs at h with hi
    · simp [hi]
    · exact Nat.lt_succ_of_lt (ih h)

theorem exists_scope? {scopes : Scopes κ} {i : Nat} (h : i < scopes.length) :
    ∃ s, scopes.scope? i = some s := by
  induction scopes with
  | nil => cases h
  | cons t older ih =>
    rw [scope?]
    split_ifs with hi
    · exact ⟨t, rfl⟩
    · exact ih (Nat.lt_of_le_of_ne (Nat.le_of_lt_succ h) hi)

theorem scope?_length (scopes : Scopes κ) : scopes.scope? scopes.length = none := by
  cases h : scopes.scope? scopes.length with
  | none => rfl
  | some s => exact absurd (lt_of_scope? h) (Nat.lt_irrefl _)

@[simp] theorem length_create (scopes : Scopes κ) (outer : Option Nat) :
    (scopes.create outer).length = scopes.length + 1 := rfl

theorem scope?_create (scopes : Scopes κ) (outer : Option Nat) (j : Nat) :
    (scopes.create outer).scope? j =
      if j = scopes.length then some ⟨outer, .empty⟩ else scopes.scope? j := rfl

/-- A new scope has no bindings, and neither has a number that is not in use. -/
@[simp] theorem own_create (scopes : Scopes κ) (outer : Option Nat) (j : Nat) :
    (scopes.create outer).own j = scopes.own j := by
  rw [own, scope?_create, own]
  split_ifs with hj
  · rw [hj, scope?_length]
    rfl
  · rfl

theorem outer?_create (scopes : Scopes κ) (outer : Option Nat) (j : Nat) :
    (scopes.create outer).outer? j =
      if j = scopes.length then outer else scopes.outer? j := by
  rw [outer?, scope?_create, outer?]
  split_ifs <;> rfl

theorem Nested.create {scopes : Scopes κ} (h : scopes.Nested) {outer : Option Nat}
    (ho : ∀ o, outer = some o → o < scopes.length) : (scopes.create outer).Nested := by
  intro i o hi
  rw [outer?_create] at hi
  split_ifs at hi with he
  · exact he ▸ ho o hi
  · exact h i o hi

@[simp] theorem outer?_update (f : Table String (Value κ) → Table String (Value κ))
    (scopes : Scopes κ) (i j : Nat) : (scopes.update f i).outer? j = scopes.outer? j := by
  rw [outer?, scope?_update, outer?]
  split_ifs
  · cases scopes.scope? j <;> rfl
  · rfl

theorem own_update_self (f : Table String (Value κ) → Table String (Value κ)) {scopes : Scopes κ}
    {i : Nat} (h : i < scopes.length) : (scopes.update f i).own i = f (scopes.own i) := by
  obtain ⟨s, hs⟩ := exists_scope? h
  rw [own, scope?_update, if_pos rfl, own, hs]
  rfl

theorem Nested.update {scopes : Scopes κ} (h : scopes.Nested)
    (f : Table String (Value κ) → Table String (Value κ)) (i : Nat) :
    (scopes.update f i).Nested := by
  intro j o hj
  rw [outer?_update] at hj
  exact h j o hj

theorem update_own (scopes : Scopes κ) (i : Nat) :
    scopes.update (fun _ => scopes.own i) i = scopes := by
  induction scopes with
  | nil => rfl
  | cons s older ih =>
    unfold update
    split_ifs with hi
    · simp [own, scope?, hi]
    · have ho : own (s :: older) i = own older i := by simp [own, scope?, hi]
      rw [ho, ih]

/-- Of two changes that leave nothing of what was before, the last counts. -/
theorem update_const_update (scopes : Scopes κ) (t : Table String (Value κ))
    (f : Table String (Value κ) → Table String (Value κ)) (i : Nat) :
    (scopes.update f i).update (fun _ => t) i = scopes.update (fun _ => t) i := by
  induction scopes with
  | nil => rfl
  | cons s older ih =>
    simp only [update]
    split_ifs with hi
    · simp [update, hi]
    · simp [update, length_update, hi, ih]

theorem get?_cons_of_lt (name : String) (s : Scope κ) {older : Scopes κ} {i : Nat}
    (h : i < older.length) : get? name (s :: older) i = get? name older i := by
  rw [get?, if_neg (Nat.ne_of_lt h)]

theorem Nested.of_cons {s : Scope κ} {older : Scopes κ} (h : Nested (s :: older)) :
    Nested older := by
  intro i o hi
  obtain ⟨t, ht, -⟩ := Option.bind_eq_some_iff.mp hi
  have hl := lt_of_scope? ht
  refine h i o ?_
  rw [outer?, scope?, if_neg (Nat.ne_of_lt hl)]
  exact hi

theorem around_eq (scopes : Scopes κ) (i : Nat) (name : String) :
    scopes.around i name = (scopes.outer? i).bind fun o => get? name scopes o := by
  rw [around, outer?, Option.bind_assoc]

/-- A name is looked up in the scope itself and else in the scope around it. -/
theorem get?_eq_visible {scopes : Scopes κ} (h : scopes.Nested) (name : String) (i : Nat) :
    get? name scopes i = Script.visible (scopes.own i) (scopes.around i) name := by
  induction scopes with
  | nil => rfl
  | cons s older ih =>
    have hmore {outer : Option Nat} (ho : ∀ o, outer = some o → o < older.length) :
        (outer.bind fun o => get? name older o) = outer.bind fun o => get? name (s :: older) o := by
      cases outer with
      | none => rfl
      | some o => exact (get?_cons_of_lt name s (ho o rfl)).symm
    by_cases hi : i = older.length
    · have hown : own (s :: older) i = s.bindings := by simp [own, scope?, hi]
      have houter : outer? (s :: older) i = s.outer := by simp [outer?, scope?, hi]
      have ho : ∀ o, s.outer = some o → o < older.length := by
        intro o ho
        rw [← houter] at ho
        exact hi ▸ h i o ho
      rw [get?, if_pos hi, Script.visible, around_eq, hown, houter, hmore ho]
    · have hown : own (s :: older) i = own older i := by simp [own, scope?, hi]
      have houter : outer? (s :: older) i = outer? older i := by simp [outer?, scope?, hi]
      have ho : ∀ o, outer? older i = some o → o < older.length := by
        intro o ho
        obtain ⟨t, ht, -⟩ := Option.bind_eq_some_iff.mp ho
        exact Nat.lt_trans (h.of_cons i o ho) (lt_of_scope? ht)
      rw [get?, if_neg hi, ih h.of_cons, Script.visible, Script.visible, around_eq, around_eq, hown,
        houter, hmore ho]

/-- A change in a scope is not seen from the scopes that are older. -/
theorem get?_update_of_lt {scopes : Scopes κ} (h : scopes.Nested)
    (f : Table String (Value κ) → Table String (Value κ)) (name : String) {i j : Nat} (hj : j < i) :
    get? name (scopes.update f i) j = get? name scopes j := by
  induction j using Nat.strongRecOn with
  | ind j ih =>
    rw [get?_eq_visible (h.update f i), get?_eq_visible h, Script.visible, Script.visible,
      own_update_of_ne f scopes (Nat.ne_of_lt hj), around_eq, around_eq, outer?_update]
    congr 1
    funext u
    cases ho : scopes.outer? j with
    | none => rfl
    | some o =>
      have hlt : o < j := h j o ho
      exact ih o hlt (Nat.lt_trans hlt hj)

theorem around_update {scopes : Scopes κ} (h : scopes.Nested)
    (f : Table String (Value κ) → Table String (Value κ)) (i : Nat) :
    (scopes.update f i).around i = scopes.around i := by
  funext name
  rw [around_eq, around_eq, outer?_update]
  cases ho : scopes.outer? i with
  | none => rfl
  | some o => exact get?_update_of_lt h f name (h i o ho)

end Wanda.Scopes

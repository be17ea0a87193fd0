import Wanda.Table
import Mathlib.Data.List.Nodup
import Mathlib.Order.RelClasses

/-!
Tables in ascending order of their keys are determined by what is found in them. If each key stands
once, in whatever order, their pairs are.
-/
namespace Wanda.Table

variable {α β : Type} [DecidableEq α] [LT α]

/-- Each key stands once, and before all greater ones. -/
def Ordered (t : Table α β) : Prop :=
  t.entries.Pairwise (·.1 < ·.1)

omit [LT α] in
@[simp] theorem remove_snd (t : Table α β) (k : α) : (t.remove k).2 = t.erase k := rfl

omit [LT α] in
@[simp] theorem erase_erase (t : Table α β) (k : α) : (t.erase k).erase k = t.erase k := by
  simp [erase]

theorem Ordered.erase {t : Table α β} (h : t.Ordered) (k : α) : (t.erase k).Ordered :=
  h.filter _

section
variable [IsStrictTotalOrder α (· < ·)]

private theorem find?_eq_none_of_lt {k : α} {es : List (α × β)} (h : ∀ e ∈ es, k < e.1) :
    find? k es = none := by
  induction es with
  | nil => rfl
  | cons e es ih =>
    have hk : k ≠ e.1 := by
      intro he
      exact irrefl_of (· < ·) k (he ▸ h e (by simp))
    rw [find?, if_neg hk]
    exact ih fun e he => h e (by simp [he])

/-- Nothing is found below the least key. -/
private theorem not_lt_of_find? {k l : α} {v w : β} {es : List (α × β)}
    (hl : ∀ e ∈ es, l < e.1) (h : find? k ((l, w) :: es) = some v) : ¬ k < l := by
  intro hlt
  have hn : find? k ((l, w) :: es) = none := by
    apply find?_eq_none_of_lt
    intro e he
    rcases List.mem_cons.mp he with rfl | he
    · exact hlt
    · exact trans_of (· < ·) hlt (hl e he)
  rw [hn] at h
  cases h

private theorem eq_of_find? {es fs : List (α × β)} (hes : es.Pairwise (·.1 < ·.1))
    (hfs : fs.Pairwise (·.1 < ·.1)) (h : ∀ k, find? k es = find? k fs) : es = fs := by
  induction es generalizing fs with
  | nil =>
    cases fs with
    | nil => rfl
    | cons f fs =>
      have hf := h f.1
      simp [find?] at hf
  | cons e es ih =>
    obtain ⟨k, v⟩ := e
    cases fs with
    | nil =>
      have hk := h k
      simp [find?] at hk
    | cons f fs =>
      obtain ⟨l, w⟩ := f
      obtain ⟨hk, he⟩ := List.pairwise_cons.mp hes
      obtain ⟨hl, hf⟩ := List.pairwise_cons.mp hfs
      have hkf : find? k ((l, w) :: fs) = some v := by rw [← h k, find?, if_pos rfl]
      have hle : find? l ((k, v) :: es) = some w := by rw [h l, find?, if_pos rfl]
      obtain rfl : k = l := by
        rcases trichotomous_of (· < ·) k l with hlt | heq | hlt
        · exact absurd hlt (not_lt_of_find? hl hkf)
        · exact heq
        · exact absurd hlt (not_lt_of_find? hk hle)
      obtain rfl : w = v := by simpa [find?] using hkf
      have htail : ∀ m, find? m es = find? m fs := by
        intro m
        by_cases hm : m = k
        · subst hm
          rw [find?_eq_none_of_lt hk, find?_eq_none_of_lt hl]
        · simpa [find?, hm] using h m
      rw [ih he hf htail]

/-- Ordered tables in which the same is found are the same. -/
theorem Ordered.ext {t u : Table α β} (ht : t.Ordered) (hu : u.Ordered)
    (h : ∀ k, t.get? k = u.get? k) : t = u := by
  obtain ⟨es⟩ := t
  obtain ⟨fs⟩ := u
  exact congrArg Table.mk (eq_of_find? ht hu h)

end

variable [DecidableLT α]

private theorem mem_place {k : α} {v : β} {es : List (α × β)} {e : α × β}
    (h : e ∈ place k v es) : e = (k, v) ∨ e ∈ es := by
  induction es with
  | nil => simpa [place] using h
  | cons f es ih =>
    simp only [place] at h
    split_ifs at h <;> grind

/-- Each key stands once, in whatever order. -/
def Distinct (t : Table α β) : Prop :=
  (t.entries.map (·.1)).Nodup

/-- Every value in the table has the property. -/
def Forall (p : β → Prop) (t : Table α β) : Prop :=
  ∀ e ∈ t.entries, p e.2

omit [DecidableEq α] [LT α] [DecidableLT α] in
theorem forall_empty (p : β → Prop) : (empty : Table α β).Forall p := by
  intro e he
  cases he

omit [LT α] [DecidableLT α] in
theorem mem_of_get? {t : Table α β} {k : α} {v : β} (h : t.get? k = some v) :
    (k, v) ∈ t.entries := by
  obtain ⟨es⟩ := t
  induction es with
  | nil => cases h
  | cons e es ih =>
    obtain ⟨l, w⟩ := e
    by_cases he : k = l
    · obtain rfl : w = v := by simpa [get?, find?, he] using h
      simp [he]
    · simp only [get?, find?, if_neg he] at h
      exact List.mem_cons_of_mem _ (ih h)

omit [LT α] [DecidableLT α] in
theorem Forall.of_get? {p : β → Prop} {t : Table α β} (h : t.Forall p) {k : α} {v : β}
    (hk : t.get? k = some v) : p v :=
  h _ (mem_of_get? hk)

theorem Forall.insert {p : β → Prop} {t : Table α β} (h : t.Forall p) (k : α) {v : β} (hv : p v) :
    (t.insert k v).Forall p := by
  intro e he
  rcases mem_place he with rfl | he
  · exact hv
  · exact h e he

theorem forall_ofList {p : β → Prop} {pairs : List (α × β)} (h : ∀ e ∈ pairs, p e.2) :
    (ofList pairs).Forall p := by
  have hfold : ∀ t : Table α β, t.Forall p →
      (pairs.foldl (fun t e => t.insert e.1 e.2) t).Forall p := by
    induction pairs with
    | nil =>
      intro t ht
      exact ht
    | cons e pairs ih =>
      intro t ht
      rw [List.forall_mem_cons] at h
      exact ih h.2 _ (ht.insert e.1 h.1)
  exact hfold empty (forall_empty p)

section
omit [LT α] [DecidableLT α]

theorem Distinct.mem_iff {t : Table α β} (h : t.Distinct) {k : α} {v : β} :
    (k, v) ∈ t.entries ↔ t.get? k = some v := by
  refine ⟨?_, mem_of_get?⟩
  obtain ⟨es⟩ := t
  unfold Distinct at h
  induction es with
  | nil => simp
  | cons e es ih =>
    rw [List.map_cons, List.nodup_cons] at h
    intro hm
    rcases List.mem_cons.mp hm with rfl | hm
    · simp [get?, find?]
    · have hk : k ≠ e.1 := by
        rintro rfl
        exact h.1 (List.mem_map.mpr ⟨_, hm, rfl⟩)
      rw [get?, find?, if_neg hk]
      exact ih h.2 hm

/-- Tables in which the same is found hold the same pairs. -/
theorem Distinct.perm {t u : Table α β} (ht : t.Distinct) (hu : u.Distinct)
    (h : ∀ k, t.get? k = u.get? k) : t.entries.Perm u.entries := by
  have hn {s : Table α β} (hs : s.Distinct) : s.entries.Nodup := List.Nodup.of_map _ hs
  refine (List.perm_ext_iff_of_nodup (hn ht) (hn hu)).mpr ?_
  rintro ⟨k, v⟩
  rw [ht.mem_iff, hu.mem_iff, h]

/-- What is found does not depend on the order of the pairs. -/
theorem Distinct.get?_eq_of_perm {t u : Table α β} (ht : t.Distinct)
    (hp : t.entries.Perm u.entries) (k : α) : t.get? k = u.get? k := by
  have hu : u.Distinct := (hp.map Prod.fst).nodup_iff.mp ht
  apply Option.ext
  intro v
  rw [← ht.mem_iff, ← hu.mem_iff, hp.mem_iff]

variable {γ : Type}

/-- Apply a function to each value. -/
def map (f : β → γ) (t : Table α β) : Table α γ :=
  ⟨t.entries.map fun e => (e.1, f e.2)⟩

theorem get?_map (f : β → γ) (t : Table α β) (k : α) :
    (t.map f).get? k = (t.get? k).map f := by
  obtain ⟨es⟩ := t
  simp only [get?, map]
  induction es with
  | nil => rfl
  | cons e es ih =>
    rw [List.map_cons, find?, find?, ih]
    split_ifs <;> rfl

omit [DecidableEq α] in
theorem Distinct.map {t : Table α β} (h : t.Distinct) (f : β → γ) : (t.map f).Distinct := by
  simpa [Distinct, Table.map, Function.comp_def] using h

end

variable [IsStrictTotalOrder α (· < ·)]

omit [DecidableEq α] [DecidableLT α] in
theorem Ordered.distinct {t : Table α β} (h : t.Ordered) : t.Distinct := by
  refine List.pairwise_map.mpr (h.imp ?_)
  intro e f hlt heq
  exact irrefl_of (· < ·) f.1 (heq ▸ hlt)

private theorem pairwise_place (k : α) (v : β) {es : List (α × β)}
    (h : es.Pairwise (·.1 < ·.1)) : (place k v es).Pairwise (·.1 < ·.1) := by
  induction es with
  | nil => simp [place]
  | cons e es ih =>
    obtain ⟨l, w⟩ := e
    obtain ⟨hl, hes⟩ := List.pairwise_cons.mp h
    unfold place
    split_ifs with heq hlt
    · subst heq
      exact List.pairwise_cons.mpr ⟨hl, hes⟩
    · refine List.pairwise_cons.mpr ⟨?_, h⟩
      intro e he
      rcases List.mem_cons.mp he with rfl | he
      · exact hlt
      · exact trans_of (· < ·) hlt (hl e he)
    · refine List.pairwise_cons.mpr ⟨?_, ih hes⟩
      intro e he
      rcases mem_place he with rfl | he
      · rcases trichotomous_of (· < ·) k l with hk | hk | hk
        · exact absurd hk hlt
        · exact absurd hk heq
        · exact hk
      · exact hl e he

theorem Ordered.insert {t : Table α β} (h : t.Ordered) (k : α) (v : β) :
    (t.insert k v).Ordered :=
  pairwise_place k v h

theorem ordered_ofList (pairs : List (α × β)) : (ofList pairs).Ordered := by
  have hfold : ∀ t : Table α β, t.Ordered →
      (pairs.foldl (fun t p => t.insert p.1 p.2) t).Ordered := by
    induction pairs with
    | nil =>
      intro t ht
      exact ht
    | cons p pairs ih =>
      intro t ht
      exact ih _ (ht.insert p.1 p.2)
  exact hfold empty List.Pairwise.nil

theorem Ordered.insert_erase {t : Table α β} (h : t.Ordered) (k : α) (v : β) :
    (t.erase k).insert k v = t.insert k v := by
  apply ((h.erase k).insert k v).ext (h.insert k v)
  intro l
  rw [get?_insert, get?_insert, get?_erase]
  split_ifs <;> rfl

end Wanda.Table

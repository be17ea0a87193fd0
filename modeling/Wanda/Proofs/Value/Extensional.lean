import Wanda.Proofs.Interpreter.Actions
import Wanda.Proofs.Latest
import Wanda.Proofs.Table
import Mathlib.Data.List.Induction

/-!
Hashes do not remember the order in which they were filled. What was inserted under each key last
determines a hash, and what is found under each key, at every depth, determines its text. The pairs
may stand in any order there, since their texts are sorted: keys of different kinds can have the
same text, so that an order of the keys would not do.
-/
namespace Wanda

theorem Key.lt_irrefl (a : Key) : ¬ a < a := by
  change ¬ a.precedes a = true
  cases a <;> simp [precedes]

theorem Key.lt_trans {a b c : Key} (hab : a < b) (hbc : b < c) : a < c := by
  change a.precedes b = true at hab
  change b.precedes c = true at hbc
  change a.precedes c = true
  cases a <;> cases b <;> cases c <;> grind [precedes, Int64.lt_trans, String.lt_trans]

theorem Key.eq_of_not_lt {a b : Key} (hab : ¬ a < b) (hba : ¬ b < a) : a = b := by
  change ¬ a.precedes b = true at hab
  change ¬ b.precedes a = true at hba
  cases a <;> cases b <;>
    grind [precedes, Int64.not_lt, Int64.le_antisymm, String.not_lt, String.le_antisymm]

instance : IsStrictTotalOrder Key (· < ·) where
  trichotomous _ _ := Key.eq_of_not_lt
  irrefl := Key.lt_irrefl
  trans _ _ _ := Key.lt_trans

namespace Value

variable {κ : Type}

/-- Every hash in the value has the property, at whatever depth it is. -/
inductive EachHash (p : Table Key (Value κ) → Prop) : Value κ → Prop
  | int (n : Int64) : EachHash p (.int n)
  | str (s : String) : EachHash p (.str s)
  | bool (b : Bool) : EachHash p (.bool b)
  | null : EachHash p .null
  | array {vs : List (Value κ)} : (∀ v ∈ vs, EachHash p v) → EachHash p (.array vs)
  | hash {t : Table Key (Value κ)} :
      p t → (∀ e ∈ t.entries, EachHash p e.2) → EachHash p (.hash t)
  | returning {v : Value κ} : EachHash p v → EachHash p (.returning v)
  | builtin (f : Builtin κ) : EachHash p (.builtin f)

/--
The values are equal, where hashes are if they have the same keys and equal values under each of
them. The order of their pairs does not matter.
-/
inductive Alike : Value κ → Value κ → Prop
  | int (n : Int64) : Alike (.int n) (.int n)
  | str (s : String) : Alike (.str s) (.str s)
  | bool (b : Bool) : Alike (.bool b) (.bool b)
  | null : Alike .null .null
  | array {vs ws : List (Value κ)} : vs.length = ws.length →
      (∀ (i : Nat) v w, vs[i]? = some v → ws[i]? = some w → Alike v w) →
      Alike (.array vs) (.array ws)
  | hash {t u : Table Key (Value κ)} : (∀ k, (t.get? k).isSome = (u.get? k).isSome) →
      (∀ k v w, t.get? k = some v → u.get? k = some w → Alike v w) → Alike (.hash t) (.hash u)
  | returning {v w : Value κ} : Alike v w → Alike (.returning v) (.returning w)
  | builtin (f : Builtin κ) : Alike (.builtin f) (.builtin f)

variable {p q : Table Key (Value κ) → Prop} {v w : Value κ}

theorem EachHash.imp (h : ∀ t, p t → q t) (hv : v.EachHash p) : v.EachHash q := by
  induction hv with
  | int n => exact .int n
  | str s => exact .str s
  | bool b => exact .bool b
  | null => exact .null
  | array _ ih => exact .array ih
  | hash ht _ ih => exact .hash (h _ ht) ih
  | returning _ ih => exact .returning ih
  | builtin f => exact .builtin f

theorem EachHash.of_get? {t : Table Key (Value κ)} (h : EachHash p (.hash t)) {k : Key}
    (hk : t.get? k = some v) : v.EachHash p := by
  cases h with
  | hash _ he => exact Table.Forall.of_get? he hk

theorem EachHash.of_getElem? {vs : List (Value κ)} (h : EachHash p (.array vs)) {i : Nat}
    (hi : vs[i]? = some v) : v.EachHash p := by
  cases h with
  | array he => exact he v (List.mem_of_getElem? hi)

/-- Lists of one length have the same images if their elements at each place have. -/
private theorem map_eq_map_of_getElem? {α β : Type} {f : α → β} {xs ys : List α}
    (hl : xs.length = ys.length)
    (h : ∀ (i : Nat) x y, xs[i]? = some x → ys[i]? = some y → f x = f y) : xs.map f = ys.map f := by
  refine List.ext_getElem (by simpa using hl) ?_
  intro i hi hj
  rw [List.getElem_map, List.getElem_map]
  exact h i _ _ (List.getElem?_eq_getElem _) (List.getElem?_eq_getElem _)

/-- What is there in both or in none has the same image if it has where it is. -/
private theorem map_eq_map_of_isSome {α β : Type} {f : α → β} {x y : Option α}
    (hs : x.isSome = y.isSome) (h : ∀ a b, x = some a → y = some b → f a = f b) :
    x.map f = y.map f := by
  cases x with
  | none =>
    cases y with
    | none => rfl
    | some b => cases hs
  | some a =>
    cases y with
    | none => cases hs
    | some b => exact congrArg some (h a b rfl rfl)

theorem Alike.of_rel {t u : Table Key (Value κ)}
    (h : ∀ k, Option.Rel Alike (t.get? k) (u.get? k)) : Alike (.hash t) (.hash u) := by
  refine .hash ?_ ?_
  · intro k
    have hk := h k
    generalize t.get? k = x at hk ⊢
    generalize u.get? k = y at hk ⊢
    cases hk <;> rfl
  · intro k v w hv hw
    have hk := h k
    rw [hv, hw] at hk
    cases hk with
    | some ha => exact ha

/-- In values whose hashes are ordered, equality is that of the hashes as they are. -/
theorem Alike.eq (h : Alike v w) (hv : v.EachHash Table.Ordered) (hw : w.EachHash Table.Ordered) :
    v = w := by
  induction h with
  | int | str | bool | null | builtin => rfl
  | array hl _ ih =>
    have hm := map_eq_map_of_getElem? (f := id) hl fun i v w hi hj =>
      ih i v w hi hj (hv.of_getElem? hi) (hw.of_getElem? hj)
    simpa using hm
  | @hash t u hs _ ih =>
    have hk (k : Key) : t.get? k = u.get? k := by
      have hm := map_eq_map_of_isSome (f := id) (hs k) fun v w ht hu =>
        ih k v w ht hu (hv.of_get? ht) (hw.of_get? hu)
      simpa using hm
    cases hv with
    | hash ht _ =>
      cases hw with
      | hash hu _ => rw [ht.ext hu hk]
  | returning _ ih =>
    cases hv with
    | returning hv =>
      cases hw with
      | returning hw => rw [ih hv hw]

theorem EachHash.alike_refl (h : v.EachHash p) : Alike v v := by
  induction h with
  | int n => exact .int n
  | str s => exact .str s
  | bool b => exact .bool b
  | null => exact .null
  | @array vs hvs ih =>
    refine .array rfl ?_
    intro i v w hv hw
    cases hv.symm.trans hw
    exact ih v (List.mem_of_getElem? hv)
  | @hash t ht he ih =>
    refine .hash (fun _ => rfl) ?_
    intro k v w hv hw
    cases hv.symm.trans hw
    exact ih _ (Table.mem_of_get? hv)
  | returning _ ih => exact .returning ih
  | builtin f => exact .builtin f

theorem alike_iff_eq (hv : v.EachHash Table.Ordered) (hw : w.EachHash Table.Ordered) :
    Alike v w ↔ v = w := by
  refine ⟨fun h => h.eq hv hw, ?_⟩
  rintro rfl
  exact hv.alike_refl

/-- Hashes are equal whose pairs stand in different orders. -/
theorem alike_of_perm {entries others : List (Key × Value κ)}
    (h : EachHash Table.Distinct (.hash ⟨entries⟩)) (hp : entries.Perm others) :
    Alike (.hash ⟨entries⟩) (.hash ⟨others⟩) := by
  have hk (k : Key) : Table.get? ⟨entries⟩ k = Table.get? ⟨others⟩ k := by
    cases h with
    | hash hd _ => exact hd.get?_eq_of_perm hp k
  refine .hash (fun k => by rw [hk]) ?_
  intro k v w hv hw
  cases (hk k ▸ hv).symm.trans hw
  exact (h.of_get? hv).alike_refl

theorem texts_eq_map (vs : List (Value κ)) : texts vs = vs.map text := by
  induction vs with
  | nil => rfl
  | cons v vs ih => rw [texts, ih, List.map_cons]

/-- The text of a pair whose value has the text. -/
def pairText (e : Key × String) : String :=
  e.1.text ++ ": " ++ e.2

theorem pairTexts_eq_map (t : Table Key (Value κ)) :
    pairTexts t.entries = (t.map text).entries.map pairText := by
  obtain ⟨es⟩ := t
  induction es with
  | nil => rfl
  | cons e es ih =>
    obtain ⟨k, v⟩ := e
    simp only at ih
    rw [pairTexts, ih]
    rfl

theorem pairwise_sortTexts (items : List String) : (sortTexts items).Pairwise (· ≤ ·) := by
  have hp : (sortTexts items).Pairwise fun a b => decide (a ≤ b) = true := by
    refine List.pairwise_mergeSort ?_ ?_ items
    · intro a b c hab hbc
      rw [decide_eq_true_iff] at *
      exact String.le_trans hab hbc
    · intro a b
      simpa using String.le_total a b
  exact hp.imp of_decide_eq_true

/-- Sorting forgets the order. -/
theorem sortTexts_eq_of_perm {items others : List String} (h : items.Perm others) :
    sortTexts items = sortTexts others := by
  have hp : (sortTexts items).Perm (sortTexts others) :=
    (List.mergeSort_perm items _).trans (h.trans (List.mergeSort_perm others _).symm)
  exact hp.eq_of_pairwise (fun _ _ _ _ => String.le_antisymm) (pairwise_sortTexts items)
    (pairwise_sortTexts others)

theorem text_array (vs : List (Value κ)) :
    (array vs).text = enclosed "[" "]" (vs.map text) := by
  rw [text, texts_eq_map]

theorem text_hash (t : Table Key (Value κ)) : (hash t).text =
    enclosed "\x7b" "\x7d" (sortTexts ((t.map text).entries.map pairText)) := by
  rw [← pairTexts_eq_map]
  obtain ⟨es⟩ := t
  rw [text]

/-- Equal values have the same text, in whatever order the pairs of their hashes stand. -/
theorem Alike.text_eq (h : Alike v w) (hv : v.EachHash Table.Distinct)
    (hw : w.EachHash Table.Distinct) : v.text = w.text := by
  induction h with
  | int | str | bool | null | builtin => rfl
  | array hl _ ih =>
    rw [text_array, text_array, map_eq_map_of_getElem? hl]
    intro i v w hi hj
    exact ih i v w hi hj (hv.of_getElem? hi) (hw.of_getElem? hj)
  | @hash t u hs _ ih =>
    have hk (k : Key) : (t.map text).get? k = (u.map text).get? k := by
      rw [Table.get?_map, Table.get?_map]
      refine map_eq_map_of_isSome (hs k) ?_
      intro v w ht hu
      exact ih k v w ht hu (hv.of_get? ht) (hw.of_get? hu)
    have hp : (t.map text).entries.Perm (u.map text).entries := by
      cases hv with
      | hash ht _ =>
        cases hw with
        | hash hu _ => exact (ht.map text).perm (hu.map text) hk
    rw [text_hash, text_hash, sortTexts_eq_of_perm (hp.map pairText)]
  | returning _ ih =>
    cases hv with
    | returning hv =>
      cases hw with
      | returning hw => rw [text, text, ih hv hw]

/-- The hash that pairs of keys and values are inserted into, one after the other. -/
def fill (pairs : List (Value κ × Value κ)) : Except (Value κ) (Table Key (Value κ)) :=
  pairs.foldlM (fun t p => put t p.1 p.2) .empty

/-- Every first value can be a key. -/
def Keyed (pairs : List (Value κ × Value κ)) : Prop :=
  ∀ p ∈ pairs, p.1.key?.isSome

/-- What the pair, once inserted, has put under the key. -/
def Puts (k : Key) (pair : Value κ × Value κ) (found : Option (Value κ)) : Prop :=
  pair.1.key? = some k ∧ found = some pair.2

/-- What the pairs leave under the key: the value of the last of them with it, if there is any. -/
def Leaves (pairs : List (Value κ × Value κ)) (k : Key) (found : Option (Value κ)) : Prop :=
  ∃ after, Latest (Puts k) none pairs found after

theorem Leaves.unique {pairs : List (Value κ × Value κ)} {k : Key} {found other : Option (Value κ)}
    (h : Leaves pairs k found) (h' : Leaves pairs k other) : found = other := by
  obtain ⟨after, h⟩ := h
  obtain ⟨after', h'⟩ := h'
  refine (h.unique ?_ h').1
  rintro pair b c ⟨-, rfl⟩ ⟨-, rfl⟩
  rfl

/-- The table is what the pairs make of an empty one. -/
structure Filled (pairs : List (Value κ × Value κ)) (t : Table Key (Value κ)) : Prop where
  ordered : t.Ordered
  leaves : ∀ k, Leaves pairs k (t.get? k)

namespace Filled

variable {pairs others : List (Value κ × Value κ)} {t u : Table Key (Value κ)}

theorem nil : Filled [] (.empty : Table Key (Value κ)) :=
  ⟨List.Pairwise.nil, fun _ => ⟨[], .nil⟩⟩

theorem insert (h : Filled pairs t) {k v : Value κ} {key : Key} (hk : k.key? = some key) :
    Filled (pairs ++ [(k, v)]) (t.insert key v) := by
  refine ⟨h.ordered.insert key v, ?_⟩
  intro l
  rw [Table.get?_insert]
  split_ifs with hl
  · subst hl
    exact ⟨[], Latest.append_said _ ⟨hk, rfl⟩⟩
  · obtain ⟨after, ha⟩ := h.leaves l
    refine ⟨_, ha.append_silent ?_⟩
    rintro found ⟨hc, -⟩
    cases hk.symm.trans hc
    exact hl rfl

/-- The last values determine the table. -/
theorem eq (ht : Filled pairs t) (hu : Filled others u)
    (h : ∀ k found, Leaves pairs k found ↔ Leaves others k found) : t = u := by
  refine ht.ordered.ext hu.ordered ?_
  intro k
  exact ((h k _).mp (ht.leaves k)).unique (hu.leaves k)

end Filled

/-- The pairs with their keys as such. Values that can be none are left out. -/
def entries (pairs : List (Value κ × Value κ)) : List (Key × Value κ) :=
  pairs.filterMap fun p => p.1.key?.map (·, p.2)

theorem entries_cons {k : Value κ} {key : Key} (hk : k.key? = some key) (v : Value κ)
    (pairs : List (Value κ × Value κ)) :
    entries ((k, v) :: pairs) = (key, v) :: entries pairs := by
  simp [entries, hk]

theorem ofList_entries_append {k : Value κ} {key : Key} (hk : k.key? = some key) (v : Value κ)
    (pairs : List (Value κ × Value κ)) :
    Table.ofList (entries (pairs ++ [(k, v)])) = (Table.ofList (entries pairs)).insert key v := by
  simp [entries, hk, Table.ofList]

section
variable {pairs others : List (Value κ × Value κ)}

theorem filled_ofList (h : Keyed pairs) : Filled pairs (.ofList (entries pairs)) := by
  induction pairs using List.reverseRecOn with
  | nil => exact .nil
  | append_singleton pairs p ih =>
    obtain ⟨k, v⟩ := p
    obtain ⟨key, hk⟩ := Option.isSome_iff_exists.mp (h (k, v) (by simp))
    rw [ofList_entries_append hk]
    exact (ih fun q hq => h q (List.mem_append_left _ hq)).insert hk

/-- All is inserted if every key can be one. -/
theorem fill_eq (h : Keyed pairs) : fill pairs = .ok (.ofList (entries pairs)) := by
  have hfold : ∀ t, pairs.foldlM (fun t p => put t p.1 p.2) t =
      .ok ((entries pairs).foldl (fun t e => t.insert e.1 e.2) t) := by
    induction pairs with
    | nil =>
      intro t
      rfl
    | cons p pairs ih =>
      intro t
      obtain ⟨k, v⟩ := p
      obtain ⟨hp, hr⟩ := List.forall_mem_cons.mp h
      obtain ⟨key, hk⟩ := Option.isSome_iff_exists.mp hp
      have hput : put t k v = .ok (t.insert key v) := by rw [put, hk]
      rw [List.foldlM_cons, hput, entries_cons hk, List.foldl_cons, ← ih hr]
      rfl
  exact hfold .empty

theorem leaves_iff (h : Keyed pairs) {k : Key} {found : Option (Value κ)} :
    Leaves pairs k found ↔ found = (Table.ofList (entries pairs)).get? k := by
  have hk := (filled_ofList h).leaves k
  refine ⟨fun hl => hl.unique hk, ?_⟩
  rintro rfl
  exact hk

/-- The last values determine the hash. -/
theorem exists_fill_eq (hp : Keyed pairs) (ho : Keyed others)
    (h : ∀ k found, Leaves pairs k found ↔ Leaves others k found) :
    ∃ t, fill pairs = .ok t ∧ fill others = .ok t := by
  refine ⟨_, fill_eq hp, ?_⟩
  rw [(filled_ofList hp).eq (filled_ofList ho) h, fill_eq ho]

/-- Equal last values make equal hashes. -/
theorem exists_fill_alike (hp : Keyed pairs) (ho : Keyed others)
    (h : ∀ k found other, Leaves pairs k found → Leaves others k other →
      Option.Rel Alike found other) :
    ∃ t u, fill pairs = .ok t ∧ fill others = .ok u ∧ Alike (.hash t) (.hash u) := by
  refine ⟨_, _, fill_eq hp, fill_eq ho, ?_⟩
  have hr (k : Key) := h k _ _ ((filled_ofList hp).leaves k) ((filled_ofList ho).leaves k)
  exact .of_rel hr

theorem eachHash_fill (hk : Keyed pairs) (h : ∀ p ∈ pairs, p.2.EachHash Table.Ordered)
    {t : Table Key (Value κ)} (ht : fill pairs = .ok t) : EachHash Table.Ordered (.hash t) := by
  cases (fill_eq hk).symm.trans ht
  refine .hash (filled_ofList hk).ordered (Table.forall_ofList ?_)
  intro e he
  obtain ⟨p, hp, hm⟩ := List.mem_filterMap.mp he
  obtain ⟨key, -, rfl⟩ := Option.map_eq_some_iff.mp hm
  exact h p hp

end

end Value

namespace Script

variable {κ : Type}

/--
What the pairs of a hash come to from left to right, and what is said in the course of it. A key is
seen to be one before its value is evaluated.
-/
inductive Expr.PairsCome (calls : Calls κ) (names : Names κ) :
    List (Expr × Expr) → List (Value κ × Value κ) → List Message → Prop
  | nil : PairsCome calls names [] [] []
  | cons {k v : Expr} {ps : List (Expr × Expr)} {key value : Value κ}
      {pairs : List (Value κ × Value κ)} {said told log : List Message} :
      (k.eval calls names).report? = some ⟨said, .ok key⟩ → key.key?.isSome →
      (v.eval calls names).report? = some ⟨told, .ok value⟩ → PairsCome calls names ps pairs log →
      PairsCome calls names ((k, v) :: ps) ((key, value) :: pairs) (said ++ (told ++ log))

variable {calls : Calls κ} {names : Names κ} {ps : List (Expr × Expr)} {log : List Message}

theorem Expr.PairsCome.keyed {pairs : List (Value κ × Value κ)}
    (h : PairsCome calls names ps pairs log) : Value.Keyed pairs := by
  induction h with
  | nil => exact List.forall_mem_nil _
  | cons _ hk _ _ ih => exact List.forall_mem_cons.mpr ⟨hk, ih⟩

theorem Expr.report?_evalPairs_eq_ok_iff {es : List (Key × Value κ)} :
    (evalPairs calls names ps).report? = some ⟨log, .ok es⟩ ↔
      ∃ pairs, PairsCome calls names ps pairs log ∧ es = Value.entries pairs := by
  constructor
  · intro h
    induction ps generalizing log es with
    | nil =>
      cases h
      exact ⟨[], .nil, rfl⟩
    | cons p ps ih =>
      obtain ⟨k, v⟩ := p
      rw [evalPairs, Attempt.report?_bind_eq_ok_iff] at h
      obtain ⟨said, key, rest, hk, h, rfl⟩ := h
      cases hkey : key.key? with
      | none =>
        rw [hkey] at h
        cases h
      | some l =>
        simp only [hkey, Attempt.report?_bind_eq_ok_iff] at h
        obtain ⟨told, value, rest, hv, ⟨more, es, last, hes, hd, rfl⟩, rfl⟩ := h
        cases hd
        obtain ⟨pairs, hp, rfl⟩ := ih hes
        refine ⟨(key, value) :: pairs, ?_, (Value.entries_cons hkey value pairs).symm⟩
        rw [List.append_nil]
        exact .cons hk (by rw [hkey]; rfl) hv hp
  · rintro ⟨pairs, h, rfl⟩
    induction h with
    | nil => rfl
    | @cons k v ps key value pairs said told log hk hkey hv _ ih =>
      obtain ⟨l, hl⟩ := Option.isSome_iff_exists.mp hkey
      rw [evalPairs, Attempt.report?_bind_of_ok hk, hl]
      simp only [Attempt.report?_bind_of_ok hv, Attempt.report?_bind_of_ok ih,
        Value.entries_cons hl]
      simp [Attempt.done, Report.after]

/-- A hash is filled with its pairs in the order of the text. -/
theorem Expr.report?_eval_hash_eq_ok_iff {v : Value κ} :
    ((Expr.hash ps).eval calls names).report? = some ⟨log, .ok v⟩ ↔
      ∃ pairs t, PairsCome calls names ps pairs log ∧ Value.fill pairs = .ok t ∧ v = .hash t := by
  rw [eval, Attempt.report?_bind_eq_ok_iff]
  constructor
  · rintro ⟨said, es, told, hes, hd, rfl⟩
    cases hd
    obtain ⟨pairs, hp, rfl⟩ := report?_evalPairs_eq_ok_iff.mp hes
    rw [List.append_nil]
    exact ⟨pairs, _, hp, Value.fill_eq hp.keyed, rfl⟩
  · rintro ⟨pairs, t, hp, ht, rfl⟩
    cases (Value.fill_eq hp.keyed).symm.trans ht
    exact ⟨log, _, [], report?_evalPairs_eq_ok_iff.mpr ⟨pairs, hp, rfl⟩, rfl, by simp⟩

end Script

namespace Value
open Script

/-- What hashes do not remember. -/
structure ForgetsOrder (κ : Type) : Prop where
  /-- Pairs that leave the same under every key fill the same hash. -/
  filled : ∀ pairs others : List (Value κ × Value κ), Keyed pairs → Keyed others →
    (∀ k found, Leaves pairs k found ↔ Leaves others k found) →
      ∃ t, fill pairs = .ok t ∧ fill others = .ok t
  /-- Pairs that leave equal values under every key fill equal hashes. -/
  alike : ∀ pairs others : List (Value κ × Value κ), Keyed pairs → Keyed others →
    (∀ k found other, Leaves pairs k found → Leaves others k other →
      Option.Rel Alike found other) →
        ∃ t u, fill pairs = .ok t ∧ fill others = .ok u ∧ Alike (.hash t) (.hash u)
  /-- Hashes that are filled are ordered, and of such values the equal ones are the same. -/
  ordered : ∀ (pairs : List (Value κ × Value κ)) (t : Table Key (Value κ)), Keyed pairs →
    (∀ p ∈ pairs, p.2.EachHash Table.Ordered) → fill pairs = .ok t →
      EachHash Table.Ordered (.hash t)
  same : ∀ v w : Value κ, v.EachHash Table.Ordered → w.EachHash Table.Ordered →
    (Alike v w ↔ v = w)
  distinct : ∀ v : Value κ, v.EachHash Table.Ordered → v.EachHash Table.Distinct
  /-- In whatever order the pairs of hashes stand, equal values have the same text. -/
  reordered : ∀ entries others : List (Key × Value κ),
    EachHash Table.Distinct (.hash ⟨entries⟩) → entries.Perm others →
      Alike (.hash ⟨entries⟩) (.hash ⟨others⟩)
  text : ∀ v w : Value κ, v.EachHash Table.Distinct → w.EachHash Table.Distinct → Alike v w →
    v.text = w.text
  /-- The hash of a script is filled with the pairs that its pairs come to, in their order. -/
  literal : ∀ (calls : Calls κ) (names : Names κ) (ps : List (Expr × Expr)) (log : List Message)
    (v : Value κ), ((Expr.hash ps).eval calls names).report? = some ⟨log, .ok v⟩ ↔
      ∃ pairs t, Expr.PairsCome calls names ps pairs log ∧ fill pairs = .ok t ∧ v = .hash t

/-- Neither equality nor the text of a value tells the order in which its hashes were filled. -/
theorem hash_forgets_order (κ : Type) : ForgetsOrder κ where
  filled _ _ hp ho h := exists_fill_eq hp ho h
  alike _ _ hp ho h := exists_fill_alike hp ho h
  ordered _ _ hk h ht := eachHash_fill hk h ht
  same _ _ hv hw := alike_iff_eq hv hw
  distinct _ hv := hv.imp fun _ ht => ht.distinct
  reordered _ _ h hp := alike_of_perm h hp
  text _ _ hv hw h := h.text_eq hv hw
  literal _ _ _ _ _ := Expr.report?_eval_hash_eq_ok_iff

/-- Two keys with the same text, one of them twice. -/
def twice : List (Value Empty × Value Empty) :=
  [(.int 1, .null), (.str "1", .bool true), (.int 1, .hash .empty)]

def once : List (Value Empty × Value Empty) :=
  [(.int 1, .hash .empty), (.str "1", .bool true)]

theorem hash_forgets_order_twice : Keyed twice ∧ Keyed once ∧
    ∃ t, fill twice = .ok t ∧ fill once = .ok t := by
  have ht : Keyed twice := by simp [Keyed, twice, key?]
  have ho : Keyed once := by simp [Keyed, once, key?]
  refine ⟨ht, ho, (hash_forgets_order Empty).filled twice once ht ho ?_⟩
  intro k found
  rw [leaves_iff ht, leaves_iff ho]
  rfl

end Value
end Wanda

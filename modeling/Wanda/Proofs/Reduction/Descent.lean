import Wanda.Proofs.Reduction.Vocabulary

/-!
Words that come down from a number to zero one by one, and leave the numbers on the stack. What
they put off until then is done once for each number; a product that is put off gives a factorial.
-/
namespace Wanda.StackMachine
open Atom Text

theorem value?_text {k : Int} (h : fits k = true) : value? (Numeral.text k) = some k := by
  rw [value?, Numeral.value?_text, Option.filter_some, if_pos h]

theorem fits_of_le {k n : Int} (hn : fits n = true) (h0 : 0 ≤ k) (hk : k ≤ n) : fits k = true := by
  simp only [fits, Bool.and_eq_true, decide_eq_true_eq] at hn ⊢
  omega

theorem act?_text {k : Int} (h : fits k = true) (stack : List Atom) :
    act? (Numeral.text k) stack = some (.ok (Numeral.text k :: stack)) := by
  simp [act?, value?_text h]

theorem combine_text (word : Atom) (f : Int → Int → Int) {x y : Int} (hx : fits x = true)
    (hy : fits y = true) (below : List Atom) :
    combine word f (Numeral.text y :: Numeral.text x :: below) =
      some (if fits (f x y) then .ok (Numeral.text (f x y) :: below)
        else .error (overflow (Numeral.text x) (Numeral.text y) word)) := by
  simp [combine, value?_text hx, value?_text hy]

/-- The numbers from `first` on, `count` of them. -/
def numerals (first count : Nat) : List Atom :=
  (List.range' first count).map fun k : Nat => Numeral.text k

theorem numerals_append (first a b : Nat) :
    numerals first (a + b) = numerals first a ++ numerals (first + a) b := by
  rw [numerals, ← List.range'_append_1, List.map_append]
  rfl

theorem numerals_succ (first count : Nat) :
    numerals first (count + 1) = Numeral.text first :: numerals (first + 1) count := rfl

theorem stops_done (words : List Word) (stack : List Atom) :
    Stops words ⟨stack, []⟩ (.ok ⟨stack, []⟩) :=
  .halts (by simp) (by simp [Word.Applies])

/--
A word that comes down from the number on top of the stack. It looks at the sign by another word,
puts `again` off until it is down, and does `last` there.
-/
def descent (name sign : Atom) (again last : List Atom) : List Word :=
  [⟨["0"], sign, "pop" :: last⟩,
    ⟨["1"], sign, "dup" :: "1" :: "-" :: name :: again⟩,
    ⟨[], name, ["dup", "sgn", sign]⟩]

section
variable (name sign : Atom) (again last : List Atom)

theorem moves_to_sign {k : Int} (hk : fits k = true) (stack rest : List Atom) :
    Relation.ReflTransGen (Moves (descent name sign again last))
      ⟨Numeral.text k :: stack, name :: rest⟩
      ⟨Numeral.text k.sign :: Numeral.text k :: stack, sign :: rest⟩ := by
  have hcall : Moves (descent name sign again last) ⟨Numeral.text k :: stack, name :: rest⟩
      ⟨Numeral.text k :: stack, "dup" :: "sgn" :: sign :: rest⟩ :=
    @Moves.expand _ ⟨[], name, ["dup", "sgn", sign]⟩ _ _ (by simp [descent])
  have hsgn : act? "sgn" (Numeral.text k :: Numeral.text k :: stack) =
      some (.ok (Numeral.text k.sign :: Numeral.text k :: stack)) := by
    rw [act?_sgn, value?_text hk]
    rfl
  exact .head hcall (.head (.act (act?_dup _ _)) (.single (.act hsgn)))

theorem moves_at_zero (stack rest : List Atom) :
    Relation.ReflTransGen (Moves (descent name sign again last))
      ⟨Numeral.text 0 :: stack, name :: rest⟩ ⟨stack, last ++ rest⟩ := by
  have hsign := moves_to_sign name sign again last (show fits 0 = true from rfl) stack rest
  have hzero : Moves (descent name sign again last) ⟨"0" :: Numeral.text 0 :: stack, sign :: rest⟩
      ⟨Numeral.text 0 :: stack, "pop" :: (last ++ rest)⟩ :=
    @Moves.expand _ ⟨["0"], sign, "pop" :: last⟩ _ _ (by simp [descent])
  exact hsign.trans (.head hzero (.single (.act (act?_pop _ _))))

theorem moves_down {k : Int} (hk : fits k = true) (hpos : 0 < k) (stack rest : List Atom) :
    Relation.ReflTransGen (Moves (descent name sign again last))
      ⟨Numeral.text k :: stack, name :: rest⟩
      ⟨Numeral.text (k - 1) :: Numeral.text k :: stack, name :: (again ++ rest)⟩ := by
  have hsign := moves_to_sign name sign again last hk stack rest
  rw [Int.sign_eq_one_of_pos hpos] at hsign
  have hone : Moves (descent name sign again last) ⟨"1" :: Numeral.text k :: stack, sign :: rest⟩
      ⟨Numeral.text k :: stack, "dup" :: "1" :: "-" :: name :: (again ++ rest)⟩ :=
    @Moves.expand _ ⟨["1"], sign, "dup" :: "1" :: "-" :: name :: again⟩ _ _ (by simp [descent])
  have hpush := act?_text (show fits 1 = true from rfl) (Numeral.text k :: Numeral.text k :: stack)
  have hsub : act? "-" (Numeral.text 1 :: Numeral.text k :: Numeral.text k :: stack) =
      some (.ok (Numeral.text (k - 1) :: Numeral.text k :: stack)) := by
    have hf : fits (k - 1) = true := fits_of_le hk (by omega) (by omega)
    have hc := combine_text "-" (· - ·) hk (show fits 1 = true from rfl) (Numeral.text k :: stack)
    rw [if_pos hf] at hc
    exact hc
  exact hsign.trans (.head hone (.head (.act (act?_dup _ _)) (.head (.act hpush)
    (.single (.act hsub)))))

theorem moves_to_zero {n : Nat} (hf : fits n = true) (stack rest : List Atom) :
    Relation.ReflTransGen (Moves (descent name sign again last))
      ⟨Numeral.text n :: stack, name :: rest⟩
      ⟨numerals 1 n ++ stack, last ++ ((List.replicate n again).flatten ++ rest)⟩ := by
  induction n generalizing stack rest with
  | zero => exact moves_at_zero name sign again last stack rest
  | succ n ih =>
    have hdown := moves_down name sign again last hf (by omega) stack rest
    rw [Nat.cast_succ, add_sub_cancel_right, ← Nat.cast_succ] at hdown
    have hle : fits n = true := fits_of_le hf (by omega) (by omega)
    have hrest := ih hle (Numeral.text (n + 1 : Nat) :: stack) (again ++ rest)
    have hnum : numerals 1 (n + 1) ++ stack =
        numerals 1 n ++ Numeral.text (n + 1 : Nat) :: stack := by
      rw [numerals_append, List.append_assoc, numerals_succ, Nat.add_comm 1 n]
      rfl
    have hrep : (List.replicate (n + 1) again).flatten ++ rest =
        (List.replicate n again).flatten ++ (again ++ rest) := by
      simp [List.replicate_succ']
    rw [hnum, hrep]
    exact hdown.trans hrest

/-- Where the number is negative there is no way down. -/
theorem stops_below {k : Int} (hk : k < 0) (hn : name ≠ sign)
    (hsign : ∀ stack, act? sign stack = none) (stack rest : List Atom) :
    Stops (descent name sign again last)
      ⟨Numeral.text k.sign :: stack, sign :: rest⟩
      (.ok ⟨Numeral.text k.sign :: stack, sign :: rest⟩) := by
  refine .halts ?_ ?_
  · rintro word tail ⟨rfl, rfl⟩
    exact hsign _
  · have ht : Numeral.text k.sign = "-1" := by
      rw [Int.sign_eq_neg_one_of_neg hk]
      rfl
    intro w hw ha
    simp only [descent, List.mem_cons, List.not_mem_nil, or_false] at hw
    rcases hw with rfl | rfl | rfl
    · simp [Word.Applies, ht] at ha
    · simp [Word.Applies, ht] at ha
    · simp [Word.Applies, hn] at ha

theorem unambiguous_descent (hn : name ≠ sign) :
    ∀ v ∈ descent name sign again last, ∀ w ∈ descent name sign again last, ∀ c,
      v.Applies c → w.Applies c → v = w := by
  rintro v hv w hw ⟨stack, program⟩ ⟨hvs, hvp⟩ ⟨hws, hwp⟩
  have hname : v.name = w.name := by
    simpa using List.prefix_of_prefix_length_le hvp hwp (by simp)
  simp only [descent, List.mem_cons, List.not_mem_nil, or_false] at hv hw
  rcases hv with rfl | rfl | rfl <;> rcases hw with rfl | rfl | rfl
  · rfl
  · simpa using List.prefix_of_prefix_length_le hvs hws (by simp)
  · exact absurd hname.symm hn
  · simpa using List.prefix_of_prefix_length_le hvs hws (by simp)
  · rfl
  · exact absurd hname.symm hn
  · exact absurd hname hn
  · exact absurd hname hn
  · rfl

theorem coherent_descent (hn : name ≠ sign) (hname : ∀ stack, act? name stack = none)
    (hsign : ∀ stack, act? sign stack = none)
    (hu : ∀ a ∈ name :: sign :: (again ++ last), isReserved a = false) :
    Coherent (descent name sign again last) := by
  have hb : ∀ a ∈ ["0", "1", "pop", "dup", "-", "sgn"], isReserved a = false := by decide
  refine ⟨?_, unambiguous_descent name sign again last hn⟩
  intro w hw
  simp only [descent, List.mem_cons, List.not_mem_nil, or_false] at hw
  simp only [List.forall_mem_cons, List.forall_mem_append] at hu hb
  rcases hw with rfl | rfl | rfl
  · exact ⟨hsign, by simp_all⟩
  · exact ⟨hsign, by simp_all⟩
  · exact ⟨hname, by simp_all⟩

end

theorem fits_factorial {k : Nat} (h : k ≤ 20) : fits (k.factorial : Nat) = true := by
  have hle : k.factorial ≤ Nat.factorial 20 := Nat.factorial_le h
  have h20 : Nat.factorial 20 = 2432902008176640000 := by decide
  simp only [fits, Bool.and_eq_true, decide_eq_true_eq]
  omega

/-- Numbers in a row under a factorial are multiplied to the next factorials. -/
theorem moves_product (words : List Word) {k count : Nat} (h : k + count ≤ 20)
    (stack rest : List Atom) :
    Relation.ReflTransGen (Moves words)
      ⟨Numeral.text (k.factorial : Nat) :: (numerals (k + 1) count ++ stack),
        List.replicate count "*" ++ rest⟩
      ⟨Numeral.text ((k + count).factorial : Nat) :: stack, rest⟩ := by
  induction count generalizing k with
  | zero => exact .refl
  | succ count ih =>
    have hnext := ih (k := k + 1) (by omega)
    rw [show k + 1 + count = k + (count + 1) by omega] at hnext
    have hk1 : fits (k + 1 : Nat) = true := by
      simp only [fits, Bool.and_eq_true, decide_eq_true_eq]
      omega
    have hf : ((k + 1 : Nat) : Int) * (k.factorial : Nat) = ((k + 1).factorial : Nat) := by
      rw [Nat.factorial_succ, Nat.cast_mul]
    have hc := combine_text "*" (· * ·) hk1 (fits_factorial (show k ≤ 20 by omega))
      (numerals (k + 2) count ++ stack)
    simp only [hf] at hc
    rw [if_pos (fits_factorial (by omega))] at hc
    exact .head (.act hc) hnext

end Wanda.StackMachine

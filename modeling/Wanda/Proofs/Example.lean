import Wanda.Example
import Wanda.Proofs.Reduction.Descent
import Wanda.Proofs.Reduction.Provenance

/-!
The recursive examples, with any number in place of their argument. The factorial is right up to
twenty and then overflows in one and the same product; the countdown has no such limit.
-/
namespace Wanda.Program
open Atom Text Reduction

/-- The source is a program, and reducing its atoms comes to this end. -/
def Evaluates (source : String) (result : Except StageError (List Atom)) : Prop :=
  ∃ atoms outcome, read source = .ok atoms ∧ Yields atoms outcome ∧
    outcome.mapError Fault.stageError = result

/-- Programs on both sides of a blank are one program. -/
theorem read_append_blank {s t : String} {a b : List Atom} (hs : read s = .ok a)
    (ht : read t = .ok b) (gap : String) {blank : Char} (hg : gap.toList = [blank])
    (hb : isBlank blank = true) : read (s ++ gap ++ t) = .ok (a ++ b) := by
  rw [read_eq_ok_iff_check, check_eq_ok_iff] at hs ht ⊢
  obtain ⟨hsplit, hlegal, hitems⟩ := hs
  obtain ⟨hsplit', hlegal', hitems'⟩ := ht
  refine ⟨?_, List.forall_mem_append.mpr ⟨hlegal, hlegal'⟩, hitems.append hitems'⟩
  have hl : (s ++ gap ++ t).toList = s.toList ++ blank :: t.toList := by simp [hg]
  rw [split, hl, words_append_blank hb, List.map_append]
  exact congrArg₂ (· ++ ·) hsplit hsplit'

/-- A text, and then definitions, each on a line of its own. -/
def onLines (text : String) : List (List Atom) → String
  | [] => text
  | d :: definitions => onLines (text ++ "\n" ++ render d) definitions

theorem read_onLines {text : String} {atoms : List Atom} {definitions : List (List Atom)}
    (ht : read text = .ok atoms) (hd : ∀ d ∈ definitions, check d = .ok ()) :
    read (onLines text definitions) = .ok (atoms ++ definitions.flatten) := by
  induction definitions generalizing text atoms with
  | nil => rwa [List.flatten_nil, List.append_nil]
  | cons d definitions ih =>
    rw [List.forall_mem_cons] at hd
    have hline := read_append_blank ht (read_render hd.1) "\n" rfl (by decide)
    rw [List.flatten_cons, ← List.append_assoc]
    exact ih hline hd.2

theorem read_ofInt64 (n : Int64) : read (ofInt64 n) = .ok [ofInt64 n] := by
  rw [read_eq_ok_iff_check, check_eq_ok_iff, split, words_of_legal (legal_ofInt64 n)]
  have hi : Itemized [ofInt64 n] := itemized_of_plain (by simpa using isPlain_ofInt64 n)
  exact ⟨by simp, by simpa using legal_ofInt64 n, hi⟩

end Wanda.Program

namespace Wanda.Example
open Atom Program Reduction StackMachine Text

/-- The source with a number for each occurrence of a digit. -/
def withArgument (e : Example) (digit : Char) (n : Int64) : String :=
  String.ofList (e.source.toList.flatMap fun c => if c = digit then (ofInt64 n).toList else [c])

/-- The digit of an example stands for its own argument. -/
theorem withArgument_self (e : Example) {digit : Char} {n : Int64}
    (h : (ofInt64 n).toList = [digit]) : e.withArgument digit n = e.source := by
  have hf : (fun c => if c = digit then (ofInt64 n).toList else [c]) = fun c => [c] := by
    funext c
    split_ifs with hc
    · rw [h, hc]
    · rfl
  rw [withArgument, hf, List.flatMap_singleton', String.ofList_toList]

theorem flatMap_of_notMem {digit : Char} {cs : List Char} (h : digit ∉ cs) (ds : List Char) :
    (cs.flatMap fun c => if c = digit then ds else [c]) = cs := by
  induction cs with
  | nil => rfl
  | cons c cs ih =>
    rw [List.mem_cons, not_or] at h
    rw [List.flatMap_cons, if_neg (Ne.symm h.1), ih h.2, List.singleton_append]

theorem withArgument_eq {e : Example} {digit : Char} {before after : String}
    (hs : e.source = before ++ String.singleton digit ++ after) (hb : digit ∉ before.toList)
    (ha : digit ∉ after.toList) (n : Int64) :
    e.withArgument digit n = before ++ ofInt64 n ++ after := by
  rw [withArgument, hs, String.toList_append, String.toList_append, String.toList_singleton,
    List.flatMap_append, List.flatMap_append, flatMap_of_notMem hb, flatMap_of_notMem ha]
  simp [String.append_assoc]

theorem read_withArgument {e : Example} {digit : Char} {definitions : List (List Atom)}
    {after : String} {back : List Atom}
    (hs : e.source = onLines "$" definitions ++ "\n" ++ String.singleton digit ++ (" " ++ after))
    (hb : (onLines "$" definitions ++ "\n").toList.contains digit = false)
    (ha : (" " ++ after).toList.contains digit = false)
    (hd : ∀ d ∈ definitions, check d = .ok ()) (hk : read after = .ok back) (n : Int64) :
    read (e.withArgument digit n) = .ok (cursor :: (definitions.flatten ++ ofInt64 n :: back)) := by
  have hcursor : read "$" = .ok [cursor] := @read_render [cursor] (by decide)
  have hfront := read_append_blank (read_onLines hcursor hd) (read_ofInt64 n) "\n" rfl
    (by decide)
  have hread := read_append_blank hfront hk " " rfl (by decide)
  rw [withArgument_eq hs (by simpa using hb) (by simpa using ha), ← String.append_assoc]
  simpa using hread

/-- The words that the factorial defines. -/
def factorialWords : List Word :=
  descent "fact" "fact/sgn" ["*"] ["1"]

/-- The words that the countdown defines. -/
def countdownWords : List Word :=
  descent "countdown" "countdown/sgn" [] []

theorem read_factorial (n : Int64) :
    read (factorial.withArgument '5' n) =
      .ok (cursor :: ((factorialWords.map Word.definition).reverse.flatten ++
        [ofInt64 n, "fact"])) := by
  have hk : read "fact\n" = .ok ["fact"] := by cbv
  exact read_withArgument rfl (by cbv) (by cbv) (by decide) hk n

theorem read_countdown (n : Int64) :
    read (countdown.withArgument '3' n) =
      .ok (cursor :: ((countdownWords.map Word.definition).reverse.flatten ++
        [ofInt64 n, "countdown"])) := by
  have hk : read "countdown\n" = .ok ["countdown"] := by cbv
  exact read_withArgument rfl (by cbv) (by cbv) (by decide) hk n

theorem coherent_factorial : Coherent factorialWords := by
  refine coherent_descent "fact" "fact/sgn" ["*"] ["1"] (by decide) ?_ ?_ (by decide)
  · intro stack
    cases stack <;> rfl
  · intro stack
    cases stack <;> rfl

theorem coherent_countdown : Coherent countdownWords := by
  refine coherent_descent "countdown" "countdown/sgn" [] [] (by decide) ?_ ?_ (by decide)
  · intro stack
    cases stack <;> rfl
  · intro stack
    cases stack <;> rfl

/-- A source that defines words and has one of them act on a number does what the machine does. -/
theorem evaluates_of_moves {words : List Word} (hw : Coherent words) {source : String} {n : Int64}
    {name : Atom}
    (hr : read source = .ok (cursor :: ((words.map Word.definition).reverse.flatten ++
      [ofInt64 n, name]))) (hn : isReserved name = false) {d : Config}
    {result : Except StageError Config}
    (hm : Relation.ReflTransGen (Moves words) ⟨[ofInt64 n], [name]⟩ d) (hs : Stops words d result) :
    Evaluates source (result.map Config.atoms) := by
  have hpush : Moves words ⟨[], [ofInt64 n, name]⟩ ⟨[ofInt64 n], [name]⟩ :=
    .act (act?_integer (integer?_ofInt64 n) [])
  have hc : Config.Plain ⟨[], [ofInt64 n, name]⟩ := by
    have hne {a : Atom} (ha : isReserved a = true) (hv : Numeral.value? a.toList = none) :
        a ∉ [ofInt64 n, name] := by
      simp only [List.mem_cons, List.not_mem_nil, or_false, not_or]
      refine ⟨(Numeral.text_ne hv n.toInt).symm, ?_⟩
      rintro rfl
      rw [hn] at ha
      cases ha
    exact ⟨by simp, hne rfl rfl, hne rfl rfl⟩
  obtain ⟨outcome, hy, ho⟩ := exists_yields_of_moves hw hc (.head hpush hm) hs
  exact ⟨_, outcome, hr, hy, ho⟩

/-- On its way down the factorial puts a product off for each number. -/
theorem moves_factorial {k : Nat} (hf : fits k = true) :
    Relation.ReflTransGen (Moves factorialWords) ⟨[Numeral.text k], ["fact"]⟩
      ⟨Numeral.text (Nat.factorial 0 : Nat) :: numerals 1 k, List.replicate k "*"⟩ := by
  have hdown := moves_to_zero "fact" "fact/sgn" ["*"] ["1"] hf [] []
  rw [List.append_nil, List.append_nil, List.flatten_replicate_singleton] at hdown
  have hpush := act?_text (show fits 1 = true from rfl) (numerals 1 k)
  exact hdown.tail (.act hpush)

theorem evaluates_factorial {n : Int64} {k : Nat} (hn : n.toInt = k) (hk : k ≤ 20) :
    Evaluates (factorial.withArgument '5' n) (.ok [Numeral.text (k.factorial : Nat), cursor]) := by
  have hf : fits k = true := fits_iff.mpr ⟨n, hn⟩
  have hup := moves_product factorialWords (show 0 + k ≤ 20 by omega) [] []
  rw [List.append_nil, List.append_nil, Nat.zero_add, Nat.zero_add] at hup
  have hm := (moves_factorial hf).trans hup
  rw [← hn] at hm
  exact evaluates_of_moves coherent_factorial (read_factorial n) (by decide) hm (stops_done _ _)

theorem evaluates_factorial_overflow {n : Int64} {k : Nat} (hn : n.toInt = k) (hk : 21 ≤ k) :
    Evaluates (factorial.withArgument '5' n)
      (.error (.evaluation "integer overflow in `21 2432902008176640000 $ *`")) := by
  obtain ⟨m, rfl⟩ : ∃ m, k = 20 + (m + 1) := ⟨k - 21, by omega⟩
  have hf : fits (20 + (m + 1) : Nat) = true := fits_iff.mpr ⟨n, hn⟩
  have hnum : numerals 1 (20 + (m + 1)) = numerals 1 20 ++ Numeral.text 21 :: numerals 22 m := by
    rw [numerals_append, numerals_succ]
    rfl
  have hrep : List.replicate (20 + (m + 1)) "*" =
      List.replicate 20 "*" ++ "*" :: List.replicate m "*" := by
    rw [List.replicate_add]
    rfl
  have hup := moves_product factorialWords (show 0 + 20 ≤ 20 by omega)
    (Numeral.text 21 :: numerals 22 m) ("*" :: List.replicate m "*")
  have hm := moves_factorial hf
  rw [hnum, hrep] at hm
  have hover : act? "*"
      (Numeral.text (Nat.factorial 20 : Nat) :: Numeral.text 21 :: numerals 22 m) =
      some (.error (.evaluation "integer overflow in `21 2432902008176640000 $ *`")) := by
    have hc := combine_text "*" (· * ·) (show fits 21 = true from rfl)
      (fits_factorial (show 20 ≤ 20 by omega)) (numerals 22 m)
    rw [if_neg (by decide)] at hc
    exact hc
  have hall := hm.trans hup
  rw [← hn] at hall
  exact evaluates_of_moves coherent_factorial (read_factorial n) (by decide) hall (.fails hover)

theorem evaluates_below {name sign : Atom} {again last : List Atom}
    (hw : Coherent (descent name sign again last)) (hd : name ≠ sign) {source : String} {n : Int64}
    (hr : read source = .ok (cursor ::
      (((descent name sign again last).map Word.definition).reverse.flatten ++ [ofInt64 n, name])))
    (hu : isReserved name = false) (hn : n.toInt < 0) :
    Evaluates source (.ok [ofInt64 n, "-1", cursor, sign]) := by
  have hsign : ∀ stack, act? sign stack = none :=
    (hw.proper ⟨["0"], sign, "pop" :: last⟩ (by simp [descent])).name
  have hm := moves_to_sign name sign again last (fits_iff.mpr ⟨n, rfl⟩) [] []
  have hs := stops_below name sign again last hn hd hsign [ofInt64 n] []
  have he := evaluates_of_moves hw hr hu hm hs
  rwa [Int.sign_eq_neg_one_of_neg hn] at he

theorem evaluates_countdown {n : Int64} {k : Nat} (hn : n.toInt = k) :
    Evaluates (countdown.withArgument '3' n) (.ok ((numerals 1 k).reverse ++ [cursor])) := by
  have hm := moves_to_zero "countdown" "countdown/sgn" [] [] (fits_iff.mpr ⟨n, hn⟩) [] []
  rw [List.append_nil, List.append_nil, List.flatten_replicate_nil, ← hn] at hm
  exact evaluates_of_moves coherent_countdown (read_countdown n) (by decide) hm (stops_done _ _)

/--
The factorial example gives the factorial of every argument up to twenty and overflows at the same
product for every larger one; the countdown example counts down from every argument. Both stop at
the sign of a negative one.
-/
theorem recursive_examples_for_all_arguments (n : Int64) :
    (0 ≤ n.toInt → n.toInt ≤ 20 → Evaluates (factorial.withArgument '5' n)
      (.ok [Numeral.text (n.toInt.toNat.factorial : Nat), cursor])) ∧
    (21 ≤ n.toInt → Evaluates (factorial.withArgument '5' n)
      (.error (.evaluation "integer overflow in `21 2432902008176640000 $ *`"))) ∧
    (n.toInt < 0 → Evaluates (factorial.withArgument '5' n)
      (.ok [ofInt64 n, "-1", cursor, "fact/sgn"])) ∧
    (0 ≤ n.toInt → Evaluates (countdown.withArgument '3' n)
      (.ok (((List.range' 1 n.toInt.toNat).map fun k : Nat => Numeral.text k).reverse ++
        [cursor]))) ∧
    (n.toInt < 0 → Evaluates (countdown.withArgument '3' n)
      (.ok [ofInt64 n, "-1", cursor, "countdown/sgn"])) := by
  have hnat (h : 0 ≤ n.toInt) : n.toInt = n.toInt.toNat := (Int.toNat_of_nonneg h).symm
  refine ⟨?_, ?_, ?_, ?_, ?_⟩
  · intro h0 h20
    exact evaluates_factorial (hnat h0) (by omega)
  · intro h21
    exact evaluates_factorial_overflow (hnat (by omega)) (by omega)
  · exact evaluates_below coherent_factorial (by decide) (read_factorial n) (by decide)
  · intro h0
    exact evaluates_countdown (hnat h0)
  · exact evaluates_below coherent_countdown (by decide) (read_countdown n) (by decide)

theorem recursive_examples_for_all_arguments_extremes :
    (0 ≤ (20 : Int64).toInt ∧ (20 : Int64).toInt ≤ 20 ∧
      Evaluates (factorial.withArgument '5' 20) (.ok ["2432902008176640000", "$"])) ∧
    (21 ≤ Int64.maxValue.toInt ∧ Evaluates (factorial.withArgument '5' Int64.maxValue)
      (.error (.evaluation "integer overflow in `21 2432902008176640000 $ *`"))) ∧
    (Int64.minValue.toInt < 0 ∧ Evaluates (factorial.withArgument '5' Int64.minValue)
      (.ok ["-9223372036854775808", "-1", "$", "fact/sgn"])) ∧
    (0 ≤ (3 : Int64).toInt ∧ Evaluates countdown.source (.ok ["3", "2", "1", "$"])) ∧
    ((-1 : Int64).toInt < 0 ∧ Evaluates (countdown.withArgument '3' (-1))
      (.ok ["-1", "-1", "$", "countdown/sgn"])) := by
  refine ⟨⟨by decide, by decide, ?_⟩, ⟨by decide, ?_⟩, ⟨by decide, ?_⟩, ⟨by decide, ?_⟩,
    ⟨by decide, ?_⟩⟩
  · exact (recursive_examples_for_all_arguments 20).1 (by decide) (by decide)
  · exact (recursive_examples_for_all_arguments Int64.maxValue).2.1 (by decide)
  · exact (recursive_examples_for_all_arguments Int64.minValue).2.2.1 (by decide)
  · rw [← withArgument_self countdown (show (ofInt64 3).toList = ['3'] by decide)]
    exact (recursive_examples_for_all_arguments 3).2.2.2.1 (by decide)
  · exact (recursive_examples_for_all_arguments (-1)).2.2.2.2 (by decide)

end Wanda.Example

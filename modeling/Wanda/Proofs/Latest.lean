/-! What counts of a list of events: the last of them that says anything. -/
namespace Wanda

variable {α β : Type} {R : α → β → Prop} {start b c : β} {x : α} {xs after : List α}

/--
The last event that says something says `b`, and the events `after` came after it. Where none says
anything it is `start`, and all events came after that.
-/
inductive Latest (R : α → β → Prop) (start : β) (xs : List α) : β → List α → Prop
  | silent : (∀ x ∈ xs, ∀ b, ¬ R x b) → Latest R start xs start xs
  | said {before after : List α} {x : α} {b : β} :
      xs = before ++ x :: after → R x b → (∀ y ∈ after, ∀ c, ¬ R y c) → Latest R start xs b after

namespace Latest

theorem nil : Latest R start [] start [] :=
  .silent (by simp)

theorem append_said (xs : List α) (h : R x b) : Latest R start (xs ++ [x]) b [] :=
  .said rfl h (by simp)

theorem append_silent (h : Latest R start xs b after) (hx : ∀ c, ¬ R x c) :
    Latest R start (xs ++ [x]) b (after ++ [x]) := by
  have hmore {ys : List α} (hy : ∀ y ∈ ys, ∀ c, ¬ R y c) : ∀ y ∈ ys ++ [x], ∀ c, ¬ R y c := by
    intro y hm
    rcases List.mem_append.mp hm with hm | hm
    · exact hy y hm
    · rw [List.mem_singleton.mp hm]
      exact hx
  cases h with
  | silent hs => exact .silent (hmore hs)
  | @said before after y b he hb hs =>
    have he' : xs ++ [x] = before ++ y :: (after ++ [x]) := by simp [he]
    exact .said he' hb (hmore hs)

/-- Two events that say something cannot both be the last. -/
private theorem eq_of_append_cons {before before' after' : List α} {y : α}
    (h : before ++ x :: after = before' ++ y :: after') (ha : x ∉ after') (hb : y ∉ after) :
    x = y ∧ after = after' := by
  rcases List.append_eq_append_iff.mp h with ⟨as, -, hr⟩ | ⟨as, -, hr⟩
  · cases as with
    | nil => exact List.cons.inj hr
    | cons a as =>
      cases hr
      exact absurd (by simp) hb
  · cases as with
    | nil =>
      obtain ⟨hx, ha⟩ := List.cons.inj hr
      exact ⟨hx.symm, ha.symm⟩
    | cons a as =>
      cases hr
      exact absurd (by simp) ha

theorem unique {after' : List α} (hR : ∀ x b c, R x b → R x c → b = c)
    (h : Latest R start xs b after) (h' : Latest R start xs c after') :
    b = c ∧ after = after' := by
  cases h with
  | silent hs =>
    cases h' with
    | silent => exact ⟨rfl, rfl⟩
    | @said before' after' y c he hy _ =>
      exact absurd hy (hs y (by simp [he]) c)
  | @said before after x b he hx ha =>
    cases h' with
    | silent hs => exact absurd hx (hs x (by simp [he]) b)
    | @said before' after' y c he' hy ha' =>
      have hxn : x ∉ after' := fun hm => ha' x hm b hx
      have hyn : y ∉ after := fun hm => ha y hm c hy
      obtain ⟨rfl, ha⟩ := eq_of_append_cons (he.symm.trans he') hxn hyn
      exact ⟨hR x b c hx hy, ha⟩

end Latest
end Wanda

import Wanda.Value.Basic

/-! Equality of values is decidable; equal hashes hold equal values under equal keys. -/

namespace Wanda.Value

variable {κ : Type}

mutual

def decEq [DecidableEq κ] : (v w : Value κ) → Decidable (v = w)
  | int a, int b => decidable_of_iff (a = b) (by simp)
  | str a, str b => decidable_of_iff (a = b) (by simp)
  | bool a, bool b => decidable_of_iff (a = b) (by simp)
  | null, null => isTrue rfl
  | array a, array b =>
    have := decEqList a b
    decidable_of_iff (a = b) (by simp)
  | hash ⟨a⟩, hash ⟨b⟩ =>
    have := decEqPairs a b
    decidable_of_iff (a = b) (by simp)
  | returning a, returning b =>
    have := a.decEq b
    decidable_of_iff (a = b) (by simp)
  | builtin a, builtin b => decidable_of_iff (a = b) (by simp)
  | int _, str _ | int _, bool _ | int _, null | int _, array _ | int _, hash _
  | int _, returning _ | int _, builtin _ => isFalse nofun
  | str _, int _ | str _, bool _ | str _, null | str _, array _ | str _, hash _
  | str _, returning _ | str _, builtin _ => isFalse nofun
  | bool _, int _ | bool _, str _ | bool _, null | bool _, array _ | bool _, hash _
  | bool _, returning _ | bool _, builtin _ => isFalse nofun
  | null, int _ | null, str _ | null, bool _ | null, array _ | null, hash _
  | null, returning _ | null, builtin _ => isFalse nofun
  | array _, int _ | array _, str _ | array _, bool _ | array _, null | array _, hash _
  | array _, returning _ | array _, builtin _ => isFalse nofun
  | hash _, int _ | hash _, str _ | hash _, bool _ | hash _, null | hash _, array _
  | hash _, returning _ | hash _, builtin _ => isFalse nofun
  | returning _, int _ | returning _, str _ | returning _, bool _ | returning _, null
  | returning _, array _ | returning _, hash _ | returning _, builtin _ => isFalse nofun
  | builtin _, int _ | builtin _, str _ | builtin _, bool _ | builtin _, null
  | builtin _, array _ | builtin _, hash _ | builtin _, returning _ => isFalse nofun

def decEqList [DecidableEq κ] : (vs ws : List (Value κ)) → Decidable (vs = ws)
  | [], [] => isTrue rfl
  | v :: vs, w :: ws =>
    have := v.decEq w
    have := decEqList vs ws
    decidable_of_iff (v = w ∧ vs = ws) (by simp)
  | [], _ :: _ | _ :: _, [] => isFalse nofun

def decEqPairs [DecidableEq κ] : (ps qs : List (Key × Value κ)) → Decidable (ps = qs)
  | [], [] => isTrue rfl
  | (k, v) :: ps, (l, w) :: qs =>
    have := v.decEq w
    have := decEqPairs ps qs
    decidable_of_iff ((k = l ∧ v = w) ∧ ps = qs) (by simp)
  | [], _ :: _ | _ :: _, [] => isFalse nofun

end

instance [DecidableEq κ] : DecidableEq (Value κ) :=
  decEq

end Wanda.Value

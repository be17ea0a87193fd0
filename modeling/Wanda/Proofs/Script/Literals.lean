import Wanda.Script.Tree
import Mathlib.Data.List.Basic

/-! The strings in a script: their contents, in order, and the script with other contents. -/
namespace Wanda.Script

mutual

def Expr.literals : Expr → List String
  | .str s => [s]
  | .array es => Expr.listLiterals es
  | .hash ps => Expr.pairLiterals ps
  | .call f args => f.literals ++ Expr.listLiterals args
  | .name _ | .int _ | .bool _ | .null => []

def Expr.listLiterals : List Expr → List String
  | [] => []
  | e :: es => e.literals ++ Expr.listLiterals es

def Expr.pairLiterals : List (Expr × Expr) → List String
  | [] => []
  | (k, v) :: ps => k.literals ++ (v.literals ++ Expr.pairLiterals ps)

end

def Statement.literals : Statement → List String
  | .binding _ e | .result e | .expr e => e.literals

/-- The contents of the strings in a script. -/
def literals (script : Script) : List String :=
  script.flatMap Statement.literals

mutual

def Expr.mapLiterals (f : String → String) : Expr → Expr
  | .str s => .str (f s)
  | .array es => .array (Expr.mapList f es)
  | .hash ps => .hash (Expr.mapPairs f ps)
  | .call g args => .call (g.mapLiterals f) (Expr.mapList f args)
  | .name s => .name s
  | .int n => .int n
  | .bool b => .bool b
  | .null => .null

def Expr.mapList (f : String → String) : List Expr → List Expr
  | [] => []
  | e :: es => e.mapLiterals f :: Expr.mapList f es

def Expr.mapPairs (f : String → String) : List (Expr × Expr) → List (Expr × Expr)
  | [] => []
  | (k, v) :: ps => (k.mapLiterals f, v.mapLiterals f) :: Expr.mapPairs f ps

end

def Statement.mapLiterals (f : String → String) : Statement → Statement
  | .binding name e => .binding name (e.mapLiterals f)
  | .result e => .result (e.mapLiterals f)
  | .expr e => .expr (e.mapLiterals f)

/-- The script with another content for each string in it. -/
def mapLiterals (f : String → String) (script : Script) : Script :=
  script.map (Statement.mapLiterals f)

section
variable (f : String → String)

mutual

theorem Expr.mapLiterals_eq_self_iff :
    ∀ e : Expr, e.mapLiterals f = e ↔ ∀ s ∈ e.literals, f s = s
  | .str _ | .name _ | .int _ | .bool _ | .null => by simp [Expr.mapLiterals, Expr.literals]
  | .array es => by simp [Expr.mapLiterals, Expr.literals, Expr.mapList_eq_self_iff es]
  | .hash ps => by simp [Expr.mapLiterals, Expr.literals, Expr.mapPairs_eq_self_iff ps]
  | .call g args => by
    simp only [Expr.mapLiterals, Expr.literals, Expr.call.injEq, List.forall_mem_append,
      Expr.mapLiterals_eq_self_iff g, Expr.mapList_eq_self_iff args]

theorem Expr.mapList_eq_self_iff :
    ∀ es : List Expr, Expr.mapList f es = es ↔ ∀ s ∈ Expr.listLiterals es, f s = s
  | [] => by simp [Expr.mapList, Expr.listLiterals]
  | e :: es => by
    simp only [Expr.mapList, Expr.listLiterals, List.cons.injEq, List.forall_mem_append,
      Expr.mapLiterals_eq_self_iff e, Expr.mapList_eq_self_iff es]

theorem Expr.mapPairs_eq_self_iff :
    ∀ ps : List (Expr × Expr), Expr.mapPairs f ps = ps ↔ ∀ s ∈ Expr.pairLiterals ps, f s = s
  | [] => by simp [Expr.mapPairs, Expr.pairLiterals]
  | (k, v) :: ps => by
    simp only [Expr.mapPairs, Expr.pairLiterals, List.cons.injEq, Prod.mk.injEq,
      List.forall_mem_append, Expr.mapLiterals_eq_self_iff k, Expr.mapLiterals_eq_self_iff v,
      Expr.mapPairs_eq_self_iff ps, and_assoc]

end

theorem Statement.mapLiterals_eq_self_iff (s : Statement) :
    s.mapLiterals f = s ↔ ∀ t ∈ s.literals, f t = t := by
  cases s <;> simp [mapLiterals, literals, Expr.mapLiterals_eq_self_iff]

theorem mapLiterals_eq_self_iff (script : Script) :
    mapLiterals f script = script ↔ ∀ t ∈ literals script, f t = t := by
  induction script with
  | nil => simp [mapLiterals, literals]
  | cons s script ih =>
    rw [mapLiterals, List.map_cons, List.cons.injEq, Statement.mapLiterals_eq_self_iff,
      ← mapLiterals, ih, literals, literals, List.flatMap_cons, List.forall_mem_append]

mutual

theorem Expr.literals_mapLiterals :
    ∀ e : Expr, (e.mapLiterals f).literals = e.literals.map f
  | .str _ | .name _ | .int _ | .bool _ | .null => rfl
  | .array es => Expr.listLiterals_mapList es
  | .hash ps => Expr.pairLiterals_mapPairs ps
  | .call g args => by
    rw [Expr.mapLiterals, Expr.literals, Expr.literals_mapLiterals g,
      Expr.listLiterals_mapList args, Expr.literals, List.map_append]

theorem Expr.listLiterals_mapList :
    ∀ es : List Expr, Expr.listLiterals (Expr.mapList f es) = (Expr.listLiterals es).map f
  | [] => rfl
  | e :: es => by
    rw [Expr.mapList, Expr.listLiterals, Expr.literals_mapLiterals e,
      Expr.listLiterals_mapList es, Expr.listLiterals, List.map_append]

theorem Expr.pairLiterals_mapPairs : ∀ ps : List (Expr × Expr),
    Expr.pairLiterals (Expr.mapPairs f ps) = (Expr.pairLiterals ps).map f
  | [] => rfl
  | (k, v) :: ps => by
    rw [Expr.mapPairs, Expr.pairLiterals, Expr.literals_mapLiterals k,
      Expr.literals_mapLiterals v, Expr.pairLiterals_mapPairs ps, Expr.pairLiterals,
      List.map_append, List.map_append]

end

theorem literals_mapLiterals (script : Script) :
    literals (mapLiterals f script) = (literals script).map f := by
  have hs (s : Statement) : (s.mapLiterals f).literals = s.literals.map f := by
    cases s <;> exact Expr.literals_mapLiterals f _
  rw [literals, mapLiterals, List.flatMap_map, literals, List.map_flatMap]
  simp only [hs]

end

end Wanda.Script

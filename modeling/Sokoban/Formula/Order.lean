import Sokoban.Formula.Basic
import Sokoban.Model.State

/-! # An order on formulas and states

Constants come before variables and variables before applications. Applications are ordered by their
operator, then by their arguments from left to right, where a list comes before a longer one that
begins with it. States are ordered by their cells, then by their steps.
-/

namespace Sokoban

namespace Formula

variable {V : Type} [Ord V]

mutual

def compare : Formula V → Formula V → Ordering
  | const c, const d => Ord.compare c d
  | const _, _ => .lt
  | var _, const _ => .gt
  | var v, var w => Ord.compare v w
  | var _, app _ _ => .lt
  | app op args, app op' args' => (Ord.compare op op').then (compareArguments args args')
  | app _ _, _ => .gt

def compareArguments : List (Formula V) → List (Formula V) → Ordering
  | [], [] => .eq
  | [], _ :: _ => .lt
  | _ :: _, [] => .gt
  | f :: rest, g :: more => (compare f g).then (compareArguments rest more)

end

instance : Ord (Formula V) := ⟨compare⟩

end Formula

namespace State

def compareEntries (d e : Pos × Content) : Ordering :=
  (Ord.compare d.1 e.1).then (Ord.compare d.2 e.2)

instance : Ord State :=
  ⟨fun s t =>
    (List.compareLex compareEntries s.cells.entries t.cells.entries).then
      (Ord.compare s.steps t.steps)⟩

end State

end Sokoban

import Sokoban.Formula.Basic

/-! # How formulas are written

Operators stand between their arguments, negation and `F` before them. An argument that is itself
an application has parentheses when its operator binds no tighter than the one around it, and
always below a conjunction, a negation or `F`.
-/

namespace Sokoban

/-- Whether an application of one operator needs parentheses as an argument of another. -/
def Op.parenthesizes (outer inner : Op) : Bool :=
  outer == .and || outer.isLeading || decide (inner.precedence ≤ outer.precedence)

namespace Formula

variable {V : Type} [Variable V]

def parenthesized (s : String) : String := "(" ++ s ++ ")"

/-- The written arguments of an operator, put together. -/
def layout (op : Op) (args : List String) : String :=
  match op with
  | .not => op.symbol ++ String.join args
  | .eventually => op.symbol ++ " " ++ String.join args
  | .and => if args.isEmpty then "TRUE" else String.intercalate " & " args
  | .add | .lt | .eq => String.intercalate (" " ++ op.symbol ++ " ") args

mutual

def text : Formula V → String
  | const c => c.text
  | var v => Variable.name v
  | app op args => layout op (argumentTexts op args)

def argumentTexts (op : Op) : List (Formula V) → List String
  | [] => []
  | app inner args :: rest =>
    let written := layout inner (argumentTexts inner args)
    (if op.parenthesizes inner then parenthesized written else written) :: argumentTexts op rest
  | const c :: rest => c.text :: argumentTexts op rest
  | var v :: rest => Variable.name v :: argumentTexts op rest

end

def argumentText (op : Op) (f : Formula V) : String :=
  match f with
  | app inner _ => if op.parenthesizes inner then parenthesized f.text else f.text
  | const _ | var _ => f.text

theorem argumentTexts_eq_map (op : Op) (args : List (Formula V)) :
    argumentTexts op args = args.map (argumentText op) := by
  induction args with
  | nil => simp [argumentTexts]
  | cons f rest ih => cases f <;> simp [argumentTexts, argumentText, text, ih]

end Formula

end Sokoban

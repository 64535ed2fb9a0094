import Sokoban.Fault

/-! # Well-typed applications

Each operator takes a certain number of arguments of certain kinds. The number is looked at first,
then the kinds from left to right.
-/

namespace Sokoban

/-- The kind of an application, if the operator takes arguments of the given kinds. -/
def Op.typing (op : Op) (args : List Kind) : Except TypingIssue Kind :=
  if args.length < op.minArity then .error (.tooFew op)
  else match op.maxArity? with
    | some max => if max < args.length then .error (.tooMany op max) else kinds
    | none => kinds
where
  /-- The kind of an application that has the right number of arguments. -/
  kinds : Except TypingIssue Kind :=
    match op, args with
    | .not, _ | .and, _ | .eventually, _ =>
      if args.all (· == .bool) then .ok op.kind else .error (.notBoolean op)
    | .add, _ | .lt, _ =>
      match args.find? fun k => !k.isArithmetic with
      | none => .ok op.kind
      | some k => .error (.notArithmetic op k)
    | .eq, l :: r :: _ => if l = r then .ok op.kind else .error (.differentKinds op l r)
    | .eq, _ => .error (.tooFew op)

namespace Formula

variable {V : Type} [Variable V]

/-- The application of an operator, if the operator takes the arguments. -/
def apply (op : Op) (args : List (Formula V)) : Result (Formula V) :=
  match op.typing (args.map kind) with
  | .ok _ => .ok (app op args)
  | .error issue => Result.fail (.typing issue)

def conj (args : List (Formula V)) : Result (Formula V) := apply .and args

def equal (l r : Formula V) : Result (Formula V) := apply .eq [l, r]

end Formula

end Sokoban

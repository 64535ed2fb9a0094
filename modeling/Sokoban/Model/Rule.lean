import Sokoban.Model.State

/-! # Rules

A rule is one way for a keeper to step from a cell in a direction: a move onto an empty cell, or a
push of the box on the next cell to the cell beyond. A rule knows the cells it assigns and the
cells it holds, its frame.
-/

namespace Sokoban

inductive RuleKind where
  | move
  | push
  deriving DecidableEq, Ord

def RuleKind.text : RuleKind → String
  | move => "move"
  | push => "push"

theorem RuleKind.eq_of_move_iff {k l : RuleKind} (h : k = .move ↔ l = .move) : k = l := by
  cases k <;> cases l <;> simp_all

structure Rule where
  kind : RuleKind
  /-- Where the keeper stands. -/
  keeper : Pos
  direction : Direction
  /-- Where the keeper steps to. -/
  target : Pos
  /-- Where the box is pushed to, if there is one to push. -/
  beyond : Option Pos
  /-- The number of steps from which the rule is no longer enabled. -/
  limit : Nat
  /-- The cells that stay as they are. -/
  frame : List Pos
  deriving DecidableEq

namespace Rule

/-- What the cells must hold for the rule to be enabled. The cell beyond decides whether a box is
required, and not the kind, which is a name only. -/
def requires (r : Rule) : List (Pos × Content) :=
  match r.beyond with
  | none => [(r.keeper, .keeper), (r.target, .empty)]
  | some beyond => [(r.keeper, .keeper), (r.target, .box), (beyond, .empty)]

def effect (r : Rule) : List (Pos × Content) :=
  match r.beyond with
  | none => [(r.keeper, .empty), (r.target, .keeper)]
  | some beyond => [(r.keeper, .empty), (r.target, .keeper), (beyond, .box)]

def assigned (r : Rule) : PosSet := .ofList (r.effect.map (·.1))

/-- The cells that occur in the rule: assigned, required or held. -/
def mentions (r : Rule) : PosSet :=
  (r.assigned.union (.ofList (r.requires.map (·.1)))).union (.ofList r.frame)

/-- The rule of a step within a scope: it holds all cells of the scope that it does not assign. -/
def within (scope : Scope) (kind : RuleKind) (keeper : Pos) (direction : Direction) (target : Pos)
    (beyond : Option Pos) : Rule :=
  let bare : Rule := ⟨kind, keeper, direction, target, beyond, scope.limit, []⟩
  { bare with frame := scope.cells.toList.filter fun p => p ∉ bare.assigned }

def enabled (r : Rule) (s : State) : Bool :=
  decide (s.steps < r.limit) && r.requires.all fun (p, c) => s.get? p == some c

def apply (r : Rule) (s : State) : State :=
  let moved := r.effect.foldl (fun t e => t.set e.1 e.2) s
  { moved with steps := s.steps + 1 }

def fire (r : Rule) (s : State) : Option State :=
  if r.enabled s then some (r.apply s) else none

def text (r : Rule) : String :=
  r.kind.text ++ " " ++ r.direction.text ++ " from " ++ r.keeper.text

end Rule

end Sokoban

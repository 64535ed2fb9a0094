/-! # What a cell holds

A `Content` is what a cell holds during a play; a `Tile` is how a cell is drawn on a board: its
content at the start, together with whether it is a goal or a wall.
-/

namespace Sokoban

/-- What a cell holds during a play. -/
inductive Content where
  | empty
  | box
  | keeper
  deriving DecidableEq, Ord

namespace Content

/-- The numeral that stands for a content in a model. -/
def code : Content → Nat
  | empty => 1
  | box => 2
  | keeper => 3

def text (c : Content) : String := toString c.code

theorem code_injective {c d : Content} (h : c.code = d.code) : c = d := by
  cases c <;> cases d <;> simp_all [code]

end Content

/-- How a cell is drawn on a board. -/
inductive Tile where
  | wall
  | floor
  | box
  | keeper
  | goal
  | boxOnGoal
  | keeperOnGoal
  deriving DecidableEq, Ord

namespace Tile

def glyph : Tile → Char
  | wall => '#'
  | floor => '_'
  | box => '$'
  | keeper => '@'
  | goal => '.'
  | boxOnGoal => '*'
  | keeperOnGoal => '+'

def all : List Tile := [wall, floor, box, keeper, goal, boxOnGoal, keeperOnGoal]

def ofGlyph? (c : Char) : Option Tile := all.find? fun t => t.glyph == c

@[simp] theorem ofGlyph?_glyph (t : Tile) : ofGlyph? t.glyph = some t := by
  cases t <;> rfl

/-- Each tile is drawn by one glyph. -/
theorem glyph_of_ofGlyph? {c : Char} {t : Tile} (h : ofGlyph? c = some t) : t.glyph = c := by
  simpa using List.find?_some h

theorem ofGlyph?_eq_some_iff {c : Char} {t : Tile} : ofGlyph? c = some t ↔ c = t.glyph :=
  ⟨fun h => (glyph_of_ofGlyph? h).symm, fun h => h ▸ ofGlyph?_glyph t⟩

def isWall (t : Tile) : Bool := t == wall

def hasBox : Tile → Bool
  | box | boxOnGoal => true
  | _ => false

def hasKeeper : Tile → Bool
  | keeper | keeperOnGoal => true
  | _ => false

def isGoal : Tile → Bool
  | goal | boxOnGoal | keeperOnGoal => true
  | _ => false

/-- Whether a keeper can walk on from this cell, and a box can be pushed onto it. This looks at the
drawing only: a cell drawn with a box stays impassable after the box has left. -/
def isPassable (t : Tile) : Bool := !(t.isWall || t.hasBox)

/-- What the cell holds at the start; walls hold nothing. -/
def content? : Tile → Option Content
  | wall => none
  | floor | goal => some .empty
  | box | boxOnGoal => some .box
  | keeper | keeperOnGoal => some .keeper

end Tile

end Sokoban

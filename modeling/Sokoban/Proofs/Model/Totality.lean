import Sokoban.Model.Script
import Sokoban.Proofs.Board.Drawn
import Sokoban.Proofs.Script.Wording

/-!
# Compiling and writing a model never fails

Whatever board is read from a drawing, its system is compiled and written, without a crash and
without any of the checks on the way rejecting it. Only a pair may be refused: for its box or, if
that is one, for its goal.
-/

namespace Sokoban.System

variable {s : System} {b : Board} {limit : Nat}

/-! ## Writing -/

theorem CompiledFrom.exists_render (h : s.CompiledFrom b limit) (hb : b.Fits) :
    ∃ text, s.render = .ok text := by
  obtain ⟨keep, goal, hbuilt, hgoal⟩ := h.exists_builtFrom hb
  exact ⟨_, hbuilt.render_eq hb hgoal⟩

/-! ## Compiling -/

theorem exists_build_eq_ok (hb : b.Fits) (limit : Nat) (keep : Option Pos) {goal : Goal}
    (hgoal : ∀ p ∈ goal.cells, b.isFree p = true) : ∃ s, build b limit keep goal = .ok s := by
  obtain ⟨s, hs, hbuild⟩ := exists_build hb limit keep goal
  have hvalid : s.validateGoal = .ok () := by
    refine validateGoal_eq_ok_iff.2 fun p hp => ?_
    rw [hs.scope, Scope.mem_ofBoard_iff]
    exact hgoal p (hs.goal ▸ hp)
  rw [hvalid, Result.during_ok] at hbuild
  exact ⟨s, hbuild⟩

theorem exists_compile (hb : b.Fits) (limit : Nat) : ∃ s, compile b limit = .ok s :=
  exists_build_eq_ok hb limit none fun _ hp => Board.isFree_of_mem_goals hp

theorem exists_compilePair (hb : b.Fits) {pair : Pair} (hboxed : pair.boxed ∈ b.boxes)
    (hgoal : b.isFree pair.goal = true) (limit : Nat) :
    ∃ s, compilePair b pair limit = .ok s := by
  rw [compilePair_of_mem_boxes hboxed]
  exact exists_build_eq_ok hb limit _ (List.forall_mem_singleton.2 hgoal)

/-- Of a pair whose box is in its place only the goal can be refused. -/
theorem compilePair_of_not_isFree (hb : b.Fits) {pair : Pair} (hboxed : pair.boxed ∈ b.boxes)
    (hgoal : b.isFree pair.goal = false) (limit : Nat) :
    compilePair b pair limit =
      Result.during .compiling (Result.fail (.model (.undeclaredGoal pair.goal))) := by
  obtain ⟨s, hs, hbuild⟩ := exists_build hb limit (some pair.boxed) (.pair pair)
  have hout : pair.goal ∉ s.scope.cells := by
    rw [hs.scope, Scope.mem_ofBoard_iff, hgoal]
    exact Bool.false_ne_true
  have hinvalid : s.validateGoal = Result.fail (.model (.undeclaredGoal pair.goal)) := by
    unfold validateGoal
    rw [hs.goal]
    simp [Goal.cells, hout]
  rw [compilePair_of_mem_boxes hboxed, hbuild, hinvalid]
  rfl

/-! ## From the drawing to the text -/

structure Compiles (b : Board) (limit : Nat) : Prop where
  whole : ∃ s, compile b limit = .ok s
  pair : ∀ pair : Pair, (∃ s, compilePair b pair limit = .ok s) ↔
    pair.boxed ∈ b.boxes ∧ b.isFree pair.goal = true
  noBox : ∀ pair : Pair, pair.boxed ∉ b.boxes →
    ∃ e : Error, compilePair b pair limit = .error (.error e) ∧
      e.chain = [.model (.noPairedBox pair.boxed)] ∧
      e.chain.map Issue.message =
        ["invariant violation: " ++ ("paired box " ++ pair.boxed.text ++ " is not a box")]
  noGoal : ∀ pair : Pair, pair.boxed ∈ b.boxes → b.isFree pair.goal = false →
    ∃ e : Error, compilePair b pair limit = .error (.error e) ∧
      e.chain = [.during .compiling, .model (.undeclaredGoal pair.goal)] ∧
      e.chain.map Issue.message = ["while compiling transition system",
        "invariant violation: " ++ ("goal cell " ++ pair.goal.text ++ " is not declared")]
  render : ∀ s : System, s.CompiledFrom b limit → ∃ text, s.render = .ok text

theorem compiles (hb : b.Fits) (limit : Nat) : Compiles b limit where
  whole := exists_compile hb limit
  pair := by
    intro pair
    constructor
    · rintro ⟨s, h⟩
      obtain ⟨hboxed, hbuild⟩ := build_of_compilePair h
      obtain ⟨hs, hgoal⟩ := builtFrom_of_build hb hbuild
      rw [hs.scope] at hgoal
      exact ⟨hboxed, Scope.mem_ofBoard_iff.1 (hgoal pair.goal List.mem_cons_self)⟩
    · rintro ⟨hboxed, hgoal⟩
      exact exists_compilePair hb hboxed hgoal limit
  noBox := fun _ hboxed => ⟨_, compilePair_of_not_mem_boxes hboxed limit, rfl, rfl⟩
  noGoal := fun _ hboxed hgoal => ⟨_, compilePair_of_not_isFree hb hboxed hgoal limit, rfl, rfl⟩
  render := fun _ hs => hs.exists_render hb

/-- The model of a drawing is written exactly if the drawing shows a board; if not, the error is the
one that reading the drawing ends with. -/
theorem renderDrawing_total {drawing : String}
    (hsize : (drawing.utf8ByteSize : Int) < Word.half) (limit : Nat) :
    (∀ e, Board.parse drawing = .error e →
      renderDrawing drawing limit = .error e ∧ ∃ error, e = .error error) ∧
    ∀ b, Board.parse drawing = .ok b →
      (∃ text, renderDrawing drawing limit = .ok text) ∧ Compiles b limit := by
  constructor
  · intro e he
    refine ⟨?_, (Board.answers_parse drawing).exists_error he⟩
    unfold renderDrawing ofDrawing
    rw [he]
    rfl
  · intro b hparse
    have hb : b.Fits := Board.Drawn.fits ⟨drawing, hsize, hparse⟩
    obtain ⟨s, hs⟩ := exists_compile hb limit
    refine ⟨?_, compiles hb limit⟩
    unfold renderDrawing ofDrawing
    rw [hparse, Result.ok_bind, hs, Result.ok_bind]
    exact (CompiledFrom.whole hs).exists_render hb

theorem renderDrawing_total_of_corridor :
    ∃ b, Board.parse "@$." = .ok b ∧ (∃ text, renderDrawing "@$." 3 = .ok text) ∧ Compiles b 3 :=
  have hparse : Board.parse "@$." = .ok ⟨[[.keeper, .box, .goal]], 3, by decide⟩ := rfl
  ⟨_, hparse, (renderDrawing_total (by decide) 3).2 _ hparse⟩

end Sokoban.System

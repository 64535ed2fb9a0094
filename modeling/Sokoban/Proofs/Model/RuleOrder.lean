import Sokoban.Proofs.Model.LegalRules

/-!
# The order of the rules

The rules of a board stand in row-major order of the keeper's cell, then in the order of the
directions, and a move stands before the push in the same direction.
-/

namespace Sokoban

namespace Direction

def rank (d : Direction) : Nat := all.idxOf d

theorem pairwise_all : all.Pairwise fun d e => d.rank < e.rank := by decide

end Direction

namespace Rule

def Precedes (r q : Rule) : Prop :=
  r.keeper < q.keeper ∨ (r.keeper = q.keeper ∧
    (r.direction.rank < q.direction.rank ∨
      (r.direction = q.direction ∧ r.kind = .move ∧ q.kind = .push)))

theorem Precedes.asymm {r q : Rule} (h : r.Precedes q) : ¬ q.Precedes r := by
  unfold Precedes at *
  simp only [Pos.lt_iff] at *
  rintro h'
  rcases h with h | ⟨hkeeper, h | ⟨hdirection, hr, hq⟩⟩
  · rcases h' with h' | ⟨hkeeper', -⟩
    · omega
    · rw [hkeeper'] at h
      omega
  · rcases h' with h' | ⟨-, h' | ⟨hdirection', -⟩⟩
    · rw [hkeeper] at h'
      omega
    · omega
    · rw [hdirection'] at h
      omega
  · rcases h' with h' | ⟨-, h' | ⟨-, hq', -⟩⟩
    · rw [hkeeper] at h'
      omega
    · rw [hdirection] at h'
      omega
    · rw [hq'] at hq
      cases hq

theorem Precedes.ne {r q : Rule} (h : r.Precedes q) : r ≠ q := by
  rintro rfl
  exact h.asymm h

end Rule

namespace Board

variable {b : Board} {scope : Scope}

theorem pairwise_departures (b : Board) :
    b.departures.Pairwise fun c e => c.1 < e.1 ∨ (c.1 = e.1 ∧ c.2.rank < e.2.rank) := by
  unfold departures
  rw [List.pairwise_flatMap]
  constructor
  · intro p _
    rw [List.pairwise_map]
    exact Direction.pairwise_all.imp fun hlt => .inr ⟨rfl, hlt⟩
  · refine (b.pairwise_positions Tile.isPassable).imp ?_
    intro p q hpq c hc e he
    obtain ⟨d, -, rfl⟩ := List.mem_map.1 hc
    obtain ⟨d', -, rfl⟩ := List.mem_map.1 he
    exact .inl hpq

theorem departs_of_mem_legalFrom {p : Pos} {d : Direction} {r : Rule}
    (h : r ∈ b.legalFrom scope p d) : r.keeper = p ∧ r.direction = d := by
  obtain ⟨target, -, -, rfl | ⟨q, -, -, rfl⟩⟩ := mem_legalFrom_iff.1 h
  · exact ⟨rfl, rfl⟩
  · exact ⟨rfl, rfl⟩

theorem pairwise_legalFrom (b : Board) (scope : Scope) (p : Pos) (d : Direction) :
    (b.legalFrom scope p d).Pairwise Rule.Precedes := by
  have hpair : ∀ target q, [Rule.within scope .move p d target none,
      Rule.within scope .push p d target (some q)].Pairwise Rule.Precedes := by
    intro target q
    exact List.pairwise_pair.2 (.inr ⟨rfl, .inr ⟨rfl, rfl, rfl⟩⟩)
  unfold legalFrom
  split
  · exact List.Pairwise.nil
  · split
    · dsimp only
      split
      · exact List.pairwise_singleton _ _
      · split
        · exact hpair _ _
        · exact List.pairwise_singleton _ _
    · exact List.Pairwise.nil

/-- Each rule of a board is listed after those that precede it. -/
theorem pairwise_rules (hb : b.Fits) {rules : List Rule} (h : b.rules scope = .ok rules) :
    rules.Pairwise Rule.Precedes := by
  rw [rules_eq_legalFrom hb] at h
  obtain rfl := Except.ok.inj h
  rw [List.pairwise_flatMap]
  constructor
  · intro c _
    exact b.pairwise_legalFrom scope c.1 c.2
  · refine b.pairwise_departures.imp ?_
    intro c e hce r hr q hq
    obtain ⟨hrp, hrd⟩ := departs_of_mem_legalFrom hr
    obtain ⟨hqp, hqd⟩ := departs_of_mem_legalFrom hq
    unfold Rule.Precedes
    rw [hrp, hrd, hqp, hqd]
    exact hce.imp_right fun hsame => ⟨hsame.1, .inl hsame.2⟩

theorem nodup_rules (hb : b.Fits) {rules : List Rule} (h : b.rules scope = .ok rules) :
    rules.Nodup :=
  (pairwise_rules hb h).imp Rule.Precedes.ne

end Board

end Sokoban

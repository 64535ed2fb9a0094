import Sokoban.Model.System
import Sokoban.Proofs.Model.Meaning

/-!
# What a validated system satisfies

Each part of `System.validate` answers exactly when a condition on the system holds: the goal's
cells are declared, and the effect and the frame of each rule partition the declared cells. A rule
that does not partition them has a defect, and the answer is the first that there is.
-/

namespace Sokoban

/-! ## Defects of a rule -/

namespace Rule

/-- What is wrong with a rule, the first of the four things that can be. The cell that is named is
the least one. -/
inductive Violates (scope : Scope) (r : Rule) : ModelIssue → Prop
  | undeclared {p : Pos} (hp : p ∈ r.mentions) (hout : p ∉ scope.cells)
      (hleast : ∀ q ∈ r.mentions, q ∉ scope.cells → ¬ q < p) :
      Violates scope r (.ruleUndeclared r p)
  | holdsTwice (hdeclared : ∀ p ∈ r.mentions, p ∈ scope.cells) (hdouble : ¬ r.frame.Nodup) :
      Violates scope r (.ruleHoldsTwice r)
  | overlap {p : Pos} (hdeclared : ∀ p ∈ r.mentions, p ∈ scope.cells) (hnodup : r.frame.Nodup)
      (hassigned : p ∈ r.assigned) (hframe : p ∈ r.frame)
      (hleast : ∀ q ∈ r.assigned, q ∈ r.frame → ¬ q < p) : Violates scope r (.ruleOverlap r p)
  | incomplete {p : Pos} (hdeclared : ∀ p ∈ r.mentions, p ∈ scope.cells) (hnodup : r.frame.Nodup)
      (hdisjoint : ∀ p ∈ r.frame, p ∉ r.assigned) (hp : p ∈ scope.cells)
      (hassigned : p ∉ r.assigned) (hframe : p ∉ r.frame) : Violates scope r (.ruleIncomplete r)

/-- The issue tells which rule has the defect. -/
theorem Violates.message_eq {scope : Scope} {r : Rule} {issue : ModelIssue}
    (h : r.Violates scope issue) :
    ∃ complaint, issue.message = "rule " ++ quoted r.text ++ complaint := by
  cases h with
  | undeclared | holdsTwice | overlap | incomplete =>
      simp only [ModelIssue.message, String.append_assoc, String.append_right_inj]
      exact ⟨_, rfl⟩

end Rule

namespace System

variable {s : System} {scope : Scope} {r : Rule} {issue : ModelIssue}

theorem validateGoal_eq_ok_iff :
    s.validateGoal = .ok () ↔ ∀ p ∈ s.goal.cells, p ∈ s.scope.cells := by
  unfold validateGoal
  cases h : s.goal.cells.find? fun p => p ∉ s.scope.cells with
  | none => simpa using h
  | some p =>
      have hp := List.find?_some h
      have hmem := List.mem_of_find?_eq_some h
      simp only [Result.fail, reduceCtorEq, false_iff]
      intro hall
      simp [hall p hmem] at hp

/-! ## The four checks of a rule -/

theorem find?_undeclared_eq_none_iff :
    (r.mentions.toList.find? fun p => p ∉ scope.cells) = none ↔
      ∀ p ∈ r.mentions, p ∈ scope.cells := by
  simp only [List.find?_eq_none, decide_eq_true_eq, Decidable.not_not, PosSet.mem_def]

theorem find?_overlap_eq_none_iff :
    (r.assigned.toList.find? fun p => p ∈ PosSet.ofList r.frame) = none ↔
      ∀ p ∈ r.frame, p ∉ r.assigned := by
  simp only [List.find?_eq_none, decide_eq_true_eq, PosSet.mem_ofList]
  exact ⟨fun h p hp ha => h p ha hp, fun h p ha hp => h p hp ha⟩

/-- If effect and frame are disjoint parts of the scope, their sizes tell whether they cover it. -/
theorem size_add_size_eq_iff (hdeclared : ∀ p ∈ r.mentions, p ∈ scope.cells)
    (hdisjoint : ∀ p ∈ r.frame, p ∉ r.assigned) :
    r.assigned.size + (PosSet.ofList r.frame).size = scope.cells.size ↔
      ∀ p ∈ scope.cells, p ∈ r.assigned ∨ p ∈ r.frame := by
  have hunion : ∀ p, p ∈ r.assigned.union (.ofList r.frame) ↔ p ∈ r.assigned ∨ p ∈ r.frame := by
    simp
  have hsub : ∀ p ∈ r.assigned.union (.ofList r.frame), p ∈ scope.cells := fun p hp =>
    hdeclared p (Rule.mem_mentions_iff.2 ((hunion p).1 hp))
  rw [← PosSet.size_union fun p hp => hdisjoint p (PosSet.mem_ofList.1 hp), PosSet.size_eq_iff hsub]
  simp only [hunion]

/-- After three checks have passed, the sizes decide. -/
theorem validateRule_eq_ite (hdeclared : ∀ p ∈ r.mentions, p ∈ scope.cells)
    (hnodup : r.frame.Nodup) (hdisjoint : ∀ p ∈ r.frame, p ∉ r.assigned) :
    validateRule scope r =
      if r.assigned.size + (PosSet.ofList r.frame).size ≠ scope.cells.size then
        Result.fail (.model (.ruleIncomplete r))
      else .ok () := by
  unfold validateRule
  dsimp only
  rw [find?_undeclared_eq_none_iff.2 hdeclared]
  dsimp only
  rw [if_neg (not_not_intro (PosSet.size_ofList_eq_length_iff.2 hnodup)),
    find?_overlap_eq_none_iff.2 hdisjoint]

theorem validateRule_eq_fail (h : r.Violates scope issue) :
    validateRule scope r = Result.fail (.model issue) := by
  cases h with
  | undeclared hp hout hleast =>
      have hfind : (r.mentions.toList.find? fun p => p ∉ scope.cells) = some _ :=
        PosSet.find?_toList_eq_some_iff.2 ⟨hp, by simpa using hout, by simpa using hleast⟩
      unfold validateRule
      dsimp only
      rw [hfind]
  | holdsTwice hdeclared hdouble =>
      unfold validateRule
      dsimp only
      rw [find?_undeclared_eq_none_iff.2 hdeclared]
      dsimp only
      rw [if_pos (mt PosSet.size_ofList_eq_length_iff.1 hdouble)]
  | overlap hdeclared hnodup hassigned hframe hleast =>
      have hfind : (r.assigned.toList.find? fun p => p ∈ PosSet.ofList r.frame) = some _ :=
        PosSet.find?_toList_eq_some_iff.2 ⟨hassigned, by simpa using hframe, by simpa using hleast⟩
      unfold validateRule
      dsimp only
      rw [find?_undeclared_eq_none_iff.2 hdeclared]
      dsimp only
      rw [if_neg (not_not_intro (PosSet.size_ofList_eq_length_iff.2 hnodup)), hfind]
  | incomplete hdeclared hnodup hdisjoint hp hassigned hframe =>
      have hsize : r.assigned.size + (PosSet.ofList r.frame).size ≠ scope.cells.size := by
        rw [ne_eq, size_add_size_eq_iff hdeclared hdisjoint]
        exact fun hcovers => (hcovers _ hp).elim hassigned hframe
      rw [validateRule_eq_ite hdeclared hnodup hdisjoint, if_pos hsize]

/-- A rule that does not partition the scope has one of the four defects. -/
theorem exists_violates (h : ¬ r.Partitions scope) : ∃ issue, r.Violates scope issue := by
  cases hmentions : r.mentions.toList.find? fun p => p ∉ scope.cells with
  | some p =>
      obtain ⟨hp, hout, hleast⟩ := PosSet.find?_toList_eq_some_iff.1 hmentions
      exact ⟨_, .undeclared hp (by simpa using hout) (by simpa using hleast)⟩
  | none =>
      have hdeclared := find?_undeclared_eq_none_iff.1 hmentions
      by_cases hnodup : r.frame.Nodup
      · cases hoverlap : r.assigned.toList.find? fun p => p ∈ PosSet.ofList r.frame with
        | some p =>
            obtain ⟨hp, hframe, hleast⟩ := PosSet.find?_toList_eq_some_iff.1 hoverlap
            exact ⟨_, .overlap hdeclared hnodup hp (by simpa using hframe) (by simpa using hleast)⟩
        | none =>
            have hdisjoint := find?_overlap_eq_none_iff.1 hoverlap
            by_cases hcovers : ∃ p ∈ scope.cells, p ∉ r.assigned ∧ p ∉ r.frame
            · obtain ⟨p, hp, hassigned, hframe⟩ := hcovers
              exact ⟨_, .incomplete hdeclared hnodup hdisjoint hp hassigned hframe⟩
            · refine absurd ⟨hnodup, hdisjoint, fun p => ⟨fun hp => ?_, fun hp => ?_⟩⟩ h
              · exact Classical.byContradiction fun hout => hcovers ⟨p, hp, not_or.1 hout⟩
              · exact hdeclared p (Rule.mem_mentions_iff.2 hp)
      · exact ⟨_, .holdsTwice hdeclared hnodup⟩

/-- A rule passes exactly if its effect and its frame partition the scope. -/
theorem validateRule_eq_ok_iff {scope : Scope} {r : Rule} :
    validateRule scope r = .ok () ↔ r.Partitions scope := by
  constructor
  · intro h
    refine Classical.byContradiction fun hr => ?_
    obtain ⟨issue, hissue⟩ := exists_violates hr
    simp [validateRule_eq_fail hissue, Result.fail] at h
  · intro h
    have hdeclared : ∀ p ∈ r.mentions, p ∈ scope.cells := fun p hp =>
      (h.covers p).2 (Rule.mem_mentions_iff.1 hp)
    have hsize := (size_add_size_eq_iff hdeclared h.disjoint).2 fun p => (h.covers p).1
    rw [validateRule_eq_ite hdeclared h.nodup h.disjoint, if_neg (not_not_intro hsize)]

/-! ## The start -/

theorem validateStart_eq_ok_of_value (hkeys : s.start.cells.keys = s.scope.cells)
    (hvalue : s.initial.value s.start.value? = .ok (.bool true)) : s.validateStart = .ok () := by
  unfold validateStart
  rw [if_neg (not_not_intro hkeys), hvalue]
  rfl

/-- A system whose start is covered, and whose start formula is the start's, passes there. -/
theorem validateStart_eq_ok {s : System} (hkeys : s.start.cells.keys = s.scope.cells)
    (hinitial : s.start.formula s.scope = .ok s.initial) : s.validateStart = .ok () :=
  validateStart_eq_ok_of_value hkeys ((State.holds_formula_iff hinitial hkeys hkeys).2 rfl)

end System

end Sokoban

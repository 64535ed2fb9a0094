import Sokoban.Proofs.Model.Validation

/-!
# What validation answers

`System.validate` accepts exactly the consistent systems, and the error it ends with is known for
each of the others: that of the first misfit in the order start, goal, rules. Nothing is assumed of
the system but that its start formula does not overflow.
-/

namespace Sokoban.System

/-! ## Misfits of a system -/

variable {s : System} {error : Error}

/-- The start has exactly the declared cells. -/
def Covered (s : System) : Prop := ∀ p, p ∈ s.scope.cells ↔ ∃ c, s.start.get? p = some c

/-- The cells of the start are the declared ones, and its formula is true there. -/
structure Starts (s : System) : Prop where
  covered : s.Covered
  holds : s.initial.value s.start.value? = .ok (.bool true)

structure Consistent (s : System) : Prop extends s.Starts where
  goal : ∀ p ∈ s.goal.cells, p ∈ s.scope.cells
  rules : ∀ r ∈ s.rules, r.Partitions s.scope

/-- What is wrong with a system, the first misfit that there is. -/
inductive Rejects (s : System) : Error → Prop
  | startCoverage (h : ¬ s.Covered) : Rejects s (.of (.model .startCoverage))
  | initialUnevaluable {cause : Error} (hcovered : s.Covered)
      (h : s.initial.value s.start.value? = .error (.error cause)) :
      Rejects s (cause.under (.model .initialUnevaluable))
  | initialFalse {c : Const} (hcovered : s.Covered)
      (h : s.initial.value s.start.value? = .ok c) (hc : c ≠ .bool true) :
      Rejects s (.of (.model .initialFalse))
  | goal {before behind : List Pos} {p : Pos} (hstart : s.Starts)
      (hcells : s.goal.cells = before ++ p :: behind)
      (hbefore : ∀ q ∈ before, q ∈ s.scope.cells) (h : p ∉ s.scope.cells) :
      Rejects s (.of (.model (.undeclaredGoal p)))
  | rule {before behind : List Rule} {r : Rule} {issue : ModelIssue} (hstart : s.Starts)
      (hgoal : ∀ p ∈ s.goal.cells, p ∈ s.scope.cells) (hrules : s.rules = before ++ r :: behind)
      (hbefore : ∀ q ∈ before, q.Partitions s.scope) (h : r.Violates s.scope issue) :
      Rejects s (.of (.model issue))

theorem keys_eq_iff : s.start.cells.keys = s.scope.cells ↔ s.Covered := by
  have hmem : ∀ p, p ∈ s.start.cells.keys ↔ ∃ c, s.start.get? p = some c :=
    fun p => PosMap.mem_keys_iff
  constructor
  · intro h p
    rw [← h, hmem]
  · intro h
    apply PosSet.ext
    intro p
    rw [hmem, h]

theorem Starts.validateStart_eq_ok (h : s.Starts) : s.validateStart = .ok () :=
  validateStart_eq_ok_of_value (keys_eq_iff.2 h.covered) h.holds

theorem validate_eq_ok (h : s.Consistent) : s.validate = .ok () := by
  unfold validate
  rw [h.validateStart_eq_ok, Result.ok_bind, validateGoal_eq_ok_iff.2 h.goal, Result.ok_bind,
    Result.forM_eq_ok.2 fun r hr => validateRule_eq_ok_iff.2 (h.rules r hr)]

theorem validate_eq_error (h : s.Rejects error) : s.validate = .error (.error error) := by
  unfold validate
  cases h with
  | startCoverage h =>
      unfold validateStart
      rw [if_pos (mt keys_eq_iff.1 h)]
      rfl
  | initialUnevaluable hcovered h =>
      unfold validateStart
      rw [if_neg (not_not_intro (keys_eq_iff.2 hcovered)), h]
      rfl
  | initialFalse hcovered h hc =>
      unfold validateStart
      rw [if_neg (not_not_intro (keys_eq_iff.2 hcovered)), h]
      show ((if _ then _ else _ : Result Unit) >>= _) = _
      rw [if_pos hc]
      rfl
  | goal hstart hcells hbefore h =>
      have hfind : (s.goal.cells.find? fun p => p ∉ s.scope.cells) = some _ :=
        List.find?_eq_some_iff_append.2 ⟨by simpa using h, _, _, hcells, by simpa using hbefore⟩
      rw [hstart.validateStart_eq_ok, Result.ok_bind, validateGoal, hfind]
      rfl
  | rule hstart hgoal hrules hbefore h =>
      rw [hstart.validateStart_eq_ok, Result.ok_bind, validateGoal_eq_ok_iff.2 hgoal,
        Result.ok_bind, hrules]
      exact Result.forM_append_eq_error
        (fun q hq => validateRule_eq_ok_iff.2 (hbefore q hq)) (validateRule_eq_fail h)

/-! ## The verdict -/

theorem Starts.exists_rejects (h : s.Starts) (hs : ¬ s.Consistent) : ∃ error, s.Rejects error := by
  by_cases hgoal : ∀ p ∈ s.goal.cells, p ∈ s.scope.cells
  · by_cases hrules : ∀ r ∈ s.rules, r.Partitions s.scope
    · exact absurd ⟨h, hgoal, hrules⟩ hs
    · obtain ⟨before, r, behind, hsplit, hbefore, hr⟩ := Result.exists_first hrules
      obtain ⟨issue, hissue⟩ := exists_violates hr
      exact ⟨_, .rule h hgoal hsplit hbefore hissue⟩
  · obtain ⟨before, p, behind, hsplit, hbefore, hp⟩ := Result.exists_first hgoal
    exact ⟨_, .goal h hsplit hbefore hp⟩

/-- Each system that is not consistent has a first misfit. -/
theorem exists_rejects (h : (s.initial.value s.start.value?).Answers) (hs : ¬ s.Consistent) :
    ∃ error, s.Rejects error := by
  by_cases hcovered : s.Covered
  · cases hvalue : s.initial.value s.start.value? with
    | error e =>
        obtain ⟨cause, rfl⟩ := h.exists_error hvalue
        exact ⟨_, .initialUnevaluable hcovered hvalue⟩
    | ok c =>
        by_cases hc : c = .bool true
        · have hstart : s.Starts := ⟨hcovered, hc ▸ hvalue⟩
          exact hstart.exists_rejects hs
        · exact ⟨_, .initialFalse hcovered hvalue hc⟩
  · exact ⟨_, .startCoverage hcovered⟩

theorem Rejects.chain_eq (h : s.Rejects error) :
    (∃ issue, error.chain = [.model issue]) ∨
      ∃ cause, s.initial.value s.start.value? = .error (.error cause) ∧
        error.chain = .model .initialUnevaluable :: cause.chain := by
  cases h with
  | startCoverage | initialFalse | goal | rule => exact .inl ⟨_, rfl⟩
  | initialUnevaluable _ h => exact .inr ⟨_, h, rfl⟩

/-- Validation accepts the system exactly if it is consistent, and otherwise ends with the error of
the first misfit. -/
structure Diagnosed (s : System) : Prop where
  ok_iff : s.validate = .ok () ↔ s.Consistent
  error_iff : ∀ error, s.validate = .error (.error error) ↔ s.Rejects error
  answers : s.validate.Answers
  first_rule : ∀ before r behind, s.Starts → (∀ p ∈ s.goal.cells, p ∈ s.scope.cells) →
    s.rules = before ++ r :: behind → (∀ q ∈ before, q.Partitions s.scope) →
    ¬ r.Partitions s.scope → ∃ issue complaint, r.Violates s.scope issue ∧
      s.validate = Result.fail (.model issue) ∧
      issue.message = "rule " ++ quoted r.text ++ complaint
  chain : ∀ error, s.validate = .error (.error error) →
    (∃ issue, error.chain = [.model issue]) ∨
      ∃ cause, s.initial.value s.start.value? = .error (.error cause) ∧
        error.chain = .model .initialUnevaluable :: cause.chain

/-- Validation of any system is exact, as long as its start formula does not overflow. -/
theorem diagnosed_of_answers (h : (s.initial.value s.start.value?).Answers) : s.Diagnosed := by
  have hrejects : ∀ error, s.validate = .error (.error error) → s.Rejects error := by
    intro error herror
    have hs : ¬ s.Consistent := fun hs => by simp [validate_eq_ok hs] at herror
    obtain ⟨found, hfound⟩ := exists_rejects h hs
    rw [validate_eq_error hfound] at herror
    cases herror
    exact hfound
  constructor
  case ok_iff =>
    refine ⟨fun hok => Classical.byContradiction fun hs => ?_, validate_eq_ok⟩
    obtain ⟨error, herror⟩ := exists_rejects h hs
    simp [validate_eq_error herror] at hok
  case error_iff => exact fun error => ⟨hrejects error, validate_eq_error⟩
  case answers =>
    intro c hc
    by_cases hs : s.Consistent
    · simp [validate_eq_ok hs, Result.crash] at hc
    · obtain ⟨error, herror⟩ := exists_rejects h hs
      simp [validate_eq_error herror, Result.crash] at hc
  case first_rule =>
    intro before r behind hstart hgoal hrules hbefore hr
    obtain ⟨issue, hissue⟩ := exists_violates hr
    obtain ⟨complaint, hmessage⟩ := hissue.message_eq
    exact ⟨issue, complaint, hissue,
      validate_eq_error (.rule hstart hgoal hrules hbefore hissue), hmessage⟩
  case chain => exact fun error herror => (hrejects error herror).chain_eq

theorem diagnosed_of_open_frame :
    let start : State := ⟨.ofList [(⟨0, 0⟩, .keeper), (⟨0, 1⟩, .empty), (⟨0, 2⟩, .empty)], 0⟩
    let move : Rule := ⟨.move, ⟨0, 0⟩, .right, ⟨0, 1⟩, none, 3, []⟩
    let s : System :=
      ⟨⟨.ofList [⟨0, 0⟩, ⟨0, 1⟩, ⟨0, 2⟩], 3⟩, start, .const (.bool true), [move], .board [⟨0, 2⟩]⟩
    (s.initial.value s.start.value?).Answers ∧ s.Diagnosed ∧
      s.validate = Result.fail (.model (.ruleIncomplete move)) := by
  intro start move s
  have hanswers : (s.initial.value s.start.value?).Answers := by
    rw [show s.initial = .const (.bool true) from rfl, Formula.value_const]
    exact Result.answers_ok _
  have hdiagnosed : s.Diagnosed := diagnosed_of_answers hanswers
  have hissue : move.Violates s.scope (.ruleIncomplete move) :=
    @Rule.Violates.incomplete s.scope move ⟨0, 2⟩ (by decide) (by decide) (by decide) (by decide)
      (by decide) (by decide)
  have hstart : s.Starts := ⟨keys_eq_iff.1 (by decide), Formula.value_const _⟩
  exact ⟨hanswers, hdiagnosed, validate_eq_error
    (.rule hstart (by decide) (List.nil_append [move]).symm (by simp) hissue)⟩

end Sokoban.System

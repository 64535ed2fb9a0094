import Sokoban.Check.Outcome
import Sokoban.Proofs.Text.Occurrences

/-!
# Classifying an output as a whole

An output is classified line by line, and the first line that speaks of the property decides. The
same is found by a search in the whole output: the property is refuted if the phrase that says so
occurs, and the other phrase does not occur on an earlier line.
-/

namespace Sokoban.Outcome

open Text

variable {l x y : List Char} {o o' : Outcome}

def refutation : List Char := "is false".toList

def confirmation : List Char := "is true".toList

theorem isPhrase_refutation : IsPhrase refutation := ⟨by decide, by decide, by decide⟩

theorem isPhrase_confirmation : IsPhrase confirmation := ⟨by decide, by decide, by decide⟩

/-- What the first occurrences of both phrases in a text say. The property holds if the phrase for
it comes on a line before that of the other. -/
def Says (l : List Char) : Outcome → Prop
  | refuted => ∃ f, FirstAt refutation l f ∧ ∀ t, FirstAt confirmation l t → ¬ FeedBetween l t f
  | holds => ∃ t, FirstAt confirmation l t ∧ ∀ f, FirstAt refutation l f → FeedBetween l t f
  | inconclusive => (∀ f, ¬ FirstAt refutation l f) ∧ ∀ t, ¬ FirstAt confirmation l t

/-- A text says one thing only. -/
theorem Says.unique (h : Says l o) (h' : Says l o') : o = o' := by
  match o, o', h, h' with
  | refuted, refuted, _, _ | holds, holds, _, _ | inconclusive, inconclusive, _, _ => rfl
  | refuted, holds, ⟨f, hf, hnot⟩, ⟨t, ht, hbetween⟩
  | holds, refuted, ⟨t, ht, hbetween⟩, ⟨f, hf, hnot⟩ => exact absurd (hbetween f hf) (hnot t ht)
  | refuted, inconclusive, ⟨f, hf, _⟩, hnone
  | inconclusive, refuted, hnone, ⟨f, hf, _⟩ => exact absurd hf (hnone.1 f)
  | holds, inconclusive, ⟨t, ht, _⟩, hnone
  | inconclusive, holds, hnone, ⟨t, ht, _⟩ => exact absurd ht (hnone.2 t)

/-! ## Searching two texts with a line feed between them -/

/-- Behind a text without a phrase it is found where it is found in the rest. -/
theorem firstAt_behind_iff {part : List Char} {i : Nat} (hpart : IsPhrase part)
    (hnone : ∀ i, ¬ FirstAt part x i) :
    FirstAt part (x ++ '\n' :: y) i ↔ ∃ j, i = x.length + 1 + j ∧ FirstAt part y j := by
  have hx : ¬ part <:+: x := fun h => (FirstAt.exists_of_infix h).elim hnone
  rw [firstAt_append_feed_iff hpart, or_iff_right (hnone i), and_iff_right hx]

/-- Behind a text that says nothing, the rest decides. -/
theorem Says.behind (h : Says x inconclusive) (h' : Says y o) : Says (x ++ '\n' :: y) o := by
  have hrefuted (i : Nat) := firstAt_behind_iff (y := y) (i := i) isPhrase_refutation h.1
  have hconfirmed (i : Nat) := firstAt_behind_iff (y := y) (i := i) isPhrase_confirmation h.2
  cases o with
  | refuted =>
      obtain ⟨f, hf, hnot⟩ := h'
      refine ⟨x.length + 1 + f, (hrefuted _).2 ⟨f, rfl, hf⟩, fun t' ht' => ?_⟩
      obtain ⟨t, rfl, ht⟩ := (hconfirmed t').1 ht'
      exact fun hbetween => hnot t ht (feedBetween_behind_iff.1 hbetween)
  | holds =>
      obtain ⟨t, ht, hbetween⟩ := h'
      refine ⟨x.length + 1 + t, (hconfirmed _).2 ⟨t, rfl, ht⟩, fun f' hf' => ?_⟩
      obtain ⟨f, rfl, hf⟩ := (hrefuted f').1 hf'
      exact feedBetween_behind_iff.2 (hbetween f hf)
  | inconclusive =>
      refine ⟨fun f' hf' => ?_, fun t' ht' => ?_⟩
      · obtain ⟨f, -, hf⟩ := (hrefuted f').1 hf'
        exact h'.1 f hf
      · obtain ⟨t, -, ht⟩ := (hconfirmed t').1 ht'
        exact h'.2 t ht

/-- A text that says something decides, whatever comes on later lines. -/
theorem Says.before (h : Says x o) (hne : o ≠ inconclusive) (y : List Char) :
    Says (x ++ '\n' :: y) o := by
  cases o with
  | refuted =>
      obtain ⟨f, hf, hnot⟩ := h
      have hfx : f < x.length := hf.lt_length isPhrase_refutation.ne_nil
      refine ⟨f, hf.before isPhrase_refutation, fun t ht hbetween => ?_⟩
      rw [feedBetween_before_iff (by omega)] at hbetween
      rcases (firstAt_append_feed_iff isPhrase_confirmation).1 ht with ht | ⟨-, j, rfl, -⟩
      · exact hnot t ht hbetween
      · obtain ⟨k, htk, hkf, -⟩ := hbetween
        omega
  | holds =>
      obtain ⟨t, ht, hbetween⟩ := h
      have htx : t < x.length := ht.lt_length isPhrase_confirmation.ne_nil
      refine ⟨t, ht.before isPhrase_confirmation, fun f hf => ?_⟩
      rcases (firstAt_append_feed_iff isPhrase_refutation).1 hf with hf | ⟨-, j, rfl, -⟩
      · have hfx : f < x.length := hf.lt_length isPhrase_refutation.ne_nil
        exact (feedBetween_before_iff (by omega)).2 (hbetween f hf)
      · exact feedBetween_across (by omega) (by omega)
  | inconclusive => exact absurd rfl hne

/-! ## Line by line -/

def said (l : List Char) : Option Outcome := (lines l).findSome? ofLine?

theorem ofLine?_eq (l : List Char) :
    ofLine? l = if refutation <:+: l then some refuted
      else if confirmation <:+: l then some holds else none := by
  simp only [← contains_iff]
  rfl

theorem ofLine?_congr (hrefuted : refutation <:+: x ↔ refutation <:+: y)
    (hconfirmed : confirmation <:+: x ↔ confirmation <:+: y) : ofLine? x = ofLine? y := by
  simp only [ofLine?_eq, hrefuted, hconfirmed]

theorem ofLine?_ne (l : List Char) : ofLine? l ≠ some inconclusive := by
  rw [ofLine?_eq]
  split_ifs <;> simp

theorem ne_of_said (h : said l = some o) : o ≠ inconclusive := by
  rintro rfl
  obtain ⟨line, -, hline⟩ := List.exists_of_findSome?_eq_some h
  exact ofLine?_ne line hline

theorem said_of_not_mem (h : '\n' ∉ l) : said l = ofLine? l := by
  rw [said, lines_of_not_mem h]
  by_cases hl : l = []
  · rw [if_pos hl, hl]
    rfl
  · rw [if_neg hl, List.findSome?_singleton]

theorem ofLine?_concat_return (l : List Char) : ofLine? (l ++ ['\r']) = ofLine? l :=
  ofLine?_congr (infix_concat_return_iff isPhrase_refutation)
    (infix_concat_return_iff isPhrase_confirmation)

theorem ofLine?_withoutReturn (l : List Char) : ofLine? (withoutReturn l) = ofLine? l := by
  rcases withoutReturn_cases l with h | h
  · rw [h]
  · exact (ofLine?_concat_return _).symm.trans (congrArg ofLine? h.symm)

/-- The first text that says something decides, and the rest if it says nothing. -/
theorem said_append_feed (x y : List Char) : said (x ++ '\n' :: y) = (said x).or (said y) := by
  have hline (l rest : List Char) (h : '\n' ∉ l) :
      said (l ++ '\n' :: rest) = (ofLine? l).or (said rest) := by
    rw [said, lines_append h, List.findSome?_cons, ofLine?_withoutReturn]
    cases ofLine? l <;> rfl
  induction x using lines_induction with
  | last l h => rw [hline l y h, said_of_not_mem h]
  | more l rest h ih =>
      rw [List.append_assoc, List.cons_append, hline l _ h, ih, hline l _ h, Option.or_assoc]

theorem said_concat_return (x : List Char) : said (x ++ ['\r']) = said x := by
  induction x using lines_induction with
  | last l h =>
      have hl : '\n' ∉ l ++ ['\r'] := by simpa using h
      rw [said_of_not_mem hl, said_of_not_mem h, ofLine?_concat_return]
  | more l rest h ih =>
      rw [List.append_assoc, List.cons_append, said_append_feed, ih, said_append_feed]

/-- The way in which lines end says nothing, whatever stands before them. -/
theorem said_addsReturns (h : AddsReturns x y) (before : List Char) :
    said (before ++ y) = said (before ++ x) := by
  induction h generalizing before with
  | nil => rfl
  | keep c _ ih =>
      have hnext := ih (before ++ [c])
      simpa using hnext
  | @replace x y _ ih =>
      have hreturn : before ++ '\r' :: '\n' :: y = before ++ ['\r'] ++ '\n' :: y := by simp
      rw [hreturn, said_append_feed, said_concat_return, said_append_feed]
      exact congrArg _ (ih [])

theorem says_of_not_mem (h : '\n' ∉ l) : Says l ((said l).getD inconclusive) := by
  have hnone {part : List Char} (hpart : ¬ part <:+: l) (i : Nat) : ¬ FirstAt part l i :=
    fun hi => hpart hi.isInfix
  rw [said_of_not_mem h, ofLine?_eq]
  split_ifs with hrefuted hconfirmed
  · obtain ⟨f, hf⟩ := FirstAt.exists_of_infix hrefuted
    exact ⟨f, hf, fun t _ => not_feedBetween h⟩
  · obtain ⟨t, ht⟩ := FirstAt.exists_of_infix hconfirmed
    exact ⟨t, ht, fun f hf => absurd hf (hnone hrefuted f)⟩
  · exact ⟨hnone hrefuted, hnone hconfirmed⟩

theorem says_said (l : List Char) : Says l ((said l).getD inconclusive) := by
  induction l using lines_induction with
  | last l h => exact says_of_not_mem h
  | more l rest h ih =>
      have hl := says_of_not_mem h
      rw [said_append_feed]
      cases hsaid : said l with
      | none =>
          rw [hsaid] at hl
          exact hl.behind ih
      | some o =>
          rw [hsaid] at hl
          exact hl.before (ne_of_said hsaid) rest

/-! ## Outputs -/

/-- The outcome of an output is what its first occurrences of the two phrases say. What comes on
later lines does not change a conclusive outcome, and the way in which lines end changes none. -/
structure FoundBySearch (output : String) : Prop where
  says_iff : ∀ o, ofOutput output = o ↔ Says output.toList o
  appended : ofOutput output ≠ inconclusive →
    ∀ more, ofOutput (output ++ "\n" ++ more) = ofOutput output
  returns : ∀ output' : String, AddsReturns output.toList output'.toList →
    ofOutput output' = ofOutput output
  allReturns : ofOutput (String.ofList (feedsToReturns output.toList)) = ofOutput output

theorem found_by_search (output : String) : FoundBySearch output := by
  have hreturns : ∀ output' : String, AddsReturns output.toList output'.toList →
      ofOutput output' = ofOutput output := fun output' h =>
    congrArg (Option.getD · inconclusive) (said_addsReturns h [])
  constructor
  case says_iff =>
    intro o
    constructor
    · rintro rfl
      exact says_said output.toList
    · exact fun h => (says_said output.toList).unique h
  case appended =>
    intro hne more
    have htext : (output ++ "\n" ++ more).toList = output.toList ++ '\n' :: more.toList := by simp
    change (said (output ++ "\n" ++ more).toList).getD inconclusive = _
    rw [htext, said_append_feed]
    cases hsaid : said output.toList with
    | none => exact absurd (congrArg (Option.getD · inconclusive) hsaid) hne
    | some o => exact (congrArg (Option.getD · inconclusive) hsaid).symm
  case returns => exact hreturns
  case allReturns =>
    refine hreturns _ ?_
    rw [String.toList_ofList]
    exact addsReturns_feedsToReturns output.toList

/-- On one line the order of the phrases does not matter. -/
example : ofOutput "nothing yet\nis true, or is false" = refuted := by decide

end Sokoban.Outcome

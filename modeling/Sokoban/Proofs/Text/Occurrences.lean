import Mathlib.Data.List.Infix
import Mathlib.Data.Nat.Find
import Sokoban.Proofs.Text.Rows

/-!
# Where a text has a part

A part without line feeds stands within one line. So its first occurrence in two texts with a line
feed between them is that in the first text, or else that in the second, and the line feed is
between an occurrence in the first text and one in the second.
-/

namespace Sokoban.Text

variable {part x y : List Char} {i j : Nat}

structure FirstAt (part l : List Char) (i : Nat) : Prop where
  found : part <+: l.drop i
  first : ∀ j < i, ¬ part <+: l.drop j

def FeedBetween (l : List Char) (i j : Nat) : Prop := ∃ k, i ≤ k ∧ k < j ∧ l[k]? = some '\n'

/-- A part that is looked for within lines: it is not empty, and ends no line. -/
structure IsPhrase (part : List Char) : Prop where
  ne_nil : part ≠ []
  feed : '\n' ∉ part
  back : '\r' ∉ part

theorem contains_iff (part l : List Char) : contains part l = true ↔ part <:+: l := by
  induction l with
  | nil => rw [contains, List.isEmpty_iff, List.infix_nil]
  | cons c rest ih =>
      rw [contains, Bool.or_eq_true, List.isPrefixOf_iff_prefix, ih, List.infix_cons_iff]

theorem infix_of_prefix_drop (h : part <+: x.drop i) : part <:+: x :=
  h.isInfix.trans (List.drop_suffix i x).isInfix

namespace FirstAt

theorem exists_of_infix (h : part <:+: x) : ∃ i, FirstAt part x i := by
  obtain ⟨before, after, rfl⟩ := h
  have hex : ∃ i, part <+: (before ++ part ++ after).drop i := ⟨before.length, by simp⟩
  exact ⟨Nat.find hex, Nat.find_spec hex, fun j hj => Nat.find_min hex hj⟩

theorem isInfix (h : FirstAt part x i) : part <:+: x := infix_of_prefix_drop h.found

theorem unique (h : FirstAt part x i) (h' : FirstAt part x j) : i = j := by
  rcases Nat.lt_trichotomy i j with hlt | heq | hlt
  · exact absurd h.found (h'.first i hlt)
  · exact heq
  · exact absurd h'.found (h.first j hlt)

theorem lt_length (hpart : part ≠ []) (h : FirstAt part x i) : i < x.length := by
  have hne : x.drop i ≠ [] := fun hnil => hpart (List.prefix_nil.1 (hnil ▸ h.found))
  exact Nat.lt_of_not_le fun hle => hne (List.drop_eq_nil_of_le hle)

end FirstAt

/-! ## A line feed between two texts -/

/-- A part that begins before a line feed ends before it. -/
theorem prefix_append_feed_iff (hfeed : '\n' ∉ part) :
    part <+: x ++ '\n' :: y ↔ part <+: x := by
  constructor
  · intro h
    rcases List.prefix_or_prefix_of_prefix h (List.prefix_append x _) with hpart | ⟨rest, rfl⟩
    · exact hpart
    · rw [List.prefix_append_right_inj] at h
      cases rest with
      | nil => exact (List.append_nil x).symm ▸ List.prefix_rfl
      | cons c more =>
          obtain ⟨rfl, -⟩ := List.cons_prefix_cons.1 h
          exact absurd (List.mem_append_right _ List.mem_cons_self) hfeed
  · exact fun h => h.trans (List.prefix_append x _)

theorem drop_append_feed (x y : List Char) (j : Nat) :
    (x ++ '\n' :: y).drop (x.length + 1 + j) = y.drop j := by
  rw [Nat.add_assoc, List.drop_length_add_append, Nat.add_comm, List.drop_succ_cons]

theorem prefix_drop_append_feed_iff (hfeed : '\n' ∉ part) (hi : i ≤ x.length) :
    part <+: (x ++ '\n' :: y).drop i ↔ part <+: x.drop i := by
  rw [List.drop_append_of_le_length hi, prefix_append_feed_iff hfeed]

theorem FirstAt.before (hpart : IsPhrase part) (h : FirstAt part x i) :
    FirstAt part (x ++ '\n' :: y) i := by
  have hi := h.lt_length hpart.ne_nil
  refine ⟨(prefix_drop_append_feed_iff hpart.feed (by omega)).2 h.found, fun j hj hfound => ?_⟩
  exact h.first j hj ((prefix_drop_append_feed_iff hpart.feed (by omega)).1 hfound)

theorem FirstAt.behind (hpart : IsPhrase part) (hnone : ¬ part <:+: x) (h : FirstAt part y j) :
    FirstAt part (x ++ '\n' :: y) (x.length + 1 + j) := by
  refine ⟨(drop_append_feed x y j).symm ▸ h.found, fun k hk hfound => ?_⟩
  rcases Nat.lt_or_ge x.length k with hlt | hle
  · obtain ⟨m, rfl⟩ := Nat.exists_eq_add_of_lt hlt
    rw [Nat.add_right_comm, drop_append_feed] at hfound
    exact h.first m (by omega) hfound
  · rw [prefix_drop_append_feed_iff hpart.feed hle] at hfound
    exact hnone (infix_of_prefix_drop hfound)

/-- The first occurrence is in the first of two texts, or else in the second. -/
theorem firstAt_append_feed_iff (hpart : IsPhrase part) :
    FirstAt part (x ++ '\n' :: y) i ↔
      FirstAt part x i ∨ ¬ part <:+: x ∧ ∃ j, i = x.length + 1 + j ∧ FirstAt part y j := by
  constructor
  · intro h
    by_cases hx : part <:+: x
    · obtain ⟨k, hk⟩ := FirstAt.exists_of_infix hx
      exact .inl ((h.unique (hk.before hpart)) ▸ hk)
    · have hi : x.length < i := by
        refine Nat.lt_of_not_le fun hle => hx ?_
        exact infix_of_prefix_drop ((prefix_drop_append_feed_iff hpart.feed hle).1 h.found)
      obtain ⟨j, rfl⟩ := Nat.exists_eq_add_of_lt hi
      rw [Nat.add_right_comm] at h ⊢
      have hy : part <:+: y := infix_of_prefix_drop (drop_append_feed x y j ▸ h.found)
      obtain ⟨k, hk⟩ := FirstAt.exists_of_infix hy
      exact .inr ⟨hx, k, h.unique (hk.behind hpart hx), hk⟩
  · rintro (h | ⟨hx, j, rfl, h⟩)
    · exact h.before hpart
    · exact h.behind hpart hx

theorem not_feedBetween (h : '\n' ∉ x) : ¬ FeedBetween x i j :=
  fun ⟨_, _, _, hk⟩ => h (List.mem_of_getElem? hk)

theorem feedBetween_before_iff (hj : j ≤ x.length) :
    FeedBetween (x ++ '\n' :: y) i j ↔ FeedBetween x i j := by
  refine exists_congr fun k => and_congr_right fun _ => and_congr_right fun hk => ?_
  rw [List.getElem?_append_left (by omega)]

theorem feedBetween_across (hi : i ≤ x.length) (hj : x.length < j) :
    FeedBetween (x ++ '\n' :: y) i j := ⟨x.length, hi, hj, by simp⟩

theorem feedBetween_behind_iff :
    FeedBetween (x ++ '\n' :: y) (x.length + 1 + i) (x.length + 1 + j) ↔ FeedBetween y i j := by
  have hget (k : Nat) : (x ++ '\n' :: y)[x.length + 1 + k]? = y[k]? := by
    rw [← List.head?_drop, ← List.head?_drop, drop_append_feed]
  constructor
  · rintro ⟨k, hik, hkj, hk⟩
    obtain ⟨m, rfl⟩ := Nat.exists_eq_add_of_le (Nat.le_trans (Nat.le_add_right _ i) hik)
    exact ⟨m, by omega, by omega, hget m ▸ hk⟩
  · rintro ⟨k, hik, hkj, hk⟩
    exact ⟨x.length + 1 + k, by omega, by omega, (hget k).symm ▸ hk⟩

/-! ## Carriage returns -/

/-- A part has no carriage return, so one at the end of a text is in no occurrence. -/
theorem infix_concat_return_iff (hpart : IsPhrase part) : part <:+: x ++ ['\r'] ↔ part <:+: x := by
  rw [List.infix_concat_iff, List.suffix_concat_iff]
  refine or_iff_right ?_
  rintro (hnil | ⟨t, rfl, -⟩)
  · exact hpart.ne_nil hnil
  · exact hpart.back (List.mem_append_right _ List.mem_cons_self)

/-- Some line feeds, as few or as many as one likes, are replaced by a carriage return with a line
feed. -/
inductive AddsReturns : List Char → List Char → Prop
  | nil : AddsReturns [] []
  | keep (c : Char) {l l' : List Char} (h : AddsReturns l l') : AddsReturns (c :: l) (c :: l')
  | replace {l l' : List Char} (h : AddsReturns l l') :
      AddsReturns ('\n' :: l) ('\r' :: '\n' :: l')

def feedsToReturns (l : List Char) : List Char :=
  l.flatMap fun c => if c = '\n' then ['\r', '\n'] else [c]

theorem addsReturns_feedsToReturns (l : List Char) : AddsReturns l (feedsToReturns l) := by
  induction l with
  | nil => exact .nil
  | cons c rest ih =>
      rw [feedsToReturns, List.flatMap_cons]
      by_cases hc : c = '\n'
      · rw [if_pos hc, hc]
        exact .replace ih
      · rw [if_neg hc]
        exact .keep c ih

end Sokoban.Text

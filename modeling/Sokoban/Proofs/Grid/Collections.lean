import Sokoban.Grid.PosMap

/-!
# Sets and maps under change

What a write does to the keys of a map and to the number of its entries with some value, and how
large the parts of a set are.
-/

namespace Sokoban

namespace PosSet

theorem toList_inj {s t : PosSet} : s.toList = t.toList ↔ s = t := by
  cases s
  cases t
  simp

/-- The members of a set are looked through from the least one on. -/
theorem find?_toList_eq_some_iff {s : PosSet} {test : Pos → Bool} {p : Pos} :
    s.toList.find? test = some p ↔
      p ∈ s ∧ test p = true ∧ ∀ q ∈ s, test q = true → ¬ q < p := by
  have hfirst : ∀ {r}, s.toList.find? test = some r → ∀ q ∈ s, test q = true → ¬ q < r := by
    intro r h q hq htest hlt
    obtain ⟨-, before, behind, hlist, hbefore⟩ := List.find?_eq_some_iff_append.1 h
    have hsorted := s.sorted
    rw [hlist, List.pairwise_append, List.pairwise_cons] at hsorted
    rw [mem_def, hlist, List.mem_append, List.mem_cons] at hq
    rcases hq with hq | rfl | hq
    · simpa [htest] using hbefore q hq
    · exact Pos.lt_irrefl q hlt
    · exact Pos.lt_irrefl q (Pos.lt_trans hlt (hsorted.2.1.1 q hq))
  constructor
  · intro h
    exact ⟨List.mem_of_find?_eq_some h, List.find?_some h, hfirst h⟩
  · intro h
    obtain ⟨hp, htest, hleast⟩ := h
    have hsome : (s.toList.find? test).isSome := List.find?_isSome.2 ⟨p, hp, htest⟩
    obtain ⟨q, hq⟩ := Option.isSome_iff_exists.1 hsome
    have hqp := hleast q (List.mem_of_find?_eq_some hq) (List.find?_some hq)
    rw [hq, Pos.eq_of_not_lt hqp (hfirst hq p hp htest)]

/-- A set is its members in one set together with its members outside of it. -/
theorem size_filter_add_size {s t : PosSet} (h : ∀ p ∈ t, p ∈ s) :
    t.size + (s.toList.filter fun p => p ∉ t).length = s.size := by
  have hinner : s.toList.filter (fun p => decide (p ∈ t)) = t.toList := by
    apply eq_of_mem_iff (s.sorted.filter _) t.sorted
    intro p
    rw [List.mem_filter, decide_eq_true_iff]
    exact ⟨fun hp => hp.2, fun hp => ⟨h p hp, hp⟩⟩
  have hsplit := List.length_eq_countP_add_countP (fun p => decide (p ∈ t)) (l := s.toList)
  rw [List.countP_eq_length_filter, List.countP_eq_length_filter, hinner] at hsplit
  unfold size
  simpa using hsplit.symm

theorem size_union {s t : PosSet} (h : ∀ p ∈ t, p ∉ s) : (s.union t).size = s.size + t.size := by
  have hrest : (s.union t).toList.filter (fun p => p ∉ s) = t.toList := by
    apply eq_of_mem_iff ((s.union t).sorted.filter _) t.sorted
    intro p
    rw [List.mem_filter, decide_eq_true_iff]
    refine ⟨fun hp => ?_, fun hp => ⟨mem_union.2 (.inr hp), h p hp⟩⟩
    exact (mem_union.1 hp.1).resolve_left hp.2
  have hsub : ∀ p ∈ s, p ∈ s.union t := fun p hp => mem_union.2 (.inl hp)
  rw [← size_filter_add_size hsub, hrest]
  rfl

/-- A part of a set that is as large as the set is the whole of it. -/
theorem size_eq_iff {s t : PosSet} (h : ∀ p ∈ t, p ∈ s) :
    t.size = s.size ↔ ∀ p ∈ s, p ∈ t := by
  have hsize := size_filter_add_size h
  constructor
  · intro heq p hp
    have hempty : s.toList.filter (fun p => p ∉ t) = [] :=
      List.eq_nil_of_length_eq_zero (by omega)
    have := List.filter_eq_nil_iff.1 hempty p hp
    simpa using this
  · intro hall
    have hempty : s.toList.filter (fun p => p ∉ t) = [] := by
      rw [List.filter_eq_nil_iff]
      intro p hp
      simpa using hall p hp
    rw [hempty] at hsize
    simpa using hsize

theorem length_insertSorted {p : Pos} {l : List Pos} (hl : l.Pairwise (· < ·)) :
    (p.insertSorted l).length = if p ∈ l then l.length else l.length + 1 := by
  induction l with
  | nil => simp [Pos.insertSorted]
  | cons q rest ih =>
      obtain ⟨hq, hrest⟩ := List.pairwise_cons.1 hl
      unfold Pos.insertSorted
      by_cases hlt : p < q
      · have hnot : p ∉ q :: rest := by
          intro hp
          rcases List.mem_cons.1 hp with rfl | hp
          · exact Pos.lt_irrefl _ hlt
          · exact Pos.lt_irrefl _ (Pos.lt_trans hlt (hq p hp))
        rw [if_pos hlt, if_neg hnot]
        rfl
      · by_cases heq : p = q
        · simp [heq, Pos.lt_irrefl]
        · rw [if_neg hlt, if_neg heq, List.length_cons, ih hrest]
          simp only [List.mem_cons, heq, false_or]
          split <;> rfl

theorem size_ofList_le (l : List Pos) : (ofList l).size ≤ l.length := by
  induction l with
  | nil => exact Nat.le_refl 0
  | cons p rest ih =>
      have hsize : (ofList (p :: rest)).size = (p.insertSorted (ofList rest).toList).length := rfl
      rw [hsize, length_insertSorted (ofList rest).sorted, List.length_cons]
      unfold size at ih
      split <;> omega

theorem size_ofList_eq_length_iff {l : List Pos} : (ofList l).size = l.length ↔ l.Nodup := by
  induction l with
  | nil => simp [ofList, empty, size]
  | cons p rest ih =>
      have hsize : (ofList (p :: rest)).size = (p.insertSorted (ofList rest).toList).length := rfl
      have hle := size_ofList_le rest
      have hmem : p ∈ (ofList rest).toList ↔ p ∈ rest := mem_ofList
      rw [hsize, length_insertSorted (ofList rest).sorted, List.nodup_cons, ← ih, ← hmem,
        List.length_cons]
      unfold size at *
      split
      · rename_i hp
        simp only [hp, not_true_eq_false, false_and, iff_false]
        omega
      · rename_i hp
        simp [hp]

end PosSet

namespace PosMap

variable {α : Type}

theorem get?_ofList (l : List (Pos × α)) (p : Pos) : (ofList l).get? p = lookup p l := by
  induction l with
  | nil => rfl
  | cons e rest ih => simp [ofList, lookup, ih]

theorem get?_ofList_eq_some_iff {l : List (Pos × α)} (h : l.Pairwise fun a b => a.1 < b.1)
    {p : Pos} {a : α} : (ofList l).get? p = some a ↔ (p, a) ∈ l := by
  rw [get?_ofList]
  exact ⟨mem_of_lookup, lookup_of_mem h⟩

/-- Writing over a value takes that value's place in every count. -/
theorem length_filter_insertEntry {p : Pos} {a d : α} {l : List (Pos × α)}
    (hl : l.Pairwise fun a b => a.1 < b.1) (h : lookup p l = some d) (test : α → Bool) :
    ((insertEntry p a l).filter fun e => test e.2).length + (if test d then 1 else 0) =
      (l.filter fun e => test e.2).length + (if test a then 1 else 0) := by
  induction l with
  | nil => cases h
  | cons e rest ih =>
      obtain ⟨he, hrest⟩ := List.pairwise_cons.1 hl
      unfold lookup at h
      unfold insertEntry
      split at h
      · rename_i hp
        subst hp
        cases h
        rw [if_neg (Pos.lt_irrefl _), if_pos rfl]
        simp only [List.filter_cons]
        split <;> split <;> simp
      · rename_i hp
        have hlt : e.1 < p := he (p, d) (mem_of_lookup h)
        have hnlt : ¬ p < e.1 := fun hgt => Pos.lt_irrefl _ (Pos.lt_trans hlt hgt)
        rw [if_neg hnlt, if_neg hp]
        have hstep := ih hrest h
        simp only [List.filter_cons]
        split
        · simp only [List.length_cons]
          omega
        · exact hstep

end PosMap

end Sokoban

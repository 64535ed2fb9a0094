import Sokoban.Grid.Pos

/-! # Finite sets of positions

A set is its list of members in row-major order, each once, so two sets with the same members are
equal (`PosSet.ext`).
-/

namespace Sokoban

/-- Puts a position into a row-major list, unless it is there. -/
def Pos.insertSorted (p : Pos) : List Pos → List Pos
  | [] => [p]
  | q :: rest =>
    if p < q then p :: q :: rest
    else if p = q then q :: rest
    else q :: p.insertSorted rest

namespace Pos

theorem mem_insertSorted {p q : Pos} {l : List Pos} : q ∈ p.insertSorted l ↔ q = p ∨ q ∈ l := by
  induction l with
  | nil => simp [insertSorted]
  | cons r rest ih =>
    unfold insertSorted
    split
    · simp
    · split
      · rename_i h
        subst h
        simp
      · simp only [List.mem_cons, ih]
        constructor
        · rintro (h | h | h)
          · exact Or.inr (Or.inl h)
          · exact Or.inl h
          · exact Or.inr (Or.inr h)
        · rintro (h | h | h)
          · exact Or.inr (Or.inl h)
          · exact Or.inl h
          · exact Or.inr (Or.inr h)

theorem pairwise_insertSorted (p : Pos) {l : List Pos} (h : l.Pairwise (· < ·)) :
    (p.insertSorted l).Pairwise (· < ·) := by
  induction l with
  | nil => simp [insertSorted]
  | cons q rest ih =>
    have hq := (List.pairwise_cons.1 h).1
    unfold insertSorted
    split
    · rename_i hpq
      refine List.pairwise_cons.2 ⟨fun r hr => ?_, h⟩
      rcases List.mem_cons.1 hr with rfl | hr
      · exact hpq
      · exact lt_trans hpq (hq r hr)
    · split
      · exact h
      · rename_i hpq hne
        refine List.pairwise_cons.2 ⟨fun r hr => ?_, ih h.of_cons⟩
        rcases mem_insertSorted.1 hr with rfl | hr
        · exact Decidable.byContradiction fun hqp => hne (eq_of_not_lt hpq hqp)
        · exact hq r hr

/-- Whether a position stands in a row-major list. The search ends at the first position that does
not come before the one looked for. -/
def isInSorted (p : Pos) : List Pos → Bool
  | [] => false
  | q :: rest => if q < p then p.isInSorted rest else decide (p = q)

theorem isInSorted_iff {p : Pos} {l : List Pos} (h : l.Pairwise (· < ·)) :
    p.isInSorted l = true ↔ p ∈ l := by
  induction l with
  | nil => simp [isInSorted]
  | cons q rest ih =>
    have hq := (List.pairwise_cons.1 h).1
    unfold isInSorted
    split
    · rename_i hlt
      rw [ih h.of_cons, List.mem_cons]
      exact ⟨Or.inr, fun e => e.resolve_left (ne_of_lt hlt).symm⟩
    · rename_i hlt
      rw [decide_eq_true_iff, List.mem_cons]
      exact ⟨Or.inl, fun e => e.resolve_right fun hp => hlt (hq p hp)⟩

end Pos

/-- A finite set of positions, listed in row-major order. -/
structure PosSet where
  toList : List Pos
  sorted : toList.Pairwise (· < ·)
  deriving DecidableEq

namespace PosSet

instance : Membership Pos PosSet := ⟨fun s p => p ∈ s.toList⟩

instance (p : Pos) (s : PosSet) : Decidable (p ∈ s) :=
  decidable_of_iff (p.isInSorted s.toList = true) (Pos.isInSorted_iff s.sorted)

theorem mem_def {p : Pos} {s : PosSet} : p ∈ s ↔ p ∈ s.toList := Iff.rfl

def empty : PosSet := ⟨[], List.Pairwise.nil⟩

def insert (s : PosSet) (p : Pos) : PosSet :=
  ⟨p.insertSorted s.toList, p.pairwise_insertSorted s.sorted⟩

def ofList : List Pos → PosSet
  | [] => empty
  | p :: rest => (ofList rest).insert p

def union (s t : PosSet) : PosSet := ofList (s.toList ++ t.toList)

def filter (test : Pos → Bool) (s : PosSet) : PosSet :=
  ⟨s.toList.filter test, s.sorted.filter test⟩

def size (s : PosSet) : Nat := s.toList.length

@[simp] theorem mem_insert {s : PosSet} {p q : Pos} : q ∈ s.insert p ↔ q = p ∨ q ∈ s :=
  Pos.mem_insertSorted

@[simp] theorem mem_ofList {l : List Pos} {p : Pos} : p ∈ ofList l ↔ p ∈ l := by
  induction l with
  | nil => simp [ofList, empty, mem_def]
  | cons q rest ih => simp [ofList, ih]

@[simp] theorem mem_union {s t : PosSet} {p : Pos} : p ∈ s.union t ↔ p ∈ s ∨ p ∈ t := by
  rw [union, mem_ofList, List.mem_append]
  rfl

@[simp] theorem mem_filter {s : PosSet} {test : Pos → Bool} {p : Pos} :
    p ∈ s.filter test ↔ p ∈ s ∧ test p = true := by
  simp [filter, mem_def]

theorem nodup_toList (s : PosSet) : s.toList.Nodup := s.sorted.imp Pos.ne_of_lt

/-- Row-major lists without repetition are equal as soon as they have the same members. -/
theorem eq_of_mem_iff : ∀ {l k : List Pos}, l.Pairwise (· < ·) → k.Pairwise (· < ·) →
    (∀ p, p ∈ l ↔ p ∈ k) → l = k
  | [], [], _, _, _ => rfl
  | [], q :: _, _, _, h => absurd ((h q).2 List.mem_cons_self) List.not_mem_nil
  | p :: _, [], _, _, h => absurd ((h p).1 List.mem_cons_self) List.not_mem_nil
  | p :: l, q :: k, hl, hk, h => by
    have hp := (List.pairwise_cons.1 hl).1
    have hq := (List.pairwise_cons.1 hk).1
    have hpq : p = q := by
      rcases List.mem_cons.1 ((h p).1 List.mem_cons_self) with e | hpk
      · exact e
      · rcases List.mem_cons.1 ((h q).2 List.mem_cons_self) with e | hql
        · exact e.symm
        · exact absurd (Pos.lt_trans (hp q hql) (hq p hpk)) (Pos.lt_irrefl p)
    subst hpq
    have hrest : ∀ r, r ∈ l ↔ r ∈ k := fun r => by
      constructor
      · intro hr
        rcases List.mem_cons.1 ((h r).1 (List.mem_cons_of_mem p hr)) with rfl | hk'
        · exact absurd (hp _ hr) (Pos.lt_irrefl _)
        · exact hk'
      · intro hr
        rcases List.mem_cons.1 ((h r).2 (List.mem_cons_of_mem p hr)) with rfl | hl'
        · exact absurd (hq _ hr) (Pos.lt_irrefl _)
        · exact hl'
    rw [eq_of_mem_iff hl.of_cons hk.of_cons hrest]

theorem ext {s t : PosSet} (h : ∀ p, p ∈ s ↔ p ∈ t) : s = t := by
  cases s with
  | mk l hl =>
    cases t with
    | mk k hk =>
      have e : l = k := eq_of_mem_iff hl hk h
      subst e
      rfl

end PosSet

end Sokoban

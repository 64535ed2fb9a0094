import Sokoban.Grid.PosSet

/-! # Finite maps from positions

A map is its list of entries in row-major order of their keys, each key once, so a map is
determined by what it holds at each position (`PosMap.ext`).
-/

namespace Sokoban

/-- A finite map from positions, listed in row-major order of the keys. -/
structure PosMap (α : Type) where
  entries : List (Pos × α)
  sorted : entries.Pairwise fun a b => a.1 < b.1

namespace PosMap

variable {α : Type}

instance [DecidableEq α] : DecidableEq (PosMap α) := fun m n =>
  decidable_of_iff (m.entries = n.entries) (by cases m; cases n; simp)

def lookup (p : Pos) : List (Pos × α) → Option α
  | [] => none
  | e :: rest => if p = e.1 then some e.2 else lookup p rest

/-- Puts a value at a key of a row-major list of entries, in place of what was there. -/
def insertEntry (p : Pos) (a : α) : List (Pos × α) → List (Pos × α)
  | [] => [(p, a)]
  | e :: rest =>
    if p < e.1 then (p, a) :: e :: rest
    else if p = e.1 then (p, a) :: rest
    else e :: insertEntry p a rest

theorem mem_insertEntry {p : Pos} {a : α} {e : Pos × α} {l : List (Pos × α)}
    (h : e ∈ insertEntry p a l) : e = (p, a) ∨ e ∈ l := by
  induction l with
  | nil => exact Or.inl (by simpa [insertEntry] using h)
  | cons x rest ih =>
    unfold insertEntry at h
    split at h
    · simpa using h
    · split at h
      · rcases List.mem_cons.1 h with h | h
        · exact Or.inl h
        · exact Or.inr (List.mem_cons_of_mem x h)
      · rcases List.mem_cons.1 h with h | h
        · exact Or.inr (h ▸ List.mem_cons_self)
        · rcases ih h with h | h
          · exact Or.inl h
          · exact Or.inr (List.mem_cons_of_mem x h)

theorem pairwise_insertEntry (p : Pos) (a : α) {l : List (Pos × α)}
    (h : l.Pairwise fun a b => a.1 < b.1) :
    (insertEntry p a l).Pairwise fun a b => a.1 < b.1 := by
  induction l with
  | nil => simp [insertEntry]
  | cons x rest ih =>
    have hx := List.pairwise_cons.1 h
    unfold insertEntry
    split
    · rename_i hlt
      refine List.pairwise_cons.2 ⟨fun e he => ?_, h⟩
      rcases List.mem_cons.1 he with rfl | he
      · exact hlt
      · exact Pos.lt_trans hlt (hx.1 e he)
    · split
      · rename_i heq
        exact List.pairwise_cons.2 ⟨fun e he => heq ▸ hx.1 e he, hx.2⟩
      · rename_i hlt hne
        refine List.pairwise_cons.2 ⟨fun e he => ?_, ih hx.2⟩
        rcases mem_insertEntry he with rfl | he
        · exact Decidable.byContradiction fun hgt => hne (Pos.eq_of_not_lt hlt hgt)
        · exact hx.1 e he

def empty : PosMap α := ⟨[], List.Pairwise.nil⟩

def get? (m : PosMap α) (p : Pos) : Option α := lookup p m.entries

def insert (m : PosMap α) (p : Pos) (a : α) : PosMap α :=
  ⟨insertEntry p a m.entries, pairwise_insertEntry p a m.sorted⟩

def erase (m : PosMap α) (p : Pos) : PosMap α :=
  ⟨m.entries.filter fun e => e.1 ≠ p, m.sorted.filter _⟩

/-- The map of a list of entries; of two entries with one key the first counts. -/
def ofList : List (Pos × α) → PosMap α
  | [] => empty
  | e :: rest => (ofList rest).insert e.1 e.2

def keys (m : PosMap α) : PosSet :=
  ⟨m.entries.map (·.1), List.pairwise_map.2 m.sorted⟩

def size (m : PosMap α) : Nat := m.entries.length

theorem lookup_insertEntry (p : Pos) (a : α) (l : List (Pos × α)) (q : Pos) :
    lookup q (insertEntry p a l) = if q = p then some a else lookup q l := by
  induction l with
  | nil => by_cases h : q = p <;> simp [insertEntry, lookup, h]
  | cons e rest ih =>
    unfold insertEntry
    split
    · by_cases h : q = p <;> simp [lookup, h]
    · split
      · rename_i hpe
        by_cases h : q = p <;> simp [lookup, h, ← hpe]
      · rename_i hpe
        by_cases h : q = e.1
        · simp [lookup, h, Ne.symm hpe]
        · simp [lookup, h, ih]

@[simp] theorem get?_empty (p : Pos) : (empty : PosMap α).get? p = none := rfl

@[simp] theorem get?_insert (m : PosMap α) (p : Pos) (a : α) (q : Pos) :
    (m.insert p a).get? q = if q = p then some a else m.get? q :=
  lookup_insertEntry p a m.entries q

theorem mem_of_lookup {l : List (Pos × α)} {p : Pos} {a : α} (h : lookup p l = some a) :
    (p, a) ∈ l := by
  induction l with
  | nil => simp [lookup] at h
  | cons e rest ih =>
    unfold lookup at h
    split at h
    · rename_i hp
      cases h
      rw [hp]
      exact List.mem_cons_self
    · exact List.mem_cons_of_mem e (ih h)

theorem lookup_of_mem {l : List (Pos × α)} (hl : l.Pairwise fun a b => a.1 < b.1) {p : Pos} {a : α}
    (h : (p, a) ∈ l) : lookup p l = some a := by
  induction l with
  | nil => simp at h
  | cons e rest ih =>
    have he := List.pairwise_cons.1 hl
    unfold lookup
    rcases List.mem_cons.1 h with rfl | h
    · simp
    · rw [if_neg (Ne.symm (Pos.ne_of_lt (he.1 (p, a) h))), ih he.2 h]

/-- An entry is listed exactly when its value is read back at its key. -/
theorem mem_entries_iff {m : PosMap α} {p : Pos} {a : α} : (p, a) ∈ m.entries ↔ m.get? p = some a :=
  ⟨lookup_of_mem m.sorted, mem_of_lookup⟩

theorem mem_keys_iff {m : PosMap α} {p : Pos} : p ∈ m.keys ↔ ∃ a, m.get? p = some a := by
  constructor
  · intro h
    obtain ⟨⟨q, a⟩, ha, rfl⟩ := List.mem_map.1 h
    exact ⟨a, mem_entries_iff.1 ha⟩
  · rintro ⟨a, ha⟩
    exact List.mem_map.2 ⟨(p, a), mem_entries_iff.2 ha, rfl⟩

/-- Row-major lists of entries are equal as soon as they have the same members. -/
theorem eq_of_mem_iff : ∀ {l k : List (Pos × α)}, (l.Pairwise fun a b => a.1 < b.1) →
    (k.Pairwise fun a b => a.1 < b.1) → (∀ e, e ∈ l ↔ e ∈ k) → l = k
  | [], [], _, _, _ => rfl
  | [], e :: _, _, _, h => absurd ((h e).2 List.mem_cons_self) List.not_mem_nil
  | d :: _, [], _, _, h => absurd ((h d).1 List.mem_cons_self) List.not_mem_nil
  | d :: l, e :: k, hl, hk, h => by
    have hd := (List.pairwise_cons.1 hl).1
    have he := (List.pairwise_cons.1 hk).1
    have hde : d = e := by
      rcases List.mem_cons.1 ((h d).1 List.mem_cons_self) with eq | hdk
      · exact eq
      · rcases List.mem_cons.1 ((h e).2 List.mem_cons_self) with eq | hel
        · exact eq.symm
        · exact absurd (Pos.lt_trans (hd e hel) (he d hdk)) (Pos.lt_irrefl d.1)
    subst hde
    have hrest : ∀ r, r ∈ l ↔ r ∈ k := fun r => by
      constructor
      · intro hr
        rcases List.mem_cons.1 ((h r).1 (List.mem_cons_of_mem d hr)) with rfl | hk'
        · exact absurd (hd _ hr) (Pos.lt_irrefl _)
        · exact hk'
      · intro hr
        rcases List.mem_cons.1 ((h r).2 (List.mem_cons_of_mem d hr)) with rfl | hl'
        · exact absurd (he _ hr) (Pos.lt_irrefl _)
        · exact hl'
    rw [eq_of_mem_iff hl.of_cons hk.of_cons hrest]

/-- A map is determined by what it holds at each position. -/
theorem ext {m n : PosMap α} (h : ∀ p, m.get? p = n.get? p) : m = n := by
  cases m with
  | mk l hl =>
    cases n with
    | mk k hk =>
      have e : l = k := eq_of_mem_iff hl hk fun e => by
        rw [mem_entries_iff (m := ⟨l, hl⟩), h, ← mem_entries_iff]
      subst e
      rfl

end PosMap

end Sokoban

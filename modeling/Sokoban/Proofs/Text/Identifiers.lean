import Sokoban.Proofs.Formula.Atoms
import Sokoban.Proofs.Text.Lines

/-!
# The identifiers of a text

The identifiers of a text are its longest parts of letters, digits and underscores. A separator
takes them apart, so the identifiers of a text are found along the pieces that it is put together
from, as long as a separator follows each name.
-/

namespace Sokoban.Text

variable {c : Char} {l : List Char} {s t : String} {D : List Char → Prop}

def isNameChar (c : Char) : Bool := c.isAlphanum || c == '_'

/-- The identifiers and numerals of a text: its longest parts that have no other characters. -/
def identifiers (l : List Char) : List (List Char) :=
  (l.splitOnP fun c => !isNameChar c).filter fun w => !w.isEmpty

theorem identifiers_nil : identifiers [] = [] := by
  simp [identifiers]

/-- A separator takes the identifiers before it apart from those after it. -/
theorem identifiers_append_cons (hc : isNameChar c = false) (l m : List Char) :
    identifiers (l ++ c :: m) = identifiers l ++ identifiers m := by
  unfold identifiers
  rw [List.splitOnP_append_cons l m (by simp [hc]), List.filter_append]

theorem identifiers_eq_singleton (hne : l ≠ []) (h : ∀ c ∈ l, isNameChar c = true) :
    identifiers l = [l] := by
  rw [identifiers, List.splitOnP_eq_singleton fun c hc => by simp [h c hc]]
  simp [hne]

/-- The identifiers of a text that is put together line by line are those of its lines. -/
theorem mem_identifiers_unlines {w : List Char} {ls : List String} :
    w ∈ identifiers (unlines ls).toList ↔ ∃ line ∈ ls, w ∈ identifiers line.toList := by
  induction ls with
  | nil => simp [unlines, identifiers_nil]
  | cons line rest ih =>
      have htext : (unlines (line :: rest)).toList =
          line.toList ++ '\n' :: (unlines rest).toList := by
        simp [unlines_cons]
      rw [htext, identifiers_append_cons (by decide), List.mem_append, ih]
      simp

/-! ## Names -/

structure IsName (s : String) : Prop where
  ne_nil : s.toList ≠ []
  chars : ∀ c ∈ s.toList, isNameChar c = true

theorem isName_of_all (h : (!s.toList.isEmpty && s.toList.all isNameChar) = true) : IsName s := by
  rw [Bool.and_eq_true, Bool.not_eq_true', List.isEmpty_eq_false_iff, List.all_eq_true] at h
  exact ⟨h.1, h.2⟩

theorem isName_toString (n : Nat) : IsName (toString n) where
  ne_nil := by
    rw [Nat.toString_eq_repr, Nat.toList_repr]
    exact Nat.toDigits_ne_nil
  chars c hc := by
    rw [isNameChar, Char.isAlphanum, isDigit_of_mem_toString hc, Bool.or_true, Bool.true_or]

end Sokoban.Text

theorem Sokoban.Var.isName_name (v : Var) : Text.IsName v.name := by
  cases v with
  | cell p =>
      have hdigits (n : Nat) := (Text.isName_toString n).chars
      constructor
      · simp [toList_name_cell]
      · simp only [toList_name_cell, List.forall_mem_append]
        have hpos : Text.IsName "pos_" := Text.isName_of_all rfl
        have hbar : Text.IsName "_" := Text.isName_of_all rfl
        exact ⟨hpos.chars, hdigits p.row, hbar.chars, hdigits p.col⟩
  | steps => exact Text.isName_of_all rfl

namespace Sokoban.Text

variable {c : Char} {l : List Char} {s t : String} {D : List Char → Prop}

/-! ## Lines with known identifiers -/

def isSeparator (c : Char) : Bool := !isNameChar c && c != '\n' && c != '\r'

/-- A text on one line, with identifiers of some kind only. -/
structure Speaks (D : List Char → Prop) (l : List Char) : Prop where
  feed : '\n' ∉ l
  back : '\r' ∉ l
  identifiers : ∀ w ∈ identifiers l, D w

theorem Speaks.oneLine (h : Speaks D s.toList) : OneLine s := ⟨h.feed, h.back⟩

theorem speaks_nil : Speaks D [] := ⟨by simp, by simp, by simp [identifiers_nil]⟩

theorem Speaks.cons (hc : isSeparator c = true) (h : Speaks D l) : Speaks D (c :: l) := by
  simp only [isSeparator, Bool.and_eq_true, Bool.not_eq_true', bne_iff_ne] at hc
  obtain ⟨⟨hname, hfeed⟩, hback⟩ := hc
  refine ⟨?_, ?_, fun w hw => ?_⟩
  · exact fun hmem => (List.mem_cons.1 hmem).elim (fun e => hfeed e.symm) h.feed
  · exact fun hmem => (List.mem_cons.1 hmem).elim (fun e => hback e.symm) h.back
  · have hsplit := identifiers_append_cons hname [] l
    rw [identifiers_nil, List.nil_append, List.nil_append] at hsplit
    exact h.identifiers w (hsplit ▸ hw)

/-- A name with a separator after it is an identifier. -/
theorem Speaks.name (hs : IsName s) (hD : D s.toList) (hc : isNameChar c = false)
    (h : Speaks D (c :: l)) : Speaks D (s.toList ++ c :: l) := by
  have hchar {d : Char} (hd : isNameChar d = false) : d ∉ s.toList :=
    fun hmem => absurd (hs.chars d hmem) (by simp [hd])
  refine ⟨?_, ?_, fun w hw => ?_⟩
  · exact fun hmem => (List.mem_append.1 hmem).elim (hchar (by decide)) h.feed
  · exact fun hmem => (List.mem_append.1 hmem).elim (hchar (by decide)) h.back
  · have hsplit := identifiers_append_cons hc [] l
    rw [identifiers_nil, List.nil_append, List.nil_append] at hsplit
    rw [identifiers_append_cons hc, identifiers_eq_singleton hs.ne_nil hs.chars, ← hsplit] at hw
    rcases List.mem_cons.1 hw with rfl | hw
    · exact hD
    · exact h.identifiers w hw

/-- A piece of a line that can be put before any other: what it ends with is a separator. -/
def Piece (D : List Char → Prop) (s : String) : Prop :=
  ∀ l, Speaks D l → Speaks D (s.toList ++ l)

namespace Piece

theorem speaks (h : Piece D s) : Speaks D s.toList := by
  simpa using h [] speaks_nil

theorem separators (h : s.toList.all isSeparator = true) : Piece D s := by
  intro l hl
  rw [List.all_eq_true] at h
  revert h
  induction s.toList with
  | nil => exact fun _ => hl
  | cons c rest ih =>
      intro h
      obtain ⟨hc, hrest⟩ := List.forall_mem_cons.1 h
      exact (ih hrest).cons hc

theorem append (hs : Piece D s) (ht : Piece D t) : Piece D (s ++ t) := by
  intro l hl
  rw [String.toList_append, List.append_assoc]
  exact hs _ (ht l hl)

/-- A name is a piece together with the separators after it. -/
theorem name (hs : IsName s) (hD : D s.toList) (hne : t.toList ≠ [])
    (ht : t.toList.all isSeparator = true) : Piece D (s ++ t) := by
  intro l hl
  have hrest := separators ht l hl
  cases hchars : t.toList with
  | nil => exact absurd hchars hne
  | cons c rest =>
      rw [hchars, List.cons_append] at hrest
      rw [hchars, List.all_cons, Bool.and_eq_true, isSeparator, Bool.and_eq_true,
        Bool.and_eq_true, Bool.not_eq_true'] at ht
      rw [String.toList_append, hchars, List.append_assoc, List.cons_append]
      exact hrest.name hs hD ht.1.1.1

theorem join {texts : List String} (h : ∀ t ∈ texts, Piece D t) :
    Piece D (String.join texts) := by
  induction texts with
  | nil => exact separators rfl
  | cons t rest ih =>
      obtain ⟨ht, hrest⟩ := List.forall_mem_cons.1 h
      rw [String.join_cons]
      exact ht.append (ih hrest)

end Piece

end Sokoban.Text

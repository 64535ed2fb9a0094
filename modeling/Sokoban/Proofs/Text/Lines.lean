import Sokoban.Proofs.Text.Rows

/-!
# Texts that are put together from lines

A text that is put together line by line has these lines and no others. A line is told by its margin
and by what it ends with.
-/

namespace Sokoban.Text

/-! ## Lines -/

def unlines (ls : List String) : String := String.join (ls.map fun line => line ++ "\n")

theorem unlines_cons (line : String) (ls : List String) :
    unlines (line :: ls) = line ++ "\n" ++ unlines ls := by
  rw [unlines, List.map_cons, String.join_cons]
  rfl

theorem unlines_append (ls ms : List String) : unlines (ls ++ ms) = unlines ls ++ unlines ms := by
  rw [unlines, List.map_append, String.join_append]
  rfl

theorem unlines_flatMap {α : Type} (f : α → List String) (xs : List α) :
    unlines (xs.flatMap f) = String.join (xs.map fun x => unlines (f x)) := by
  induction xs with
  | nil => rfl
  | cons x rest ih => rw [List.flatMap_cons, unlines_append, ih, List.map_cons, String.join_cons]

def OneLine (line : String) : Prop := '\n' ∉ line.toList ∧ '\r' ∉ line.toList

theorem withoutReturn_of_not_mem {l : List Char} (h : '\r' ∉ l) : withoutReturn l = l := by
  rcases withoutReturn_cases l with hl | hl
  · exact hl
  · exact absurd (hl ▸ List.mem_append_right _ List.mem_cons_self) h

theorem lines_unlines {ls : List String} (h : ∀ line ∈ ls, OneLine line) :
    lines (unlines ls).toList = ls.map String.toList := by
  induction ls with
  | nil => rfl
  | cons line rest ih =>
      obtain ⟨⟨hfeed, hreturn⟩, hrest⟩ := List.forall_mem_cons.1 h
      have htext : (unlines (line :: rest)).toList =
          line.toList ++ '\n' :: (unlines rest).toList := by
        simp [unlines_cons]
      rw [htext, lines_append hfeed, withoutReturn_of_not_mem hreturn, ih hrest]
      rfl

def linesBetween (first last : String) (ls : List (List Char)) : List (List Char) :=
  ((ls.dropWhile (· != first.toList)).drop 1).takeWhile (· != last.toList)

theorem linesBetween_append {first last : String} {before ls after : List (List Char)}
    (hbefore : first.toList ∉ before) (hls : last.toList ∉ ls) :
    linesBetween first last (before ++ first.toList :: (ls ++ last.toList :: after)) = ls := by
  have hdrop : (before ++ first.toList :: (ls ++ last.toList :: after)).dropWhile
      (· != first.toList) = first.toList :: (ls ++ last.toList :: after) := by
    rw [List.dropWhile_append_of_pos]
    · exact List.dropWhile_cons_of_neg (by simp)
    · exact fun line hline => bne_iff_ne.2 fun h => hbefore (h ▸ hline)
  rw [linesBetween, hdrop, List.drop_one, List.tail_cons, List.takeWhile_append_of_pos]
  · rw [List.takeWhile_cons_of_neg (by simp), List.append_nil]
  · exact fun line hline => bne_iff_ne.2 fun h => hls (h ▸ hline)

/-! ## How lines begin and end -/

def beginsWith (s : String) (line : List Char) : Bool := s.toList.isPrefixOf line

def endsWith (s : String) (line : List Char) : Bool := s.toList.isSuffixOf line

/-- A line with a margin of so many spaces, and what it ends with. -/
structure Shaped (margin : Nat) (tail : String) (line : List Char) : Prop where
  start : ∃ c rest, line = List.replicate margin ' ' ++ c :: rest ∧ c ≠ ' '
  ending : tail.toList <:+ line

namespace Shaped

variable {margin n : Nat} {tail s : String} {line : List Char}

/-- A margin, a text that begins with no space, and what the line ends with. -/
theorem of_text {space text : String} {c : Char} (hspace : space.toList = List.replicate margin ' ')
    (htext : text.toList.head? = some c) (hc : c ≠ ' ') :
    Shaped margin tail (space ++ text ++ tail).toList := by
  obtain ⟨rest, hrest⟩ := List.head?_eq_some_iff.1 htext
  refine ⟨⟨c, rest ++ tail.toList, ?_, hc⟩, ?_⟩
  · rw [String.toList_append, String.toList_append, hspace, hrest, List.append_assoc,
      List.cons_append]
  · rw [String.toList_append]
    exact List.suffix_append _ _

theorem weaken {tail' : String} (h : Shaped margin tail line)
    (htail : endsWith tail' tail.toList = true) : Shaped margin tail' line :=
  ⟨h.start, (List.isSuffixOf_iff_suffix.1 htail).trans h.ending⟩

theorem ne {line' : String} (h : Shaped margin tail line)
    (hline : endsWith tail line'.toList = false) : line'.toList ≠ line := by
  rintro rfl
  exact Bool.eq_false_iff.1 hline (List.isSuffixOf_iff_suffix.2 h.ending)

theorem beginsWith_eq (h : Shaped margin tail line) (hs : s.toList = List.replicate n ' ') :
    beginsWith s line = decide (n ≤ margin) := by
  obtain ⟨c, rest, rfl, hc⟩ := h.start
  rw [beginsWith, hs]
  clear hs h
  induction n generalizing margin with
  | zero => simp
  | succ n ih =>
      cases margin with
      | zero => simp [List.replicate_succ, List.isPrefixOf, Ne.symm hc]
      | succ margin => simpa [List.replicate_succ, List.isPrefixOf] using ih

theorem endsWith_eq_true (h : Shaped margin tail line) (hs : endsWith s tail.toList = true) :
    endsWith s line = true :=
  List.isSuffixOf_iff_suffix.2 ((List.isSuffixOf_iff_suffix.1 hs).trans h.ending)

/-- Of two texts that a line ends with, one ends with the other. -/
theorem endsWith_eq_false (h : Shaped margin tail line) (hs : endsWith s tail.toList = false)
    (ht : endsWith tail s.toList = false) : endsWith s line = false := by
  refine Bool.eq_false_iff.2 fun hline => ?_
  have hsuffix := List.isSuffixOf_iff_suffix.1 hline
  rcases List.suffix_or_suffix_of_suffix hsuffix h.ending with hst | hts
  · exact Bool.eq_false_iff.1 hs (List.isSuffixOf_iff_suffix.2 hst)
  · exact Bool.eq_false_iff.1 ht (List.isSuffixOf_iff_suffix.2 hts)

end Shaped

end Sokoban.Text

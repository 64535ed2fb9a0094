import Sokoban.Proofs.Text.Words

/-!
# Separators outside of parentheses

Words that are joined by signs of conjunction are told apart by counting parentheses: a sign with
spaces around it that stands outside of them is in no word, so it can be replaced by another
separator without a look at the words.
-/

namespace Sokoban.Text

variable {separator a l : List Char} {c : Char} {depth : Nat} {spaces : Bool}

/-- The text with another separator for each sign of conjunction, with the spaces around it, that
stands outside of parentheses. The number counts the parentheses that are open. -/
def reseparate (separator : List Char) : Nat → List Char → List Char
  | 0, ' ' :: '&' :: ' ' :: rest => separator ++ reseparate separator 0 rest
  | depth, '(' :: rest => '(' :: reseparate separator (depth + 1) rest
  | depth, ')' :: rest => ')' :: reseparate separator (depth - 1) rest
  | depth, c :: rest => c :: reseparate separator depth rest
  | _, [] => []

theorem reseparate_sign (separator l : List Char) :
    reseparate separator 0 (' ' :: '&' :: ' ' :: l) = separator ++ reseparate separator 0 l := by
  rw [reseparate]

theorem reseparate_open (separator : List Char) (depth : Nat) (l : List Char) :
    reseparate separator depth ('(' :: l) = '(' :: reseparate separator (depth + 1) l := by
  rw [reseparate]

theorem reseparate_close (separator : List Char) (depth : Nat) (l : List Char) :
    reseparate separator depth (')' :: l) = ')' :: reseparate separator (depth - 1) l := by
  rw [reseparate]

/-- A space within parentheses belongs to no separator. -/
theorem reseparate_cons (hopen : c ≠ '(') (hclose : c ≠ ')') (hspace : c = ' ' → 0 < depth)
    (l : List Char) :
    reseparate separator depth (c :: l) = c :: reseparate separator depth l := by
  rw [reseparate]
  · exact hopen
  · exact hclose
  · rintro rest rfl hc -
    exact absurd (hspace hc) (Nat.lt_irrefl 0)

/-- Nothing is replaced in a nested text, as far as its spaces are within parentheses. -/
theorem Nested.reseparate_append (h : Nested spaces a) (hdepth : spaces = true → 0 < depth)
    (l : List Char) :
    reseparate separator depth (a ++ l) = a ++ reseparate separator depth l := by
  induction h generalizing depth l with
  | nil => rfl
  | char hopen hclose hspace _ ih =>
      rw [List.cons_append, reseparate_cons hopen hclose fun hc => hdepth (hspace hc), ih hdepth]
      rfl
  | group _ _ ihinner ih =>
      rw [List.cons_append, List.append_assoc, List.cons_append, reseparate_open,
        ihinner fun _ => Nat.zero_lt_succ depth, reseparate_close, Nat.succ_sub_one, ih hdepth,
        List.cons_append, List.append_assoc, List.cons_append]

/-- A word has no separator in it. -/
theorem Word.reseparate_append {w : String} (hw : Word w) (l : List Char) :
    reseparate separator 0 (w.toList ++ l) = w.toList ++ reseparate separator 0 l :=
  Nested.reseparate_append hw (fun hspace => absurd hspace Bool.false_ne_true) l

/-- Words joined by signs of conjunction are the words joined by another separator instead. -/
theorem reseparate_intercalate {words : List String} (h : ∀ w ∈ words, Word w)
    (separator : String) :
    reseparate separator.toList 0 (" & ".intercalate words).toList =
      (separator.intercalate words).toList := by
  induction words with
  | nil => rfl
  | cons w rest ih =>
      obtain ⟨hw, hrest⟩ := List.forall_mem_cons.1 h
      cases rest with
      | nil =>
          have hlast : reseparate separator.toList 0 (w.toList ++ []) =
              w.toList ++ reseparate separator.toList 0 [] := Word.reseparate_append hw []
          simpa [reseparate] using hlast
      | cons v more =>
          have hsign : (" & ".intercalate (w :: v :: more)).toList =
              w.toList ++ ' ' :: '&' :: ' ' :: (" & ".intercalate (v :: more)).toList := by
            rw [String.intercalate_cons_cons]
            simp
          rw [hsign, Word.reseparate_append hw, reseparate_sign, ih hrest,
            String.intercalate_cons_cons, String.toList_append, String.toList_append,
            List.append_assoc]

example : reseparate "\n  & ".toList 0 "(a & b) & c".toList = "(a & b)\n  & c".toList := by decide

/-! ## Nested texts put together -/

theorem nested_of_no_parenthesis (h : a.all (fun c => c != '(' && c != ')') = true) :
    Nested true a := by
  induction a with
  | nil => exact .nil
  | cons c rest ih =>
      rw [List.all_cons, Bool.and_eq_true, Bool.and_eq_true, bne_iff_ne, bne_iff_ne] at h
      obtain ⟨⟨hopen, hclose⟩, hrest⟩ := h
      exact .char hopen hclose (fun _ => rfl) (ih hrest)

theorem nested_join {texts : List String} (h : ∀ t ∈ texts, Nested spaces t.toList) :
    Nested spaces (String.join texts).toList := by
  induction texts with
  | nil => exact .nil
  | cons t rest ih =>
      obtain ⟨ht, hrest⟩ := List.forall_mem_cons.1 h
      rw [String.join_cons, String.toList_append]
      exact ht.append (ih hrest)

theorem nested_intercalate {separator : String} {texts : List String}
    (hseparator : Nested spaces separator.toList) (h : ∀ t ∈ texts, Nested spaces t.toList) :
    Nested spaces (separator.intercalate texts).toList := by
  induction texts with
  | nil => exact .nil
  | cons t rest ih =>
      obtain ⟨ht, hrest⟩ := List.forall_mem_cons.1 h
      cases rest with
      | nil => simpa using ht
      | cons u more =>
          rw [String.intercalate_cons_cons, String.toList_append, String.toList_append]
          exact (ht.append hseparator).append (ih hrest)

end Sokoban.Text

import Mathlib.Data.String.Basic

/-!
# Texts that are made of words

A word has its parentheses closed and no space outside of them. Words with a space before each of
them make a text in one way only: where a word ends is told by the first space or closing
parenthesis that belongs to nothing in the word.
-/

namespace Sokoban.Text

/-- Each parenthesis has its partner. Outside of parentheses a space stands only if `spaces`. -/
inductive Nested : Bool → List Char → Prop
  | nil {spaces : Bool} : Nested spaces []
  | char {spaces : Bool} {c : Char} {l : List Char} (hopen : c ≠ '(') (hclose : c ≠ ')')
      (hspace : c = ' ' → spaces = true) (hl : Nested spaces l) : Nested spaces (c :: l)
  | group {spaces : Bool} {inner l : List Char} (hinner : Nested true inner)
      (hl : Nested spaces l) : Nested spaces ('(' :: (inner ++ ')' :: l))

/-- What can stand after a nested text: a parenthesis that it did not open, or a space that it could
not hold. -/
def Ends (spaces : Bool) (r : List Char) : Prop :=
  ∀ c ∈ r.head?, c = ')' ∨ (c = ' ' ∧ spaces = false)

namespace Nested

variable {spaces : Bool} {a b r s : List Char}

theorem append (ha : Nested spaces a) (hb : Nested spaces b) : Nested spaces (a ++ b) := by
  induction ha with
  | nil => exact hb
  | char hopen hclose hspace _ ih => exact .char hopen hclose hspace (ih hb)
  | group hinner _ _ ih =>
      rw [List.cons_append, List.append_assoc, List.cons_append]
      exact .group hinner (ih hb)

theorem weaken (ha : Nested false a) : Nested spaces a := by
  generalize hno : false = no at ha
  induction ha with
  | nil => exact .nil
  | char hopen hclose hspace _ ih =>
      subst hno
      exact .char hopen hclose (fun h => absurd (hspace h) Bool.false_ne_true) (ih rfl)
  | group hinner _ _ ih => exact .group hinner (ih hno)

theorem of_forall (h : ∀ c ∈ a, c ≠ '(' ∧ c ≠ ')' ∧ c ≠ ' ') : Nested spaces a := by
  induction a with
  | nil => exact .nil
  | cons c rest ih =>
      simp only [List.forall_mem_cons] at h
      exact .char h.1.1 h.1.2.1 (fun hc => absurd hc h.1.2.2) (ih h.2)

theorem eq_nil_of_ends (ha : Nested spaces a) (hs : Ends spaces s) (h : a ++ r = s) : a = [] := by
  subst h
  cases ha with
  | nil => rfl
  | char hopen hclose hspace _ =>
      simp only [Ends, List.cons_append, List.head?_cons, Option.mem_some_iff, forall_eq'] at hs
      rcases hs with h | h
      · exact absurd h hclose
      · simp [hspace h.1] at h
  | group => simp [Ends] at hs

/-- A nested text is told from what comes after it. -/
theorem eq_of_append_eq (ha : Nested spaces a) (hb : Nested spaces b) (hr : Ends spaces r)
    (hs : Ends spaces s) (h : a ++ r = b ++ s) : a = b ∧ r = s := by
  induction ha generalizing b r s with
  | nil =>
      obtain rfl : b = [] := hb.eq_nil_of_ends hr h.symm
      exact ⟨rfl, h⟩
  | char hopen hclose hspace hl ih =>
      cases hb with
      | nil =>
          have := (Nested.char hopen hclose hspace hl).eq_nil_of_ends hs h
          simp at this
      | char _ _ _ hl' =>
          simp only [List.cons_append, List.cons.injEq] at h
          obtain ⟨rfl, h⟩ := h
          obtain ⟨rfl, hrs⟩ := ih hl' hr hs h
          exact ⟨rfl, hrs⟩
      | group => simp_all
  | group hinner hl ihinner ih =>
      cases hb with
      | nil =>
          have := (Nested.group hinner hl).eq_nil_of_ends hs h
          simp at this
      | char hopen =>
          simp only [List.cons_append, List.cons.injEq] at h
          exact absurd h.1.symm hopen
      | group hinner' hl' =>
          simp only [List.cons_append, List.append_assoc, List.cons.injEq, true_and] at h
          obtain ⟨rfl, hrest⟩ := ihinner hinner' (by simp [Ends]) (by simp [Ends]) h
          simp only [List.cons.injEq, true_and] at hrest
          obtain ⟨rfl, hrs⟩ := ih hl' hr hs hrest
          exact ⟨rfl, hrs⟩

end Nested

/-- A text with its parentheses closed and no space outside of them. -/
def Word (w : String) : Prop := Nested false w.toList

def spaced (ws : List String) : String := String.join (ws.map fun w => " " ++ w)

@[simp] theorem spaced_nil : spaced [] = "" := rfl

@[simp] theorem spaced_cons (w : String) (ws : List String) :
    spaced (w :: ws) = " " ++ w ++ spaced ws := by
  simp [spaced, String.join_cons]

@[simp] theorem spaced_append (ws vs : List String) :
    spaced (ws ++ vs) = spaced ws ++ spaced vs := by
  simp [spaced, String.join_append]

theorem ends_spaced (ws : List String) : Ends false (spaced ws).toList := by
  cases ws <;> simp [Ends]

theorem nested_spaced {ws : List String} (h : ∀ w ∈ ws, Word w) :
    Nested true (spaced ws).toList := by
  induction ws with
  | nil => exact .nil
  | cons w rest ih =>
      simp only [List.forall_mem_cons] at h
      have hspace : Nested true " ".toList :=
        .char (by decide) (by decide) (fun _ => rfl) .nil
      rw [spaced_cons, String.toList_append, String.toList_append]
      exact (hspace.append h.1.weaken).append (ih h.2)

theorem nested_of_space {s : String} (h : Nested true (" " ++ s).toList) :
    Nested true s.toList := by
  rw [String.toList_append] at h
  cases h with
  | char _ _ _ hl => exact hl

theorem word_parentheses {s : String} (h : Nested true s.toList) : Word ("(" ++ s ++ ")") := by
  have hgroup : Nested false ('(' :: (s.toList ++ [')'])) := .group h .nil
  simpa [Word] using hgroup

/-- Words in a row can be told apart. -/
theorem spaced_inj {ws vs : List String} (hw : ∀ w ∈ ws, Word w) (hv : ∀ v ∈ vs, Word v)
    (h : spaced ws = spaced vs) : ws = vs := by
  induction ws generalizing vs with
  | nil =>
      cases vs with
      | nil => rfl
      | cons v more => simp [← String.toList_inj] at h
  | cons w rest ih =>
      cases vs with
      | nil => simp [← String.toList_inj] at h
      | cons v more =>
          simp only [List.forall_mem_cons] at hw hv
          rw [spaced_cons, spaced_cons, String.append_assoc, String.append_assoc,
            String.append_right_inj, ← String.toList_inj, String.toList_append,
            String.toList_append] at h
          obtain ⟨hwv, hrest⟩ := hw.1.eq_of_append_eq hv.1 (ends_spaced rest) (ends_spaced more) h
          rw [String.toList_inj.1 hwv, ih hw.2 hv.2 (String.toList_inj.1 hrest)]

end Sokoban.Text

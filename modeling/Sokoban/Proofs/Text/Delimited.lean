import Mathlib.Data.String.Basic

/-!
# Written forms that end by themselves

A text that is put together from several written forms can be taken apart again if each form shows
where it ends. A number shows it by a character after it that is no digit, and a list of forms by
something after it that cannot begin one more of them.
-/

namespace Sokoban.Text

variable {α β : Type} {f : α → String} {g : β → String}

/-- Where two texts begin with forms of this kind, the texts are equal only if both forms are those
of one thing and what comes after them is equal. -/
def Delimited (f : α → String) : Prop :=
  ∀ ⦃x y : α⦄ ⦃r r' : String⦄, f x ++ r = f y ++ r' → x = y ∧ r = r'

namespace Delimited

theorem prepend (h : Delimited f) (s : String) : Delimited fun x => s ++ f x := by
  intro x y r r' heq
  rw [String.append_assoc, String.append_assoc, String.append_right_inj] at heq
  exact h heq

theorem append (h : Delimited f) (s : String) : Delimited fun x => f x ++ s := by
  intro x y r r' heq
  rw [String.append_assoc, String.append_assoc] at heq
  obtain ⟨hxy, hr⟩ := h heq
  exact ⟨hxy, (String.append_right_inj s).1 hr⟩

theorem pair (hf : Delimited f) (hg : Delimited g) :
    Delimited fun x : α × β => f x.1 ++ g x.2 := by
  intro x y r r' heq
  rw [String.append_assoc, String.append_assoc] at heq
  obtain ⟨hfst, hrest⟩ := hf heq
  obtain ⟨hsnd, hr⟩ := hg hrest
  exact ⟨Prod.ext hfst hsnd, hr⟩

/-- Things may be written by the forms of other things that tell them apart. -/
theorem comp (h : Delimited f) {k : β → α} (hk : ∀ x y, k x = k y → x = y) :
    Delimited fun x => f (k x) := by
  intro x y r r' heq
  obtain ⟨hxy, hr⟩ := h heq
  exact ⟨hk x y hxy, hr⟩

theorem congr (h : Delimited f) {k : α → String} (hk : ∀ x, k x = f x) : Delimited k := by
  intro x y r r' heq
  rw [hk, hk] at heq
  exact h heq

/-- A list of forms ends at a text that none of them begins with. -/
theorem join (h : Delimited f) (stop : String) (hstop : ∀ x r r', f x ++ r ≠ stop ++ r') :
    Delimited fun xs : List α => String.join (xs.map f) ++ stop := by
  intro xs ys r r' heq
  dsimp only at heq
  induction xs generalizing ys with
  | nil =>
      rw [List.map_nil, String.join_nil, String.empty_append] at heq
      cases ys with
      | nil => exact ⟨rfl, by simpa using heq⟩
      | cons y ys =>
          rw [List.map_cons, String.join_cons, String.append_assoc, String.append_assoc] at heq
          exact absurd heq.symm (hstop y _ r)
  | cons x xs ih =>
      rw [List.map_cons, String.join_cons, String.append_assoc, String.append_assoc] at heq
      cases ys with
      | nil =>
          rw [List.map_nil, String.join_nil, String.empty_append] at heq
          exact absurd heq (hstop x _ r')
      | cons y ys =>
          rw [List.map_cons, String.join_cons, String.append_assoc, String.append_assoc] at heq
          obtain ⟨hxy, hrest⟩ := h heq
          rw [← String.append_assoc, ← String.append_assoc] at hrest
          obtain ⟨htail, hr⟩ := ih hrest
          exact ⟨by rw [hxy, htail], hr⟩

end Delimited

/-- Up to its first place, a character splits a text in one way. -/
theorem append_cons_inj {a b r s : List Char} {c : Char} (ha : c ∉ a) (hb : c ∉ b)
    (h : a ++ c :: r = b ++ c :: s) : a = b ∧ r = s := by
  induction a generalizing b with
  | nil =>
      cases b with
      | nil => exact ⟨rfl, (List.cons.inj h).2⟩
      | cons d b => exact absurd (List.cons.inj h).1 fun hcd => hb (hcd ▸ List.mem_cons_self)
  | cons d a ih =>
      cases b with
      | nil => exact absurd (List.cons.inj h).1 fun hdc => ha (hdc ▸ List.mem_cons_self)
      | cons e b =>
          obtain ⟨rfl, hrest⟩ := List.cons.inj h
          obtain ⟨rfl, hrs⟩ := ih (List.not_mem_of_not_mem_cons ha)
            (List.not_mem_of_not_mem_cons hb) hrest
          exact ⟨rfl, hrs⟩

theorem not_mem_toList_toString {c : Char} (hc : c.isDigit = false) (n : Nat) :
    c ∉ (toString n).toList := by
  rw [Nat.toString_eq_repr, Nat.toList_repr]
  intro hmem
  rw [Nat.isDigit_of_mem_toDigits (by decide) (by decide) hmem] at hc
  cases hc

theorem eq_of_toString_eq {m n : Nat} (h : toString m = toString n) : m = n := by
  have hvalue := congrArg (fun s => Nat.ofDigitChars 10 s.toList 0) h
  simpa [Nat.toString_eq_repr] using hvalue

theorem delimited_number {s : String} {c : Char} (hs : s.toList.head? = some c)
    (hc : c.isDigit = false) : Delimited fun n : Nat => toString n ++ s := by
  intro m n r r' heq
  obtain ⟨rest, hs⟩ := List.head?_eq_some_iff.1 hs
  have hchars := congrArg String.toList heq
  simp only [String.toList_append, hs, List.append_assoc, List.cons_append] at hchars
  obtain ⟨hnumber, hrest⟩ := append_cons_inj (not_mem_toList_toString hc m)
    (not_mem_toList_toString hc n) hchars
  exact ⟨eq_of_toString_eq (String.toList_inj.1 hnumber),
    String.toList_inj.1 (List.append_cancel_left hrest)⟩

end Sokoban.Text

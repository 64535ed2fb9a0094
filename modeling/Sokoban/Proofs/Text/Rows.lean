import Mathlib.Logic.Relation
import Sokoban.Board.Reading

/-!
# The rows of a text

The rows of a text are its lines, trimmed, without those that are blank. Line by line a text gives
its rows, so white space around its lines and the way in which its lines end do not matter to them.
-/

namespace Sokoban.Text

def rows (l : List Char) : List (List Char) :=
  ((lines l).map trim).filter fun row => !row.isEmpty

def lineRow (l : List Char) : List (List Char) := [trim l].filter fun row => !row.isEmpty

variable {c : Char} {l : List Char}

/-! ## Trimming -/

theorem trim_cons (hc : isBlank c = true) (l : List Char) : trim (c :: l) = trim l := by
  unfold trim
  rw [List.dropWhile_cons_of_pos hc]

theorem trimEnd_concat (hc : isBlank c = true) (l : List Char) :
    trimEnd (l ++ [c]) = trimEnd l := by
  unfold trimEnd
  rw [List.reverse_append, List.reverse_singleton, List.singleton_append,
    List.dropWhile_cons_of_pos hc]

theorem trim_concat (hc : isBlank c = true) (l : List Char) : trim (l ++ [c]) = trim l := by
  unfold trim
  rw [List.dropWhile_append]
  split
  · rename_i hblank
    rw [List.isEmpty_iff.1 hblank, List.dropWhile_cons_of_pos hc]
    rfl
  · exact trimEnd_concat hc _

theorem dropWhile_isBlank (h : ∀ c ∈ l, isBlank c = false) : l.dropWhile isBlank = l := by
  cases l with
  | nil => rfl
  | cons c rest => exact List.dropWhile_cons_of_neg (by simp [h c List.mem_cons_self])

theorem trim_eq_self (h : ∀ c ∈ l, isBlank c = false) : trim l = l := by
  have hback : ∀ c ∈ l.reverse, isBlank c = false := fun c hc => h c (List.mem_reverse.1 hc)
  unfold trim trimEnd
  rw [dropWhile_isBlank h, dropWhile_isBlank hback, List.reverse_reverse]

/-! ## Lines -/

/-- A text is a single line, or a line that ends at a line feed and the text after it. -/
theorem lines_induction {motive : List Char → Prop} (last : ∀ l, '\n' ∉ l → motive l)
    (more : ∀ l rest, '\n' ∉ l → motive rest → motive (l ++ '\n' :: rest)) (l : List Char) :
    motive l := by
  by_cases h : '\n' ∈ l
  · obtain ⟨line, rest, hsplit, hline⟩ := List.eq_append_cons_of_mem h
    rw [hsplit]
    exact more line rest hline (lines_induction last more rest)
  · exact last l h
termination_by l.length
decreasing_by
  rw [hsplit, List.length_append, List.length_cons]
  omega

def withoutReturn : List Char → List Char
  | [] => []
  | ['\r'] => []
  | c :: rest => c :: withoutReturn rest

theorem withoutReturn_cases (l : List Char) :
    withoutReturn l = l ∨ l = withoutReturn l ++ ['\r'] := by
  fun_induction withoutReturn l with
  | case1 => exact .inl rfl
  | case2 => exact .inr rfl
  | case3 c rest _ ih => exact ih.imp (congrArg (List.cons c)) (congrArg (List.cons c))

theorem trim_withoutReturn (l : List Char) : trim (withoutReturn l) = trim l := by
  rcases withoutReturn_cases l with h | h
  · rw [h]
  · exact (trim_concat (by decide) _).symm.trans (congrArg trim h.symm)

theorem not_mem_cons (h : '\n' ∉ c :: l) : c ≠ '\n' ∧ '\n' ∉ l :=
  ⟨fun hc => h (hc ▸ List.mem_cons_self), fun hl => h (List.mem_cons_of_mem c hl)⟩

/-- A carriage return that is not the last character of a line is not followed by a line feed. -/
theorem not_return_append {rest : List Char} (hlast : c = '\r' → l = [] → False) (hl : '\n' ∉ l)
    (r : List Char) (hc : c = '\r') (hr : l ++ '\n' :: rest = '\n' :: r) : False := by
  cases l with
  | nil => exact hlast hc rfl
  | cons d _ => exact (not_mem_cons hl).1 (List.cons.inj hr).1

theorem lines_of_not_mem (h : '\n' ∉ l) : lines l = if l = [] then [] else [l] := by
  induction l with
  | nil => rfl
  | cons c rest ih =>
      obtain ⟨hc, hrest⟩ := not_mem_cons h
      have hreturn : ∀ more, c = '\r' → rest = '\n' :: more → False :=
        fun more _ hmore => hrest (hmore ▸ List.mem_cons_self)
      rw [lines, ih hrest]
      · cases rest <;> rfl
      · exact hreturn
      · exact hc

/-- A line feed ends its line and begins the lines of what comes after it. -/
theorem lines_append (h : '\n' ∉ l) (rest : List Char) :
    lines (l ++ '\n' :: rest) = withoutReturn l :: lines rest := by
  fun_induction withoutReturn l with
  | case1 => rw [List.nil_append, lines]
  | case2 => rw [List.singleton_append, lines]
  | case3 c more hlast ih =>
      obtain ⟨hc, hmore⟩ := not_mem_cons h
      rw [List.cons_append, lines, ih hmore]
      · exact not_return_append hlast hmore
      · exact hc

/-! ## Rows -/

theorem rows_of_not_mem (h : '\n' ∉ l) : rows l = lineRow l := by
  unfold rows lineRow
  rw [lines_of_not_mem h]
  split
  · rename_i hl
    subst hl
    rfl
  · rfl

theorem rows_line_append (h : '\n' ∉ l) (rest : List Char) :
    rows (l ++ '\n' :: rest) = lineRow l ++ rows rest := by
  unfold rows lineRow
  rw [lines_append h, List.map_cons, trim_withoutReturn, ← List.filter_append]
  rfl

/-- A line feed separates the rows before it from the rows after it. -/
theorem rows_append (l rest : List Char) : rows (l ++ '\n' :: rest) = rows l ++ rows rest := by
  induction l using lines_induction with
  | last l h => rw [rows_line_append h, rows_of_not_mem h]
  | more l more h ih =>
      rw [List.append_assoc, List.cons_append, rows_line_append h, ih, rows_line_append h,
        List.append_assoc]

/-! ## White space around lines -/

theorem rows_cons (hc : isBlank c = true) (l : List Char) : rows (c :: l) = rows l := by
  by_cases hn : c = '\n'
  · subst hn
    exact rows_append [] l
  · have hline : ∀ l, '\n' ∉ l → '\n' ∉ c :: l := by
      intro l h hmem
      exact (List.mem_cons.1 hmem).elim (fun e => hn e.symm) h
    have hrow : ∀ l, lineRow (c :: l) = lineRow l := by
      intro l
      unfold lineRow
      rw [trim_cons hc]
    induction l using lines_induction with
    | last l h => rw [rows_of_not_mem h, rows_of_not_mem (hline l h), hrow]
    | more l rest h ih =>
        rw [← List.cons_append, rows_line_append h, rows_line_append (hline l h), hrow]

theorem rows_concat (hc : isBlank c = true) (l : List Char) : rows (l ++ [c]) = rows l := by
  by_cases hn : c = '\n'
  · subst hn
    rw [rows_append]
    exact List.append_nil _
  · induction l using lines_induction with
    | last l h =>
        have hline : '\n' ∉ l ++ [c] := by simpa [h] using Ne.symm hn
        rw [rows_of_not_mem h, rows_of_not_mem hline]
        unfold lineRow
        rw [trim_concat hc]
    | more l rest h ih =>
        rw [List.append_assoc, List.cons_append, rows_line_append h, ih, rows_line_append h]

theorem rows_blank_append {space : List Char} (h : ∀ c ∈ space, isBlank c = true)
    (l : List Char) : rows (space ++ l) = rows l := by
  induction space with
  | nil => rfl
  | cons c rest ih =>
      obtain ⟨hc, hrest⟩ := List.forall_mem_cons.1 h
      rw [List.cons_append, rows_cons hc, ih hrest]

theorem rows_append_blank {space : List Char} (h : ∀ c ∈ space, isBlank c = true)
    (l : List Char) : rows (l ++ space) = rows l := by
  induction space generalizing l with
  | nil => rw [List.append_nil]
  | cons c rest ih =>
      obtain ⟨hc, hrest⟩ := List.forall_mem_cons.1 h
      rw [← List.singleton_append, ← List.append_assoc, ih hrest, rows_concat hc]

theorem rows_atStart {before space : List Char} (h : ∀ c ∈ space, isBlank c = true)
    (hstart : before = [] ∨ before.getLast? = some '\n') (after : List Char) :
    rows (before ++ (space ++ after)) = rows (before ++ after) := by
  rcases hstart with rfl | hlast
  · exact rows_blank_append h after
  · obtain ⟨line, rfl⟩ := List.getLast?_eq_some_iff.1 hlast
    rw [List.append_assoc, List.append_assoc, List.singleton_append, List.singleton_append,
      rows_append, rows_append, rows_blank_append h]

theorem rows_atEnd {after space : List Char} (h : ∀ c ∈ space, isBlank c = true)
    (hend : after = [] ∨ after.head? = some '\n') (before : List Char) :
    rows (before ++ (space ++ after)) = rows (before ++ after) := by
  rw [← List.append_assoc]
  rcases hend with rfl | hhead
  · rw [List.append_nil, List.append_nil, rows_append_blank h]
  · obtain ⟨rest, rfl⟩ := List.head?_eq_some_iff.1 hhead
    rw [rows_append, rows_append, rows_append_blank h]

/-- White space is put in at the start or at the end of a line, beside what white space there is. It
may contain line feeds, so this also adds blank lines. -/
inductive AddsSpace : List Char → List Char → Prop
  | atStart (before blank space after : List Char)
      (hstart : before = [] ∨ before.getLast? = some '\n')
      (hblank : ∀ c ∈ blank, isBlank c = true) (hspace : ∀ c ∈ space, isBlank c = true) :
      AddsSpace (before ++ (blank ++ after)) (before ++ ((blank ++ space) ++ after))
  | atEnd (before space blank after : List Char)
      (hend : after = [] ∨ after.head? = some '\n')
      (hblank : ∀ c ∈ blank, isBlank c = true) (hspace : ∀ c ∈ space, isBlank c = true) :
      AddsSpace (before ++ (blank ++ after)) (before ++ ((space ++ blank) ++ after))

theorem AddsSpace.rows_eq {l l' : List Char} (h : AddsSpace l l') : rows l' = rows l := by
  cases h with
  | atStart before blank space after hstart hblank hspace =>
      have hboth : ∀ c ∈ blank ++ space, isBlank c = true :=
        List.forall_mem_append.2 ⟨hblank, hspace⟩
      rw [rows_atStart hboth hstart, rows_atStart hblank hstart]
  | atEnd before space blank after hend hblank hspace =>
      have hboth : ∀ c ∈ space ++ blank, isBlank c = true :=
        List.forall_mem_append.2 ⟨hspace, hblank⟩
      rw [rows_atEnd hboth hend, rows_atEnd hblank hend]

theorem rows_eq_of_addsSpace {l l' : List Char} (h : Relation.ReflTransGen AddsSpace l l') :
    rows l' = rows l := by
  induction h with
  | refl => rfl
  | tail _ hstep ih => rw [hstep.rows_eq, ih]

/-! ## Line ends -/

/-- The text with a carriage return before each line feed that has none. -/
def withReturns : List Char → List Char
  | [] => []
  | '\r' :: '\n' :: rest => '\r' :: '\n' :: withReturns rest
  | '\n' :: rest => '\r' :: '\n' :: withReturns rest
  | c :: rest => c :: withReturns rest

theorem withReturns_of_not_mem (h : '\n' ∉ l) : withReturns l = l := by
  fun_induction withReturns l with
  | case1 => rfl
  | case2 => simp at h
  | case3 => simp at h
  | case4 c rest _ _ ih => rw [ih (not_mem_cons h).2]

theorem withReturns_append (h : '\n' ∉ l) (rest : List Char) :
    withReturns (l ++ '\n' :: rest) = withoutReturn l ++ '\r' :: '\n' :: withReturns rest := by
  fun_induction withoutReturn l with
  | case1 => rw [List.nil_append, withReturns, List.nil_append]
  | case2 => rw [List.singleton_append, withReturns, List.nil_append]
  | case3 c more hlast ih =>
      obtain ⟨hc, hmore⟩ := not_mem_cons h
      rw [List.cons_append, withReturns, ih hmore, List.cons_append]
      · exact not_return_append hlast hmore
      · exact hc

theorem rows_withReturns (l : List Char) : rows (withReturns l) = rows l := by
  induction l using lines_induction with
  | last l h => rw [withReturns_of_not_mem h]
  | more l rest h ih =>
      have hbare : rows (withoutReturn l) = rows l := by
        rcases withoutReturn_cases l with hl | hl
        · rw [hl]
        · exact (rows_concat (by decide) _).symm.trans (congrArg rows hl.symm)
      rw [withReturns_append h, ← List.singleton_append, ← List.append_assoc, rows_append, ih,
        rows_concat (by decide), hbare, rows_append]

/-! ## Rows without white space -/

/-- Rows that hold no white space are the rows of the text in which they follow one another. -/
theorem rows_intercalate {rs : List (List Char)}
    (h : ∀ r ∈ rs, r ≠ [] ∧ ∀ c ∈ r, isBlank c = false) :
    rows (['\n'].intercalate rs) = rs := by
  have hrow : ∀ r ∈ rs, '\n' ∉ r ∧ lineRow r = [r] := by
    intro r hr
    obtain ⟨hne, hsolid⟩ := h r hr
    have hn : '\n' ∉ r := fun hmem => Bool.noConfusion (hsolid '\n' hmem)
    refine ⟨hn, ?_⟩
    unfold lineRow
    rw [trim_eq_self hsolid]
    simp [hne]
  clear h
  induction rs with
  | nil => rfl
  | cons r rest ih =>
      obtain ⟨⟨hn, hr⟩, hrest⟩ := List.forall_mem_cons.1 hrow
      cases rest with
      | nil => rw [List.intercalate_singleton, rows_of_not_mem hn, hr]
      | cons r' rest' =>
          rw [List.intercalate_cons_cons, List.append_assoc, List.singleton_append,
            rows_line_append hn, hr, ih hrest, List.singleton_append]

end Sokoban.Text

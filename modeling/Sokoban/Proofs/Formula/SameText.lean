import Mathlib.Data.List.Forall2
import Sokoban.Proofs.Formula.Outermost
import Sokoban.Proofs.Formula.Truth

/-!
# Formulas with the same text

The text of a well-typed formula tells its operators and their arguments, down to constants and
variables. What it does not tell is the empty conjunction from `TRUE`, a conjunction of one constant
or variable from its conjunct, and a number from the content of a cell. None of these changes the
value by more than the numeral that stands for a content.
-/

namespace Sokoban

open Text

/-- An operator other than `=` determines the kinds of its arguments by their number. -/
theorem Op.Accepts.eq_of_length {op : Op} {ks ls : List Kind} (hk : op.Accepts ks)
    (hl : op.Accepts ls) (heq : op ≠ .eq) (hlen : ks.length = ls.length) : ks = ls := by
  cases op with
  | add => rw [List.eq_replicate_of_mem hk.2, List.eq_replicate_of_mem hl.2, hlen]
  | and => rw [List.eq_replicate_of_mem hk, List.eq_replicate_of_mem hl, hlen]
  | lt | not | eventually => exact Eq.trans hk (Eq.symm hl)
  | eq => exact absurd rfl heq

namespace Formula

variable {V : Type} {op : Op} {a b f g : Formula V} {args args' : List (Formula V)}

theorem map_eq_map_iff_forall₂ {α β : Type} {p : α → β} {l m : List α} :
    l.map p = m.map p ↔ List.Forall₂ (fun x y => p x = p y) l m := by
  rw [← List.forall₂_eq_eq_eq, List.forall₂_map_left_iff, List.forall₂_map_right_iff]

/-! ## What the text does not tell -/

/-- The formula that a reader of the text sees. -/
def reading : Formula V → Formula V
  | const c => const c.numeral
  | var v => var v
  | app .and [] => const (.bool true)
  | app .and [const c] => const c.numeral
  | app .and [var v] => var v
  | app op args => app op (args.map reading)

theorem reading_app (h : (app op args).operator? = some op) :
    (app op args).reading = app op (args.map reading) := by
  rw [reading] <;> intros <;> subst_vars <;> simp [operator?, isApp] at h

theorem exists_eq_app (h : f.operator? = some op) : ∃ args, f = app op args := by
  revert h
  fun_cases operator? f <;> simp_all

variable [Variable V]

/-- The formulas read the same, and have the same value in each model unless they are constants. -/
structure Alike (f g : Formula V) : Prop where
  reading : f.reading = g.reading
  value : (f.kind = g.kind ∧ ∀ model, f.value model = g.value model) ∨
    ∃ c d, f = const c ∧ g = const d

theorem numeral_eq_of_alike {c d : Const} (h : (const c : Formula V).Alike (const d)) :
    c.numeral = d.numeral := by
  simpa [Formula.reading] using h.reading

theorem Alike.map_numeral (h : f.Alike g) (model : V → Option Const) :
    (f.value model).map Const.numeral = (g.value model).map Const.numeral := by
  rcases h.value with ⟨-, hvalue⟩ | ⟨c, d, rfl, rfl⟩
  · rw [hvalue]
  · simp only [value_const, Except.map, numeral_eq_of_alike h]

/-! ## Values of applications -/

theorem argumentValues_eq {model : V → Option Const} (h : List.Forall₂ Alike args args')
    (hkind : args.map kind = args'.map kind) :
    argumentValues model args = argumentValues model args' := by
  induction h with
  | nil => rfl
  | @cons a b rest more hab hrest ih =>
      simp only [List.map_cons, List.cons.injEq] at hkind
      have hvalue : a.value model = b.value model := by
        rcases hab.value with ⟨-, hvalue⟩ | ⟨c, d, rfl, rfl⟩
        · exact hvalue model
        · rw [Const.eq_of_numeral_eq (numeral_eq_of_alike hab) hkind.1]
      rw [argumentValues, argumentValues, hvalue, ih hkind.2]

theorem value_app_eq {model : V → Option Const} (h : List.Forall₂ Alike args args')
    (hkind : args.map kind = args'.map kind) (htext : (app op args).text = (app op args').text) :
    (app op args).value model = (app op args').value model := by
  rw [value, value, argumentValues_eq h hkind, htext]

/-- Whether two values are the same is told by their numerals. -/
theorem beq_eq_of_numeral_eq {c c' d d' : Const} (hc : c.numeral = c'.numeral)
    (hd : d.numeral = d'.numeral) (hkind : c.kind = d.kind) (hkind' : c'.kind = d'.kind) :
    (c == d) = (c' == d') := by
  rw [Bool.eq_iff_iff, beq_iff_eq, beq_iff_eq]
  constructor
  · rintro rfl
    exact Const.eq_of_numeral_eq (hc.symm.trans hd) hkind'
  · rintro rfl
    exact Const.eq_of_numeral_eq (hc.trans hd.symm) hkind

/-- An equation between numbers may read as one between contents. -/
theorem value_eq_of_kind_ne {l r l' r' : Formula V} {model : V → Option Const}
    (hl : l.Alike l') (hr : r.Alike r') (hkind : l.kind = r.kind) (hkind' : l'.kind = r'.kind)
    (hne : l.kind ≠ l'.kind) :
    (app .eq [l, r]).value model = (app .eq [l', r']).value model := by
  obtain ⟨c, c', rfl, rfl⟩ := hl.value.resolve_left fun h => hne h.1
  obtain ⟨d, d', rfl, rfl⟩ := hr.value.resolve_left fun h =>
    hne (hkind.trans (h.1.trans hkind'.symm))
  rw [value_equal (value_const c) (value_const d), value_equal (value_const c') (value_const d'),
    beq_eq_of_numeral_eq (numeral_eq_of_alike hl) (numeral_eq_of_alike hr) hkind hkind']

theorem value_eq_of_alike {model : V → Option Const} (h : List.Forall₂ Alike args args')
    (hop : op.Accepts (args.map kind)) (hop' : op.Accepts (args'.map kind))
    (htext : (app op args).text = (app op args').text) :
    (app op args).value model = (app op args').value model := by
  by_cases hkind : args.map kind = args'.map kind
  · exact value_app_eq h hkind htext
  · obtain rfl : op = .eq := by
      by_contra heq
      exact hkind (hop.eq_of_length hop' heq (by simp [h.length_eq]))
    obtain ⟨k, hk⟩ := hop
    obtain ⟨k', hk'⟩ := hop'
    simp only [List.map_eq_cons_iff, List.map_eq_nil_iff] at hk hk'
    obtain ⟨l, _, rfl, hl, r, _, rfl, hr, rfl⟩ := hk
    obtain ⟨l', _, rfl, hl', r', _, rfl, hr', rfl⟩ := hk'
    simp only [List.forall₂_cons, List.forall₂_nil_right_iff, and_true] at h
    refine value_eq_of_kind_ne h.1 h.2 (hl.trans hr.symm) (hl'.trans hr'.symm) fun hk => hkind ?_
    simp [hr, hr', hk, ← hl, ← hl']

/-! ## Constants and variables -/

/-- The formula is written as the constant, is read as its numeral and has it as its value. -/
structure Denotes (f : Formula V) (c : Const) : Prop where
  words : f.words = [c.text]
  reading : f.reading = const c.numeral
  kind : f.kind = c.kind
  value (model : V → Option Const) : f.value model = .ok c
  form : f = const c ∨ ∃ b, c = .bool b

theorem denotes_const (c : Const) : (const c : Formula V).Denotes c where
  words := by rw [Formula.words]
  reading := by rw [Formula.reading]
  kind := rfl
  value _ := value_const c
  form := .inl rfl

theorem denotes_true : (app .and [] : Formula V).Denotes (.bool true) where
  words := words_true
  reading := by simp [Formula.reading, Const.numeral]
  kind := rfl
  value model := by
    have hargs : argumentValues model ([] : List (Formula V)) = .ok ([].map .bool) := by
      simp [argumentValues]
    exact value_and hargs
  form := .inr ⟨true, rfl⟩

theorem denotes_conjunct (t : Bool) :
    (app .and [const (.bool t)] : Formula V).Denotes (.bool t) where
  words := by simp [words_and_singleton, Const.text]
  reading := by simp [Formula.reading]
  kind := rfl
  value model := by
    have hargs : argumentValues model [(const (.bool t) : Formula V)] = .ok ([t].map .bool) := by
      simp [argumentValues, value_const]
    simpa using value_and hargs
  form := .inr ⟨t, rfl⟩

theorem alike_of_denotes {c d : Const} (hf : f.Denotes c) (hg : g.Denotes d)
    (h : c.text = d.text) : f.Alike g := by
  have hnumeral : c.numeral = d.numeral := Const.numeral_eq_of_text_eq h
  constructor
  · rw [hf.reading, hg.reading, hnumeral]
  · have hsame : c = d → f.kind = g.kind ∧ ∀ model, f.value model = g.value model := by
      rintro rfl
      exact ⟨hf.kind.trans hg.kind.symm, fun model => (hf.value model).trans (hg.value model).symm⟩
    rcases hf.form with hfc | ⟨t, rfl⟩
    · rcases hg.form with hgd | ⟨t, rfl⟩
      · exact .inr ⟨c, d, hfc, hgd⟩
      · exact .inl (hsame (Const.numeral_eq_bool_iff.1 hnumeral))
    · exact .inl (hsame (Const.numeral_eq_bool_iff.1 hnumeral.symm).symm)

variable [Variable.Legible V]

/-- What has no outermost operator is a constant, in all but name, or a variable. -/
theorem exists_denotes_or_var (h : f.WellTyped) (hnone : f.operator? = none) :
    (∃ c, f.Denotes c) ∨ ∃ v, f = var v := by
  revert h
  fun_cases operator? f
  case case1 c => exact fun _ => .inl ⟨c, denotes_const c⟩
  case case2 v => exact fun _ => .inr ⟨v, rfl⟩
  case case3 => exact fun _ => .inl ⟨_, denotes_true⟩
  case case4 hname => simp_all [operator?]
  case case5 a hatom =>
    intro h
    have hkind : a.kind = .bool := (wellTyped_app_iff.1 h).2 _ (by simp)
    cases a with
    | const c =>
        obtain ⟨t, rfl⟩ := Const.kind_eq_bool_iff.1 hkind
        exact .inl ⟨_, denotes_conjunct t⟩
    | var v => exact absurd hkind (Variable.Legible.kind_ne_bool v)
    | app => simp [isApp] at hatom
  case case6 => simp_all [operator?]

theorem alike_of_operator?_eq_none (hf : f.WellTyped) (hg : g.WellTyped)
    (hfnone : f.operator? = none) (hgnone : g.operator? = none) (h : f.words = g.words) :
    f.Alike g := by
  rcases exists_denotes_or_var hf hfnone with ⟨c, hc⟩ | ⟨v, rfl⟩ <;>
    rcases exists_denotes_or_var hg hgnone with ⟨d, hd⟩ | ⟨w, rfl⟩
  · rw [hc.words, hd.words] at h
    exact alike_of_denotes hc hd (List.singleton_inj.1 h)
  · rw [hc.words, words] at h
    exact absurd (List.singleton_inj.1 h).symm (Variable.Legible.name_ne_text w c)
  · rw [hd.words, words] at h
    exact absurd (List.singleton_inj.1 h) (Variable.Legible.name_ne_text v d)
  · rw [words, words] at h
    obtain rfl := Variable.Legible.name_inj (List.singleton_inj.1 h)
    exact ⟨rfl, .inl ⟨rfl, fun _ => rfl⟩⟩

/-! ## Applications -/

theorem text_eq_iff_words_eq (hf : f.WellTyped) (hg : g.WellTyped) :
    f.text = g.text ↔ f.words = g.words := by
  constructor
  · intro h
    refine spaced_inj hf.worded.word hg.worded.word ?_
    rw [hf.worded.text, hg.worded.text, h]
  · intro h
    have hspaced := hf.worded.text
    rw [h, hg.worded.text, String.append_right_inj] at hspaced
    exact hspaced.symm

theorem words_ne_parenthesized (h : f.WellTyped) (hopen : isEnclosed op f = false) (s : String) :
    f.words ≠ [parenthesized s] := by
  intro hwords
  have hand : f.operator? = some .and := by
    rw [← outermost_words h, hwords, outermost_parenthesized]
  rw [isEnclosed_of_operator? hand] at hopen
  revert hopen
  cases op <;> decide

theorem words_eq_of_argumentWords_eq (ha : a.WellTyped) (hb : b.WellTyped)
    (h : argumentWords op a = argumentWords op b) : a.words = b.words := by
  cases hea : isEnclosed op a <;> cases heb : isEnclosed op b
  · rwa [argumentWords_open hea, argumentWords_open heb] at h
  · rw [argumentWords_open hea, argumentWords_enclosed heb] at h
    exact absurd h (words_ne_parenthesized ha hea _)
  · rw [argumentWords_enclosed hea, argumentWords_open heb] at h
    exact absurd h.symm (words_ne_parenthesized hb heb _)
  · rw [argumentWords_enclosed hea, argumentWords_enclosed heb] at h
    simp only [parenthesized, List.cons.injEq, and_true, String.append_left_inj,
      String.append_right_inj] at h
    exact (text_eq_iff_words_eq ha hb).1 h

theorem splitOn_words (h : (app op args).WellTyped) (hop : op.isLeading = false)
    (hargs : args ≠ []) :
    (app op args).words.splitOn op.symbol = args.map (argumentWords op) := by
  rw [words_between hop hargs]
  refine List.splitOn_intercalate _ (fun ws hws => ?_) (by simpa using hargs)
  obtain ⟨a, ha, rfl⟩ := List.mem_map.1 hws
  exact symbol_notMem_argumentWords (outermost_words ((wellTyped_app_iff.1 h).1 a ha))
    (mem_signs_of_between hop) fun _ => parenthesizes_of_le

/-- The words tell the words of the arguments. -/
theorem argumentWords_eq (hf : (app op args).WellTyped) (hg : (app op args').WellTyped)
    (hargs : args ≠ []) (hargs' : args' ≠ []) (h : (app op args).words = (app op args').words) :
    args.map (argumentWords op) = args'.map (argumentWords op) := by
  have hop := (wellTyped_app_iff.1 hf).2
  have hop' := (wellTyped_app_iff.1 hg).2
  cases op with
  | add | lt | eq | and => rw [← splitOn_words hf rfl hargs, h, splitOn_words hg rfl hargs']
  | not =>
      obtain ⟨a, rfl, -⟩ := List.map_eq_singleton_iff.1 hop
      obtain ⟨b, rfl, -⟩ := List.map_eq_singleton_iff.1 hop'
      simp only [words_not, List.cons.injEq, and_true, String.append_right_inj] at h
      simp [argumentWords_eq_singleton .not fun _ => rfl, h]
  | eventually =>
      obtain ⟨a, rfl, -⟩ := List.map_eq_singleton_iff.1 hop
      obtain ⟨b, rfl, -⟩ := List.map_eq_singleton_iff.1 hop'
      simp only [words_eventually, List.cons.injEq, and_true, true_and] at h
      simp [argumentWords_eq_singleton .eventually fun _ => rfl, h]

theorem operator?_eq_of_words_eq (hf : f.WellTyped) (hg : g.WellTyped)
    (h : f.words = g.words) : f.operator? = g.operator? := by
  rw [← outermost_words hf, h, outermost_words hg]

/-- The induction step: arguments with the same words are alike, so their applications are. -/
theorem alike_app (hf : (app op args).WellTyped) (hg : (app op args').WellTyped)
    (hop : (app op args).operator? = some op) (h : (app op args).words = (app op args').words)
    (ih : ∀ a ∈ args, ∀ b ∈ args', a.words = b.words → a.Alike b) :
    (app op args).Alike (app op args') := by
  have hop' : (app op args').operator? = some op := operator?_eq_of_words_eq hf hg h ▸ hop
  have hwords := map_eq_map_iff_forall₂.1
    (argumentWords_eq hf hg (args_ne_nil hf hop) (args_ne_nil hg hop') h)
  obtain ⟨hargs, haccepts⟩ := wellTyped_app_iff.1 hf
  obtain ⟨hargs', haccepts'⟩ := wellTyped_app_iff.1 hg
  have halike : List.Forall₂ Alike args args' := by
    refine List.forall₂_iff_zip.2 ⟨hwords.length_eq, fun hab => ?_⟩
    obtain ⟨ha, hb⟩ := List.of_mem_zip hab
    exact ih _ ha _ hb
      (words_eq_of_argumentWords_eq (hargs _ ha) (hargs' _ hb) (List.forall₂_zip hwords hab))
  constructor
  · rw [reading_app hop, reading_app hop',
      map_eq_map_iff_forall₂.2 (halike.imp fun _ _ hab => hab.reading)]
  · exact .inl ⟨rfl, fun model => value_eq_of_alike halike haccepts haccepts'
      ((text_eq_iff_words_eq hf hg).2 h)⟩

/-- Formulas with the same words are alike. -/
theorem alike_of_words_eq (hf : f.WellTyped) (hg : g.WellTyped) (h : f.words = g.words) :
    f.Alike g := by
  induction hf generalizing g with
  | const c =>
      have hop := operator?_eq_of_words_eq (.const c) hg h
      exact alike_of_operator?_eq_none (.const c) hg rfl hop.symm h
  | var v =>
      have hop := operator?_eq_of_words_eq (.var v) hg h
      exact alike_of_operator?_eq_none (.var v) hg rfl hop.symm h
  | app hargs happly ih =>
      obtain ⟨-, rfl⟩ := apply_eq_ok_iff.1 happly
      have hf := WellTyped.app hargs happly
      have hop := operator?_eq_of_words_eq hf hg h
      -- what is written without an operator may be a conjunction on one side only
      cases ho : (app _ _).operator? with
      | none => exact alike_of_operator?_eq_none hf hg ho (hop ▸ ho) h
      | some x =>
          obtain ⟨_, heq⟩ := exists_eq_app ho
          cases heq
          obtain ⟨args', rfl⟩ := exists_eq_app (hop ▸ ho)
          exact alike_app hf hg ho h fun a ha b hb hab =>
            ih a ha ((wellTyped_app_iff.1 hg).1 b hb) hab

/-- Well-typed formulas that are written in the same way are read in the same way. In each model
they have the same value, up to the numeral of a content, or fail or crash in the same way. -/
theorem same_meaning_of_text_eq :
    (∀ f g : StateFormula, f.WellTyped → g.WellTyped → f.text = g.text →
      f.reading = g.reading ∧ ∀ model,
        (f.value model).map Const.numeral = (g.value model).map Const.numeral) ∧
    ∀ f g : StepFormula, f.WellTyped → g.WellTyped → f.text = g.text →
      f.reading = g.reading ∧ ∀ model,
        (f.value model).map Const.numeral = (g.value model).map Const.numeral := by
  constructor
  · intro f g hf hg h
    have halike := alike_of_words_eq hf hg ((text_eq_iff_words_eq hf hg).1 h)
    exact ⟨halike.reading, halike.map_numeral⟩
  · intro f g hf hg h
    have halike := alike_of_words_eq hf hg ((text_eq_iff_words_eq hf hg).1 h)
    exact ⟨halike.reading, halike.map_numeral⟩

theorem same_meaning_of_text_eq_of_coincidence :
    let f : StateFormula := app .and [app .eq [const (.int 1), const (.int 3)], app .and []]
    let g : StateFormula :=
      app .and [app .eq [const (.content .empty), const (.content .keeper)],
        app .and [const (.bool true)]]
    let f' : StepFormula := app .not [app .and []]
    let g' : StepFormula := app .not [app .and [const (.bool true)]]
    (f.WellTyped ∧ g.WellTyped ∧ f.text = g.text ∧ f.reading = g.reading ∧ ∀ model,
      (f.value model).map Const.numeral = (g.value model).map Const.numeral) ∧
    (f'.WellTyped ∧ g'.WellTyped ∧ f'.text = g'.text ∧ f'.reading = g'.reading ∧ ∀ model,
      (f'.value model).map Const.numeral = (g'.value model).map Const.numeral) := by
  intro f g f' g'
  have hf : f.WellTyped := by
    simp [f, wellTyped_app_iff, WellTyped.const, Op.Accepts, kind, Op.kind, Const.kind]
  have hg : g.WellTyped := by
    simp [g, wellTyped_app_iff, WellTyped.const, Op.Accepts, kind, Op.kind, Const.kind]
  have hf' : f'.WellTyped := by
    simp [f', wellTyped_app_iff, Op.Accepts, kind, Op.kind]
  have hg' : g'.WellTyped := by
    simp [g', wellTyped_app_iff, WellTyped.const, Op.Accepts, kind, Op.kind, Const.kind]
  have h : f.text = g.text := by
    simp [f, g, text, argumentTexts, layout, Const.text, Content.text, Content.code]
  have h' : f'.text = g'.text := by
    simp [f', g', text, argumentTexts, layout, Const.text]
  exact ⟨⟨hf, hg, h, same_meaning_of_text_eq.1 f g hf hg h⟩,
    hf', hg', h', same_meaning_of_text_eq.2 f' g' hf' hg' h'⟩

end Formula

end Sokoban

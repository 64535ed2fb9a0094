import Mathlib.Data.List.Nodup
import Sokoban.Check.Decomposition
import Sokoban.Check.External
import Sokoban.Proofs.Text.Delimited

/-!
# Names of the files of a checker

The stem of a pair ends in its number, and what is put after it shows where the number ends and what
the file is for. So the names tell the files of different pairs apart, whatever stands before.
-/

namespace Sokoban

/-- A number ends before the first character that is no digit. -/
theorem Text.number_append_inj {m n : Nat} {s t : String}
    (hs : ∀ c ∈ s.toList.head?, c.isDigit = false) (ht : ∀ c ∈ t.toList.head?, c.isDigit = false)
    (h : toString m ++ s = toString n ++ t) : m = n ∧ s = t := by
  have hdigits : ∀ (k : Nat) (u : String), (∀ c ∈ u.toList.head?, c.isDigit = false) →
      (toString k ++ u).toList.takeWhile Char.isDigit = (toString k).toList := by
    intro k u hu
    rw [String.toList_append, List.takeWhile_append_of_pos fun c hc => ?_]
    · cases hlist : u.toList with
      | nil => simp
      | cons c rest => simp [hu c (by simp [hlist])]
    · rw [Nat.toString_eq_repr, Nat.toList_repr] at hc
      exact Nat.isDigit_of_mem_toDigits (by decide) (by decide) hc
  have hnumber : (toString m).toList = (toString n).toList := by
    rw [← hdigits m s hs, h, hdigits n t ht]
  obtain rfl := eq_of_toString_eq (String.toList_inj.1 hnumber)
  exact ⟨rfl, (String.append_right_inj _).1 h⟩

namespace Path

/-- What stands after the last slash. -/
def fileName (path : String) : String :=
  String.ofList (path.toList.reverse.takeWhile (· != '/')).reverse

theorem fileName_append {path name : String} (h : '/' ∉ name.toList) :
    fileName (path ++ name) = fileName path ++ name := by
  have hname : ∀ c ∈ name.toList.reverse, (c != '/') = true := by
    intro c hc
    rw [List.mem_reverse] at hc
    rw [bne_iff_ne]
    rintro rfl
    exact h hc
  refine String.toList_inj.1 ?_
  simp only [fileName, String.toList_ofList, String.toList_append, List.reverse_append]
  rw [List.takeWhile_append_of_pos hname, List.reverse_append, List.reverse_reverse]

/-- What is put after a path belongs to its last part. -/
theorem join_append {directory path name : String} (h : name.toList.head? ≠ some '/') :
    join directory (path ++ name) = join directory path ++ name := by
  have habsolute : isAbsolute (path ++ name) = isAbsolute path := by
    cases hpath : path.toList with
    | nil => simp [isAbsolute, hpath, h]
    | cons c rest => simp [isAbsolute, hpath]
  unfold join
  rw [habsolute]
  split
  · rfl
  · split
    · exact (String.append_assoc ..).symm
    · simp only [String.append_assoc]

end Path

/-! ## What the names end in -/

structure IsEnding (ending : String) : Prop where
  noDigit : ∀ c ∈ ending.toList.head?, c.isDigit = false
  noSlash : '/' ∉ ending.toList

theorem isEnding_model : IsEnding ".smv" := ⟨by simp, by simp⟩

theorem isEnding_output (e : Engine) : IsEnding ("_" ++ e.tag ++ ".out") := by
  cases e with
  | bdd => exact ⟨by simp [Engine.tag], by simp [Engine.tag]⟩
  | bmc depth => exact ⟨by simp [Engine.tag], by simp [Engine.tag]⟩

theorem model_ne_output (e : Engine) : ".smv" ≠ "_" ++ e.tag ++ ".out" := by
  cases e with
  | bdd => simp [Engine.tag, ← String.toList_inj]
  | bmc depth => simp [Engine.tag, ← String.toList_inj]

/-- What the name of a file of a pair ends in. -/
def pairEnding (index : Nat) (ending : String) : String := "_pair" ++ toString index ++ ending

theorem pairEnding_inj {i j : Nat} {s t : String} (hs : IsEnding s) (ht : IsEnding t)
    (h : pairEnding i s = pairEnding j t) : i = j ∧ s = t := by
  unfold pairEnding at h
  rw [String.append_assoc, String.append_assoc] at h
  exact Text.number_append_inj hs.noDigit ht.noDigit ((String.append_right_inj _).1 h)

theorem not_mem_pairEnding {ending : String} (h : IsEnding ending) (index : Nat) :
    '/' ∉ (pairEnding index ending).toList := by
  have hnumber := Text.not_mem_toList_toString (c := '/') (by decide) index
  simpa [pairEnding, h.noSlash] using hnumber

namespace ExternalChecker

def files (c : ExternalChecker) (e : Engine) (stem : String) : List String :=
  [c.modelPath stem, { c with engine := e }.outputPath stem]

theorem modelPath_eq (c : ExternalChecker) (stem : String) :
    c.modelPath stem = Path.join c.directory stem ++ ".smv" :=
  Path.join_append (by simp)

theorem outputPath_eq (c : ExternalChecker) (stem : String) :
    c.outputPath stem = Path.join c.directory stem ++ ("_" ++ c.engine.tag ++ ".out") := by
  have hname : stem ++ "_" ++ c.engine.tag ++ ".out" =
      stem ++ ("_" ++ c.engine.tag ++ ".out") := by
    simp only [String.append_assoc]
  rw [outputPath, hname]
  exact Path.join_append (by simp)

theorem modelPath_ne_outputPath {c c' : ExternalChecker} (h : c.directory = c'.directory)
    (stem : String) : c.modelPath stem ≠ c'.outputPath stem := by
  rw [modelPath_eq, outputPath_eq, h, Ne, String.append_right_inj]
  exact model_ne_output c'.engine

end ExternalChecker

namespace Decomposer

variable {m : Type → Type} (d : Decomposer m) (c : ExternalChecker)

def pairFiles (d : Decomposer m) (c : ExternalChecker) (names : List (Nat × String)) :
    List String :=
  names.map fun name => Path.join c.directory d.stem ++ pairEnding name.1 name.2

theorem files_stemOf (e : Engine) (index : Nat) :
    c.files e (d.stemOf index) =
      d.pairFiles c [(index, ".smv"), (index, "_" ++ e.tag ++ ".out")] := by
  have hstem (ending : String) : Path.join c.directory (d.stemOf index) ++ ending =
      Path.join c.directory d.stem ++ pairEnding index ending := by
    have hhead : ("_pair" ++ toString index).toList.head? ≠ some '/' := by simp
    rw [stemOf, String.append_assoc, Path.join_append hhead, pairEnding, String.append_assoc]
  rw [ExternalChecker.files, ExternalChecker.modelPath_eq, ExternalChecker.outputPath_eq, hstem,
    hstem]
  rfl

theorem dot_mem_of_mem_files {e : Engine} {index : Nat} {file : String}
    (h : file ∈ c.files e (d.stemOf index)) : '.' ∈ file.toList := by
  rw [files_stemOf, pairFiles, List.mem_map] at h
  obtain ⟨name, hname, rfl⟩ := h
  have hdot : '.' ∈ name.2.toList := by
    rcases List.mem_pair.1 hname with rfl | rfl
    · simp
    · simp
  simp [pairEnding, hdot]

/-- The names of the files of two pairs differ, whatever the engines. -/
theorem nodup_fileName_files (e f : Engine) {i j : Nat} (hij : i ≠ j) :
    ((c.files e (d.stemOf i) ++ c.files f (d.stemOf j)).map Path.fileName).Nodup := by
  rw [files_stemOf, files_stemOf, pairFiles, pairFiles, ← List.map_append, List.map_map]
  have hendings : ∀ name ∈ [(i, ".smv"), (i, "_" ++ e.tag ++ ".out")] ++
      [(j, ".smv"), (j, "_" ++ f.tag ++ ".out")], IsEnding name.2 := by
    simp [isEnding_model, isEnding_output]
  refine List.Nodup.map_on (fun name hname other hother heq => ?_) ?_
  · have hending := hendings name hname
    have hending' := hendings other hother
    rw [Function.comp_apply, Function.comp_apply,
      Path.fileName_append (not_mem_pairEnding hending _),
      Path.fileName_append (not_mem_pairEnding hending' _), String.append_right_inj] at heq
    obtain ⟨hindex, htext⟩ := pairEnding_inj hending hending' heq
    exact Prod.ext hindex htext
  · simp [hij, model_ne_output, (model_ne_output _).symm]

end Decomposer

end Sokoban

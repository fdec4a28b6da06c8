import MisraPlatform.Proof.PatchEngine

/-
This file proves when the lines that the service reads are those that the compiler counts.
-/

namespace MisraPlatform.SourceFileService
open UnifiedDiff PatchEngine

section Ends

theorem linesBy_congr {ends others : Char → Bool} {text : List Char}
    (same : ∀ char ∈ text, ends char = others char) : linesBy ends text = linesBy others text := by
  induction text with
  | nil => rfl
  | cons first rest ih =>
      rw [linesBy, linesBy, same first List.mem_cons_self,
        ih fun char inside => same char (List.mem_cons_of_mem _ inside)]

/-- A character that ends no line is in one. -/
theorem exists_line {ends : Char → Bool} {text : List Char} {char : Char} (inside : char ∈ text)
    (inner : ends char = false) : ∃ line ∈ linesBy ends text, char ∈ line := by
  induction text with
  | nil => cases inside
  | cons first rest ih =>
      rw [linesBy]
      cases List.mem_cons.mp inside with
      | inl here =>
          subst here
          rw [if_neg (by simp [inner])]
          cases linesBy ends rest with
          | nil => exact ⟨_, List.mem_cons_self, List.mem_cons_self⟩
          | cons line others => exact ⟨_, List.mem_cons_self, List.mem_cons_self⟩
      | inr later =>
          obtain ⟨line, listed, found⟩ := ih later
          split
          · exact ⟨line, List.mem_cons_of_mem _ listed, found⟩
          · cases lines : linesBy ends rest with
            | nil =>
                rw [lines] at listed
                cases listed
            | cons head others =>
                rw [lines] at listed
                cases List.mem_cons.mp listed with
                | inl same => exact ⟨first :: head, List.mem_cons_self, List.mem_cons_of_mem _ (same ▸ found)⟩
                | inr behind => exact ⟨line, List.mem_cons_of_mem _ behind, found⟩

/-- Only carriage returns are left out where line ends are joined. -/
theorem mem_joinReturns {text : List Char} {char : Char} (apart : char ≠ '\r') :
    char ∈ joinReturns text ↔ char ∈ text := by
  induction text using joinReturns.induct with
  | case1 rest ih =>
      rw [joinReturns, List.mem_cons, ih]
      simp [apart]
  | case2 first rest other ih =>
      rw [joinReturns_cons other, List.mem_cons, List.mem_cons, ih]
  | case3 => rfl

end Ends

/-- The numbering is that of the compiler exactly when no other character of the file ends a line for `splitlines`. -/
theorem agreesWithClang_iff (files : FileSystem) (projectRoot filePath : SourcePath) (text : String)
    (inside : projectRoot <+: filePath) (contents : files filePath = some text) :
    AgreesWithClang files projectRoot filePath text ↔
      ∀ char ∈ text.toList, isLineBoundary char = true → isNewline char = true := by
  have read : readLines files projectRoot filePath = some (splitlines text) := by
    rw [readLines, resolve, if_neg (not_not.mpr inside), if_neg (by simp [contents]), Option.bind_some, contents]
    rfl
  constructor
  · intro agrees char listed boundary
    by_contra different
    have inner : isNewline char = false := by simpa using different
    have apart : char ≠ '\r' := by
      rintro rfl
      cases inner
    obtain ⟨line, present, found⟩ := exists_line ((mem_joinReturns apart).mpr listed) inner
    obtain ⟨number, position⟩ := List.getElem?_of_mem (List.mem_map_of_mem (f := String.ofList) present)
    obtain ⟨lines, same, position⟩ := agrees.lines number _ position
    rw [read, Option.some.injEq] at same
    have clean := oneLine_of_splitlines (same ▸ List.mem_of_getElem? position)
    rw [OneLine, String.toList_ofList] at clean
    rw [clean char found] at boundary
    cases boundary
  · intro only
    have same : splitlines text = clangLines text := by
      rw [splitlines, clangLines]
      refine congrArg _ (linesBy_congr fun char listed => ?_)
      by_cases newline : isNewline char = true
      · rw [newline]
        simp only [isNewline, Bool.or_eq_true, decide_eq_true_eq] at newline
        cases newline with
        | inl feed => rw [feed]; rfl
        | inr carriage => rw [carriage]; rfl
      · have apart : char ≠ '\r' := by
          rintro rfl
          exact newline rfl
        have inner := mt (only char ((mem_joinReturns apart).mp listed)) newline
        rw [Bool.not_eq_true] at inner newline
        rw [inner, newline]
    refine ⟨fun number line position => ⟨_, read, same ▸ position⟩, fun lineStart lineEnd => ?_⟩
    rw [readLineRange, read, Option.bind_some, same]
    by_cases bounds : 1 ≤ lineStart ∧ lineStart ≤ lineEnd ∧ lineEnd ≤ (clangLines text).length
    · rw [if_pos bounds, if_neg (by omega)]
    · rw [if_neg bounds, if_pos (by omega)]

section Sample

/-- A form feed stands behind the first statement. -/
def pagedFiles : FileSystem := fun path => if path = ["repo", "main.c"] then some "int a;\x0c\nint b;\n" else none

theorem formFeed_shifts : pagedFiles ["repo", "main.c"] = some "int a;\x0c\nint b;\n" ∧
    ¬ AgreesWithClang pagedFiles ["repo"] ["repo", "main.c"] "int a;\x0c\nint b;\n" := by
  refine ⟨rfl, fun agrees => ?_⟩
  obtain ⟨lines, read, second⟩ := agrees.lines 1 "int b;" (by decide)
  rw [show readLines pagedFiles ["repo"] ["repo", "main.c"] = some ["int a;", "", "int b;"] by rfl] at read
  cases read
  revert second
  decide

theorem plainFile_agrees : AgreesWithClang patchedFiles ["repo"] ["repo", "main.c"] "int a;\nint b;\n" := by
  refine (agreesWithClang_iff patchedFiles ["repo"] ["repo", "main.c"] _ ⟨["main.c"], rfl⟩ rfl).mpr ?_
  have ends : ("int a;\nint b;\n".toList.all fun char => !isLineBoundary char || isNewline char) = true := by decide
  intro char listed boundary
  have newline := List.all_eq_true.mp ends char listed
  rwa [boundary] at newline

end Sample

end MisraPlatform.SourceFileService

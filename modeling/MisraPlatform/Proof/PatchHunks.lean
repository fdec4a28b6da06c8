import MisraPlatform.Proof.PatchEngine

/-
This file proves when the git patch has the same lines of hunks as the unified diff that it is made from.
-/

namespace MisraPlatform.PatchEngine
open UnifiedDiff SourceFileService

section Lines

/-- Two lists of lines start with the same line, and they go on with the same lines that are not blank. -/
def Alike (first second : List (List Char)) : Prop :=
  first.head? = second.head? ∧ nonblank first.tail = nonblank second.tail

theorem Alike.nonblank {first second : List (List Char)} (alike : Alike first second) :
    nonblank first = nonblank second := by
  cases first with
  | nil =>
      have empty : second = [] := List.head?_eq_none_iff.mp alike.1.symm
      rw [empty]
  | cons line rest =>
      obtain ⟨others, rfl⟩ := List.head?_eq_some_iff.mp alike.1.symm
      exact (nonblank_append [line] rest).trans
        ((congrArg _ alike.2).trans (nonblank_append [line] others).symm)

theorem Alike.consHead {first second : List (List Char)} (alike : Alike first second) (char : Char) :
    Alike (consHead char first) (consHead char second) := by
  cases first with
  | nil =>
      have empty : second = [] := List.head?_eq_none_iff.mp alike.1.symm
      rw [empty]
      exact ⟨rfl, rfl⟩
  | cons line rest =>
      obtain ⟨others, rfl⟩ := List.head?_eq_some_iff.mp alike.1.symm
      exact ⟨rfl, alike.2⟩

/-- Joined line ends make fewer blank lines and nothing else. -/
theorem alike_joinReturns (text : List Char) :
    Alike (linesBy isLineBoundary (joinReturns text)) (linesBy isLineBoundary text) := by
  induction text using joinReturns.induct with
  | case1 rest ih =>
      rw [joinReturns, linesBy_end (by decide), linesBy_end (by decide), linesBy_end (by decide)]
      refine ⟨rfl, ih.nonblank.trans ?_⟩
      rfl
  | case2 char rest other ih =>
      rw [joinReturns_cons other, linesBy, linesBy]
      split
      · exact ⟨rfl, ih.nonblank⟩
      · exact ih.consHead char
  | case3 => exact ⟨rfl, rfl⟩

/-- These are the parts that `splitlines` makes of a line. -/
def pieces (line : List Char) : List (List Char) := nonblank (linesBy isLineBoundary line)

theorem pieces_of_clean {line : List Char} (clean : Clean line) (some_char : line ≠ []) : pieces line = [line] := by
  rw [pieces, linesBy_last clean some_char]
  simp [nonblank, some_char]

theorem mem_pieces {line piece : List Char} (listed : piece ∈ pieces line) : Clean piece ∧ piece ≠ [] := by
  obtain ⟨inside, text⟩ := List.mem_filter.mp listed
  exact ⟨clean_of_linesBy inside, by simpa using text⟩

theorem pieces_append_end {stop : Char} (closes : isLineBoundary stop = true) (before after : List Char) :
    pieces (before ++ stop :: after) = pieces before ++ pieces after :=
  nonblank_append_end closes before after

theorem pieces_text (text : List Char) : pieces text = (nonblank (textLines text)).flatMap pieces := by
  have blanks : ∀ lines : List (List Char), lines.flatMap pieces = (nonblank lines).flatMap pieces := by
    intro lines
    induction lines with
    | nil => rfl
    | cons line rest ih =>
        rw [List.flatMap_cons, ih, ← List.singleton_append, nonblank_append, List.flatMap_append]
        by_cases empty : line = []
        · rw [empty]
          rfl
        · simp [nonblank, empty]
  rw [← blanks]
  exact nonblank_linesBy (by decide) text

end Lines

section Bodies

def isBody (line : List Char) : Bool := isBodyLine (String.ofList line)

/-- The body of a git patch has the parts of the unified diff that are not taken for names. -/
theorem nonblank_body (unified : String) :
    nonblank (textLines ((String.intercalate "\n" ((splitlines unified).filter isBodyLine)).toList ++ ['\n'])) =
      (pieces unified.toList).filter isBody := by
  have joined : ∀ lines : List (List Char), (∀ line ∈ lines, Clean line) →
      nonblank (textLines ((String.intercalate "\n" (lines.map String.ofList)).toList ++ ['\n'])) = nonblank lines := by
    intro lines clean
    induction lines with
    | nil => rfl
    | cons line others ih =>
        have here : nonblank (textLines line) = nonblank [line] := by
          by_cases empty : line = []
          · rw [empty]
            rfl
          · have inner : ∀ char ∈ line, decide (char = '\n') = false :=
              fun char inside => splits_newline.line char (clean line List.mem_cons_self char inside)
            rw [textLines, linesBy_last inner empty]
        have split := nonblank_append [line] others
        rw [List.singleton_append] at split
        by_cases last : others = []
        · subst last
          rw [List.map_singleton, String.intercalate_singleton, String.toList_ofList, textLines,
            nonblank_append_end (by decide)]
          exact (List.append_nil _).trans here
        · have more : others.map String.ofList ≠ [] := by simpa using last
          rw [List.map_cons, toList_intercalate_cons _ more, String.toList_ofList, List.append_assoc,
            List.cons_append, textLines, nonblank_append_end (by decide), split, ← here]
          exact congrArg _ (ih fun other inside => clean other (List.mem_cons_of_mem _ inside))
  have filtered : (splitlines unified).filter isBodyLine =
      ((linesBy isLineBoundary (joinReturns unified.toList)).filter isBody).map String.ofList :=
    List.filter_map ..
  rw [filtered, joined _ fun line inside => clean_of_linesBy (List.mem_of_mem_filter inside), nonblank,
    List.filter_comm]
  exact congrArg _ (alike_joinReturns unified.toList).nonblank

/-- These are the lines behind the first one of a path that are not taken for names. -/
def tornLines (path : String) : List (List Char) :=
  (nonblank (linesBy isLineBoundary ('/' :: path.toList)).tail).filter isBody

theorem linesBy_named {start : List Char} (clean : Clean start) (text : List Char) :
    ∃ first, linesBy isLineBoundary (start ++ '/' :: text) =
      (start ++ '/' :: first) :: (linesBy isLineBoundary ('/' :: text)).tail := by
  induction start with
  | nil =>
      have inner : isLineBoundary '/' = false := by decide
      rw [List.nil_append, linesBy, inner]
      cases linesBy isLineBoundary text with
      | nil => exact ⟨[], rfl⟩
      | cons first rest => exact ⟨first, rfl⟩
  | cons char rest ih =>
      obtain ⟨first, lines⟩ := ih fun other inside => clean other (List.mem_cons_of_mem _ inside)
      refine ⟨first, ?_⟩
      rw [List.cons_append, linesBy, clean char List.mem_cons_self, lines]
      rfl

theorem filter_named {start : List Char} (clean : Clean start) (text : List Char)
    (named : ∀ rest, isBody (start ++ rest) = false) :
    (pieces (start ++ '/' :: text)).filter isBody =
      (nonblank (linesBy isLineBoundary ('/' :: text)).tail).filter isBody := by
  obtain ⟨first, lines⟩ := linesBy_named clean text
  have split := nonblank_append [start ++ '/' :: first] (linesBy isLineBoundary ('/' :: text)).tail
  have alone : nonblank [start ++ '/' :: first] = [start ++ '/' :: first] := by simp [nonblank]
  rw [pieces, lines, ← List.singleton_append, split, alone, List.singleton_append,
    List.filter_cons_of_neg (by simp [named])]

theorem filter_names (path : String) (body : List Char) :
    (pieces ((unifiedNames path).toList ++ body)).filter isBody =
      tornLines path ++ (tornLines path ++ (pieces body).filter isBody) := by
  have names : (unifiedNames path).toList ++ body =
      (['-', '-', '-', ' ', 'a'] ++ '/' :: path.toList) ++ '\n' ::
        ((['+', '+', '+', ' ', 'b'] ++ '/' :: path.toList) ++ '\n' :: body) := by
    simp [unifiedNames]
  rw [names, @pieces_append_end '\n' (by decide), @pieces_append_end '\n' (by decide), List.filter_append,
    List.filter_append,
    filter_named (by decide) _ fun rest => by simp [isBody, isBodyLine],
    filter_named (by decide) _ fun rest => by simp [isBody, isBodyLine]]
  rfl

end Bodies

section Comparison

theorem count_flatMap_le {line : List Char} (clean : Clean line) (some_char : line ≠ []) (body : isBody line = true)
    (lines : List (List Char)) : lines.count line ≤ ((lines.flatMap pieces).filter isBody).count line := by
  induction lines with
  | nil => exact Nat.zero_le _
  | cons first rest ih =>
      rw [List.flatMap_cons, List.filter_append, List.count_append, List.count_cons]
      by_cases same : first = line
      · subst same
        rw [pieces_of_clean clean some_char]
        simp only [beq_self_eq_true, if_true, List.filter_cons, body, List.filter_nil, List.count_singleton_self]
        omega
      · simp only [beq_iff_eq, same, if_false]
        omega

/-- A line that the torn names add is missing behind them, so no line may be added, and no other line may change. -/
theorem same_lines_iff (torn lines : List (List Char)) (added : ∀ line ∈ torn, Clean line ∧ line ≠ [] ∧ isBody line = true)
    (text : ∀ line ∈ lines, line ≠ []) :
    torn ++ (torn ++ (lines.flatMap pieces).filter isBody) = lines ↔
      torn = [] ∧ ∀ line ∈ lines, Clean line ∧ isBody line = true := by
  constructor
  · intro same
    have quiet : torn = [] := by
      by_contra some_line
      obtain ⟨line, others, rfl⟩ := List.exists_cons_of_ne_nil some_line
      obtain ⟨clean, some_char, body⟩ := added line List.mem_cons_self
      have counted := congrArg (List.count line) same
      have bound := count_flatMap_le clean some_char body lines
      rw [List.count_append, List.count_append, List.count_cons_self] at counted
      omega
    refine ⟨quiet, fun line listed => ?_⟩
    rw [quiet, List.nil_append, List.nil_append] at same
    rw [← same] at listed
    obtain ⟨inside, body⟩ := List.mem_filter.mp listed
    obtain ⟨source, _, piece⟩ := List.mem_flatMap.mp inside
    exact ⟨(mem_pieces piece).1, body⟩
  · rintro ⟨rfl, kept⟩
    have whole : lines.flatMap pieces = lines := by
      calc lines.flatMap pieces = lines.flatMap fun line => [line] :=
            List.flatMap_congr fun line listed => pieces_of_clean (kept line listed).1 (text line listed)
        _ = lines := List.flatMap_singleton' lines
    rw [List.nil_append, List.nil_append, whole]
    exact List.filter_eq_self.mpr fun line listed => (kept line listed).2

theorem tornLines_eq_nil (path : String) : tornLines path = [] ↔ TornQuietly path := by
  have alike := (alike_joinReturns ('/' :: path.toList)).2
  have tail : (splitlines ("/" ++ path)).tail =
      (linesBy isLineBoundary (joinReturns ('/' :: path.toList))).tail.map String.ofList := by
    rw [splitlines, String.toList_append, List.map_tail]
    rfl
  rw [tornLines, ← alike, TornQuietly, tail, List.forall_mem_map, List.filter_eq_nil_iff]
  constructor
  · intro quiet line listed
    by_cases empty : line = []
    · exact .inl (by rw [empty])
    · exact .inr (by simpa [isBody] using quiet line (List.mem_filter.mpr ⟨listed, by simpa using empty⟩))
  · intro quiet line listed
    obtain ⟨inside, text⟩ := List.mem_filter.mp listed
    cases quiet line inside with
    | inl empty =>
        have nothing : line = [] := by simpa using congrArg String.toList empty
        simp [nothing] at text
    | inr named => simpa [isBody] using named

end Comparison

section Hunks

variable {diff : List String → List String → List (Hunk String)} {path : String} {original new : List String}

theorem hasHunkLines_iff {names patch : String} {body : List Char} (text : patch.toList = names.toList ++ body)
    (lines : List (List Char)) : HasHunkLines names patch lines ↔ nonblank (textLines body) = lines := by
  rw [HasHunkLines, text]
  constructor
  · rintro ⟨other, same, found⟩
    rwa [List.append_cancel_left same]
  · exact fun found => ⟨body, rfl, found⟩

theorem nonblank_intercalate (lines : List String) : nonblank (textLines (String.intercalate "\n" lines).toList) =
    lines.flatMap fun line => nonblank (textLines line.toList) := by
  induction lines with
  | nil => rfl
  | cons line others ih =>
      by_cases last : others = []
      · rw [last, String.intercalate_singleton, List.flatMap_singleton]
      · rw [toList_intercalate_cons _ last, textLines, nonblank_append_end (by decide), List.flatMap_cons]
        exact congrArg _ ih

theorem textLines_header (hunk : Hunk String) :
    textLines (String.ofList (hunkHeader hunk)).toList = [hunkHeader hunk] := by
  have inner : ∀ char ∈ hunkHeader hunk, decide (char = '\n') = false :=
    fun char inside => splits_newline.line char (clean_hunkHeader hunk char inside)
  rw [String.toList_ofList]
  exact linesBy_last inner (by simp [hunkHeader])

/-- The headers of the hunks always survive, so their lines decide. -/
theorem kept_lines_iff (hunks : List (Hunk String)) :
    (∀ line ∈ nonblank (textLines (String.intercalate "\n" (hunks.flatMap hunkLines)).toList),
        Clean line ∧ isBody line = true) ↔
      ∀ hunk ∈ hunks, ∀ edit ∈ hunk.edits, KeepsEdit edit := by
  rw [nonblank_intercalate]
  constructor
  · intro kept hunk listed edit inside line part
    rw [OneLine, String.toList_ofList]
    by_cases empty : line = []
    · subst empty
      exact ⟨fun char inside => (List.not_mem_nil inside).elim, by decide⟩
    · refine kept line (List.mem_flatMap.mpr ⟨editLine edit, List.mem_flatMap.mpr ⟨hunk, listed, ?_⟩, ?_⟩)
      · exact List.mem_cons_of_mem _ (List.mem_map_of_mem inside)
      · exact List.mem_filter.mpr ⟨part, by simpa using empty⟩
  · intro kept line listed
    obtain ⟨text, inside, part⟩ := List.mem_flatMap.mp listed
    obtain ⟨hunk, known, own⟩ := List.mem_flatMap.mp inside
    have cut := (List.mem_filter.mp part).1
    cases List.mem_cons.mp own with
    | inl header =>
        rw [header, textLines_header] at cut
        rw [List.mem_singleton.mp cut]
        exact ⟨clean_hunkHeader hunk, isBodyLine_header hunk⟩
    | inr change =>
        obtain ⟨edit, present, rfl⟩ := List.mem_map.mp change
        have result := kept hunk known edit present line cut
        rwa [OneLine, String.toList_ofList] at result

theorem toList_unified_names (some_hunk : diff (original.map withNewline) (new.map withNewline) ≠ [])
    (lines : (diff (original.map withNewline) (new.map withNewline)).flatMap hunkLines ≠ []) :
    (unifiedDiff diff path original new).toList = (unifiedNames path).toList ++
      (String.intercalate "\n" ((diff (original.map withNewline) (new.map withNewline)).flatMap hunkLines)).toList := by
  rw [unifiedDiff, difflibUnifiedDiff, if_neg some_hunk, toList_intercalate_cons _ (List.cons_ne_nil _ _),
    toList_intercalate_cons _ lines]
  generalize (String.intercalate "\n" _).toList = body
  simp [unifiedNames]

theorem toList_git_names (unified : String) : (toGitPatch path unified).toList = (gitNames path).toList ++
    ((String.intercalate "\n" ((splitlines unified).filter isBodyLine)).toList ++ ['\n']) := by
  rw [toList_gitPatch]
  generalize (String.intercalate "\n" _).toList = body
  simp [gitNames, unifiedNames, gitName, gitIndex, oldName, newName]

/-- The git patch has the lines that the unified diff has in its hunks exactly when the names and the lines are not
mixed up. -/
theorem sameHunks_iff (diff : List String → List String → List (Hunk String)) (path : String)
    (original new : List String) :
    SameHunks path (unifiedDiff diff path original new) (toGitPatch path (unifiedDiff diff path original new)) ↔
      KeepsHunks diff path original new := by
  cases computed : diff (original.map withNewline) (new.map withNewline) with
  | nil =>
      refine iff_of_true ⟨[], ?_, ?_⟩ (.inl computed)
      · rw [unifiedDiff_nil computed, hasHunkLines_iff (toList_git_names _)]
        rfl
      · rw [unifiedDiff_nil computed, if_pos rfl]
  | cons hunk others =>
      have some_hunk : diff (original.map withNewline) (new.map withNewline) ≠ [] := computed ▸ List.cons_ne_nil _ _
      have some_line : (diff (original.map withNewline) (new.map withNewline)).flatMap hunkLines ≠ [] := by
        rw [computed, List.flatMap_cons]
        exact List.cons_ne_nil _ _
      have text := @toList_unified_names diff path original new some_hunk some_line
      have some_text : unifiedDiff diff path original new ≠ "" := by
        intro empty
        rw [empty] at text
        simp [unifiedNames] at text
      rw [KeepsHunks, or_iff_right some_hunk, ← tornLines_eq_nil, ← kept_lines_iff, ← same_lines_iff]
      · rw [← pieces_text, ← filter_names, ← text, ← nonblank_body]
        constructor
        · rintro ⟨lines, git, unified⟩
          rw [if_neg some_text] at unified
          exact ((hasHunkLines_iff (toList_git_names _) lines).mp git).trans
            ((hasHunkLines_iff text lines).mp unified).symm
        · intro same
          refine ⟨_, (hasHunkLines_iff (toList_git_names _) _).mpr same, ?_⟩
          rw [if_neg some_text]
          exact (hasHunkLines_iff text _).mpr rfl
      · intro line listed
        obtain ⟨inside, body⟩ := List.mem_filter.mp listed
        obtain ⟨cut, some_char⟩ := List.mem_filter.mp inside
        exact ⟨clean_of_linesBy (List.mem_of_mem_tail cut), by simpa using some_char, body⟩
      · intro line listed
        simpa using (List.mem_filter.mp listed).2

/-- A line of the source survives when it does not start with its own sign twice. -/
theorem keepsEdit_iff {edit : Edit String} (changes : ∀ line, edit ≠ .keep line) {line : String}
    (text : edit.line = withNewline line) (oneLine : OneLine line) :
    KeepsEdit edit ↔ ¬ [edit.sign, edit.sign] <+: line.toList := by
  have signed : Clean (edit.sign :: line.toList) := clean_sign edit oneLine
  have lines : textLines (editLine edit).toList = [edit.sign :: line.toList] := by
    rw [toList_editLine text]
    exact splits_newline.next signed []
  rw [KeepsEdit, lines, List.forall_mem_singleton, OneLine, String.toList_ofList]
  refine (and_iff_right signed).trans ?_
  cases edit with
  | keep line => exact absurd rfl (changes line)
  | delete line => simp [isBodyLine, Edit.sign]
  | insert line => simp [isBodyLine, Edit.sign]

end Hunks

section Sample

/-- A deleted line that starts with two dashes is taken for the name of a file. -/
theorem dashedLine_dropped : CorrectDiff replaceAll ∧ ¬ SameHunks "main.c"
    (unifiedDiff replaceAll "main.c" ["--count;"] ["count = 0;"])
    (toGitPatch "main.c" (unifiedDiff replaceAll "main.c" ["--count;"] ["count = 0;"])) := by
  refine ⟨correctDiff_replaceAll, ?_⟩
  rintro ⟨lines, git, unified⟩
  rw [if_neg (by decide)] at unified
  have gitLines := (hasHunkLines_iff (toList_git_names _) lines).mp git
  have unifiedLines := (hasHunkLines_iff (toList_unified_names (by decide) (by decide)) lines).mp
    unified
  rw [← unifiedLines] at gitLines
  revert gitLines
  decide

end Sample

end MisraPlatform.PatchEngine

import MisraPlatform.Semantics.Patches

/-
This file proves when the text of a generated patch survives its way into the file.
-/

namespace MisraPlatform.PatchEngine
open UnifiedDiff SourceFileService

section Lines

/-- These are the characters of one line. -/
def Clean (line : List Char) : Prop := ∀ char ∈ line, isLineBoundary char = false

instance (line : List Char) : Decidable (Clean line) :=
  List.decidableBAll (fun char => isLineBoundary char = false) line

theorem clean_append {first second : List Char} (clean : Clean first) (later : Clean second) :
    Clean (first ++ second) := by
  intro char inside
  cases List.mem_append.mp inside with
  | inl here => exact clean char here
  | inr there => exact later char there

/-- Both ways to split a text end a line at its newlines, and neither at a character of a line. -/
structure Splits (ends : Char → Bool) : Prop where
  newline : ends '\n' = true
  line : ∀ char, isLineBoundary char = false → ends char = false

theorem splits_boundary : Splits isLineBoundary := ⟨rfl, fun _ clean => clean⟩

theorem splits_newline : Splits (· = '\n') where
  newline := rfl
  line := by
    intro char clean
    by_contra newline
    simp only [Bool.not_eq_false, decide_eq_true_eq] at newline
    rw [newline] at clean
    cases clean

variable {ends : Char → Bool}

theorem Splits.next (splits : Splits ends) {line : List Char} (clean : Clean line) (rest : List Char) :
    linesBy ends (line ++ '\n' :: rest) = line :: linesBy ends rest :=
  linesBy_line (fun char inside => splits.line char (clean char inside)) splits.newline rest

theorem joinReturns_cons {first : Char} {rest : List Char}
    (other : ∀ behind, first = '\r' → rest = '\n' :: behind → False) :
    joinReturns (first :: rest) = first :: joinReturns rest := by
  rw [joinReturns.eq_def]
  split
  · rename_i same
    exact (other _ (List.cons.inj same).1 (List.cons.inj same).2).elim
  · rename_i same
    obtain ⟨rfl, rfl⟩ := List.cons.inj same
    rfl
  · rename_i same
    cases same

theorem joinReturns_of_clean {text : List Char} (noReturn : '\r' ∉ text) : joinReturns text = text := by
  induction text using joinReturns.induct with
  | case1 rest ih => exact absurd List.mem_cons_self noReturn
  | case2 first rest other ih =>
      have later : joinReturns rest = rest := ih (mt (List.mem_cons_of_mem first) noReturn)
      rw [joinReturns_cons other, later]
  | case3 => rfl

theorem return_not_mem {line : List Char} (clean : Clean line) : '\r' ∉ line :=
  fun inside => absurd (clean _ inside) (by decide)

theorem oneLine_of_splitlines {text line : String} (listed : line ∈ splitlines text) : OneLine line := by
  obtain ⟨chars, inside, rfl⟩ := List.mem_map.mp listed
  rw [OneLine, String.toList_ofList]
  exact clean_of_linesBy inside

theorem joinReturns_eq_nil {text : List Char} (none_left : joinReturns text = []) : text = [] := by
  unfold joinReturns at none_left
  split at none_left
  · cases none_left
  · cases none_left
  · rfl

theorem oneLine_of_fixLines {fixText line : String} (listed : line ∈ fixLines fixText) : OneLine line := by
  rw [fixLines] at listed
  split at listed
  · rename_i none_left
    have empty : fixText.toList = [] := by
      by_contra some_char
      exact linesBy_ne_nil (fun nothing => some_char (joinReturns_eq_nil nothing)) (List.map_eq_nil_iff.mp none_left)
    rw [List.mem_singleton.mp listed, OneLine, empty]
    exact fun _ inside => absurd inside List.not_mem_nil
  · exact oneLine_of_splitlines listed

theorem clean_toDigits (number : Nat) : Clean (Nat.toDigits 10 number) := by
  intro char inside
  have digit := Nat.isDigit_of_mem_toDigits (by omega) (by omega) inside
  by_contra boundary
  simp only [isLineBoundary, Bool.not_eq_false, decide_eq_true_eq] at boundary
  have apart : ['\n', '\r', '\x0b', '\x0c', '\x1c', '\x1d', '\x1e', '\u0085', '\u2028', '\u2029'].all
      (fun stop => !stop.isDigit) = true := by decide
  have other := List.all_eq_true.mp apart char boundary
  rw [digit] at other
  cases other

theorem clean_rangeText (position count : Nat) : Clean (rangeText position count) := by
  rw [rangeText]
  split
  · exact clean_toDigits _
  · split
    · exact clean_append (clean_toDigits _) (by decide)
    · exact clean_append (clean_toDigits _) (clean_append (by decide : Clean [',']) (clean_toDigits _))

theorem clean_hunkHeader {α : Type} (hunk : Hunk α) : Clean (hunkHeader hunk) :=
  clean_append (by decide) (clean_append (clean_rangeText _ _)
    (clean_append (by decide) (clean_append (clean_rangeText _ _) (by decide))))

theorem clean_sign {α : Type} (edit : Edit α) {line : List Char} (clean : Clean line) :
    Clean (edit.sign :: line) := by
  have sign : Clean [edit.sign] := by cases edit <;> simp only [Edit.sign] <;> decide
  exact clean_append sign clean

end Lines

section Texts

variable {diff : List String → List String → List (Hunk String)} {path : String}

def oldName (path : String) : List Char := ['-', '-', '-', ' ', 'a', '/'] ++ path.toList

def newName (path : String) : List Char := ['+', '+', '+', ' ', 'b', '/'] ++ path.toList

theorem clean_oldName (oneLine : OneLine path) : Clean (oldName path) := clean_append (by decide) oneLine

theorem clean_newName (oneLine : OneLine path) : Clean (newName path) := clean_append (by decide) oneLine

/-- These lines follow the first line of the first hunk. -/
def laterLines (more : List (Edit String)) (others : List (Hunk String)) : List String :=
  more.map editLine ++ others.flatMap hunkLines

/-- The newline of each line of a hunk is kept beside the one that joins the lines. -/
def laterText (lines : List String) : List Char :=
  if lines = [] then [] else '\n' :: (String.intercalate "\n" lines).toList

theorem toList_editLine {edit : Edit String} {line : String} (text : edit.line = withNewline line) :
    (editLine edit).toList = edit.sign :: line.toList ++ ['\n'] := by
  rw [editLine, text, withNewline, String.toList_append, String.toList_append, String.toList_ofList]
  rfl

theorem toList_intercalate_cons (first : String) {others : List String} (some_line : others ≠ []) :
    (String.intercalate "\n" (first :: others)).toList =
      first.toList ++ '\n' :: (String.intercalate "\n" others).toList := by
  rw [String.intercalate_cons_of_ne_nil some_line, String.toList_append, String.toList_append,
    List.append_assoc]
  rfl

theorem toList_intercalate_laterText {first : String} {line : List Char} (newline : first.toList = line ++ ['\n'])
    (others : List String) :
    (String.intercalate "\n" (first :: others)).toList = line ++ '\n' :: laterText others := by
  rw [laterText]
  split
  · rename_i none_left
    rw [none_left, String.intercalate_singleton, newline]
  · rename_i some_line
    rw [toList_intercalate_cons first some_line, newline, List.append_assoc]
    rfl

theorem intercalate_starts (first : String) (others : List String) :
    ∃ text, (String.intercalate "\n" (first :: others)).toList = first.toList ++ text := by
  by_cases last : others = []
  · rw [last, String.intercalate_singleton]
    exact ⟨[], (List.append_nil _).symm⟩
  · rw [toList_intercalate_cons first last]
    exact ⟨_, rfl⟩

theorem toList_unifiedDiff {original new : List String} {hunk : Hunk String} {others : List (Hunk String)}
    {edit : Edit String} {more : List (Edit String)} {line : String}
    (computed : diff (original.map withNewline) (new.map withNewline) = hunk :: others)
    (edits : hunk.edits = edit :: more) (text : edit.line = withNewline line) :
    (unifiedDiff diff path original new).toList = oldName path ++ '\n' :: (newName path ++ '\n' ::
      (hunkHeader hunk ++ '\n' :: (edit.sign :: line.toList ++ '\n' :: laterText (laterLines more others)))) := by
  have lines : difflibUnifiedDiff diff (original.map withNewline) (new.map withNewline) ("a/" ++ path) ("b/" ++ path) =
      ("--- " ++ ("a/" ++ path)) :: ("+++ " ++ ("b/" ++ path)) :: String.ofList (hunkHeader hunk) ::
        editLine edit :: laterLines more others := by
    rw [difflibUnifiedDiff, computed, if_neg (List.cons_ne_nil _ _), List.flatMap_cons, hunkLines, edits]
    rfl
  rw [unifiedDiff, lines, toList_intercalate_cons _ (List.cons_ne_nil _ _),
    toList_intercalate_cons _ (List.cons_ne_nil _ _), toList_intercalate_cons _ (List.cons_ne_nil _ _),
    toList_intercalate_laterText (toList_editLine text), String.toList_ofList, String.toList_append,
    String.toList_append, String.toList_append, String.toList_append]
  rfl

theorem unifiedDiff_nil {original new : List String}
    (computed : diff (original.map withNewline) (new.map withNewline) = []) :
    unifiedDiff diff path original new = "" := by
  rw [unifiedDiff, difflibUnifiedDiff, if_pos computed, String.intercalate_nil]

/-- A text of the format is read as lines the same way by both. -/
theorem lines_text {ends : Char → Bool} (splits : Splits ends) (oneLine : OneLine path) {α : Type} (hunk : Hunk α)
    {signed : List Char} (clean : Clean signed) (rest : List Char) :
    linesBy ends (oldName path ++ '\n' :: (newName path ++ '\n' :: (hunkHeader hunk ++ '\n' ::
      (signed ++ '\n' :: rest)))) =
        oldName path :: newName path :: hunkHeader hunk :: signed :: linesBy ends rest := by
  rw [splits.next (clean_oldName oneLine), splits.next (clean_newName oneLine),
    splits.next (clean_hunkHeader hunk), splits.next clean]

theorem readPatch_names (path : String) (rest : List (List Char)) :
    readPatch (oldName path :: newName path :: rest) = (readHunks 0 0 rest).map Prod.snd := by
  have names : ¬ isExtendedHeader (oldName path) = true := by simp [isExtendedHeader, oldName]
  rw [readPatch, List.dropWhile_cons_of_neg names]
  exact if_pos ⟨⟨_, rfl⟩, ⟨_, rfl⟩⟩

/-- A second line of the hunks makes the text malformed. -/
theorem readHunks_laterText {hunk : Hunk String} {others : List (Hunk String)} {edit : Edit String}
    {more : List (Edit String)} (edits : hunk.edits = edit :: more) (line : List Char)
    (later : laterLines more others ≠ []) :
    readHunks 0 0 (hunkHeader hunk :: (edit.sign :: line) :: textLines (laterText (laterLines more others))) = none := by
  rw [laterText, if_neg later, textLines, linesBy_end rfl]
  cases more with
  | cons second rest => exact readHunks_spaced hunk edits line _
  | nil =>
      rw [readHunks_single hunk edits]
      cases others with
      | nil => exact absurd rfl later
      | cons second rest =>
          have lines : laterLines [] (second :: rest) = String.ofList (hunkHeader second) ::
              (second.edits.map editLine ++ rest.flatMap hunkLines) := rfl
          obtain ⟨text, starts⟩ := intercalate_starts (String.ofList (hunkHeader second))
            (second.edits.map editLine ++ rest.flatMap hunkLines)
          rw [← lines, String.toList_ofList] at starts
          obtain ⟨listed, inside, some_char⟩ := @some_line (· = '\n') '@' (by decide) _
          rw [starts]
          exact congrArg _ (readHunks_between inside some_char)

end Texts

section Git

variable {path : String}

def gitName (path : String) : List Char :=
  ['d', 'i', 'f', 'f', ' ', '-', '-', 'g', 'i', 't', ' ', 'a', '/'] ++ path.toList ++ [' ', 'b', '/'] ++ path.toList

def gitIndex : List Char :=
  ['i', 'n', 'd', 'e', 'x', ' ', '0', '0', '0', '0', '0', '0', '0', '.', '.', '0', '0', '0', '0', '0', '0', '0', ' ',
    '1', '0', '0', '6', '4', '4']

theorem toList_gitPatch (path unified : String) : (toGitPatch path unified).toList =
    gitName path ++ '\n' :: (gitIndex ++ '\n' :: (oldName path ++ '\n' :: (newName path ++ '\n' ::
      ((String.intercalate "\n" ((splitlines unified).filter isBodyLine)).toList ++ ['\n'])))) := by
  unfold toGitPatch
  generalize String.intercalate "\n" ((splitlines unified).filter isBodyLine) = body
  simp [gitName, gitIndex, oldName, newName]

/-- The hunks of a git patch are those of its body. -/
theorem readPatch_git (oneLine : OneLine path) (unified : String) :
    readPatch (textLines (toGitPatch path unified).toList) = (readHunks 0 0 (textLines
      ((String.intercalate "\n" ((splitlines unified).filter isBodyLine)).toList ++ ['\n']))).map Prod.snd := by
  have name : Clean (gitName path) :=
    clean_append (clean_append (clean_append (by decide) oneLine) (by decide)) oneLine
  have extended : isExtendedHeader (gitName path) = true := by simp [isExtendedHeader, gitName]
  rw [toList_gitPatch, textLines, splits_newline.next name, splits_newline.next (by decide : Clean gitIndex),
    splits_newline.next (clean_oldName oneLine), splits_newline.next (clean_newName oneLine), readPatch,
    List.dropWhile_cons_of_pos extended, List.dropWhile_cons_of_pos (by decide), ← readPatch_names path]
  rfl

theorem isBodyLine_name : isBodyLine (String.ofList (oldName path)) = false ∧
    isBodyLine (String.ofList (newName path)) = false := by
  simp [isBodyLine, oldName, newName]

theorem isBodyLine_header {α : Type} (hunk : Hunk α) : isBodyLine (String.ofList (hunkHeader hunk)) = true := by
  simp [isBodyLine, hunkHeader]

theorem isBodyLine_newline (line : List Char) :
    isBodyLine (String.ofList (line ++ ['\n'])) = isBodyLine (String.ofList line) := by
  have marks : ∀ sign, sign ≠ '\n' → ([sign, sign, sign] <+: line ++ ['\n'] ↔ [sign, sign, sign] <+: line) := by
    intro sign different
    rw [List.prefix_concat_iff]
    refine or_iff_right ?_
    intro same
    have last := congrArg List.getLast? same
    rw [List.getLast?_append] at last
    exact different (Option.some.inj last)
  simp only [isBodyLine, String.toList_ofList]
  rw [decide_eq_decide.mpr (marks '-' (by decide)), decide_eq_decide.mpr (marks '+' (by decide))]

theorem splitlines_text (oneLine : OneLine path) {α : Type} (hunk : Hunk α) {signed : List Char}
    (clean : Clean signed) {text : String}
    (lines : text.toList = oldName path ++ '\n' :: (newName path ++ '\n' :: (hunkHeader hunk ++ '\n' ::
      (signed ++ ['\n'])))) :
    (splitlines text).filter isBodyLine = String.ofList (hunkHeader hunk) ::
      if isBodyLine (String.ofList signed) then [String.ofList signed] else [] := by
  have noReturn : '\r' ∉ text.toList := by
    rw [lines]
    simp [return_not_mem (clean_oldName oneLine), return_not_mem (clean_newName oneLine),
      return_not_mem (clean_hunkHeader hunk), return_not_mem clean]
  rw [splitlines, joinReturns_of_clean noReturn, lines, lines_text splits_boundary oneLine hunk clean []]
  simp [isBodyLine_name, isBodyLine_header, List.filter_cons]

end Git

section Patches

theorem withNewline_injective : Function.Injective withNewline := by
  intro first second same
  have chars := congrArg String.toList same
  rw [withNewline, withNewline, String.toList_append, String.toList_append] at chars
  exact String.toList_injective (List.append_cancel_right chars)

/-- The hunk is applied at the position that it has in the range. -/
theorem applyHunks_range {lines result before kept after : List String} {edit : Edit String}
    (changes : ∀ line, edit ≠ .keep line) (position : Nat)
    (original : lines = before ++ (kept ++ (edit.old ++ after)))
    (wanted : result = before ++ (kept ++ (edit.new ++ after))) :
    applyHunks 0 [⟨kept.length, position, [edit.map String.toList]⟩] (lines.map String.toList) =
        some (result.map String.toList) ↔
      ∀ line ∈ (lines.drop kept.length).take before.length, line = edit.line := by
  have keeps : ∀ line, edit.map String.toList ≠ .keep line := by
    cases edit with
    | keep line => exact absurd rfl (changes line)
    | delete line | insert line => simp [Edit.map]
  have old : (edit.map String.toList).old = edit.old.map String.toList := by cases edit <;> rfl
  have new : (edit.map String.toList).new = edit.new.map String.toList := by cases edit <;> rfl
  have line : (edit.map String.toList).line = edit.line.toList := by cases edit <;> rfl
  -- The lines before the range and those that the hunk keeps are cut at its position instead.
  have front : ((before ++ kept).take kept.length).length = kept.length := by simp
  have middle : ((before ++ kept).drop kept.length).length = before.length := by simp
  have cut : before ++ kept = (before ++ kept).take kept.length ++ (before ++ kept).drop kept.length :=
    (List.take_append_drop _ _).symm
  have between : (lines.drop kept.length).take before.length = (before ++ kept).drop kept.length := by
    rw [original, ← List.append_assoc, List.drop_append_of_le_length (by simp), ← middle, List.take_left]
  rw [between]
  rw [← List.append_assoc, cut, List.append_assoc] at original wanted
  have shifted := applyHunks_shifted position keeps (((before ++ kept).take kept.length).map String.toList)
    (((before ++ kept).drop kept.length).map String.toList) (after.map String.toList)
  rw [List.length_map, front, old, new, line] at shifted
  rw [original, wanted]
  simp only [List.map_append, List.append_assoc] at shifted ⊢
  rw [shifted, List.forall_mem_map]
  exact forall₂_congr fun _ _ => String.toList_inj

variable {diff : List String → List String → List (Hunk String)} {lines : List String} {lineStart lineEnd : Nat}
  {fixText path : String}

theorem range_cut (ordered : lineStart - 1 ≤ lineEnd) :
    lines = lines.take (lineStart - 1) ++ (fragment lines lineStart lineEnd ++ lines.drop lineEnd) := by
  have before : (lines.take lineEnd).take (lineStart - 1) = lines.take (lineStart - 1) := by
    rw [List.take_take, Nat.min_eq_left ordered]
  rw [fragment, ← before, ← List.append_assoc, List.take_append_drop, List.take_append_drop]

/-- The only hunk of a diff cuts the range and the fix at the same place. -/
theorem single_cut {original new : List String} {hunk : Hunk String} {edit : Edit String} {line : String}
    (turns : Turns 0 0 (original.map withNewline) (new.map withNewline) [hunk]) (single : hunk.edits = [edit])
    (text : edit.line = withNewline line) :
    ∃ kept rest, hunk.oldPosition = kept.length ∧ original = kept ++ ((edit.map fun _ => line).old ++ rest) ∧
      new = kept ++ ((edit.map fun _ => line).new ++ rest) := by
  obtain ⟨_, kept, rest, place, old, fix⟩ := turns.single
  have oldText : oldLines hunk.edits = ((edit.map fun _ => line).old).map withNewline := by
    rw [single]
    cases edit <;> simp_all [oldLines, Edit.old, Edit.map, Edit.line]
  have newText : newLines hunk.edits = ((edit.map fun _ => line).new).map withNewline := by
    rw [single]
    cases edit <;> simp_all [newLines, Edit.new, Edit.map, Edit.line]
  have injective := List.map_injective_iff.mpr withNewline_injective
  obtain ⟨front, after, rfl, frontText, rfl⟩ := List.map_eq_append_iff.mp old
  obtain ⟨before, middle, rfl, rfl, middleText⟩ := List.map_eq_append_iff.mp frontText
  rw [oldText] at middleText
  refine ⟨before, after, ?_, ?_, injective ?_⟩
  · rw [place, List.length_map, Nat.zero_add]
  · rw [injective middleText, List.append_assoc]
  · rw [fix, newText, List.map_append, List.map_append, List.append_assoc]

/-- An edit of a diff has a line of the range or of the fix. -/
theorem edit_text {original new : List String} {hunks : List (Hunk String)}
    (turns : Turns 0 0 (original.map withNewline) (new.map withNewline) hunks) (clean : ∀ line ∈ original, OneLine line)
    (cleanNew : ∀ line ∈ new, OneLine line) {hunk : Hunk String} (listed : hunk ∈ hunks) {edit : Edit String}
    (inside : edit ∈ hunk.edits) : ∃ line, edit.line = withNewline line ∧ OneLine line := by
  cases turns.line_mem listed inside with
  | inl old =>
      obtain ⟨line, member, same⟩ := List.mem_map.mp old
      exact ⟨line, same.symm, clean line member⟩
  | inr new =>
      obtain ⟨line, member, same⟩ := List.mem_map.mp new
      exact ⟨line, same.symm, cleanNew line member⟩

theorem applies_nil (oneLine : OneLine path) :
    Applies "" lines lines ∧ Applies (toGitPatch path "") lines lines := by
  constructor
  · rfl
  · rw [Applies, applyPatch, readPatch_git oneLine]
    rfl

theorem generate_readable {files : FileSystem} {projectRoot filePath : SourcePath}
    (readable : readLines files projectRoot filePath = some lines) (positive : 1 ≤ lineStart)
    (ordered : lineStart ≤ lineEnd) (inside : lineEnd ≤ lines.length) (offendingExpression : String) :
    generate diff files projectRoot filePath lineStart lineEnd fixText offendingExpression =
      { unifiedDiff := unifiedDiff diff (relativePath projectRoot filePath) (fragment lines lineStart lineEnd)
          (fixLines fixText)
        gitPatch := toGitPatch (relativePath projectRoot filePath)
          (unifiedDiff diff (relativePath projectRoot filePath) (fragment lines lineStart lineEnd) (fixLines fixText))
        sourceAvailable := true } := by
  have range : readLineRange files projectRoot filePath lineStart lineEnd = some (fragment lines lineStart lineEnd) := by
    rw [readLineRange, readable, Option.bind_some, if_neg (by omega)]
    rfl
  rw [generate, range]

/-- This hunk is read where the text has one line. -/
def readHunk (hunk : Hunk String) (edit : Edit String) (line : String) : Hunk (List Char) :=
  ⟨hunk.oldPosition, hunk.newPosition, [(edit.map fun _ => line).map String.toList]⟩

section Single

variable {original new : List String} {hunk : Hunk String} {edit : Edit String} {line : String}
  (computed : diff (original.map withNewline) (new.map withNewline) = [hunk]) (single : hunk.edits = [edit])
  (text : edit.line = withNewline line) (clean : OneLine line) (oneLine : OneLine path)

include computed single text in
theorem toList_single : (unifiedDiff diff path original new).toList = oldName path ++ '\n' :: (newName path ++ '\n' ::
    (hunkHeader hunk ++ '\n' :: (edit.sign :: line.toList ++ ['\n']))) :=
  toList_unifiedDiff computed single text

include single in
theorem readHunks_one : (readHunks 0 0 [hunkHeader hunk, edit.sign :: line.toList]).map Prod.snd =
    some [readHunk hunk edit line] := by
  rw [readHunks_single hunk single]
  cases edit <;> rfl

include computed single text clean oneLine

theorem readPatch_unified :
    readPatch (textLines (unifiedDiff diff path original new).toList) = some [readHunk hunk edit line] := by
  rw [toList_single computed single text, textLines,
    lines_text splits_newline oneLine hunk (clean_sign edit clean) [], readPatch_names]
  exact readHunks_one single

theorem readPatch_git_single :
    readPatch (textLines (toGitPatch path (unifiedDiff diff path original new)).toList) =
      if isBodyLine (editLine edit) then some [readHunk hunk edit line] else none := by
  have body : isBodyLine (editLine edit) = isBodyLine (String.ofList (edit.sign :: line.toList)) := by
    rw [← isBodyLine_newline, ← toList_editLine text, String.ofList_toList]
  rw [readPatch_git oneLine, body,
    splitlines_text oneLine hunk (clean_sign edit clean) (toList_single computed single text)]
  split
  · rw [toList_intercalate_cons _ (List.cons_ne_nil _ _), String.intercalate_singleton, String.toList_ofList,
      String.toList_ofList, List.append_assoc, List.cons_append, textLines,
      splits_newline.next (clean_hunkHeader hunk), splits_newline.next (clean_sign edit clean)]
    exact readHunks_one single
  · rw [String.intercalate_singleton, String.toList_ofList, textLines,
      splits_newline.next (clean_hunkHeader hunk), linesBy_nil,
      readHunks_headerOnly hunk (single ▸ List.cons_ne_nil _ _)]
    rfl

end Single

/-- More than one line of hunks is not well formed. -/
theorem readPatch_more {original new : List String} {hunk : Hunk String} {others : List (Hunk String)}
    {edit : Edit String} {more : List (Edit String)} {line : String}
    (computed : diff (original.map withNewline) (new.map withNewline) = hunk :: others)
    (edits : hunk.edits = edit :: more) (text : edit.line = withNewline line) (clean : OneLine line)
    (oneLine : OneLine path) (later : laterLines more others ≠ []) :
    readPatch (textLines (unifiedDiff diff path original new).toList) = none := by
  rw [toList_unifiedDiff computed edits text, textLines,
    lines_text splits_newline oneLine hunk (clean_sign edit clean), readPatch_names]
  exact congrArg _ (readHunks_laterText edits line.toList later)

/-- A patch of one line is right when the lines between its position and its place are that line. -/
theorem approved_single {hunk : Hunk String} {edit : Edit String} (correct : CorrectDiff diff)
    (computed : diff ((fragment lines lineStart lineEnd).map withNewline) ((fixLines fixText).map withNewline) = [hunk])
    (single : hunk.edits = [edit]) {line : String} (text : edit.line = withNewline line) (clean : OneLine line)
    (oneLine : OneLine path) (positive : 1 ≤ lineStart) (ordered : lineStart ≤ lineEnd)
    (inside : lineEnd ≤ lines.length) :
    (Applies (unifiedDiff diff path (fragment lines lineStart lineEnd) (fixLines fixText)) lines
        (replaceRange lines lineStart lineEnd (fixLines fixText)) ∧
      Applies (toGitPatch path (unifiedDiff diff path (fragment lines lineStart lineEnd) (fixLines fixText))) lines
        (replaceRange lines lineStart lineEnd (fixLines fixText))) ↔
      OneLineHunk lines lineStart hunk edit := by
  have turns := correct.turns ((fragment lines lineStart lineEnd).map withNewline) ((fixLines fixText).map withNewline)
  rw [computed] at turns
  obtain ⟨kept, rest, place, old, fix⟩ := single_cut turns single text
  have changes : ∀ line', edit.map (fun _ => line) ≠ .keep line' := by
    intro kept' same
    cases edit with
    | keep other => exact turns.single.1 other (single ▸ List.mem_cons_self)
    | delete other | insert other => cases same
  have before : (lines.take (lineStart - 1)).length = lineStart - 1 := by
    rw [List.length_take]
    omega
  have applied := @applyHunks_range lines (replaceRange lines lineStart lineEnd (fixLines fixText))
    (lines.take (lineStart - 1)) kept (rest ++ lines.drop lineEnd) _ changes hunk.newPosition
    (by
      have cut := @range_cut lines lineStart lineEnd (by omega)
      rw [old] at cut
      simpa only [List.append_assoc] using cut)
    (by rw [replaceRange, fix]; simp only [List.append_assoc])
  rw [before, ← place] at applied
  have plain : (edit.map fun _ => line).line = line := by cases edit <;> rfl
  rw [plain] at applied
  have shifted : (∀ other ∈ (lines.drop hunk.oldPosition).take (lineStart - 1), other = line) ↔
      ∀ other ∈ (lines.drop hunk.oldPosition).take (lineStart - 1), withNewline other = edit.line := by
    rw [text]
    exact forall₂_congr fun _ _ => withNewline_injective.eq_iff.symm
  rw [Applies, Applies, applyPatch, applyPatch, readPatch_unified computed single text clean oneLine,
    readPatch_git_single computed single text clean oneLine]
  constructor
  · rintro ⟨unified, git⟩
    refine ⟨single, ?_, shifted.mp (applied.mp unified)⟩
    by_contra name
    rw [if_neg name] at git
    cases git
  · intro survives
    have unified := applied.mpr (shifted.mpr survives.shifted)
    exact ⟨unified, by rw [if_pos survives.body]; exact unified⟩

/-- The text of a patch survives when the range does not change, or when one line of it changes in its place. -/
theorem approved_iff (diff : List String → List String → List (Hunk String)) (correct : CorrectDiff diff)
    (files : FileSystem) (projectRoot filePath : SourcePath) (lines : List String)
    (readable : readLines files projectRoot filePath = some lines)
    (oneLine : OneLine (relativePath projectRoot filePath)) (lineStart lineEnd : Nat) (positive : 1 ≤ lineStart)
    (ordered : lineStart ≤ lineEnd) (inside : lineEnd ≤ lines.length) (fixText offendingExpression : String) :
    Approved (generate diff files projectRoot filePath lineStart lineEnd fixText offendingExpression) lines
        lineStart lineEnd fixText ↔
      SurvivesText diff lines lineStart lineEnd fixText := by
  have both := @generate_readable diff lines lineStart lineEnd fixText _ _ _ readable positive ordered inside
    offendingExpression
  have turns := correct.turns ((fragment lines lineStart lineEnd).map withNewline) ((fixLines fixText).map withNewline)
  have cleanLines : ∀ line ∈ fragment lines lineStart lineEnd, OneLine line := by
    obtain ⟨_, _, contents⟩ := Option.bind_eq_some_iff.mp readable
    obtain ⟨text, _, rfl⟩ := Option.map_eq_some_iff.mp contents
    exact fun line listed => oneLine_of_splitlines (List.mem_of_mem_take (List.mem_of_mem_drop listed))
  have cleanFix : ∀ line ∈ fixLines fixText, OneLine line := fun line listed => oneLine_of_fixLines listed
  cases computed : diff ((fragment lines lineStart lineEnd).map withNewline) ((fixLines fixText).map withNewline) with
  | nil =>
      rw [computed] at turns
      have same := (List.map_injective_iff.mpr withNewline_injective) turns.same_of_nil
      have unchanged : replaceRange lines lineStart lineEnd (fixLines fixText) = lines := by
        rw [replaceRange, ← same, List.append_assoc]
        exact (range_cut (by omega)).symm
      refine iff_of_true ?_ (.inl computed)
      rw [both, unifiedDiff_nil computed]
      constructor
      · rw [unchanged]
        exact (applies_nil oneLine).1
      · rw [unchanged]
        exact (applies_nil oneLine).2
  | cons hunk others =>
      rw [computed] at turns
      obtain ⟨edit, more, edits⟩ := List.exists_cons_of_ne_nil (turns.edits_ne_nil List.mem_cons_self)
      obtain ⟨line, text, clean⟩ :=
        edit_text turns cleanLines cleanFix List.mem_cons_self (edits ▸ List.mem_cons_self)
      by_cases single : more = [] ∧ others = []
      · obtain ⟨rfl, rfl⟩ := single
        have survives := approved_single correct computed edits text clean oneLine positive ordered inside
        constructor
        · intro approved
          rw [both] at approved
          exact .inr ⟨hunk, edit, computed, survives.mp ⟨approved.unified, approved.git⟩⟩
        · intro condition
          obtain ⟨only, edited, same, oneHunk⟩ := condition.resolve_left (by rw [computed]; exact List.cons_ne_nil _ _)
          rw [computed] at same
          cases same
          have sameEdit := edits.symm.trans oneHunk.single
          cases sameEdit
          rw [both]
          exact ⟨(survives.mpr oneHunk).1, (survives.mpr oneHunk).2⟩
      · have later : laterLines more others ≠ [] := by
          intro nothing
          obtain ⟨noEdit, noHunk⟩ := List.append_eq_nil_iff.mp nothing
          refine single ⟨List.map_eq_nil_iff.mp noEdit, ?_⟩
          cases others with
          | nil => rfl
          | cons second rest => cases noHunk
        refine iff_of_false ?_ ?_
        · intro approved
          have unified := approved.unified
          rw [both, Applies, applyPatch, readPatch_more computed edits text clean oneLine later] at unified
          cases unified
        · rintro (empty | ⟨only, edited, same, oneHunk⟩)
          · rw [computed] at empty
            cases empty
          · rw [computed] at same
            cases same
            have sameEdit := edits.symm.trans oneHunk.single
            cases sameEdit
            exact single ⟨rfl, rfl⟩

section Sample

/-- This diff replaces all lines where they are not equal, as the library does for a line by another one. -/
def replaceAll (original new : List String) : List (Hunk String) :=
  if original = new then [] else [⟨0, 0, original.map .delete ++ new.map .insert⟩]

theorem oldLines_replaceAll (original new : List String) :
    oldLines (original.map .delete ++ new.map .insert) = original := by
  simp [oldLines, List.flatMap_append, List.flatMap_map, Edit.old]

theorem newLines_replaceAll (original new : List String) :
    newLines (original.map .delete ++ new.map .insert) = new := by
  simp [newLines, List.flatMap_append, List.flatMap_map, Edit.new]

theorem correctDiff_replaceAll : CorrectDiff replaceAll where
  equal := fun lines => if_pos rfl
  turns := by
    intro original new
    rw [replaceAll]
    split
    · rename_i same
      exact same ▸ .same
    · rename_i different
      have edits := @Turns.hunk _ 0 0 [] [] [] []
        (original.map Edit.delete ++ new.map Edit.insert)
        (by
          intro nothing
          obtain ⟨noLine, noNew⟩ := List.append_eq_nil_iff.mp nothing
          exact different ((List.map_eq_nil_iff.mp noLine).trans (List.map_eq_nil_iff.mp noNew).symm))
        (by simp) .same
      rwa [List.append_nil, List.append_nil, List.nil_append, List.nil_append, oldLines_replaceAll,
        newLines_replaceAll] at edits

def patchedFiles : FileSystem := fun path =>
  if path = ["repo", "main.c"] then some "int a;\nint b;\n" else none

theorem patchedFiles_readable : readLines patchedFiles ["repo"] ["repo", "main.c"] = some ["int a;", "int b;"] := by
  rfl

/-- The second line is replaced by another one. -/
theorem replacedLine_malformed : CorrectDiff replaceAll ∧
    ¬ Approved (generate replaceAll patchedFiles ["repo"] ["repo", "main.c"] 2 2 "int c;\n" "b") ["int a;", "int b;"]
      2 2 "int c;\n" := by
  refine ⟨correctDiff_replaceAll, ?_⟩
  intro approved
  have refused : applyPatch (generate replaceAll patchedFiles ["repo"] ["repo", "main.c"] 2 2 "int c;\n"
      "b").unifiedDiff.toList (["int a;", "int b;"].map String.toList) = none := by
    rfl
  have applied := approved.unified
  rw [Applies, refused] at applied
  cases applied

theorem approved_unchanged :
    Approved (generate replaceAll patchedFiles ["repo"] ["repo", "main.c"] 2 2 "int b;\n" "b") ["int a;", "int b;"]
      2 2 "int b;\n" := by
  apply (approved_iff replaceAll correctDiff_replaceAll patchedFiles ["repo"] ["repo", "main.c"]
    ["int a;", "int b;"] patchedFiles_readable (by decide : Clean _) 2 2 (by omega) (by omega) (by decide)
    "int b;\n" "b").mpr
  exact .inl rfl

end Sample

end Patches

end MisraPlatform.PatchEngine

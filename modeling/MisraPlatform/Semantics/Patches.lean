import MisraPlatform.Construction.PatchEngine

/-
This file is what a generated patch is meant to do to the file that it is for.
-/

namespace MisraPlatform

namespace SourceFileService
open UnifiedDiff

/-- The compiler ends a line at these characters only, and a carriage return and a newline are one line end. -/
def isNewline (char : Char) : Bool := char = '\n' || char = '\r'

def clangLines (text : String) : List String :=
  (linesBy isNewline (joinReturns text.toList)).map String.ofList

/-- The lines of the file are those that the compiler counts. -/
structure AgreesWithClang (files : FileSystem) (projectRoot filePath : SourcePath) (text : String) : Prop where
  lines : ∀ (number : Nat) (line : String), (clangLines text)[number]? = some line →
    ∃ lines, readLines files projectRoot filePath = some lines ∧ lines[number]? = some line
  ranges : ∀ lineStart lineEnd, readLineRange files projectRoot filePath lineStart lineEnd =
    if 1 ≤ lineStart ∧ lineStart ≤ lineEnd ∧ lineEnd ≤ (clangLines text).length then
      some (((clangLines text).take lineEnd).drop (lineStart - 1))
    else none

end SourceFileService

namespace PatchEngine
open UnifiedDiff SourceFileService

/-- The library computes a diff of any two lists of lines, and equal lists have an empty one. -/
structure CorrectDiff (diff : List String → List String → List (Hunk String)) : Prop where
  equal : ∀ lines, diff lines lines = []
  turns : ∀ original new, Turns 0 0 original new (diff original new)

def replaceRange (lines : List String) (lineStart lineEnd : Nat) (newLines : List String) : List String :=
  lines.take (lineStart - 1) ++ newLines ++ lines.drop lineEnd

/-- The patch applies to the lines, and these are the lines after it. -/
def Applies (patch : String) (lines result : List String) : Prop :=
  applyPatch patch.toList (lines.map String.toList) = some (result.map String.toList)

/-- Both forms of a patch replace the range by the lines of the fix. -/
structure Approved (patch : GeneratedPatch) (lines : List String) (lineStart lineEnd : Nat) (fixText : String) :
    Prop where
  unified : Applies patch.unifiedDiff lines (replaceRange lines lineStart lineEnd (fixLines fixText))
  git : Applies patch.gitPatch lines (replaceRange lines lineStart lineEnd (fixLines fixText))

def OneLine (text : String) : Prop := ∀ char ∈ text.toList, isLineBoundary char = false

section Condition

variable (diff : List String → List String → List (Hunk String)) (lines : List String) (lineStart lineEnd : Nat)
  (fixText : String)

def fragment : List String := (lines.take lineEnd).drop (lineStart - 1)

/-- One line of the fragment is deleted or one line is inserted, it is not taken for a file name, and the lines of
the file that the hunk is away from its place are the same line. -/
structure OneLineHunk (hunk : Hunk String) (edit : Edit String) : Prop where
  single : hunk.edits = [edit]
  body : isBodyLine (editLine edit) = true
  shifted : ∀ line ∈ (lines.drop hunk.oldPosition).take (lineStart - 1), withNewline line = edit.line

/-- The diff of the range and the fix is empty, or it has one line. -/
def SurvivesText : Prop :=
  diff ((fragment lines lineStart lineEnd).map withNewline) ((fixLines fixText).map withNewline) = [] ∨
    ∃ hunk edit, diff ((fragment lines lineStart lineEnd).map withNewline)
      ((fixLines fixText).map withNewline) = [hunk] ∧ OneLineHunk lines lineStart hunk edit

end Condition

section Hunks

/-- These lines name the files of a unified diff. -/
def unifiedNames (path : String) : String := "--- a/" ++ path ++ "\n+++ b/" ++ path ++ "\n"

def gitNames (path : String) : String :=
  "diff --git a/" ++ path ++ " b/" ++ path ++ "\nindex 0000000..0000000 100644\n" ++ unifiedNames path

/-- These are the lines behind the names of the files, without the blank ones that joining leaves. -/
def HasHunkLines (names patch : String) (lines : List (List Char)) : Prop :=
  ∃ body, patch.toList = names.toList ++ body ∧ nonblank (textLines body) = lines

/-- The git patch has the lines of the unified diff, and an empty diff has none. -/
def SameHunks (path unified git : String) : Prop :=
  ∃ lines, HasHunkLines (gitNames path) git lines ∧
    if unified = "" then lines = [] else HasHunkLines (unifiedNames path) unified lines

/-- Each part of the line that a newline ends is one line, and it is not taken for the name of a file. -/
def KeepsEdit (edit : Edit String) : Prop :=
  ∀ line ∈ textLines (editLine edit).toList, OneLine (String.ofList line) ∧ isBodyLine (String.ofList line) = true

/-- What follows the first line of the path is blank or taken for the name of a file. -/
def TornQuietly (path : String) : Prop :=
  ∀ line ∈ (splitlines ("/" ++ path)).tail, line = "" ∨ isBodyLine line = false

/-- The diff is empty, or its lines and the path stay as they are. -/
def KeepsHunks (diff : List String → List String → List (Hunk String)) (path : String) (original new : List String) :
    Prop :=
  diff (original.map withNewline) (new.map withNewline) = [] ∨ TornQuietly path ∧
    ∀ hunk ∈ diff (original.map withNewline) (new.map withNewline), ∀ edit ∈ hunk.edits, KeepsEdit edit

end Hunks

end PatchEngine

end MisraPlatform

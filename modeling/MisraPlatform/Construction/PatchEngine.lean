import MisraPlatform.Construction.IncrementalIndex
import MisraPlatform.Library.UnifiedDiff

/-
This file is the access to the source files and the patches that are generated from reviews.
-/

namespace MisraPlatform
open UnifiedDiff

namespace SourceFileService

/-- These characters end a line for `splitlines`. -/
def isLineBoundary (char : Char) : Bool :=
  char ∈ ['\n', '\r', '\x0b', '\x0c', '\x1c', '\x1d', '\x1e', '\u0085', '\u2028', '\u2029']

/-- A carriage return and a newline are one line end. -/
def joinReturns : List Char → List Char
  | '\r' :: '\n' :: rest => '\n' :: joinReturns rest
  | char :: rest => char :: joinReturns rest
  | [] => []

def splitlines (text : String) : List String :=
  (linesBy isLineBoundary (joinReturns text.toList)).map String.ofList

section Files

variable (files : FileSystem) (projectRoot filePath : SourcePath)

/-- A file outside the root is not read. -/
def resolve : Option SourcePath :=
  if ¬ projectRoot <+: filePath then none
  else if files filePath = none then none
  else some filePath

def readLines : Option (List String) :=
  (resolve files projectRoot filePath).bind fun resolved => (files resolved).map splitlines

def readLineRange (lineStart lineEnd : Nat) : Option (List String) :=
  (readLines files projectRoot filePath).bind fun lines =>
    if lineStart < 1 ∨ lines.length < lineEnd ∨ lineEnd < lineStart then none
    else some ((lines.take lineEnd).drop (lineStart - 1))

end Files

end SourceFileService

namespace PatchEngine
open SourceFileService

structure GeneratedPatch where
  unifiedDiff : String
  gitPatch : String
  sourceAvailable : Bool

/-- A path outside the root stays as it is. -/
def relativePath (projectRoot filePath : SourcePath) : String :=
  match relativeTo filePath projectRoot with
  | .ok [] => "."
  | .ok path => pathText path
  | .error _ => "/" ++ pathText filePath

def fixLines (fixText : String) : List String :=
  if splitlines fixText = [] then [fixText] else splitlines fixText

def withNewline (line : String) : String := line ++ "\n"

section Diffs

variable (diff : List String → List String → List (Hunk String))

/-- A line of a hunk follows its sign. -/
def editLine (edit : Edit String) : String := String.ofList [edit.sign] ++ edit.line

def hunkLines (hunk : Hunk String) : List String :=
  String.ofList (hunkHeader hunk) :: hunk.edits.map editLine

/-- This is `difflib.unified_diff` without context lines and line ends of its own. -/
def difflibUnifiedDiff (original new : List String) (fromFile toFile : String) : List String :=
  if diff original new = [] then []
  else ("--- " ++ fromFile) :: ("+++ " ++ toFile) :: (diff original new).flatMap hunkLines

def unifiedDiff (path : String) (originalLines newLines : List String) : String :=
  String.intercalate "\n" (difflibUnifiedDiff diff (originalLines.map withNewline) (newLines.map withNewline)
    ("a/" ++ path) ("b/" ++ path))

/-- The lines that start like those of the file names are left out. -/
def isBodyLine (line : String) : Bool :=
  !(['-', '-', '-'] <+: line.toList || ['+', '+', '+'] <+: line.toList)

def toGitPatch (path unified : String) : String :=
  "diff --git a/" ++ path ++ " b/" ++ path ++ "\n" ++ "index 0000000..0000000 100644\n" ++
    "--- a/" ++ path ++ "\n+++ b/" ++ path ++ "\n" ++
    String.intercalate "\n" ((splitlines unified).filter isBodyLine) ++ "\n"

/-- A source that is not available is replaced by the offending expression. -/
def generate (files : FileSystem) (projectRoot filePath : SourcePath) (lineStart lineEnd : Nat)
    (fixText offendingExpression : String) : GeneratedPatch :=
  let path := relativePath projectRoot filePath
  match readLineRange files projectRoot filePath lineStart lineEnd with
  | some originalLines =>
      let unified := unifiedDiff diff path originalLines (fixLines fixText)
      { unifiedDiff := unified, gitPatch := toGitPatch path unified, sourceAvailable := true }
  | none =>
      let unified := unifiedDiff diff path [offendingExpression] (fixLines fixText)
      { unifiedDiff := unified, gitPatch := toGitPatch path unified, sourceAvailable := false }

end Diffs

end PatchEngine

end MisraPlatform

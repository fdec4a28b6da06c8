import Mathlib.Data.List.Dedup
import Mathlib.Data.List.Sort
import MisraPlatform.Library.OrderedDict
import MisraPlatform.Library.Reachability

/-
This file is the index of the source files of a project and the comparison of two of them.
-/

namespace MisraPlatform

/-- A path is the list of its parts, and an absolute one is resolved. -/
abbrev SourcePath := List String

/-- A file that does not exist has no contents. -/
abbrev FileSystem := SourcePath → Option String

def pathText (path : SourcePath) : String := String.intercalate "/" path

/-- A path that the root does not lead to makes `relative_to` raise. -/
def relativeTo (path root : SourcePath) : Except String SourcePath :=
  if root.isPrefixOf path then .ok (path.drop root.length)
  else .error ("'/" ++ pathText path ++ "' is not in the subpath of '/" ++ pathText root ++ "'")

structure FileIndexNode where
  relativePath : SourcePath
  absolutePath : SourcePath
  contentHash : String
  includeEdges : List SourcePath := []
  deriving DecidableEq

namespace IncrementalIndex

abbrev FileIndex := OrderedDict SourcePath FileIndexNode

def indexFile (sha256 : String → String) (files : FileSystem) (projectRoot : SourcePath) (index : FileIndex)
    (sourceFile : SourcePath) : Except String FileIndex :=
  match files sourceFile with
  | none => .ok index
  | some contents => do
      let relativePath ← relativeTo sourceFile projectRoot
      pure (index.insert relativePath
        { relativePath := relativePath, absolutePath := sourceFile, contentHash := sha256 contents })

def buildFileIndex (sha256 : String → String) (files : FileSystem) (projectRoot : SourcePath)
    (sourceFiles : List SourcePath) : Except String FileIndex :=
  sourceFiles.foldlM (indexFile sha256 files projectRoot) .empty

/-- The changed files come before the removed ones. -/
def computeChangedFiles (previousHashes : OrderedDict SourcePath String) (currentIndex : FileIndex) :
    List SourcePath :=
  ((currentIndex.entries.filter fun entry =>
    previousHashes.get? entry.1 ≠ some entry.2.contentHash).map Prod.fst) ++
      previousHashes.keys.filter fun relativePath => relativePath ∉ currentIndex.keys

/-- An arrow leads from an included file to a file that includes it. -/
def reverseGraph (includeGraph : OrderedDict SourcePath (List SourcePath)) : List (SourcePath × SourcePath) :=
  (includeGraph.entries.flatMap fun entry => entry.2.map fun included => (included, entry.1)).dedup

/-- The visited files that are translation units are affected. -/
def computeAffectedTranslationUnits (changedFiles : List SourcePath)
    (includeGraph : OrderedDict SourcePath (List SourcePath)) (translationUnitFiles : List SourcePath) :
    List SourcePath :=
  ((Reachability.reachableFrom (reverseGraph includeGraph) changedFiles).filter fun file =>
    file ∈ translationUnitFiles).insertionSort fun first second => pathText first ≤ pathText second

def includeGraph (index : FileIndex) : OrderedDict SourcePath (List SourcePath) :=
  index.mapValues FileIndexNode.includeEdges

end IncrementalIndex
end MisraPlatform

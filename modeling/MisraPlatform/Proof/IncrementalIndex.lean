import MisraPlatform.Construction.AnalysisOrchestrator

/-
This file proves what the index of a project has and what a comparison of two indexes finds.
-/

namespace MisraPlatform.IncrementalIndex

section Index

variable {sha256 : String → String} {files : FileSystem} {projectRoot : SourcePath}

theorem relativeTo_eq_ok {path root relativePath : SourcePath} :
    relativeTo path root = .ok relativePath ↔ path = root ++ relativePath := by
  rw [relativeTo]
  constructor
  · intro found
    split at found
    · rename_i inside
      cases found
      obtain ⟨rest, rfl⟩ := List.isPrefixOf_iff_prefix.mp inside
      rw [List.drop_left]
    · cases found
  · rintro rfl
    rw [if_pos (List.isPrefixOf_iff_prefix.mpr (List.prefix_append root relativePath)), List.drop_left]

/-- This is the node of an existing file. -/
def nodeOf (sha256 : String → String) (projectRoot relativePath : SourcePath) (contents : String) :
    FileIndexNode where
  relativePath := relativePath
  absolutePath := projectRoot ++ relativePath
  contentHash := sha256 contents

/-- The index has the existing files of the list, each under its relative path. -/
theorem get?_foldlM_indexFile {sourceFiles : List SourcePath} {before index : FileIndex}
    (built : sourceFiles.foldlM (indexFile sha256 files projectRoot) before = .ok index)
    (relativePath : SourcePath) :
    index.get? relativePath =
      if projectRoot ++ relativePath ∈ sourceFiles then
        ((files (projectRoot ++ relativePath)).map (nodeOf sha256 projectRoot relativePath)).or
          (before.get? relativePath)
      else before.get? relativePath := by
  induction sourceFiles generalizing before with
  | nil =>
      cases built
      rfl
  | cons sourceFile rest ih =>
      rw [List.foldlM_cons, indexFile] at built
      cases missing : files sourceFile with
      | none =>
          rw [missing] at built
          rw [ih built]
          by_cases same : projectRoot ++ relativePath = sourceFile
          · rw [same, missing, if_pos List.mem_cons_self]
            simp
          · simp [same]
      | some contents =>
          rw [missing] at built
          cases relative : relativeTo sourceFile projectRoot with
          | error text =>
              rw [relative] at built
              cases built
          | ok name =>
              rw [relative] at built
              rw [ih built, OrderedDict.get?_insert]
              have located := relativeTo_eq_ok.mp relative
              by_cases same : relativePath = name
              · subst same
                subst located
                by_cases again : projectRoot ++ relativePath ∈ rest <;> simp [again, missing, nodeOf]
              · have other : projectRoot ++ relativePath ≠ sourceFile := by
                  rw [located]
                  exact fun equal => same (List.append_cancel_left equal)
                simp [same, other]

theorem get?_buildFileIndex {sourceFiles : List SourcePath} {index : FileIndex}
    (built : buildFileIndex sha256 files projectRoot sourceFiles = .ok index) (relativePath : SourcePath) :
    index.get? relativePath = if projectRoot ++ relativePath ∈ sourceFiles then
      (files (projectRoot ++ relativePath)).map (nodeOf sha256 projectRoot relativePath) else none := by
  rw [get?_foldlM_indexFile built, OrderedDict.get?_empty]
  simp

end Index

section Changes

/-- A file has changed when the two indexes have different hashes for it. -/
theorem mem_computeChangedFiles (previousHashes : OrderedDict SourcePath String) (currentIndex : FileIndex)
    (relativePath : SourcePath) : relativePath ∈ computeChangedFiles previousHashes currentIndex ↔
      previousHashes.get? relativePath ≠ (currentIndex.get? relativePath).map FileIndexNode.contentHash := by
  have edited : relativePath ∈ ((currentIndex.entries.filter fun entry =>
      previousHashes.get? entry.1 ≠ some entry.2.contentHash).map Prod.fst) ↔
        ∃ node, currentIndex.get? relativePath = some node ∧
          previousHashes.get? relativePath ≠ some node.contentHash := by
    simp only [List.mem_map, List.mem_filter, decide_eq_true_eq]
    constructor
    · rintro ⟨⟨path, node⟩, ⟨inside, different⟩, rfl⟩
      exact ⟨node, (OrderedDict.mem_entries_iff _ _ _).mp inside, different⟩
    · rintro ⟨node, found, different⟩
      exact ⟨(relativePath, node), ⟨(OrderedDict.mem_entries_iff _ _ _).mpr found, different⟩, rfl⟩
  rw [computeChangedFiles, List.mem_append, edited, List.mem_filter, decide_eq_true_eq]
  cases found : currentIndex.get? relativePath with
  | none =>
      have removed := (OrderedDict.get?_eq_none _ _).mp found
      rw [Option.map_none, ← Option.isSome_iff_ne_none, Option.isSome_iff_exists, OrderedDict.mem_keys_iff]
      simp [removed]
  | some node =>
      have kept : relativePath ∈ currentIndex.keys := (OrderedDict.mem_keys_iff _ _).mpr ⟨node, found⟩
      simp [kept]

/-- The affected units are those that a changed file leads to along the include graph. -/
theorem mem_computeAffected (changedFiles : List SourcePath)
    (graph : OrderedDict SourcePath (List SourcePath)) (translationUnitFiles : List SourcePath)
    (file : SourcePath) : file ∈ computeAffectedTranslationUnits changedFiles graph translationUnitFiles ↔
      file ∈ translationUnitFiles ∧ ∃ changed ∈ changedFiles, Relation.ReflTransGen
        (fun included source => ∃ includes, graph.get? source = some includes ∧ included ∈ includes) changed file := by
  have arrows : Reachability.Arrow (reverseGraph graph) = fun included source =>
      ∃ includes, graph.get? source = some includes ∧ included ∈ includes := by
    funext included source
    apply propext
    simp only [Reachability.Arrow, reverseGraph, List.mem_dedup, List.mem_flatMap, List.mem_map, Prod.mk.injEq]
    constructor
    · rintro ⟨entry, inside, other, listed, rfl, rfl⟩
      exact ⟨entry.2, (OrderedDict.mem_entries_iff _ _ _).mp inside, listed⟩
    · rintro ⟨includes, found, listed⟩
      exact ⟨(source, includes), (OrderedDict.mem_entries_iff _ _ _).mpr found, included, listed, rfl, rfl⟩
  rw [computeAffectedTranslationUnits, List.mem_insertionSort, List.mem_filter, decide_eq_true_eq,
    Reachability.mem_reachableFrom, arrows, and_comm]

/-- A file without an entry includes nothing. -/
def Includes (graph : OrderedDict SourcePath (List SourcePath)) (source included : SourcePath) : Prop :=
  ∃ includes, graph.get? source = some includes ∧ included ∈ includes

/-- The search ends, and its result has each translation unit that includes a changed file once, in the order of the
texts. -/
theorem affected_exact (changedFiles : List SourcePath) (graph : OrderedDict SourcePath (List SourcePath))
    (translationUnitFiles : List SourcePath) :
    (∃ visited, Reachability.walk (reverseGraph graph) (changedFiles.length + (reverseGraph graph).length + 1) []
        changedFiles = some visited) ∧
      ((computeAffectedTranslationUnits changedFiles graph translationUnitFiles).map pathText).Pairwise (· ≤ ·) ∧
      (computeAffectedTranslationUnits changedFiles graph translationUnitFiles).Nodup ∧
      ∀ file, file ∈ computeAffectedTranslationUnits changedFiles graph translationUnitFiles ↔
        file ∈ translationUnitFiles ∧
          ∃ changed ∈ changedFiles, Relation.ReflTransGen (Includes graph) file changed := by
  have visited := Reachability.walk_ends (reverseGraph graph) changedFiles
  refine ⟨⟨_, visited⟩, ?_, ?_, fun file => ?_⟩
  · let precedes (first second : SourcePath) : Prop := pathText first ≤ pathText second
    have total : Std.Total precedes := ⟨fun first second => le_total (pathText first) (pathText second)⟩
    have transitive : IsTrans SourcePath precedes := ⟨fun _ _ _ earlier later => le_trans earlier later⟩
    exact List.pairwise_map.mpr (List.pairwise_insertionSort precedes _)
  · refine (List.perm_insertionSort _ _).nodup_iff.mpr (List.Nodup.filter _ ?_)
    exact Reachability.walk_nodup _ _ [] changedFiles _ visited List.nodup_nil
  · rw [mem_computeAffected]
    apply and_congr_right
    intro _
    apply exists_congr
    intro changed
    apply and_congr_right
    intro _
    exact Relation.reflTransGen_swap

/-- The index has no include edges, so only the changed files themselves are affected. -/
theorem mem_affected_of_index {sha256 : String → String} {files : FileSystem} {projectRoot : SourcePath}
    {sourceFiles : List SourcePath} {index : FileIndex}
    (built : buildFileIndex sha256 files projectRoot sourceFiles = .ok index)
    (changedFiles translationUnitFiles : List SourcePath) (file : SourcePath) :
    file ∈ computeAffectedTranslationUnits changedFiles (includeGraph index) translationUnitFiles ↔
      file ∈ translationUnitFiles ∧ file ∈ changedFiles := by
  have edgeless : ∀ included source, ¬ ∃ includes, (includeGraph index).get? source = some includes ∧
      included ∈ includes := by
    rintro included source ⟨includes, found, listed⟩
    rw [includeGraph, OrderedDict.get?_mapValues, get?_buildFileIndex built] at found
    split at found
    · rw [Option.map_map, Option.map_eq_some_iff] at found
      obtain ⟨contents, _, rfl⟩ := found
      cases listed
    · cases found
  rw [mem_computeAffected]
  apply and_congr_right
  intro _
  constructor
  · rintro ⟨changed, inside, path⟩
    cases path.cases_head with
    | inl same => exact same ▸ inside
    | inr step =>
        obtain ⟨next, arrow, _⟩ := step
        exact absurd arrow (edgeless _ _)
  · exact fun inside => ⟨file, inside, .refl⟩

end Changes

end MisraPlatform.IncrementalIndex

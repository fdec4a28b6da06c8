import MisraPlatform.Proof.IncrementalIndex
import MisraPlatform.Proof.RunEnds
import MisraPlatform.Semantics.RunHistory

/-
This file proves what a run leaves in the file index and when an incremental run misses nothing.
-/

namespace MisraPlatform.AnalysisOrchestrator
open Transaction IncrementalIndex

variable {project : Project} {request : RunRequest} {env : Environment}

section Rows

/-- Rows of another path do not change the hash of this one. -/
theorem get?_foldl_filter (rows : List FileIndexEntry) (dict : OrderedDict SourcePath String)
    {deleted query : SourcePath} (other : query ≠ deleted) :
    ((rows.filter fun row => row.relativePath ≠ deleted).foldl
      (fun index row => index.insert row.relativePath row.contentHash) dict).get? query =
    (rows.foldl (fun index row => index.insert row.relativePath row.contentHash) dict).get? query := by
  have general : ∀ before after : OrderedDict SourcePath String, before.get? query = after.get? query →
      ((rows.filter fun row => row.relativePath ≠ deleted).foldl
        (fun index row => index.insert row.relativePath row.contentHash) before).get? query =
      (rows.foldl (fun index row => index.insert row.relativePath row.contentHash) after).get? query := by
    induction rows with
    | nil => exact fun _ _ same => same
    | cons row rest ih =>
        intro before after same
        by_cases gone : row.relativePath = deleted
        · rw [List.filter_cons_of_neg (by simp [gone])]
          apply ih
          rw [OrderedDict.get?_insert, gone, if_neg other, same]
        · rw [List.filter_cons_of_pos (by simp [gone])]
          apply ih
          rw [OrderedDict.get?_insert, OrderedDict.get?_insert, same]
  exact general dict dict rfl

theorem get?_foldl_absent (rows : List FileIndexEntry) (dict : OrderedDict SourcePath String) {query : SourcePath}
    (absent : ∀ row ∈ rows, row.relativePath ≠ query) :
    (rows.foldl (fun index row => index.insert row.relativePath row.contentHash) dict).get? query =
      dict.get? query := by
  induction rows generalizing dict with
  | nil => rfl
  | cons row rest ih =>
      rw [List.foldl_cons, ih _ fun other inside => absent other (List.mem_cons_of_mem _ inside),
        OrderedDict.get?_insert, if_neg (absent row List.mem_cons_self).symm]

theorem get?_deleteRows (database : Database) (deleted query : SourcePath) :
    (previousIndex project.id (deleteRows project deleted database)).get? query =
      if query = deleted then none else (previousIndex project.id database).get? query := by
  have rows : (deleteRows project deleted database).fileIndex.filter (fun row => row.projectId = project.id) =
      (database.fileIndex.filter fun row => row.projectId = project.id).filter
        fun row => row.relativePath ≠ deleted := by
    rw [deleteRows, List.filter_filter, List.filter_filter]
    apply List.filter_congr
    intro row _
    by_cases own : row.projectId = project.id <;> simp [own]
  rw [previousIndex, rows]
  split
  · rename_i same
    apply get?_foldl_absent
    intro row inside
    have kept := (List.mem_filter.mp inside).2
    rw [decide_eq_true_eq] at kept
    exact same ▸ kept
  · rename_i other
    exact get?_foldl_filter _ _ other

theorem get?_storeNode (database : Database) (node : FileIndexNode) (query : SourcePath) :
    (previousIndex project.id (storeNode project node database)).get? query =
      if query = node.relativePath then some node.contentHash
      else (previousIndex project.id database).get? query := by
  rw [previousIndex, storeNode, List.filter_append, List.filter_cons_of_pos (by simp), List.filter_nil,
    List.foldl_append, List.foldl_cons, List.foldl_nil, OrderedDict.get?_insert]
  rfl

/-- The update of the index stores the hash of every file of the new index and keeps the other rows. -/
theorem get?_indexActions (currentIndex : FileIndex)
    (named : ∀ entry ∈ currentIndex.entries, entry.2.relativePath = entry.1) (database : Database)
    (query : SourcePath) :
    (previousIndex project.id (written (indexActions project currentIndex) database)).get? query =
      ((currentIndex.get? query).map FileIndexNode.contentHash).or
        ((previousIndex project.id database).get? query) := by
  have general : ∀ (entries : List (SourcePath × FileIndexNode)) (distinct : (entries.map Prod.fst).Nodup),
      (∀ entry ∈ entries, entry.2.relativePath = entry.1) → ∀ database,
      (previousIndex project.id (written (entries.flatMap fun entry => [.call "session.execute",
        .write (deleteRows project entry.1), .write (storeNode project entry.2)]) database)).get? query =
      (((⟨entries, distinct⟩ : FileIndex).get? query).map FileIndexNode.contentHash).or
        ((previousIndex project.id database).get? query) := by
    intro entries
    induction entries with
    | nil => exact fun _ _ _ => rfl
    | cons entry rest ih =>
        intro distinct named database
        have split := List.nodup_cons.mp distinct
        have here : (⟨entry :: rest, distinct⟩ : FileIndex).get? query =
            if query = entry.1 then some entry.2 else (⟨rest, split.2⟩ : FileIndex).get? query :=
          OrderedDict.lookup_cons_if query entry rest
        rw [List.flatMap_cons, written_append,
          ih split.2 (fun other inside => named other (List.mem_cons_of_mem _ inside)), here]
        change (((⟨rest, split.2⟩ : FileIndex).get? query).map FileIndexNode.contentHash).or
          ((previousIndex project.id
            (storeNode project entry.2 (deleteRows project entry.1 database))).get? query) = _
        rw [get?_storeNode, get?_deleteRows, named entry List.mem_cons_self]
        by_cases same : query = entry.1
        · have absent : (⟨rest, split.2⟩ : FileIndex).get? query = none :=
            (OrderedDict.get?_eq_none _ _).mpr (same ▸ split.1)
          rw [absent, if_pos same, if_pos same]
          rfl
        · rw [if_neg same, if_neg same, if_neg same]
  exact general currentIndex.entries currentIndex.distinct named database

end Rows

section Shape

/-- The write changes the run only, and it does not complete it. -/
def UpdatesRun (request : RunRequest) (change : Database → Database) : Prop :=
  ∃ update, change = Database.updateRun request.runId update ∧ ∀ run, (update run).id = run.id ∧
    (run.status ≠ .completed → (update run).status ≠ .completed)

theorem updatesRun_start : UpdatesRun request (Database.updateRun request.runId (startRun env)) :=
  ⟨_, rfl, fun _ => ⟨rfl, fun _ => by simp [startRun]⟩⟩

theorem updatesRun_fail (text : String) : UpdatesRun request (Database.updateRun request.runId (failRun env text)) :=
  ⟨_, rfl, fun _ => ⟨rfl, fun _ => by simp [failRun]⟩⟩

/-- The actions of a run before it opens its units. -/
def opening (project : Project) (request : RunRequest) (env : Environment) (affected : List SourcePath) :
    List (Operation Database) :=
  startActions request env ++ [.call "get_profile", .call "build_file_index"] ++
    (if request.runType = .incremental ∧ request.baseRunId.isSome then [.call "session.execute"] else []) ++
    ([.write (Database.updateRun request.runId fun run => { run with filesTotal := affected.length }), .commit,
      .call "ClangAstClient"] ++ (if env.ruleEngineEnabled then [.call "RuleDispatcher"] else []) ++
      [.call "get_previous_fingerprints"])

def closing : List (Operation Database) := [.commit, .call "clang_client.close", .call "analysis.completed"]

theorem opening_writes {affected : List SourcePath} {change : Database → Database}
    (inside : .write change ∈ opening project request env affected) : UpdatesRun request change := by
  simp only [opening, List.mem_append] at inside
  rcases inside with ((start | calls) | query) | ((total | engine) | fingerprints)
  · exact startActions_writes start ▸ updatesRun_start
  · simp at calls
  · split at query <;> simp at query
  · simp only [List.mem_cons, Operation.write.injEq, reduceCtorEq, List.not_mem_nil, or_false] at total
    exact ⟨_, total, fun _ => ⟨rfl, id⟩⟩
  · split at engine <;> simp at engine
  · simp at fingerprints

/-- The body only starts or fails the run, or it goes through its units, its rules and the index. -/
theorem body_cases (project : Project) (request : RunRequest) (env : Environment) (database : Database) :
    (∀ change, .write change ∈ body project request env database → UpdatesRun request change) ∨
    ∃ currentIndex affected,
      buildFileIndex env.sha256 env.files project.rootPath
        (env.validation.entries.map CompileCommandEntry.absoluteFile) = .ok currentIndex ∧
      affectedFiles project request env currentIndex database = .ok affected ∧
      body project request env database = opening project request env affected ++
        unitLoop project request env affected 0 {} env.validation.entries ++
        ruleActions project request env affected database ++ indexActions project currentIndex ++
        finalWrites project request env affected ++ closing := by
  rw [body, script]
  by_cases valid : env.validation.isValid = true
  · rw [if_pos valid]
    have raising : ∀ text, ∀ change, .write change ∈ startActions request env ++
        [.call "get_profile", .call "build_file_index"] ++ [.raise text] → UpdatesRun request change := by
      intro text change inside
      simp only [List.mem_append] at inside
      rcases inside with (start | calls) | last
      · exact startActions_writes start ▸ updatesRun_start
      · simp at calls
      · simp at last
    cases built : buildFileIndex env.sha256 env.files project.rootPath
        (env.validation.entries.map CompileCommandEntry.absoluteFile) with
    | error text =>
        refine .inl fun change inside => raising text change ?_
        rwa [List.append_nil] at inside
    | ok currentIndex =>
        dsimp only
        cases selected : affectedFiles project request env currentIndex database with
        | error text =>
            refine .inl fun change inside => raising text change ?_
            simp only [List.append_nil, List.mem_append] at inside ⊢
            rcases inside with (before | query) | last
            · exact .inl before
            · split at query <;> simp at query
            · exact .inr last
        | ok affected =>
            refine .inr ⟨currentIndex, affected, rfl, selected, ?_⟩
            simp [opening, selectedActions, closing]
  · rw [if_neg valid]
    refine .inl fun change inside => ?_
    simp only [List.mem_append] at inside
    rcases inside with (start | fails) | calls
    · exact startActions_writes start ▸ updatesRun_start
    · simp only [List.mem_cons, Operation.write.injEq, reduceCtorEq, List.not_mem_nil, or_false] at fails
      exact fails ▸ updatesRun_fail _
    · simp at calls

end Shape

section Attempted

/-- The run has a record of the unit. -/
def Recorded (request : RunRequest) (path : SourcePath) (database : Database) : Prop :=
  ∃ record ∈ database.translationUnits, record.analysisRunId = request.runId ∧ record.filePath = path

theorem recorded_iff (path : SourcePath) (database : Database) :
    Recorded request path database ↔ recordsOf request.runId database path ≠ [] := by
  rw [Recorded, recordsOf, Ne, List.filter_eq_nil_iff]
  simp

theorem recorded_storeParse {path : SourcePath} {database : Database} (position : Nat) (counts : Counts)
    (recorded : Recorded request path database) :
    Recorded request path (storeParse project request env position counts database) := by
  obtain ⟨record, member, sameRun, samePath⟩ := recorded
  refine ⟨_, List.mem_map_of_mem member, ?_⟩
  split
  · exact ⟨sameRun, samePath⟩
  · exact ⟨sameRun, samePath⟩

theorem recorded_addRecord {path : SourcePath} {database : Database} (record : TranslationUnitRecord)
    (recorded : Recorded request path database) : Recorded request path (addRecord record database) := by
  obtain ⟨other, member, same⟩ := recorded
  exact ⟨other, List.mem_append_left _ member, same⟩

theorem unitLoop_keeps_recorded (path : SourcePath) (affected : List SourcePath) (position : Nat)
    (counts : Counts) (entries : List CompileCommandEntry) :
    WritesKeep (Recorded request path) (unitLoop project request env affected position counts entries) := by
  intro change inside stored recorded
  rcases unitLoop_writes inside with ⟨_, _, rfl⟩ | ⟨_, _, rfl⟩
  · exact recorded_addRecord _ recorded
  · exact recorded_storeParse _ _ recorded

/-- The loop over the units records every selected one. -/
theorem unitLoop_recorded {affected : List SourcePath} (position : Nat) (counts : Counts)
    {entries : List CompileCommandEntry} {entry : CompileCommandEntry} (listed : entry ∈ entries)
    (selected : entry.absoluteFile ∈ affected) (database : Database) :
    Recorded request entry.absoluteFile
      (written (unitLoop project request env affected position counts entries) database) := by
  induction entries generalizing position counts database with
  | nil => cases listed
  | cons first rest ih =>
      rw [unitLoop]
      by_cases here : entry = first
      · subst here
        rw [if_pos (List.contains_iff_mem.mpr selected), written_append]
        apply (unitLoop_keeps_recorded _ _ _ _ _).written
        apply recorded_storeParse
        exact ⟨_, List.mem_append_right _ (List.mem_singleton_self _), rfl, rfl⟩
      · have later : entry ∈ rest := (List.mem_cons.mp listed).resolve_left here
        split
        · rw [written_append]
          exact ih _ _ later _
        · exact ih _ _ later _

theorem ruleActions_keeps {keeps : Database → Prop} (affected : List SourcePath) (database : Database)
    (violations : ∀ store stored, keeps stored → keeps (setViolations store stored))
    (statistics : ∀ results stored, keeps stored → keeps (storeStatistics request results stored)) :
    WritesKeep keeps (ruleActions project request env affected database) := by
  intro change inside stored before
  rcases ruleActions_writes inside with ⟨_, rfl⟩ | ⟨_, rfl⟩
  · exact violations _ _ before
  · exact statistics _ _ before

theorem finalWrites_keeps {keeps : Database → Prop} (affected : List SourcePath)
    (manifest : ∀ stored, keeps stored → keeps (addManifest request env affected stored))
    (completes : ∀ stored, keeps stored →
      keeps (Database.updateRun request.runId (completeRun project env) stored)) :
    WritesKeep keeps (finalWrites project request env affected ++ closing) := by
  intro change inside stored before
  simp only [finalWrites, closing, List.mem_append] at inside
  rcases inside with (added | last) | calls
  · split at added
    · simp only [List.mem_cons, Operation.write.injEq, List.not_mem_nil, or_false] at added
      exact added ▸ manifest _ before
    · cases added
  · simp only [List.mem_cons, Operation.write.injEq, List.not_mem_nil, or_false] at last
    exact last ▸ completes _ before
  · simp at calls

end Attempted

section Runs

/-- A stored hash is that of before, or that of the new index. -/
def StoredFrom (project : Project) (before : Database) (currentIndex : FileIndex) (after : Database) : Prop :=
  ∀ relativePath hash, (previousIndex project.id after).get? relativePath = some hash →
    (previousIndex project.id before).get? relativePath = some hash ∨
      ∃ node, currentIndex.get? relativePath = some node ∧ node.contentHash = hash

theorem storedFrom_of_rows {before after : Database} (currentIndex : FileIndex)
    (same : after.fileIndex = before.fileIndex) : StoredFrom project before currentIndex after := by
  intro relativePath hash found
  rw [previousIndex, same] at found
  exact .inl found

theorem index_named {sha256 : String → String} {files : FileSystem} {projectRoot : SourcePath}
    {sourceFiles : List SourcePath} {index : FileIndex}
    (built : buildFileIndex sha256 files projectRoot sourceFiles = .ok index) :
    ∀ entry ∈ index.entries, entry.2.relativePath = entry.1 := by
  rintro ⟨path, node⟩ inside
  have found := (OrderedDict.mem_entries_iff _ _ _).mp inside
  rw [get?_buildFileIndex built] at found
  split at found
  · obtain ⟨contents, _, rfl⟩ := Option.map_eq_some_iff.mp found
    rfl
  · cases found

/-- The update of the index stores hashes of the new index only. -/
theorem indexActions_keeps_storedFrom {before : Database} {currentIndex : FileIndex}
    (named : ∀ entry ∈ currentIndex.entries, entry.2.relativePath = entry.1) :
    WritesKeep (StoredFrom project before currentIndex) (indexActions project currentIndex) := by
  intro change inside stored kept relativePath hash found
  obtain ⟨⟨path, node⟩, member, either⟩ := indexActions_writes inside
  rcases either with rfl | rfl
  · rw [get?_deleteRows] at found
    split at found
    · cases found
    · exact kept _ _ found
  · rw [get?_storeNode] at found
    split at found
    · rename_i same
      have name : node.relativePath = path := named (path, node) member
      refine .inr ⟨node, ?_, Option.some.inj found⟩
      rw [same, name]
      exact (OrderedDict.mem_entries_iff _ _ _).mp member
    · exact kept _ _ found

/-- The handler commits once, after the write of the failure. -/
theorem failing_prefix {text : String} {done : List (Operation Database)}
    (before : done ++ [.commit] <+: handler request env text) :
    done = [.write (Database.updateRun request.runId (failRun env text))] := by
  obtain ⟨rest, same⟩ := before
  rw [handler] at same
  cases done with
  | nil => simp at same
  | cons first others =>
      obtain ⟨rfl, later⟩ := List.cons.inj same
      cases others with
      | nil => rfl
      | cons second others =>
          obtain ⟨rfl, behind⟩ := List.cons.inj later
          cases others with
          | nil => simp at behind
          | cons third others => simp at behind

/-- A run stores the writes of a part of its body, and those of its handler where it has raised. -/
theorem stored_of_run (project : Project) (request : RunRequest) (env : Environment) (database : Database) :
    ∃ done more, done <+: body project request env database ∧
      (more = [] ∨ ∃ text, more = [.write (Database.updateRun request.runId (failRun env text))]) ∧
      runAnalysis project request env database = written more (written done database) := by
  rw [runAnalysis]
  split
  · rcases handled_prefix (surroundings env) (body project request env database) (handler request env) database with
      same | ⟨done, before, same⟩ | ⟨done, text, handlerDone, part, before, same⟩
    · exact ⟨[], [], List.nil_prefix, .inl rfl, same⟩
    · exact ⟨done, [], (List.prefix_append done [.commit]).trans before, .inl rfl, same⟩
    · exact ⟨done, handlerDone, part, .inr ⟨text, failing_prefix before⟩, same⟩
  · exact ⟨[], [], List.nil_prefix, .inl rfl, rfl⟩

theorem updatesRun_keep {script : List (Operation Database)} {keeps : Database → Prop}
    (updates : ∀ change, .write change ∈ script → UpdatesRun request change)
    (eachUpdate : ∀ update stored, keeps stored → keeps (Database.updateRun request.runId update stored)) :
    WritesKeep keeps script := by
  intro change inside stored before
  obtain ⟨update, rfl, _⟩ := updates change inside
  exact eachUpdate update stored before

/-- No row of the index is written before the index is updated. -/
theorem rows_before_index (affected : List SourcePath) (database : Database)
    (entries : List CompileCommandEntry) :
    WritesKeep (fun after => after.fileIndex = database.fileIndex)
      (opening project request env affected ++ unitLoop project request env affected 0 {} entries ++
        ruleActions project request env affected database) := by
  refine (WritesKeep.append ?_ ?_).append ?_
  · exact updatesRun_keep (fun change inside => opening_writes inside) (fun _ _ same => same)
  · intro change inside stored same
    rcases unitLoop_writes inside with ⟨_, _, rfl⟩ | ⟨_, _, rfl⟩ <;> exact same
  · exact ruleActions_keeps affected database (fun _ _ same => same) (fun _ _ same => same)

/-- A run leaves the index as it was, or it has recorded its units before it stored hashes of the new index. -/
theorem index_of_run (project : Project) (request : RunRequest) (env : Environment) (database : Database) :
    (runAnalysis project request env database).fileIndex = database.fileIndex ∨
    ∃ currentIndex affected,
      buildFileIndex env.sha256 env.files project.rootPath
        (env.validation.entries.map CompileCommandEntry.absoluteFile) = .ok currentIndex ∧
      affectedFiles project request env currentIndex database = .ok affected ∧
      StoredFrom project database currentIndex (runAnalysis project request env database) ∧
      ∀ entry ∈ env.validation.entries, entry.absoluteFile ∈ affected →
        Recorded request entry.absoluteFile (runAnalysis project request env database) := by
  obtain ⟨done, more, part, handlerWrites, stored⟩ := stored_of_run project request env database
  have failing : ∀ change, .write change ∈ more → UpdatesRun request change := by
    intro change inside
    rcases handlerWrites with rfl | ⟨text, rfl⟩
    · cases inside
    · simp only [List.mem_singleton, Operation.write.injEq] at inside
      exact inside ▸ updatesRun_fail text
  rw [stored]
  have moreRows : ∀ database, (written more database).fileIndex = database.fileIndex := fun database =>
    (updatesRun_keep failing (fun _ _ same => same) :
      WritesKeep (fun after => after.fileIndex = database.fileIndex) more).written rfl
  rw [moreRows]
  rcases body_cases project request env database with updates | ⟨currentIndex, affected, built, selected, shape⟩
  · have rows : WritesKeep (fun after => after.fileIndex = database.fileIndex) (body project request env database) :=
      updatesRun_keep updates fun _ _ same => same
    exact .inl ((rows.part part).written rfl)
  · rw [shape, List.append_assoc, List.append_assoc] at part
    have rows := @rows_before_index project request env affected database env.validation.entries
    rcases List.prefix_or_prefix_of_prefix part (List.prefix_append _ _) with early | late
    · exact .inl ((rows.part early).written rfl)
    · obtain ⟨rest, rfl⟩ := late
      have behind := (List.prefix_append_right_inj _).mp part
      refine .inr ⟨currentIndex, affected, built, selected, ?_, ?_⟩
      · have keeps : WritesKeep (StoredFrom project database currentIndex)
            (indexActions project currentIndex ++ (finalWrites project request env affected ++ closing)) :=
          (indexActions_keeps_storedFrom (index_named built)).append
            (finalWrites_keeps affected (fun _ kept => kept) fun _ kept => kept)
        have unchanged := (WritesKeep.written rows rfl : (written _ database).fileIndex = database.fileIndex)
        have indexed := (keeps.part behind).written (storedFrom_of_rows currentIndex unchanged)
        rw [← written_append] at indexed
        intro relativePath hash found
        rw [previousIndex, moreRows] at found
        exact indexed relativePath hash found
      · intro entry listed inside
        have recorded : WritesKeep (Recorded request entry.absoluteFile)
            (ruleActions project request env affected database ++
              (indexActions project currentIndex ++ (finalWrites project request env affected ++ closing))) := by
          refine (ruleActions_keeps affected database (fun _ _ kept => kept) (fun _ _ kept => kept)).append
            (WritesKeep.append ?_ (finalWrites_keeps affected (fun _ kept => kept) fun _ kept => kept))
          intro change member stored kept
          obtain ⟨_, _, rfl | rfl⟩ := indexActions_writes member <;> exact kept
        apply (updatesRun_keep failing (fun _ _ kept => kept) :
          WritesKeep (Recorded request entry.absoluteFile) more).written
        have looped := @unitLoop_recorded project request env affected 0 {} _ entry listed inside
          (written (opening project request env affected) database)
        have finished := (recorded.part ((List.prefix_append_right_inj _).mpr behind)).written looped
        simp only [written_append] at finished ⊢
        exact finished

/-- No run of this id is completed. -/
def Incomplete (request : RunRequest) (database : Database) : Prop :=
  ∀ run ∈ database.analysisRuns, run.id = request.runId → run.status ≠ .completed

theorem incomplete_updatesRun {change : Database → Database} (updates : UpdatesRun request change)
    {database : Database} (incomplete : Incomplete request database) : Incomplete request (change database) := by
  obtain ⟨update, rfl, keeps⟩ := updates
  intro run member same
  obtain ⟨before, inside, rfl⟩ := List.mem_map.mp member
  by_cases this_run : before.id = request.runId
  · rw [if_pos this_run]
    exact (keeps before).2 (incomplete before inside this_run)
  · rw [if_neg this_run] at same
    exact absurd same this_run

theorem incomplete_storeParse (position : Nat) (counts : Counts) {database : Database}
    (incomplete : Incomplete request database) :
    Incomplete request (storeParse project request env position counts database) := by
  have stored : Incomplete request
      { database with translationUnits := database.translationUnits.map fun record =>
          if record.id = env.uuid position then parsedRecord project request env position record else record } :=
    incomplete
  refine incomplete_updatesRun ⟨_, rfl, ?_⟩ stored
  exact fun _ => ⟨rfl, id⟩

/-- A run that completes has stored the whole new index. -/
theorem index_of_completed (project : Project) (request : RunRequest) (env : Environment) (database : Database)
    (incomplete : Incomplete request database)
    (completes : ¬ Incomplete request (runAnalysis project request env database)) :
    ∃ currentIndex, buildFileIndex env.sha256 env.files project.rootPath
        (env.validation.entries.map CompileCommandEntry.absoluteFile) = .ok currentIndex ∧
      ∀ query, (previousIndex project.id (runAnalysis project request env database)).get? query =
        ((currentIndex.get? query).map FileIndexNode.contentHash).or
          ((previousIndex project.id database).get? query) := by
  obtain ⟨done, more, part, handlerWrites, stored⟩ := stored_of_run project request env database
  rw [stored] at completes ⊢
  have noHandler : more = [] := by
    apply handlerWrites.resolve_right
    rintro ⟨text, rfl⟩
    apply completes
    intro run member same
    obtain ⟨before, _, rfl⟩ := List.mem_map.mp member
    by_cases this_run : before.id = request.runId
    · simp [this_run, failRun]
    · rw [if_neg this_run] at same
      exact absurd same this_run
  subst noHandler
  rw [written_nil] at completes ⊢
  rcases body_cases project request env database with updates | ⟨currentIndex, affected, built, selected, shape⟩
  · have keeps : WritesKeep (Incomplete request) (body project request env database) :=
      fun change inside stored kept => incomplete_updatesRun (updates change inside) kept
    exact absurd ((keeps.part part).written incomplete) completes
  · refine ⟨currentIndex, built, fun query => ?_⟩
    rw [shape, List.append_assoc] at part
    have rows := @rows_before_index project request env affected database env.validation.entries
    rcases List.prefix_or_prefix_of_prefix part (List.prefix_append _ _) with early | late
    · have keeps : WritesKeep (Incomplete request) (opening project request env affected ++
          unitLoop project request env affected 0 {} env.validation.entries ++
          ruleActions project request env affected database ++ indexActions project currentIndex) := by
        refine ((WritesKeep.append ?_ ?_).append ?_).append ?_
        · exact fun change inside stored kept => incomplete_updatesRun (opening_writes inside) kept
        · intro change inside stored kept
          rcases unitLoop_writes inside with ⟨_, _, rfl⟩ | ⟨_, _, rfl⟩
          · exact kept
          · exact incomplete_storeParse _ _ kept
        · exact ruleActions_keeps affected database (fun _ _ kept => kept) (fun _ _ kept => kept)
        · intro change inside stored kept
          obtain ⟨_, _, rfl | rfl⟩ := indexActions_writes inside <;> exact kept
      exact absurd ((keeps.part early).written incomplete) completes
    · obtain ⟨rest, rfl⟩ := late
      have behind := (List.prefix_append_right_inj _).mp part
      have unchanged := (WritesKeep.written rows rfl : (written _ database).fileIndex = database.fileIndex)
      have settled : ∀ before : Database, (written rest before).fileIndex = before.fileIndex := by
        intro before
        have keeps : WritesKeep (fun after => after.fileIndex = before.fileIndex)
            (finalWrites project request env affected ++ closing) :=
          finalWrites_keeps affected (fun _ same => same) (fun _ same => same)
        exact (keeps.part behind).written rfl
      rw [written_append, previousIndex, settled, ← previousIndex, written_append,
        get?_indexActions currentIndex (index_named built)]
      congr 1
      rw [previousIndex, unchanged]
      rfl

end Runs

end MisraPlatform.AnalysisOrchestrator

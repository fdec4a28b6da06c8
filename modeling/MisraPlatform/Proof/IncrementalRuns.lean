import MisraPlatform.Proof.RunHistory

/-
This file proves what incremental runs select in the histories whose edits the index notices.
-/

namespace MisraPlatform.AnalysisOrchestrator
open Transaction IncrementalIndex

variable {project : Project} {sha256 : String → String} {includes : SourcePath → String → List SourcePath}
  {state : History} {request : RunRequest} {env : Environment}

section Selection

theorem mem_mapM_ok {ι κ : Type} {f : ι → Except String κ} {items : List ι} {results : List κ}
    (done : items.mapM f = .ok results) {item : ι} (inside : item ∈ items) :
    ∃ result ∈ results, f item = .ok result := by
  induction items generalizing results with
  | nil => cases inside
  | cons first rest ih =>
      rw [List.mapM_cons] at done
      cases here : f first with
      | error text =>
          rw [here] at done
          cases done
      | ok result =>
          rw [here] at done
          cases later : rest.mapM f with
          | error text =>
              rw [later] at done
              cases done
          | ok others =>
              rw [later] at done
              cases done
              cases List.mem_cons.mp inside with
              | inl same => exact ⟨result, List.mem_cons_self, same ▸ here⟩
              | inr behind =>
                  obtain ⟨other, member, found⟩ := ih later behind
                  exact ⟨other, List.mem_cons_of_mem _ member, found⟩

/-- A file that is not selected has the stored hash. -/
theorem stored_of_unselected {currentIndex : FileIndex} {affected : List SourcePath} {database : Database}
    (built : buildFileIndex env.sha256 env.files project.rootPath
      (env.validation.entries.map CompileCommandEntry.absoluteFile) = .ok currentIndex)
    (selected : affectedFiles project request env currentIndex database = .ok affected)
    {entry : CompileCommandEntry} (listed : entry ∈ env.validation.entries)
    (skipped : entry.absoluteFile ∉ affected) :
    ∃ relativePath, entry.absoluteFile = project.rootPath ++ relativePath ∧
      (previousIndex project.id database).get? relativePath =
        (currentIndex.get? relativePath).map FileIndexNode.contentHash := by
  rw [affectedFiles] at selected
  split at selected
  · cases relative : env.validation.entries.mapM fun entry => relativeTo entry.absoluteFile project.rootPath with
    | error text =>
        rw [relative] at selected
        cases selected
    | ok tuRelativePaths =>
        rw [relative] at selected
        cases selected
        obtain ⟨relativePath, member, found⟩ := mem_mapM_ok relative listed
        have located := relativeTo_eq_ok.mp found
        refine ⟨relativePath, located, ?_⟩
        by_contra different
        apply skipped
        rw [located]
        apply List.mem_map_of_mem
        rw [mem_affected_of_index built, mem_computeChangedFiles]
        exact ⟨member, different⟩
  · cases selected
    exact absurd (List.mem_dedup.mpr (List.mem_map_of_mem listed)) skipped

/-- The new index has the contents of a listed file. -/
theorem index_of_listed {currentIndex : FileIndex}
    (built : buildFileIndex env.sha256 env.files project.rootPath
      (env.validation.entries.map CompileCommandEntry.absoluteFile) = .ok currentIndex)
    {entry : CompileCommandEntry} (listed : entry ∈ env.validation.entries) {relativePath : SourcePath}
    (located : entry.absoluteFile = project.rootPath ++ relativePath) :
    (currentIndex.get? relativePath).map FileIndexNode.contentHash =
      (env.files entry.absoluteFile).map env.sha256 := by
  rw [get?_buildFileIndex built, ← located, if_pos (List.mem_map_of_mem listed), Option.map_map]
  rfl

theorem storedHash_of_relative {path relativePath : SourcePath} (located : path = project.rootPath ++ relativePath) :
    state.storedHash project path = (previousIndex project.id state.database).get? relativePath := by
  rw [History.storedHash, relativeTo_eq_ok.mpr located]

theorem relative_of_stored {path : SourcePath} {hash : String}
    (stored : state.storedHash project path = some hash) : ∃ relativePath,
      path = project.rootPath ++ relativePath ∧
        (previousIndex project.id state.database).get? relativePath = some hash := by
  rw [History.storedHash] at stored
  split at stored
  · rename_i relativePath found
    exact ⟨relativePath, relativeTo_eq_ok.mp found, stored⟩
  · cases stored

/-- A known unit that a run skips is unchanged in the index. -/
theorem unchanged_of_skipped {affected : List SourcePath} (known : Known project state)
    (selected : state.selects project sha256 request env = .ok affected) {entry : CompileCommandEntry}
    (listed : entry ∈ state.validation.entries) (skipped : entry.absoluteFile ∉ affected) :
    state.Unchanged project sha256 entry.absoluteFile := by
  rw [History.selects] at selected
  cases built : state.index project sha256 with
  | error text =>
      rw [built] at selected
      cases selected
  | ok currentIndex =>
      rw [built] at selected
      obtain ⟨relativePath, located, same⟩ :=
        @stored_of_unselected project request (state.environment sha256 env) _ _ _ built selected entry listed skipped
      rw [@index_of_listed project (state.environment sha256 env) _ built entry listed _ located] at same
      rw [← storedHash_of_relative located] at same
      cases contents : state.files entry.absoluteFile with
      | none =>
          have absent : state.storedHash project entry.absoluteFile = none := by
            rw [same]
            change (state.files entry.absoluteFile).map _ = none
            rw [contents]
            rfl
          cases known entry listed with
          | inl exists_now => exact absurd contents exists_now
          | inr stored => exact absurd absent stored
      | some text =>
          refine ⟨text, contents, ?_⟩
          rw [same]
          change (state.files entry.absoluteFile).map _ = _
          rw [contents]
          rfl

end Selection

section Settles

/-- After a completed run the index is settled exactly when none of the stored files has left it. -/
theorem indexSettled_iff (project : Project) (sha256 : String → String) (state : History) (request : RunRequest)
    (env : Environment) (fresh : ∀ run ∈ state.database.analysisRuns, run.id ≠ request.runId)
    (completes : Completes project sha256 state request env) :
    ∃ currentIndex, (state.after project sha256 (.run request env)).index project sha256 = .ok currentIndex ∧
      (IndexSettled project (state.after project sha256 (.run request env)).database currentIndex ↔
        NoneRemoved project state currentIndex) := by
  have incomplete : Incomplete request (queue project request state.database) := by
    intro run member same
    cases List.mem_append.mp member with
    | inl before => exact absurd same (fresh run before)
    | inr new =>
        rw [List.mem_singleton.mp new]
        simp [startAnalysisRun]
  have completed : ¬ Incomplete request (state.ran project sha256 request env) := by
    obtain ⟨run, member, same, status⟩ := completes
    exact fun never => never run member same status
  obtain ⟨currentIndex, built, rows⟩ :=
    index_of_completed project request (state.environment sha256 env) _ incomplete completed
  refine ⟨currentIndex, built, ?_⟩
  have settled : (∀ query, (previousIndex project.id (state.ran project sha256 request env)).get? query =
      (currentIndex.get? query).map FileIndexNode.contentHash) ↔ NoneRemoved project state currentIndex := by
    constructor
    · intro exact relativePath stored
      rw [OrderedDict.mem_keys_iff] at stored ⊢
      obtain ⟨hash, found⟩ := stored
      have same := (rows relativePath).symm.trans (exact relativePath)
      change ((currentIndex.get? relativePath).map FileIndexNode.contentHash).or
        ((previousIndex project.id state.database).get? relativePath) = _ at same
      rw [found] at same
      cases node : currentIndex.get? relativePath with
      | none =>
          rw [node] at same
          cases same
      | some present => exact ⟨present, rfl⟩
    · intro kept query
      refine (rows query).trans ?_
      change ((currentIndex.get? query).map FileIndexNode.contentHash).or
        ((previousIndex project.id state.database).get? query) = _
      cases node : currentIndex.get? query with
      | some node => rfl
      | none =>
          have absent := (OrderedDict.get?_eq_none _ _).mpr
            (fun stored => (OrderedDict.get?_eq_none _ _).mp node (kept query stored))
          rw [absent]
          rfl
  rw [← settled]
  constructor
  · exact fun settles => settles.rows
  · intro exact
    refine ⟨?_, exact⟩
    rw [List.eq_nil_iff_forall_not_mem]
    intro relativePath changed
    rw [mem_computeChangedFiles] at changed
    exact changed (exact relativePath)

end Settles

section Remembers

/-- Every unchanged unit has a last attempt, a good one, on the same closure. -/
def Remembers (includes : SourcePath → String → List SourcePath) (project : Project) (sha256 : String → String)
    (good : Attempt → Prop) (state : History) : Prop :=
  ∀ path, state.Unchanged project sha256 path → ∃ last, state.attempts path = some last ∧ good last ∧
    SameClosure includes last.files state.files path

variable {good : Attempt → Prop}

/-- The closure of a unit has the same files as long as none of them changes. -/
theorem inClosure_of_same {before after : FileSystem} {path included : SourcePath}
    (same : SameClosure includes before after path) (inside : InClosure includes before path included) :
    InClosure includes after path included := by
  induction inside with
  | refl => exact .refl
  | tail earlier step ih =>
      obtain ⟨text, contents, listed⟩ := step
      exact ih.tail ⟨text, same _ earlier ▸ contents, listed⟩

theorem remembers_edit {path : SourcePath} {contents : Option String}
    (remembers : Remembers includes project sha256 good state)
    (noticed : Noticed includes project sha256 state path contents) :
    Remembers includes project sha256 good (state.after project sha256 (.edit path contents)) := by
  cases noticed with
  | inl same =>
      have identical : state.after project sha256 (.edit path contents) = state := by
        rw [History.after, same, Function.update_eq_self]
      rw [identical]
      exact remembers
  | inr seen =>
      obtain ⟨different, apart⟩ := seen
      rintro unit ⟨text, present, stored⟩
      change Function.update state.files path contents unit = some text at present
      change state.storedHash project unit = some (sha256 text) at stored
      by_cases own : unit = path
      · subst own
        rw [Function.update_self] at present
        exact absurd stored (different text present)
      · rw [Function.update_of_ne own] at present
        have unchanged : state.Unchanged project sha256 unit := ⟨text, present, stored⟩
        obtain ⟨last, found, fine, same⟩ := remembers unit unchanged
        refine ⟨last, found, fine, ?_⟩
        intro included inside
        have outside : included ≠ path := by
          rintro rfl
          exact apart unit own unchanged (inClosure_of_same same inside)
        rw [same included inside]
        exact (Function.update_of_ne outside contents state.files).symm

/-- A run that leaves the index alone after its failures remembers what it attempts. -/
theorem remembers_run (remembers : Remembers includes project sha256 good state)
    (leaves : ∀ path last, attempt request.runId (state.environment sha256 env)
      (state.ran project sha256 request env) path = some last → ¬ good last →
        (state.ran project sha256 request env).fileIndex = state.database.fileIndex ∧
          ¬ state.Unchanged project sha256 path) :
    Remembers includes project sha256 good (state.after project sha256 (.run request env)) := by
  have attempted : ∀ path last, attempt request.runId (state.environment sha256 env)
      (state.ran project sha256 request env) path = some last → last.files = state.files := by
    intro path last found
    rw [attempt] at found
    split at found
    · cases found
    · cases found
      rfl
  -- A unit that was unchanged keeps its last attempt or has a new one.
  have kept : ∀ path, state.Unchanged project sha256 path → ∃ last,
      (state.after project sha256 (.run request env)).attempts path = some last ∧ good last ∧
        SameClosure includes last.files state.files path := by
    intro path unchanged
    cases found : attempt request.runId (state.environment sha256 env)
        (state.ran project sha256 request env) path with
    | some last =>
        refine ⟨last, by simp [History.after, found], ?_, ?_⟩
        · by_contra bad
          exact (leaves path last found bad).2 unchanged
        · intro included _
          rw [attempted path last found]
    | none =>
        obtain ⟨last, before, fine, same⟩ := remembers path unchanged
        exact ⟨last, by simp [History.after, found, before], fine, same⟩
  rintro path ⟨text, present, stored⟩
  change state.files path = some text at present
  obtain ⟨relativePath, located, row⟩ := relative_of_stored stored
  have unchanged : (previousIndex project.id state.database).get? relativePath = some (sha256 text) →
      state.Unchanged project sha256 path :=
    fun before => ⟨text, present, (storedHash_of_relative located).trans before⟩
  have left := index_of_run project request (state.environment sha256 env) (queue project request state.database)
  by_cases sameIndex : (state.ran project sha256 request env).fileIndex = state.database.fileIndex
  · apply kept path (unchanged _)
    change (previousIndex project.id (state.ran project sha256 request env)).get? relativePath = _ at row
    rw [previousIndex, sameIndex] at row
    exact row
  · obtain ⟨currentIndex, affected, built, selected, from_index, recorded⟩ := left.resolve_left sameIndex
    cases from_index relativePath (sha256 text) row with
    | inl before => exact kept path (unchanged before)
    | inr new =>
        obtain ⟨node, found, hashed⟩ := new
        have listed : path ∈ state.validation.entries.map CompileCommandEntry.absoluteFile := by
          rw [get?_buildFileIndex built, ← located] at found
          split at found
          · assumption
          · cases found
        obtain ⟨entry, member, rfl⟩ := List.mem_map.mp listed
        by_cases inside : entry.absoluteFile ∈ affected
        · have some_record := (recorded_iff _ _).mp (recorded entry member inside)
          obtain ⟨last, new⟩ : ∃ last, attempt request.runId (state.environment sha256 env)
              (state.ran project sha256 request env) entry.absoluteFile = some last := ⟨_, if_neg some_record⟩
          refine ⟨last, by simp [History.after, new], ?_, ?_⟩
          · by_contra bad
            exact sameIndex (leaves _ _ new bad).1
          · intro included _
            rw [attempted _ _ new]
            rfl
        · obtain ⟨other, otherLocated, same⟩ := stored_of_unselected built selected member inside
          apply kept _ (unchanged _)
          rw [located] at otherLocated
          rw [List.append_cancel_left otherLocated]
          refine same.trans ?_
          rw [← List.append_cancel_left otherLocated, found, ← hashed]
          rfl

/-- What is remembered at the start and kept by each event holds in every reached state. -/
theorem Reached.remembers {condition : History → Event → Prop}
    (edits : ∀ state path contents, condition state (.edit path contents) →
      Noticed includes project sha256 state path contents)
    (runs : ∀ state request env, condition state (.run request env) → ∀ path last,
      attempt request.runId (state.environment sha256 env) (state.ran project sha256 request env) path = some last →
        ¬ good last → (state.ran project sha256 request env).fileIndex = state.database.fileIndex ∧
          ¬ state.Unchanged project sha256 path)
    (reached : Reached project sha256 condition state) : Remembers includes project sha256 good state := by
  induction reached with
  | start files validation =>
      rintro path ⟨text, _, stored⟩
      obtain ⟨relativePath, _, row⟩ := relative_of_stored stored
      cases row
  | step state event _ meets ih =>
      cases event with
      | edit path contents => exact remembers_edit ih (edits state path contents meets)
      | compile validation => exact ih
      | run request env => exact remembers_run ih (runs state request env meets)

end Remembers

/-- In a history whose edits are noticed an incremental run misses nothing. -/
theorem missesNothing_of_noticed (includes : SourcePath → String → List SourcePath) (project : Project)
    (sha256 : String → String) (state : History)
    (reached : Reached project sha256 (EditsNoticed includes project sha256) state) (request : RunRequest)
    (env : Environment) (incremental : request.runType = .incremental)
    (condition : EditsNoticed includes project sha256 state (.run request env)) (affected : List SourcePath)
    (selected : state.selects project sha256 request env = .ok affected) :
    MissesNothing includes state affected := by
  have remembers : Remembers includes project sha256 (fun _ => True) state :=
    reached.remembers (fun _ _ _ noticed => noticed) (fun _ _ _ _ _ _ _ bad => absurd trivial bad)
  have same : ∀ entry ∈ state.validation.entries, ∀ last, state.attempts entry.absoluteFile = some last →
      entry.absoluteFile ∉ affected → SameClosure includes last.files state.files entry.absoluteFile := by
    intro entry listed last found skipped
    obtain ⟨other, known, _, same⟩ := remembers _
      (unchanged_of_skipped (condition incremental) selected listed skipped)
    rw [found] at known
    cases known
    exact same
  constructor
  · intro entry listed last found changed
    by_contra skipped
    exact changed (same entry listed last found skipped)
  · intro Findings analyse determined entry listed last found skipped
    exact determined _ _ _ (same entry listed last found skipped)

section Sample

def headerText : String := "#define CODE 0\n"

def editedHeader : String := "#define CODE 1\n"

def includingText : String := "#include \"main.h\"\nint main(void) { return CODE; }\n"

def mainPath : SourcePath := ["repo", "main.c"]

def headerPath : SourcePath := ["repo", "main.h"]

/-- These are the SHA-256 digests of the texts. -/
def projectDigest : String → String :=
  Fingerprint.tableDigest
    [(sampleText, "2ad75d95660563887d8d3f1d0ae1dcf18c2379cbd83a5c72f5ab276351ee6949"),
      (includingText, "6f1946e763a8f8b91d6fdec3664ccb3cdbc06a5ea8d0a27f6d62824623128c61"),
      (headerText, "2368a5068fc91cc92c8126b65012653be1d59bbaaf1b80644f922b07dd13e50f"),
      (editedHeader, "22296cba6d74a46c22b24b13c738a531ffe23bf607d48fe39dc1e40b7dd52957")]

/-- One text has an include directive. -/
def sampleIncludes (path : SourcePath) (text : String) : List SourcePath :=
  if path = mainPath ∧ text = includingText then [headerPath] else []

def headerFiles : FileSystem := fun path =>
  if path = mainPath then some includingText else if path = headerPath then some headerText else none

def newProject (files : FileSystem) (names : List String) : History where
  database := {}
  files := files
  validation := { entries := names.map sampleEntry }
  attempts := fun _ => none

def runEnvironment (runId : String) : Environment :=
  { sampleEnvironment with uuid := fun position => runId ++ "/" ++ Nat.repr position }

def fullRun (runId : String) : Event := .run ⟨runId, .full, none⟩ (runEnvironment runId)

def analysed (state : History) : History := state.after sampleProject projectDigest (fullRun "run-1")

/-- The header changes after a full run. -/
def headerEdited : History :=
  (analysed (newProject headerFiles ["main.c"])).after sampleProject projectDigest
    (.edit headerPath (some editedHeader))

def incrementalRequest (runId : String) : RunRequest := ⟨runId, .incremental, some "run-1"⟩

theorem headerEdited_attempt : (headerEdited.attempts mainPath).map (fun last =>
    (last.files mainPath, last.files headerPath)) = some (some includingText, some headerText) := rfl

theorem headerEdited_selects : headerEdited.selects sampleProject projectDigest (incrementalRequest "run-2")
    (runEnvironment "run-2") = .ok [] := rfl

/-- A change of a header is missed. -/
theorem headerEdit_missed : ∃ state affected, Reached sampleProject projectDigest (fun _ _ => True) state ∧
    state.selects sampleProject projectDigest (incrementalRequest "run-2") (runEnvironment "run-2") = .ok affected ∧
      ¬ MissesNothing sampleIncludes state affected := by
  refine ⟨headerEdited, [], ?_, headerEdited_selects, ?_⟩
  · exact .step _ _ (.step _ _ (.start headerFiles { entries := ["main.c"].map sampleEntry }) trivial) trivial
  · intro missesNothing
    obtain ⟨last, found, contents⟩ := Option.map_eq_some_iff.mp headerEdited_attempt
    obtain ⟨mainText, header⟩ := Prod.mk.inj contents
    have skipped := missesNothing.selected (sampleEntry "main.c") List.mem_cons_self last found
    refine List.not_mem_nil (skipped ?_)
    intro same
    have included : InClosure sampleIncludes last.files mainPath headerPath :=
      .single ⟨includingText, mainText, by decide⟩
    have kept := same headerPath included
    have edited : headerEdited.files headerPath = some editedHeader := rfl
    rw [header, edited] at kept
    exact absurd kept (by decide)

theorem analysed_unchanged {path : SourcePath}
    (unchanged : (analysed (newProject headerFiles ["main.c"])).Unchanged sampleProject projectDigest path) :
    path = mainPath := by
  obtain ⟨text, _, stored⟩ := unchanged
  obtain ⟨relativePath, located, row⟩ := relative_of_stored stored
  have keys : (previousIndex sampleProject.id (analysed (newProject headerFiles ["main.c"])).database).keys =
      [["main.c"]] := rfl
  have listed := (OrderedDict.mem_keys_iff _ _).mpr ⟨_, row⟩
  rw [keys, List.mem_singleton] at listed
  rw [located, listed]
  rfl

theorem missesNothing_after_edit : MissesNothing sampleIncludes
    ((analysed (newProject headerFiles ["main.c"])).after sampleProject projectDigest
      (.edit mainPath (some sampleText))) [mainPath] := by
  have noticed : Noticed sampleIncludes sampleProject projectDigest (analysed (newProject headerFiles ["main.c"]))
      mainPath (some sampleText) := by
    refine .inr ⟨?_, ?_⟩
    · rintro text same
      cases same
      have stored : (analysed (newProject headerFiles ["main.c"])).storedHash sampleProject mainPath =
          some (projectDigest includingText) := rfl
      rw [stored]
      decide
    · exact fun unit other unchanged => absurd (analysed_unchanged unchanged) other
  have full : EditsNoticed sampleIncludes sampleProject projectDigest (newProject headerFiles ["main.c"])
      (fullRun "run-1") := fun incremental => nomatch incremental
  apply missesNothing_of_noticed sampleIncludes sampleProject projectDigest _
    (.step _ (.edit mainPath (some sampleText))
      (.step _ _ (.start headerFiles { entries := ["main.c"].map sampleEntry }) full) noticed)
    (incrementalRequest "run-2") (runEnvironment "run-2") rfl
  · intro _ entry listed
    rw [List.mem_singleton.mp listed]
    exact .inl (Option.some_ne_none sampleText)
  · rfl

/-- The parse fails, and the index has the unit as analysed. -/
def parseFailed : History :=
  (newProject sampleFiles ["main.c"]).after sampleProject projectDigest
    (.run ⟨"run-1", .full, none⟩ { runEnvironment "run-1" with parse := fun _ => { sampleParse with success := false } })

/-- A path with records is that of one of the units. -/
theorem recordsOf_eq_nil {runId : String} {database : Database} {path : SourcePath}
    (outside : (runId, path) ∉ database.translationUnits.map fun record => (record.analysisRunId, record.filePath)) :
    recordsOf runId database path = [] := by
  rw [recordsOf, List.filter_eq_nil_iff]
  intro record member same
  obtain ⟨sameRun, samePath⟩ := of_decide_eq_true same
  exact outside (List.mem_map.mpr ⟨record, member, by rw [sameRun, samePath]⟩)

theorem leavesIndex_full :
    LeavesIndex sampleProject projectDigest (newProject sampleFiles ["main.c"]) ⟨"run-1", .full, none⟩
      (runEnvironment "run-1") := by
  intro path last found failed
  have units : ((newProject sampleFiles ["main.c"]).ran sampleProject projectDigest ⟨"run-1", .full, none⟩
      (runEnvironment "run-1")).translationUnits.map
        (fun record => (record.analysisRunId, record.filePath)) = [("run-1", mainPath)] := by
    rfl
  rw [attempt] at found
  split at found
  · cases found
  · rename_i some_record
    cases found
    have own : path = mainPath := by
      by_contra other
      refine some_record (recordsOf_eq_nil ?_)
      rw [units, List.mem_singleton]
      exact fun same => other (Prod.mk.inj same).2
    subst own
    have succeeded : succeeds "run-1" ((newProject sampleFiles ["main.c"]).environment projectDigest
        (runEnvironment "run-1")) ((newProject sampleFiles ["main.c"]).ran sampleProject projectDigest
          ⟨"run-1", .full, none⟩ (runEnvironment "run-1")) mainPath = true := rfl
    exact absurd (succeeded.symm.trans failed) (by decide)

def pairFiles : FileSystem := fun path =>
  if path = ["repo", "a.c"] ∨ path = ["repo", "b.c"] then some sampleText else none

/-- The second unit leaves the compile database after a full run. -/
def unitRemoved : History :=
  (analysed (newProject pairFiles ["a.c", "b.c"])).after sampleProject projectDigest
    (.compile { entries := [sampleEntry "a.c"] })

theorem unitRemoved_changed : ((unitRemoved.after sampleProject projectDigest (fullRun "run-2")).index sampleProject
    projectDigest).toOption.map (computeChangedFiles (previousIndex sampleProject.id
      (unitRemoved.after sampleProject projectDigest (fullRun "run-2")).database)) = some [["b.c"]] := rfl

theorem completes_of_statuses {state : History} {request : RunRequest} {env : Environment}
    (earlier : List (String × AnalysisStatus))
    (statuses : (state.ran sampleProject projectDigest request env).analysisRuns.map
      (fun run => (run.id, run.status)) = earlier ++ [(request.runId, .completed)]) :
    Completes sampleProject projectDigest state request env := by
  have last : (request.runId, AnalysisStatus.completed) ∈ earlier ++ [(request.runId, .completed)] :=
    List.mem_append_right earlier List.mem_cons_self
  rw [← statuses] at last
  obtain ⟨run, member, same⟩ := List.mem_map.mp last
  obtain ⟨sameId, completed⟩ := Prod.mk.inj same
  exact ⟨run, member, sameId, completed⟩

/-- The row of a removed file stays. -/
theorem removedFile_changed : ∃ state, Reached sampleProject projectDigest (fun _ _ => True) state ∧
    Completes sampleProject projectDigest state ⟨"run-2", .full, none⟩ (runEnvironment "run-2") ∧
    ∃ currentIndex,
      (state.after sampleProject projectDigest (fullRun "run-2")).index sampleProject projectDigest =
        .ok currentIndex ∧
      ¬ IndexSettled sampleProject (state.after sampleProject projectDigest (fullRun "run-2")).database
        currentIndex := by
  refine ⟨unitRemoved, ?_, completes_of_statuses [("run-1", .completed)] rfl, ?_⟩
  · exact .step _ (.compile { entries := [sampleEntry "a.c"] }) (.step _ (fullRun "run-1")
      (.start pairFiles { entries := ["a.c", "b.c"].map sampleEntry }) trivial) trivial
  · obtain ⟨currentIndex, built, changed⟩ := Option.map_eq_some_iff.mp unitRemoved_changed
    refine ⟨currentIndex, ?_, ?_⟩
    · cases index : (unitRemoved.after sampleProject projectDigest (fullRun "run-2")).index sampleProject
          projectDigest with
      | error message =>
          rw [index] at built
          cases built
      | ok other =>
          rw [index] at built
          cases built
          rfl
    · intro settled
      rw [settled.unchanged] at changed
      cases changed

theorem indexSettled_after_full : ∃ currentIndex,
    (analysed (newProject pairFiles ["a.c", "b.c"])).index sampleProject projectDigest = .ok currentIndex ∧
      (IndexSettled sampleProject (analysed (newProject pairFiles ["a.c", "b.c"])).database currentIndex ↔
        NoneRemoved sampleProject (newProject pairFiles ["a.c", "b.c"]) currentIndex) := by
  apply indexSettled_iff sampleProject projectDigest (newProject pairFiles ["a.c", "b.c"])
    ⟨"run-1", .full, none⟩ (runEnvironment "run-1")
  · intro run member
    cases member
  · exact completes_of_statuses [] rfl

end Sample

end MisraPlatform.AnalysisOrchestrator

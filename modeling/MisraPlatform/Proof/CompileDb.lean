import MisraPlatform.Semantics.CompileDb

/-
This file proves when the compile database loses only the entries that it has more than once.
-/

namespace MisraPlatform.CompileDb

section Joins

/-- Joined pieces are cut where they are joined and where they are cut themselves. -/
theorem splitOn_join {α : Type} [DecidableEq α] (mark : α) (first : List α) (rest : List (List α)) :
    ([mark].intercalate (first :: rest)).splitOn mark = (first :: rest).flatMap fun piece => piece.splitOn mark := by
  induction rest generalizing first with
  | nil => rw [List.intercalate_singleton, List.flatMap_singleton]
  | cons second rest ih =>
      rw [List.intercalate_cons_cons, List.flatMap_cons, ← ih, List.append_assoc, List.singleton_append]
      exact List.splitOn_append_cons_self first _

/-- Pieces have one joined text exactly if they have the same fragments. -/
theorem join_eq_iff {α : Type} [DecidableEq α] (mark : α) {first second : List (List α)} (some_first : first ≠ [])
    (some_second : second ≠ []) : [mark].intercalate first = [mark].intercalate second ↔
      (first.flatMap fun piece => piece.splitOn mark) = second.flatMap fun piece => piece.splitOn mark := by
  obtain ⟨head, rest, rfl⟩ := List.exists_cons_of_ne_nil some_first
  obtain ⟨other, others, rfl⟩ := List.exists_cons_of_ne_nil some_second
  rw [← splitOn_join, ← splitOn_join]
  constructor
  · exact congrArg (List.splitOn mark)
  · intro same
    have joined := congrArg (List.intercalate [mark]) same
    simpa only [List.intercalate_splitOn] using joined

end Joins

variable {env : Environment}

section Keys

variable (env) in
/-- Entries are compared by this text. -/
def hashed (entry : CompileCommandEntry) : String :=
  match entry.absoluteFile env with
  | .ok absoluteFile => env.sha256 (entry.payload absoluteFile)
  | .error _ => ""

theorem fingerprint_eq {entry : CompileCommandEntry} {absoluteFile : String}
    (resolved : entry.absoluteFile env = .ok absoluteFile) : entry.fingerprint env = .ok (hashed env entry) := by
  rw [CompileCommandEntry.fingerprint, hashed, resolved]
  rfl

theorem hashed_of_identity {first second : CompileCommandEntry}
    (same : identity env first = identity env second) : hashed env first = hashed env second := by
  obtain ⟨sameFile, sameDirectory, sameArguments⟩ := Prod.mk.inj same |>.imp_right Prod.mk.inj
  unfold hashed CompileCommandEntry.payload
  rw [sameDirectory, sameArguments]
  cases here : first.absoluteFile env with
  | error failure =>
      cases there : second.absoluteFile env with
      | error other => rfl
      | ok other => simp [here, there, Except.toOption] at sameFile
  | ok absoluteFile =>
      cases there : second.absoluteFile env with
      | error other => simp [here, there, Except.toOption] at sameFile
      | ok other =>
          simp only [here, there, Except.toOption, Option.some.injEq] at sameFile
          rw [sameFile]

/-- The hash sees an entry only through its fragments. -/
theorem hashed_eq_iff (injective : Function.Injective env.sha256) {first second : CompileCommandEntry}
    {here there : String} (firstFile : first.absoluteFile env = .ok here) (secondFile : second.absoluteFile env = .ok there) :
    hashed env first = hashed env second ↔ fragments env first = fragments env second := by
  have joined := @join_eq_iff _ _ '|' ((first.directory :: here :: first.arguments).map String.toList)
    ((second.directory :: there :: second.arguments).map String.toList) (by simp) (by simp)
  rw [hashed, hashed, fragments, fragments, firstFile, secondFile]
  rw [List.flatMap_map, List.flatMap_map] at joined
  rw [← joined]
  show env.sha256 _ = env.sha256 _ ↔ _
  rw [injective.eq_iff, ← String.toList_inj, CompileCommandEntry.payload, CompileCommandEntry.payload,
    String.toList_intercalate, String.toList_intercalate]
  rfl

end Keys

section Loading

variable (env) in
/-- These entries were added to the state, each once. -/
structure Adds (state : LoadState) (payload : List JsonValue) (final : LoadState) : Prop where
  entries : final.entries = state.entries ++ keepFirst (hashed env) state.seenFingerprints (wellFormed env payload)
  seen : ∀ fingerprint, fingerprint ∈ final.seenFingerprints ↔
    fingerprint ∈ (wellFormed env payload).map (hashed env) ∨ fingerprint ∈ state.seenFingerprints
  total : final.entries.length + final.duplicateCount + (final.diagnostics.filter isMalformedDiagnostic).length =
    state.entries.length + state.duplicateCount + (state.diagnostics.filter isMalformedDiagnostic).length +
      payload.length

theorem Adds.nil (state : LoadState) : Adds env state [] state where
  entries := (List.append_nil _).symm
  seen _ := by simp [wellFormed]
  total := rfl

theorem Adds.append {state middle final : LoadState} {payload others : List JsonValue}
    (before : Adds env state payload middle) (after : Adds env middle others final) :
    Adds env state (payload ++ others) final where
  entries := by
    have split : wellFormed env (payload ++ others) = wellFormed env payload ++ wellFormed env others :=
      List.filterMap_append
    rw [after.entries, before.entries, split, keepFirst_append, List.append_assoc]
    congr 2
    apply keepFirst_congr
    intro entry _
    rw [before.seen, List.mem_append]
  seen fingerprint := by
    rw [after.seen, before.seen, wellFormed, wellFormed, wellFormed, List.filterMap_append, List.map_append,
      List.mem_append]
    tauto
  total := by
    rw [after.total, before.total, List.length_append]
    omega

/-- A diagnosed entry is malformed. -/
theorem adds_diagnose {raw : JsonValue} (malformed : parsedEntry env raw = none) (state : LoadState)
    {diagnostic : String} (said : isMalformedDiagnostic diagnostic) : Adds env state [raw] (state.diagnose diagnostic) where
  entries := by simp [wellFormed, malformed, LoadState.diagnose, keepFirst]
  seen _ := by simp [wellFormed, malformed, LoadState.diagnose]
  total := by
    rw [LoadState.diagnose, List.filter_append, List.length_append, List.filter_cons_of_pos said]
    rfl

theorem isMalformedDiagnostic_entry (rest : String) : isMalformedDiagnostic ("Entry " ++ rest) := by
  rw [isMalformedDiagnostic, String.toList_append]
  exact List.isPrefixOf_iff_prefix.mpr (List.prefix_append _ _)

theorem isMalformedDiagnostic_missing (path : String) :
    isMalformedDiagnostic ("Source file not found: " ++ path) = false := by
  rw [isMalformedDiagnostic, String.toList_append]
  rfl

/-- Only the source file that is missing is diagnosed. -/
theorem addParsed_eq {parsed : CompileCommandEntry} {absoluteFile : String}
    (resolved : parsed.absoluteFile env = .ok absoluteFile) (state : LoadState) :
    ∃ noted : LoadState, noted.entries = state.entries ∧ noted.seenFingerprints = state.seenFingerprints ∧
      noted.duplicateCount = state.duplicateCount ∧
      noted.diagnostics.filter isMalformedDiagnostic = state.diagnostics.filter isMalformedDiagnostic ∧
      addParsed env state parsed = .ok (
        if noted.seenFingerprints.contains (hashed env parsed) then
          { noted with duplicateCount := noted.duplicateCount + 1 }
        else
          { noted with
            seenFingerprints := hashed env parsed :: noted.seenFingerprints
            entries := noted.entries ++ [parsed] }) := by
  refine ⟨if env.pathExists (env.path absoluteFile) then state
    else state.diagnose ("Source file not found: " ++ env.path absoluteFile), ?_, ?_, ?_, ?_, ?_⟩
  · split <;> rfl
  · split <;> rfl
  · split <;> rfl
  · split
    · rfl
    · simp [LoadState.diagnose, isMalformedDiagnostic_missing]
  · rw [addParsed, resolved, fingerprint_eq resolved]
    exact (apply_ite Except.ok _ _ _).symm

/-- A parsed entry is kept or counted as a duplicate. -/
theorem addParsed_adds {raw : JsonValue} {parsed : CompileCommandEntry} {absoluteFile : String}
    (entry : parsedEntry env raw = some parsed) (resolved : parsed.absoluteFile env = .ok absoluteFile)
    (state : LoadState) : ∃ next, addParsed env state parsed = .ok next ∧ Adds env state [raw] next := by
  obtain ⟨noted, sameEntries, sameSeen, sameCount, sameDiagnostics, step⟩ := addParsed_eq resolved state
  refine ⟨_, step, ?_⟩
  by_cases known : hashed env parsed ∈ state.seenFingerprints
  · have counted : noted.seenFingerprints.contains (hashed env parsed) := by simpa [sameSeen] using known
    rw [if_pos counted]
    constructor
    · simp [wellFormed, entry, keepFirst, known, sameEntries]
    · simp only [wellFormed, List.filterMap_cons, entry, sameSeen]
      simpa using known
    · simp only [sameEntries, sameCount, sameDiagnostics, List.length_singleton]
      omega
  · have fresh : ¬ noted.seenFingerprints.contains (hashed env parsed) := by simpa [sameSeen] using known
    rw [if_neg fresh]
    constructor
    · simp [wellFormed, entry, keepFirst, known, sameEntries]
    · simp [wellFormed, entry, sameSeen]
    · simp only [sameEntries, sameCount, sameDiagnostics, List.length_append, List.length_singleton]
      omega

theorem addEntry_adds {raw : JsonValue} (readable : Readable env raw) (state : LoadState) (index : Nat) :
    ∃ next, addEntry env state index raw = .ok next ∧ Adds env state [raw] next := by
  by_cases shape : ∃ fields, raw = .object fields
  · obtain ⟨fields, rfl⟩ := shape
    obtain ⟨parsed, parses, resolves⟩ := readable
    cases parsed with
    | none =>
        have malformed : parsedEntry env (.object fields) = none := by rw [parsedEntry, parses]
        refine ⟨_, by rw [addEntry, parses]; rfl, adds_diagnose malformed state ?_⟩
        rw [String.append_assoc]
        exact isMalformedDiagnostic_entry _
    | some entry =>
        have wellFormed : parsedEntry env (.object fields) = some entry := by rw [parsedEntry, parses]
        obtain ⟨absoluteFile, resolved⟩ := resolves entry rfl
        rw [addEntry, parses]
        exact addParsed_adds wellFormed resolved state
  · have other : parsedEntry env raw = none ∧
        addEntry env state index raw = .ok (state.diagnose ("Entry " ++ Nat.repr index ++ " is not an object")) := by
      cases raw with
      | object fields => exact absurd ⟨fields, rfl⟩ shape
      | null => exact ⟨rfl, rfl⟩
      | flag value => exact ⟨rfl, rfl⟩
      | number isZero spelling => exact ⟨rfl, rfl⟩
      | text value => exact ⟨rfl, rfl⟩
      | array items => exact ⟨rfl, rfl⟩
    refine ⟨_, other.2, adds_diagnose other.1 state ?_⟩
    rw [String.append_assoc]
    exact isMalformedDiagnostic_entry _

theorem loadEntries_adds {payload : List JsonValue} (readable : ∀ raw ∈ payload, Readable env raw) (state : LoadState)
    (index : Nat) : ∃ final, loadEntries env state index payload = .ok final ∧ Adds env state payload final := by
  induction payload generalizing state index with
  | nil => exact ⟨state, rfl, .nil state⟩
  | cons raw rest ih =>
      obtain ⟨next, added, here⟩ := addEntry_adds (readable raw (by simp)) state index
      have others : ∀ other ∈ rest, Readable env other :=
        fun other inside => readable other (List.mem_cons_of_mem _ inside)
      obtain ⟨final, loaded, later⟩ := ih others next (index + 1)
      rw [loadEntries, added]
      exact ⟨final, loaded, here.append later⟩

theorem resolves_of_readable {raw : JsonValue} {entry : CompileCommandEntry} (readable : Readable env raw)
    (parses : parsedEntry env raw = some entry) : ∃ absoluteFile, entry.absoluteFile env = .ok absoluteFile := by
  cases raw with
  | object fields =>
      obtain ⟨parsed, succeeds, resolves⟩ := readable
      rw [parsedEntry, succeeds] at parses
      exact resolves entry parses
  | null => cases parses
  | flag value => cases parses
  | number isZero spelling => cases parses
  | text value => cases parses
  | array items => cases parses

theorem readable_of_parsedEntry {raw : JsonValue} {entry : CompileCommandEntry} {absoluteFile : String}
    (parses : parsedEntry env raw = some entry) (resolved : entry.absoluteFile env = .ok absoluteFile) :
    Readable env raw := by
  cases raw with
  | object fields =>
      rw [parsedEntry] at parses
      cases succeeds : parseEntry env fields with
      | error failure => simp [succeeds] at parses
      | ok parsed =>
          rw [succeeds] at parses
          refine ⟨parsed, succeeds, ?_⟩
          intro other isOther
          have same : entry = other := Option.some.inj (parses.symm.trans isOther)
          exact ⟨absoluteFile, same ▸ resolved⟩
  | null => trivial
  | flag value => trivial
  | number isZero spelling => trivial
  | text value => trivial
  | array items => trivial

/-- An entry that is added raised no exception. -/
theorem readable_of_addEntry {raw : JsonValue} {state next : LoadState} {index : Nat}
    (added : addEntry env state index raw = .ok next) : Readable env raw := by
  cases raw with
  | object fields =>
      rw [addEntry] at added
      cases parses : parseEntry env fields with
      | error failure => simp [parses, bind, Except.bind] at added
      | ok parsed =>
          refine ⟨parsed, parses, ?_⟩
          intro entry isEntry
          subst isEntry
          cases resolved : entry.absoluteFile env with
          | error failure => simp [parses, addParsed, resolved, bind, Except.bind] at added
          | ok absoluteFile => exact ⟨absoluteFile, rfl⟩
  | null => trivial
  | flag value => trivial
  | number isZero spelling => trivial
  | text value => trivial
  | array items => trivial

theorem readable_of_loadEntries {payload : List JsonValue} {state final : LoadState} {index : Nat}
    (loaded : loadEntries env state index payload = .ok final) : ∀ raw ∈ payload, Readable env raw := by
  induction payload generalizing state index with
  | nil => exact fun raw inside => nomatch inside
  | cons raw rest ih =>
      rw [loadEntries] at loaded
      cases added : addEntry env state index raw with
      | error failure => simp [added, bind, Except.bind] at loaded
      | ok next =>
          rw [added] at loaded
          exact List.forall_mem_cons.mpr ⟨readable_of_addEntry added, ih loaded⟩

/-- The validation copies the last state of the loop. -/
theorem load_array {source : String} {payload : List JsonValue} {validation : CompileCommandsValidation}
    (loads : loadCompileCommands env source (.payload (.array payload)) = .ok validation) :
    ∃ final, loadEntries env {} 0 payload = .ok final ∧ validation.entries = final.entries ∧
      validation.duplicateCount = final.duplicateCount ∧
      validation.diagnostics.filter isMalformedDiagnostic = final.diagnostics.filter isMalformedDiagnostic := by
  cases loaded : loadEntries env {} 0 payload with
  | error failure => simp [loadCompileCommands, loaded, bind, Except.bind] at loads
  | ok final =>
      rw [loadCompileCommands, loaded] at loads
      have result := Except.ok.inj loads
      subst result
      refine ⟨final, rfl, rfl, rfl, ?_⟩
      have silent : (if final.entries.isEmpty then ["No valid translation units found"] else []).filter
          isMalformedDiagnostic = [] := by
        split <;> rfl
      rw [List.filter_append, silent, List.append_nil]

theorem loads_of_readable {payload : List JsonValue} (readable : ∀ raw ∈ payload, Readable env raw)
    (source : String) : ∃ validation, loadCompileCommands env source (.payload (.array payload)) = .ok validation := by
  obtain ⟨final, loaded, _⟩ := loadEntries_adds readable {} 0
  rw [loadCompileCommands, loaded]
  exact ⟨_, rfl⟩

/-- The numbers always add up, and the entries are those that the hash keeps. -/
theorem drops_iff {source : String} {payload : List JsonValue} {validation : CompileCommandsValidation}
    (loads : loadCompileCommands env source (.payload (.array payload)) = .ok validation) :
    DropsOnlyDuplicates env payload validation ↔
      keepFirst (hashed env) [] (wellFormed env payload) = keepFirst (identity env) [] (wellFormed env payload) := by
  obtain ⟨final, loaded, sameEntries, sameCount, sameDiagnostics⟩ := load_array loads
  obtain ⟨other, again, adds⟩ := loadEntries_adds (readable_of_loadEntries loaded) {} 0
  have same : other = final := Except.ok.inj (again.symm.trans loaded)
  rw [same] at adds
  have entries : validation.entries = keepFirst (hashed env) [] (wellFormed env payload) :=
    sameEntries.trans (adds.entries.trans (List.nil_append _))
  constructor
  · intro drops
    rw [← entries, drops.kept]
  · intro agree
    constructor
    · rw [entries, agree]
    · rw [sameEntries, sameCount, sameDiagnostics, adds.total]
      exact Nat.zero_add _

/-- The hash and the identity keep the same entries exactly if no two entries with the same fragments differ. -/
theorem distinguishable_iff (injective : Function.Injective env.sha256) {payload : List JsonValue}
    (readable : ∀ raw ∈ payload, Readable env raw) :
    keepFirst (hashed env) [] (wellFormed env payload) = keepFirst (identity env) [] (wellFormed env payload) ↔
      Distinguishable env (wellFormed env payload) := by
  have resolves : ∀ entry ∈ wellFormed env payload, ∃ absoluteFile, entry.absoluteFile env = .ok absoluteFile := by
    intro entry inside
    obtain ⟨raw, listed, parses⟩ := List.mem_filterMap.mp inside
    exact resolves_of_readable (readable raw listed) parses
  have hashes : ∀ first ∈ wellFormed env payload, ∀ second ∈ wellFormed env payload,
      (hashed env first = hashed env second ↔ fragments env first = fragments env second) := by
    intro first here second there
    obtain ⟨_, firstFile⟩ := resolves first here
    obtain ⟨_, secondFile⟩ := resolves second there
    exact hashed_eq_iff injective firstFile secondFile
  rw [keepFirst_eq_iff fun first _ second _ => hashed_of_identity]
  constructor
  · intro apart first here second there same
    exact apart first here second there ((hashes first here second there).mpr same)
  · intro apart first here second there same
    exact apart first here second there ((hashes first here second there).mp same)

end Loading

section Example

/-- Paths are joined, files are not read and the text is its own hash. -/
def exampleEnvironment : Environment where
  path := id
  isAbsolute path := "/".toList.isPrefixOf path.toList
  join directory path := directory ++ "/" ++ path
  resolve := .ok
  pathExists _ := false
  readText _ := .error .osError
  shlexSplit command := .ok [command]
  format _ := ""
  sha256 := id

def exampleRawEntry (arguments : List String) : JsonValue :=
  .object [("directory", .text "/d"), ("file", .text "a.c"), ("arguments", .array (arguments.map .text))]

def exampleEntry (arguments : List String) : CompileCommandEntry := { file := "a.c", directory := "/d", arguments }

end Example

end MisraPlatform.CompileDb

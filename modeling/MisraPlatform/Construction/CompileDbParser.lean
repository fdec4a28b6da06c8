import Mathlib.Data.List.Basic

/-
This file is the compile database parser, which drops the entries that it has seen before.
-/

namespace MisraPlatform.CompileDb

/-- A number keeps its spelling and whether it is zero. -/
inductive JsonValue where
  | null
  | flag (value : Bool)
  | number (isZero : Bool) (spelling : String)
  | text (value : String)
  | array (items : List JsonValue)
  | object (entries : List (String × JsonValue))

/-- Python takes null, false, zero and everything empty for false. -/
def JsonValue.truthy : JsonValue → Bool
  | null => false
  | flag value => value
  | number isZero _ => !isZero
  | text value => value ≠ ""
  | array items => !items.isEmpty
  | object entries => !entries.isEmpty

inductive ParseFailure where
  | typeError | valueError | osError
  deriving DecidableEq

/-- These are the paths, the files and the functions of the standard library that the parser calls. -/
structure Environment where
  path : String → String
  isAbsolute : String → Bool
  join : String → String → String
  resolve : String → Except ParseFailure String
  pathExists : String → Bool
  readText : String → Except ParseFailure String
  shlexSplit : String → Except ParseFailure (List String)
  format : JsonValue → String
  sha256 : String → String

/-- This is `str(value)`. -/
def Environment.str (env : Environment) : JsonValue → String
  | .text value => value
  | other => env.format other

structure CompileCommandEntry where
  file : String
  directory : String
  arguments : List String
  output : Option String := none
  deriving DecidableEq

structure CompileCommandsValidation where
  isValid : Bool
  source : String
  entries : List CompileCommandEntry := []
  diagnostics : List String := []
  duplicateCount : Nat := 0

variable (env : Environment)

def CompileCommandEntry.absoluteFile (entry : CompileCommandEntry) : Except ParseFailure String :=
  if env.isAbsolute (env.path entry.file) then env.resolve (env.path entry.file)
  else env.resolve (env.join (env.path entry.directory) (env.path entry.file))

/-- This text is hashed. -/
def CompileCommandEntry.payload (entry : CompileCommandEntry) (absoluteFile : String) : String :=
  "|".intercalate (entry.directory :: absoluteFile :: entry.arguments)

def CompileCommandEntry.fingerprint (entry : CompileCommandEntry) : Except ParseFailure String := do
  return env.sha256 (entry.payload (← entry.absoluteFile env))

/-- This is the pattern `^@(.+)$`, whose dot is no newline and whose end may be before the last one. -/
def responseFile (argument : String) : Option String :=
  match argument.toList with
  | '@' :: rest =>
      let name := if rest.getLast? = some '\n' then rest.dropLast else rest
      if name.isEmpty || name.contains '\n' then none else some (String.ofList name)
  | _ => none

def expandResponseFile (argument baseDirectory : String) : Except ParseFailure (List String) :=
  match responseFile argument with
  | none => .ok [argument]
  | some name => do
      let responsePath :=
        if env.isAbsolute (env.path name) then env.path name else env.join baseDirectory (env.path name)
      if env.pathExists responsePath then env.shlexSplit (← env.readText responsePath) else return [argument]

def normalizeArguments (rawArguments : List String) (directory : String) : Except ParseFailure (List String) := do
  return (← rawArguments.mapM fun argument => expandResponseFile env argument directory).flatten

/-- The arguments are the list of strings, or the command is split. -/
def rawArguments (rawEntry : List (String × JsonValue)) : Option (Except ParseFailure (List String)) :=
  match rawEntry.lookup "arguments", rawEntry.lookup "command" with
  | some (.array items), _ => some (.ok (items.map env.str))
  | _, some (.text command) => some (env.shlexSplit command)
  | _, _ => none

/-- The path of a directory that is no text is a type error. -/
def parseEntry (rawEntry : List (String × JsonValue)) : Except ParseFailure (Option CompileCommandEntry) :=
  match rawEntry.lookup "directory", rawEntry.lookup "file" with
  | some directory, some file =>
      if directory.truthy && file.truthy then
        match directory with
        | .text directory =>
            match rawArguments env rawEntry with
            | none => .ok none
            | some arguments => do
                let normalizedArguments ← normalizeArguments env (← arguments) (env.path directory)
                return some
                  { file := env.str file
                    directory := env.path directory
                    arguments := normalizedArguments
                    output := ((rawEntry.lookup "output").filter JsonValue.truthy).map env.str }
        | _ => .error .typeError
      else .ok none
  | _, _ => .ok none

structure LoadState where
  entries : List CompileCommandEntry := []
  seenFingerprints : List String := []
  duplicateCount : Nat := 0
  diagnostics : List String := []

def LoadState.diagnose (state : LoadState) (diagnostic : String) : LoadState :=
  { state with diagnostics := state.diagnostics ++ [diagnostic] }

/-- An entry whose file is missing is kept. -/
def addParsed (state : LoadState) (parsed : CompileCommandEntry) : Except ParseFailure LoadState := do
  let absoluteFile ← parsed.absoluteFile env
  let state :=
    if env.pathExists (env.path absoluteFile) then state
    else state.diagnose ("Source file not found: " ++ env.path absoluteFile)
  let fingerprint ← parsed.fingerprint env
  if state.seenFingerprints.contains fingerprint then
    return { state with duplicateCount := state.duplicateCount + 1 }
  else
    return { state with
      seenFingerprints := fingerprint :: state.seenFingerprints
      entries := state.entries ++ [parsed] }

/-- This is one step of the loop over the payload. -/
def addEntry (state : LoadState) (index : Nat) (rawEntry : JsonValue) : Except ParseFailure LoadState :=
  match rawEntry with
  | .object fields => do
      match ← parseEntry env fields with
      | none => return state.diagnose ("Entry " ++ Nat.repr index ++ " is missing required fields")
      | some parsed => addParsed env state parsed
  | _ => .ok (state.diagnose ("Entry " ++ Nat.repr index ++ " is not an object"))

def loadEntries (state : LoadState) : Nat → List JsonValue → Except ParseFailure LoadState
  | _, [] => .ok state
  | index, rawEntry :: rest => do loadEntries (← addEntry env state index rawEntry) (index + 1) rest

/-- The file is missing, its text is no JSON, or it is read. -/
inductive Database where
  | missing
  | invalid (error : String)
  | payload (value : JsonValue)

def loadCompileCommands (source : String) (database : Database) : Except ParseFailure CompileCommandsValidation :=
  match database with
  | .missing =>
      .ok { isValid := false, source, diagnostics := ["compile_commands.json not found: " ++ source] }
  | .invalid error => .ok { isValid := false, source, diagnostics := ["Invalid JSON: " ++ error] }
  | .payload (.array payload) => do
      let state ← loadEntries env {} 0 payload
      return {
        isValid := !state.entries.isEmpty
        source
        entries := state.entries
        diagnostics := state.diagnostics ++ if state.entries.isEmpty then ["No valid translation units found"] else []
        duplicateCount := state.duplicateCount }
  | .payload _ =>
      .ok { isValid := false, source, diagnostics := ["compile_commands.json must contain a JSON array"] }

end MisraPlatform.CompileDb

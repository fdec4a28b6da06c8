import MisraPlatform.Construction.CompileDbParser
import MisraPlatform.Library.KeepFirst

/-
This file states which entries of a compile database should be kept.
-/

namespace MisraPlatform.CompileDb

variable (env : Environment)

def parsedEntry : JsonValue → Option CompileCommandEntry
  | .object fields =>
      match parseEntry env fields with
      | .ok parsed => parsed
      | .error _ => none
  | _ => none

/-- The other entries of the array are malformed. -/
def wellFormed (payload : List JsonValue) : List CompileCommandEntry := payload.filterMap (parsedEntry env)

/-- Entries of one identity are duplicates. -/
def identity (entry : CompileCommandEntry) : Option String × String × List String :=
  ((entry.absoluteFile env).toOption, entry.directory, entry.arguments)

def isMalformedDiagnostic (diagnostic : String) : Bool := "Entry ".toList.isPrefixOf diagnostic.toList

/-- The first entry of each identity is kept, and every entry of the array is accounted for. -/
structure DropsOnlyDuplicates (payload : List JsonValue) (validation : CompileCommandsValidation) : Prop where
  kept : validation.entries = keepFirst (identity env) [] (wellFormed env payload)
  total : validation.entries.length + validation.duplicateCount +
    (validation.diagnostics.filter isMalformedDiagnostic).length = payload.length

/-- The parser and the path of the source file raise no exception. -/
def Readable : JsonValue → Prop
  | .object fields => ∃ parsed, parseEntry env fields = .ok parsed ∧
      ∀ entry, parsed = some entry → ∃ absoluteFile, entry.absoluteFile env = .ok absoluteFile
  | _ => True

/-- The directory, the file and the arguments are cut at each bar. -/
def fragments (entry : CompileCommandEntry) : List (List Char) :=
  match entry.absoluteFile env with
  | .ok absoluteFile =>
      (entry.directory :: absoluteFile :: entry.arguments).flatMap fun piece => piece.toList.splitOn '|'
  | .error _ => []

/-- Different entries stay different when they are cut at each bar. -/
def Distinguishable (entries : List CompileCommandEntry) : Prop :=
  ∀ first ∈ entries, ∀ second ∈ entries, fragments env first = fragments env second →
    identity env first = identity env second

end MisraPlatform.CompileDb

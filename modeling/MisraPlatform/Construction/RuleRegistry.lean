import Mathlib.Data.List.Sort
import MisraPlatform.Construction.RuleDispatcher
import MisraPlatform.Library.Rollback

/-
This file is the registry that imports the rules of a standard from its manifest.
-/

namespace MisraPlatform

/-- The importer, the class and the parser of the file raise their own exceptions. -/
inductive LoadError
  | ruleRegistryError (text : String)
  | raised (text : String)

structure ManifestEntry where
  ruleId : Option String := none
  modulePath : Option String := none
  className : Option String := none
  dependencies : List String := []

structure Manifest where
  standard : Option String := none
  version : String := "0.0.0"
  extendedStandard : Option String := none
  rules : List ManifestEntry := []

/-- The content of the file need not be a dictionary. -/
inductive ManifestFile
  | absent
  | unreadable (text : String)
  | other
  | dict (manifest : Manifest)

/-- An imported class makes a plugin with its metadata. -/
structure ImportedRule (Context : Type) where
  plugin : RulePlugin Context
  metadata : StoredMetadata

/-- This is the outcome of the import of a module and of the call of one of its classes. -/
abbrev Imports (Context : Type) := String → String → Except String (ImportedRule Context)

structure LoadedRegistry (Context : Type) extends RuleRegistry Context where
  manifestVersions : OrderedDict String String

/-- A rule is registered under the id of its metadata. -/
structure Registration (Context : Type) extends ImportedRule Context where
  ruleId : String
  keyed : plugin.metadata.ruleId = ruleId

abbrev Loading (Context : Type) := EStateM LoadError (LoadedRegistry Context)

namespace LoadedRegistry

variable {Context : Type}

def register (registry : LoadedRegistry Context) (registration : Registration Context) :
    LoadedRegistry Context where
  plugins := registry.plugins.insert registration.ruleId registration.plugin
  metadata := registry.metadata.insert registration.ruleId registration.metadata
  keyed := by
    intro entry listed
    have found := (OrderedDict.mem_entries_iff _ _ _).mp listed
    rw [OrderedDict.get?_insert] at found
    split at found
    · rename_i same
      rw [← Option.some.inj found, same]
      exact registration.keyed
    · exact registry.keyed entry ((OrderedDict.mem_entries_iff _ _ _).mpr found)
  sameKeys := OrderedDict.keys_insert_congr registry.sameKeys
  manifestVersions := registry.manifestVersions

/-- The class is imported under the id that the manifest gives it. -/
def importEntry (imports : Imports Context) (ruleId modulePath className : String) :
    Except LoadError (Registration Context) :=
  match imports modulePath className with
  | .error text => .error (.raised text)
  | .ok imported =>
      if keyed : imported.plugin.metadata.ruleId = ruleId then
        .ok { imported with ruleId := ruleId, keyed := keyed }
      else
        .error (.ruleRegistryError ("Metadata rule_id " ++ imported.plugin.metadata.ruleId ++
          " does not match manifest " ++ ruleId))

/-- An empty text counts as missing, and a duplicate within the manifest is found first. -/
def checkEntry (imports : Imports Context) (seenRuleIds : List String) (registry : LoadedRegistry Context)
    (entry : ManifestEntry) : Except LoadError (Registration Context) :=
  let ruleId := entry.ruleId.getD ""
  let modulePath := entry.modulePath.getD ""
  let className := entry.className.getD ""
  if ruleId = "" ∨ modulePath = "" ∨ className = "" then
    .error (.ruleRegistryError "Manifest entry missing rule_id, module, or class_name")
  else if ruleId ∈ seenRuleIds then
    .error (.ruleRegistryError ("Duplicate rule in manifest: " ++ ruleId))
  else if ruleId ∈ registry.plugins.keys then
    .error (.ruleRegistryError ("Duplicate rule registration: " ++ ruleId))
  else
    match entry.dependencies.find? (· ∉ registry.plugins.keys) with
    | some dependency =>
        .error (.ruleRegistryError ("Unresolved rule dependency " ++ dependency ++ " for " ++ ruleId))
    | none => importEntry imports ruleId modulePath className

/-- The id is added to those seen so far. -/
def registerManifestEntry (imports : Imports Context) (seenRuleIds : List String) (entry : ManifestEntry) :
    Loading Context (List String) := do
  match checkEntry imports seenRuleIds (← get) entry with
  | .error error => throw error
  | .ok registration => do
      modify fun registry => registry.register registration
      pure (seenRuleIds ++ [registration.ruleId])

/-- The entries are registered one after the other, and the ids seen so far are returned. -/
def registerEntries (imports : Imports Context) : List String → List ManifestEntry → Loading Context (List String)
  | seenRuleIds, [] => pure seenRuleIds
  | seenRuleIds, entry :: rest => do
      let seen ← registerManifestEntry imports seenRuleIds entry
      registerEntries imports seen rest

def versionMismatch (standard newVersion existing : String) : Option LoadError :=
  if newVersion ≠ existing then
    some (.ruleRegistryError ("Version mismatch for " ++ standard ++ ": existing " ++ existing ++
      ", attempted " ++ newVersion))
  else none

/-- These checks come before the first entry. -/
def headerError (manifestVersions : OrderedDict String String) (manifestPath : String) (manifest : Manifest) :
    Option LoadError :=
  let standard := manifest.standard.getD ""
  let extended := manifest.extendedStandard.getD ""
  if standard = "" then some (.ruleRegistryError ("Manifest missing standard: " ++ manifestPath))
  else if extended ≠ "" ∧ extended ∉ manifestVersions.keys then
    some (.ruleRegistryError ("Dependency standard not loaded: " ++ extended))
  else (manifestVersions.get? standard).bind (versionMismatch standard manifest.version)

def recordVersion (registry : LoadedRegistry Context) (manifest : Manifest) : LoadedRegistry Context :=
  { registry with
    manifestVersions := registry.manifestVersions.insert (manifest.standard.getD "") manifest.version }

def loadStandard (imports : Imports Context) (manifestPath : String) (file : ManifestFile) :
    Loading Context Unit :=
  match file with
  | .absent => throw (.ruleRegistryError ("Manifest not found: " ++ manifestPath))
  | .unreadable text => throw (.raised text)
  | .other => throw (.ruleRegistryError ("Invalid manifest format: " ++ manifestPath))
  | .dict manifest => do
      let registry ← get
      match headerError registry.manifestVersions manifestPath manifest with
      | some error => throw error
      | none => do
          let _ ← registerEntries imports [] manifest.rules
          modify fun loaded => loaded.recordVersion manifest

theorem keys_empty (Context : Type) : (OrderedDict.empty : OrderedDict String StoredMetadata).keys =
    (OrderedDict.empty : OrderedDict String (RulePlugin Context)).keys := rfl

def initial : LoadedRegistry Context where
  plugins := .empty
  metadata := .empty
  keyed := by
    intro entry listed
    cases listed
  sameKeys := keys_empty Context
  manifestVersions := .empty

/-- The first manifest that raises ends the loop. -/
def loadManifests (imports : Imports Context) : List (String × ManifestFile) → Loading Context Unit
  | [] => pure ()
  | (manifestPath, file) :: rest => do
      loadStandard imports manifestPath file
      loadManifests imports rest

/-- The directories below the root are listed with their manifests. The paths differ in the directory only. -/
def sortedManifests (standardsRoot : String) (found : List (String × ManifestFile)) : List (String × ManifestFile) :=
  (found.insertionSort fun first second => first.1 ≤ second.1).map fun entry =>
    (standardsRoot ++ "/" ++ entry.1 ++ "/manifest.yaml", entry.2)

/-- A root that does not exist has no listing. -/
def discover (imports : Imports Context) (standardsRoot : String) (listing : Option (List (String × ManifestFile))) :
    Loading Context Unit :=
  match listing with
  | none => throw (.ruleRegistryError ("Standards root not found: " ++ standardsRoot))
  | some [] => throw (.ruleRegistryError ("No manifests found under " ++ standardsRoot))
  | some found => loadManifests imports (sortedManifests standardsRoot found)

end LoadedRegistry

namespace RuleRegistry

variable {Context : Type}

def listRuleIds (registry : RuleRegistry Context) : List String := registry.plugins.keys.insertionSort (· ≤ ·)

end RuleRegistry

end MisraPlatform

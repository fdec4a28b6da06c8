import MisraPlatform.Construction.RuleRegistry
import MisraPlatform.Proof.ExecutionGroups

/-
This file is what a load of a standard adds to the registry, what it leaves behind when it raises, and what
explains a registry after many loads.
-/

namespace MisraPlatform

def ManifestFile.entries : ManifestFile → List ManifestEntry
  | .dict manifest => manifest.rules
  | _ => []

/-- The registration is what the class of the entry makes under its id. -/
structure ManifestEntry.Imported {Context : Type} (imports : Imports Context) (entry : ManifestEntry)
    (registration : Registration Context) : Prop where
  named : entry.ruleId = some registration.ruleId
  located : ∃ modulePath className, entry.modulePath = some modulePath ∧ entry.className = some className ∧
    imports modulePath className = .ok registration.toImportedRule

def ManifestEntry.id (entry : ManifestEntry) : String := entry.ruleId.getD ""

namespace LoadedRegistry

variable {Context : Type} (imports : Imports Context) (manifestPath : String) (file : ManifestFile)

/-- The rules of the entries stand behind those before, in the order of the entries. -/
def Adds (before : LoadedRegistry Context) (entries : List ManifestEntry) (after : LoadedRegistry Context) : Prop :=
  ∃ registrations : List (Registration Context), List.Forall₂ (ManifestEntry.Imported imports) entries registrations ∧
    after.plugins.entries = before.plugins.entries ++
      registrations.map (fun registration => (registration.ruleId, registration.plugin)) ∧
    after.metadata.entries = before.metadata.entries ++
      registrations.map fun registration => (registration.ruleId, registration.metadata)

/-- The checks of the manifest raise before the first entry, or an entry raises behind these ones. -/
def RaisesBehind (before : LoadedRegistry Context) (error : LoadError) (after : LoadedRegistry Context)
    (done : List ManifestEntry) : Prop :=
  done = [] ∧ loadStandard imports manifestPath file before = .error error before ∨
    ∃ entry rest, file.entries = done ++ entry :: rest ∧
      registerManifestEntry imports (done.map ManifestEntry.id) entry after = .error error after

/-- The rules of these entries stay in the registry, and nothing else has changed. -/
structure LeavesBehind (before : LoadedRegistry Context) (error : LoadError) (after : LoadedRegistry Context)
    (done : List ManifestEntry) : Prop where
  stopped : RaisesBehind imports manifestPath file before error after done
  added : Adds imports before done after
  versions : after.manifestVersions = before.manifestVersions
  unchanged : after = before ↔ done = []
  /-- Another manifest with one of these rules cannot be loaded. -/
  repeated : ∀ otherPath otherFile, (∃ entry ∈ otherFile.entries, ∃ left ∈ done, entry.ruleId = left.ruleId) →
    ∃ otherError final, loadStandard imports otherPath otherFile after = .error otherError final
  /-- The entries behind them can be loaded if the whole manifest could, and with the same result. -/
  resumed : ∀ manifest more final, file = .dict manifest →
    (loadStandard imports manifestPath (.dict { manifest with rules := more }) after = .ok () final ↔
      loadStandard imports manifestPath (.dict { manifest with rules := done ++ more }) before = .ok () final)

/-- A load that returns adds the rules of all entries and the version of the standard. -/
structure AddsStandard (before after : LoadedRegistry Context) : Prop where
  added : Adds imports before file.entries after
  recorded : ∃ manifest standard, file = .dict manifest ∧ manifest.standard = some standard ∧
    after.manifestVersions = before.manifestVersions.insert standard manifest.version

/-- A load adds the entries in their order up to the first one that raises. -/
structure LoadsInOrder (before : LoadedRegistry Context) : Prop where
  returned : ∀ after, loadStandard imports manifestPath file before = .ok () after →
    AddsStandard imports file before after
  raised : ∀ error after, loadStandard imports manifestPath file before = .error error after →
    ∃ done, LeavesBehind imports manifestPath file before error after done

/-- A load that raises has no effect. -/
def AllOrNothing (before : LoadedRegistry Context) : Prop :=
  ∀ error after, loadStandard imports manifestPath file before = .error error after → after = before

/-! ### Runs of many loads -/

/-- A caller may go on after a load that raises. -/
def afterLoad (before : LoadedRegistry Context) (load : String × ManifestFile) : LoadedRegistry Context :=
  match loadStandard imports load.1 load.2 before with
  | .ok _ after => after
  | .error _ after => after

def afterLoads (before : LoadedRegistry Context) (loads : List (String × ManifestFile)) : LoadedRegistry Context :=
  loads.foldl (afterLoad imports) before

/-- The manifest counts if its load returns. -/
def loadedManifest (before : LoadedRegistry Context) (load : String × ManifestFile) : List Manifest :=
  match loadStandard imports load.1 load.2 before, load.2 with
  | .ok _ _, .dict manifest => [manifest]
  | _, _ => []

def loadedManifests : LoadedRegistry Context → List (String × ManifestFile) → List Manifest
  | _, [] => []
  | before, load :: rest => loadedManifest imports before load ++ loadedManifests (afterLoad imports before load) rest

/-- The rules come from these entries and the versions from these manifests. -/
structure Explains (entries : List ManifestEntry) (manifests : List Manifest)
    (registry : LoadedRegistry Context) : Prop where
  registered : Adds imports initial entries registry
  /-- The dependencies of an entry are registered in front of it. -/
  supported : SupportedBy ManifestEntry.id ManifestEntry.dependencies entries
  /-- The standard that a manifest extends was loaded before it. -/
  extended : SupportedBy (fun manifest => manifest.standard.getD "")
    (fun manifest => manifest.extendedStandard.toList.filter (· ≠ "")) manifests
  whole : ∀ manifest ∈ manifests, manifest.rules <:+: entries
  versions : ∀ standard version, registry.manifestVersions.get? standard = some version ↔
    ∃ manifest ∈ manifests, manifest.standard = some standard ∧ manifest.version = version

/-- The registry after the loads is made of entries of their manifests in the order of the loads. -/
def Explained (loads : List (String × ManifestFile)) : Prop :=
  ∃ entries, entries.Sublist (loads.flatMap fun load => load.2.entries) ∧
    Explains imports entries (loadedManifests imports initial loads) (afterLoads imports initial loads)

/-- The manifests are loaded in the order of their paths, up to the first one that raises. -/
structure DiscoversInOrder (standardsRoot : String) (found : List (String × ManifestFile)) : Prop where
  returned : ∀ after, discover imports standardsRoot (some found) initial = .ok () after →
    ∃ manifests, (sortedManifests standardsRoot found).map Prod.snd = manifests.map ManifestFile.dict ∧
      Explains imports (manifests.flatMap Manifest.rules) manifests after
  raised : ∀ error after, discover imports standardsRoot (some found) initial = .error error after →
    found = [] ∧ after = initial ∨
      ∃ front load back manifests middle, sortedManifests standardsRoot found = front ++ load :: back ∧
        front.map Prod.snd = manifests.map ManifestFile.dict ∧
        Explains imports (manifests.flatMap Manifest.rules) manifests middle ∧
        loadStandard imports load.1 load.2 middle = .error error after

/-- The class of a rule names another rule of the list as a dependency, and its entry does not. -/
def Undeclared (entries : List ManifestEntry) (rules : List (RulePlugin Context)) : Prop :=
  ∃ rule dependency, ExecutionPlanner.DependsOn RulePlugin.metadata rules rule dependency ∧
    ∃ entry ∈ entries, entry.id = rule.metadata.ruleId ∧ dependency.metadata.ruleId ∉ entry.dependencies

/-- The groups of the rules respect their dependencies, and every rule is run once. -/
def Executes (rules : List (RulePlugin Context)) : Prop :=
  (∃ tier groups, ExecutionPlanner.resolveExecutionGroups RulePlugin.metadata rules = .ok groups ∧
    ExecutionPlanner.RespectsTiers RulePlugin.metadata rules tier groups) ∧
  ∀ (engine : RuleExecutionEngine) sha256 completion context,
    ∃ report, engine.execute sha256 completion context rules true = .ok report ∧
      (report.metrics.map RuleExecutionMetrics.ruleId).Perm (rules.map fun rule => rule.metadata.ruleId)

end LoadedRegistry

end MisraPlatform

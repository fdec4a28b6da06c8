import Mathlib.Data.String.Basic
import MisraPlatform.Proof.RuleEngine
import MisraPlatform.Semantics.RuleRegistry

/-
This file shows that a load registers the entries of a manifest up to the first one that raises, and that the
rules of any sequence of loads stand behind what their manifests name as dependencies.
-/

namespace MisraPlatform

theorem ManifestEntry.Imported.id_eq {Context : Type} {imports : Imports Context} {entry : ManifestEntry}
    {registration : Registration Context} (imported : entry.Imported imports registration) :
    entry.id = registration.ruleId := by
  rw [ManifestEntry.id, imported.named, Option.getD_some]

namespace LoadedRegistry
open Rollback

variable {Context : Type} {imports : Imports Context} {seen others : List String} {entry : ManifestEntry}
  {before after middle : LoadedRegistry Context} {entries : List ManifestEntry}

/-! ### One entry -/

/-- An entry passes all checks with this registration. -/
structure Accepts (imports : Imports Context) (seen : List String) (before : LoadedRegistry Context)
    (entry : ManifestEntry) (registration : Registration Context) : Prop where
  imported : entry.Imported imports registration
  named : registration.ruleId ≠ ""
  located : entry.modulePath.getD "" ≠ "" ∧ entry.className.getD "" ≠ ""
  unseen : registration.ruleId ∉ seen
  absent : registration.ruleId ∉ before.plugins.keys
  resolved : ∀ dependency ∈ entry.dependencies, dependency ∈ before.plugins.keys

theorem importEntry_eq_ok {ruleId modulePath className : String} {registration : Registration Context} :
    importEntry imports ruleId modulePath className = .ok registration ↔
      registration.ruleId = ruleId ∧ imports modulePath className = .ok registration.toImportedRule := by
  unfold importEntry
  cases imports modulePath className with
  | error text => simp
  | ok imported =>
      by_cases keyed : imported.plugin.metadata.ruleId = ruleId
      · simp only [keyed, dite_true, Except.ok.injEq]
        constructor
        · rintro rfl
          exact ⟨rfl, rfl⟩
        · rintro ⟨rfl, rfl⟩
          rfl
      · simp only [keyed, dite_false, reduceCtorEq, Except.ok.injEq, false_iff]
        rintro ⟨rfl, rfl⟩
        exact keyed registration.keyed

theorem eq_some_of_getD {text : Option String} (present : text.getD "" ≠ "") : text = some (text.getD "") := by
  cases text with
  | none => exact absurd rfl present
  | some value => rfl

theorem checkEntry_eq_ok {registration : Registration Context} :
    checkEntry imports seen before entry = .ok registration ↔ Accepts imports seen before entry registration := by
  unfold checkEntry
  dsimp only
  constructor
  · intro checked
    split at checked
    · cases checked
    · rename_i present
      push Not at present
      split at checked
      · cases checked
      · rename_i unseen
        split at checked
        · cases checked
        · rename_i absent
          split at checked
          · cases checked
          · rename_i resolved
            obtain ⟨named, made⟩ := importEntry_eq_ok.mp checked
            rw [← named] at unseen absent
            refine ⟨⟨?_, _, _, eq_some_of_getD present.2.1, eq_some_of_getD present.2.2, made⟩, ?_, present.2, unseen,
              absent, ?_⟩
            · rw [named]
              exact eq_some_of_getD present.1
            · rw [named]
              exact present.1
            · simpa using List.find?_eq_none.mp resolved
  · intro accepts
    obtain ⟨modulePath, className, path, found, made⟩ := accepts.imported.located
    have named : entry.ruleId.getD "" = registration.ruleId := by rw [accepts.imported.named, Option.getD_some]
    have resolved : entry.dependencies.find? (fun dependency => dependency ∉ before.plugins.keys) = none := by
      rw [List.find?_eq_none]
      simpa using accepts.resolved
    rw [named, if_neg, if_neg accepts.unseen, if_neg accepts.absent, resolved]
    · apply importEntry_eq_ok.mpr
      rw [path, found]
      exact ⟨rfl, made⟩
    · rintro (empty | empty | empty)
      · exact accepts.named empty
      · exact accepts.located.1 empty
      · exact accepts.located.2 empty

theorem registerManifestEntry_of_error {error : LoadError}
    (checked : checkEntry imports seen before entry = .error error) :
    registerManifestEntry imports seen entry before = .error error before := by
  unfold registerManifestEntry
  simp only [bind, EStateM.bind, get_apply, checked, throw_apply]

theorem registerManifestEntry_of_ok {registration : Registration Context}
    (accepts : Accepts imports seen before entry registration) :
    registerManifestEntry imports seen entry before =
      .ok (seen ++ [registration.ruleId]) (before.register registration) := by
  unfold registerManifestEntry
  simp only [bind, EStateM.bind, get_apply, checkEntry_eq_ok.mpr accepts]
  rfl

/-- An entry that raises changes nothing, and another one registers one rule. -/
theorem registerManifestEntry_cases (imports : Imports Context) (seen : List String) (entry : ManifestEntry)
    (before : LoadedRegistry Context) :
    (∃ error, registerManifestEntry imports seen entry before = .error error before) ∨
      ∃ registration, Accepts imports seen before entry registration := by
  cases checked : checkEntry imports seen before entry with
  | error error => exact .inl ⟨error, registerManifestEntry_of_error checked⟩
  | ok registration => exact .inr ⟨registration, checkEntry_eq_ok.mp checked⟩

/-! ### The entries of a manifest -/

theorem registerEntries_cons_of_error {error : LoadError}
    (refused : registerManifestEntry imports seen entry before = .error error before) :
    registerEntries imports seen (entry :: entries) before = .error error before := by
  rw [registerEntries]
  simp only [bind, EStateM.bind, refused]

theorem registerEntries_cons_of_ok {registration : Registration Context}
    (accepts : Accepts imports seen before entry registration) :
    registerEntries imports seen (entry :: entries) before =
      registerEntries imports (seen ++ [registration.ruleId]) entries (before.register registration) := by
  rw [registerEntries]
  simp only [bind, EStateM.bind, registerManifestEntry_of_ok accepts]

/-- Every entry of a run that returns is accepted. -/
theorem registerEntries_cons_eq_ok {later : List String}
    (done : registerEntries imports seen (entry :: entries) before = .ok later after) :
    ∃ registration, Accepts imports seen before entry registration ∧
      registerEntries imports (seen ++ [registration.ruleId]) entries (before.register registration) =
        .ok later after := by
  cases registerManifestEntry_cases imports seen entry before with
  | inl refused =>
      rw [registerEntries_cons_of_error refused.choose_spec] at done
      cases done
  | inr accepted =>
      obtain ⟨registration, accepts⟩ := accepted
      rw [registerEntries_cons_of_ok accepts] at done
      exact ⟨registration, accepts, done⟩

theorem Adds.nil : Adds imports before [] before :=
  ⟨[], .nil, by simp, by simp⟩

/-- The rule of an accepted entry stands before those of the entries behind it. -/
theorem Adds.cons {registration : Registration Context} (accepts : Accepts imports seen before entry registration)
    (adds : Adds imports (before.register registration) entries after) :
    Adds imports before (entry :: entries) after := by
  obtain ⟨registrations, imported, plugins, metadata⟩ := adds
  have absent : registration.ruleId ∉ before.metadata.keys := before.sameKeys ▸ accepts.absent
  refine ⟨registration :: registrations, .cons accepts.imported imported, ?_, ?_⟩
  · rw [plugins, register, OrderedDict.entries_insert_of_absent _ _ _ accepts.absent]
    simp
  · rw [metadata, register, OrderedDict.entries_insert_of_absent _ _ _ absent]
    simp

/-- A run through entries that all pass adds them. -/
theorem adds_of_registerEntries {later : List String}
    (done : registerEntries imports seen entries before = .ok later after) :
    Adds imports before entries after ∧ later = seen ++ entries.map ManifestEntry.id ∧
      after.manifestVersions = before.manifestVersions := by
  induction entries generalizing seen before with
  | nil =>
      cases done
      exact ⟨.nil, by simp, rfl⟩
  | cons entry rest ih =>
      obtain ⟨registration, accepts, run⟩ := registerEntries_cons_eq_ok done
      obtain ⟨adds, ids, versions⟩ := ih run
      refine ⟨.cons accepts adds, ?_, versions⟩
      rw [ids, List.map_cons, accepts.imported.id_eq, List.append_assoc, List.singleton_append]

/-- A run that raises has passed the entries in front of the one that raises. -/
theorem stop_of_registerEntries {error : LoadError}
    (raised : registerEntries imports seen entries before = .error error after) :
    ∃ done entry rest, entries = done ++ entry :: rest ∧
      registerEntries imports seen done before = .ok (seen ++ done.map ManifestEntry.id) after ∧
      registerManifestEntry imports (seen ++ done.map ManifestEntry.id) entry after = .error error after := by
  induction entries generalizing seen before with
  | nil => cases raised
  | cons entry rest ih =>
      cases registerManifestEntry_cases imports seen entry before with
      | inl refused =>
          obtain ⟨other, refused⟩ := refused
          rw [registerEntries_cons_of_error refused] at raised
          cases raised
          exact ⟨[], entry, rest, rfl, by simp [registerEntries, pure, EStateM.pure], by simpa using refused⟩
      | inr accepted =>
          obtain ⟨registration, accepts⟩ := accepted
          rw [registerEntries_cons_of_ok accepts] at raised
          obtain ⟨done, stopped, behind, rfl, run, refused⟩ := ih raised
          have ids : seen ++ (entry :: done).map ManifestEntry.id =
              seen ++ [registration.ruleId] ++ done.map ManifestEntry.id := by
            rw [List.map_cons, accepts.imported.id_eq, List.append_assoc, List.singleton_append]
          refine ⟨entry :: done, stopped, behind, rfl, ?_, ?_⟩
          · rw [ids, registerEntries_cons_of_ok accepts]
            exact run
          · rw [ids]
            exact refused

theorem registerEntries_append {first second : List ManifestEntry} {later : List String}
    (done : registerEntries imports seen first before = .ok later middle) :
    registerEntries imports seen (first ++ second) before = registerEntries imports later second middle := by
  induction first generalizing seen before with
  | nil =>
      cases done
      rfl
  | cons entry rest ih =>
      obtain ⟨registration, accepts, run⟩ := registerEntries_cons_eq_ok done
      rw [List.cons_append, registerEntries_cons_of_ok accepts]
      exact ih run

theorem Accepts.congr {registration : Registration Context} (same : ∀ ruleId ∉ before.plugins.keys,
    ruleId ∈ seen ↔ ruleId ∈ others) (accepts : Accepts imports seen before entry registration) :
    Accepts imports others before entry registration :=
  { accepts with unseen := fun listed => accepts.unseen ((same _ accepts.absent).mpr listed) }

/-- The ids seen so far matter only if they are not registered. -/
theorem registerEntries_congr (same : ∀ ruleId ∉ before.plugins.keys, ruleId ∈ seen ↔ ruleId ∈ others)
    {later : List String} (done : registerEntries imports seen entries before = .ok later after) :
    ∃ later, registerEntries imports others entries before = .ok later after := by
  induction entries generalizing seen others before with
  | nil =>
      cases done
      exact ⟨others, rfl⟩
  | cons entry rest ih =>
      obtain ⟨registration, accepts, run⟩ := registerEntries_cons_eq_ok done
      have next : ∀ ruleId ∉ (before.register registration).plugins.keys,
          ruleId ∈ seen ++ [registration.ruleId] ↔ ruleId ∈ others ++ [registration.ruleId] := by
        intro ruleId absent
        rw [register, OrderedDict.mem_keys_insert, not_or] at absent
        rw [List.mem_append, List.mem_append, same ruleId absent.2]
      rw [registerEntries_cons_of_ok (accepts.congr same)]
      exact ih next run

/-! ### A whole load -/

variable {manifestPath : String} {file : ManifestFile}

theorem loadStandard_of_header {manifest : Manifest} {error : LoadError}
    (header : headerError before.manifestVersions manifestPath manifest = some error) :
    loadStandard imports manifestPath (.dict manifest) before = .error error before := by
  rw [loadStandard]
  simp only [bind, EStateM.bind, get_apply, header, throw_apply]

theorem loadStandard_of_error {manifest : Manifest} {error : LoadError}
    (header : headerError before.manifestVersions manifestPath manifest = none)
    (run : registerEntries imports [] manifest.rules before = .error error after) :
    loadStandard imports manifestPath (.dict manifest) before = .error error after := by
  rw [loadStandard]
  simp only [bind, EStateM.bind, get_apply, header, run]

theorem loadStandard_of_ok {manifest : Manifest} {later : List String}
    (header : headerError before.manifestVersions manifestPath manifest = none)
    (run : registerEntries imports [] manifest.rules before = .ok later after) :
    loadStandard imports manifestPath (.dict manifest) before = .ok () (after.recordVersion manifest) := by
  rw [loadStandard]
  simp only [bind, EStateM.bind, get_apply, header, run]
  rfl

theorem loadStandard_eq_ok {manifest : Manifest} :
    loadStandard imports manifestPath (.dict manifest) before = .ok () after ↔
      headerError before.manifestVersions manifestPath manifest = none ∧ ∃ later loaded,
        registerEntries imports [] manifest.rules before = .ok later loaded ∧
          after = loaded.recordVersion manifest := by
  constructor
  · intro returned
    cases header : headerError before.manifestVersions manifestPath manifest with
    | some error =>
        rw [loadStandard_of_header header] at returned
        cases returned
    | none =>
        cases run : registerEntries imports [] manifest.rules before with
        | error error loaded =>
            rw [loadStandard_of_error header run] at returned
            cases returned
        | ok later loaded =>
            rw [loadStandard_of_ok header run] at returned
            cases returned
            exact ⟨rfl, later, loaded, rfl, rfl⟩
  · rintro ⟨header, later, loaded, run, rfl⟩
    exact loadStandard_of_ok header run

/-- A load raises before the first entry, or an entry raises. -/
theorem loadStandard_eq_error {error : LoadError}
    (raised : loadStandard imports manifestPath file before = .error error after) : after = before ∨
      ∃ manifest, file = .dict manifest ∧ registerEntries imports [] manifest.rules before = .error error after := by
  cases file with
  | absent | unreadable _ | other =>
      cases raised
      exact .inl rfl
  | dict manifest =>
      cases header : headerError before.manifestVersions manifestPath manifest with
      | some other =>
          rw [loadStandard_of_header header] at raised
          cases raised
          exact .inl rfl
      | none =>
          cases run : registerEntries imports [] manifest.rules before with
          | error other loaded =>
              rw [loadStandard_of_error header run] at raised
              cases raised
              exact .inr ⟨manifest, rfl, run⟩
          | ok later loaded =>
              rw [loadStandard_of_ok header run] at raised
              cases raised

theorem headerError_eq_none {versions : OrderedDict String String} {manifest : Manifest}
    (header : headerError versions manifestPath manifest = none) :
    manifest.standard = some (manifest.standard.getD "") := by
  apply eq_some_of_getD
  intro empty
  rw [headerError, if_pos empty] at header
  cases header

theorem addsStandard_of_returned (returned : loadStandard imports manifestPath file before = .ok () after) :
    AddsStandard imports file before after := by
  cases file with
  | absent | unreadable _ | other => cases returned
  | dict manifest =>
      obtain ⟨header, later, loaded, run, rfl⟩ := loadStandard_eq_ok.mp returned
      obtain ⟨adds, _, versions⟩ := adds_of_registerEntries run
      refine ⟨adds, manifest, _, rfl, headerError_eq_none header, ?_⟩
      rw [recordVersion, versions]

theorem ids_eq {registrations : List (Registration Context)}
    (imported : List.Forall₂ (ManifestEntry.Imported imports) entries registrations) :
    entries.map ManifestEntry.id = registrations.map Registration.ruleId := by
  induction imported with
  | nil => rfl
  | cons made _ ih => rw [List.map_cons, List.map_cons, made.id_eq, ih]

theorem Adds.keys (adds : Adds imports before entries after) :
    after.plugins.keys = before.plugins.keys ++ entries.map ManifestEntry.id := by
  obtain ⟨registrations, imported, plugins, _⟩ := adds
  rw [ids_eq imported, OrderedDict.keys, plugins, List.map_append, List.map_map]
  rfl

/-- The ids of the added rules are new. -/
theorem Adds.fresh (adds : Adds imports before entries after) (listed : entry ∈ entries) :
    entry.id ∈ after.plugins.keys ∧ entry.id ∉ before.plugins.keys := by
  have distinct := after.plugins.keys_nodup
  have id : entry.id ∈ entries.map ManifestEntry.id := List.mem_map_of_mem listed
  rw [adds.keys] at distinct ⊢
  refine ⟨List.mem_append_right _ id, fun earlier => ?_⟩
  exact (List.nodup_append.mp distinct).2.2 _ earlier _ id rfl

theorem Adds.eq_iff (adds : Adds imports before entries after)
    (versions : after.manifestVersions = before.manifestVersions) : after = before ↔ entries = [] := by
  constructor
  · rintro rfl
    have keys := adds.keys
    simpa using keys
  · rintro rfl
    obtain ⟨registrations, imported, plugins, metadata⟩ := adds
    cases imported
    rw [List.map_nil, List.append_nil] at plugins metadata
    have samePlugins := OrderedDict.ext plugins
    have sameMetadata := OrderedDict.ext metadata
    obtain ⟨⟨_, _, _, _⟩, _⟩ := after
    obtain ⟨⟨_, _, _, _⟩, _⟩ := before
    subst samePlugins
    subst sameMetadata
    subst versions
    rfl

/-- A manifest that names a registered rule cannot be loaded. -/
theorem error_of_registered (listed : entry ∈ file.entries) (registered : entry.id ∈ before.plugins.keys) :
    ∃ error final, loadStandard imports manifestPath file before = .error error final := by
  cases outcome : loadStandard imports manifestPath file before with
  | ok value final => exact absurd registered ((addsStandard_of_returned outcome).added.fresh listed).2
  | error error final => exact ⟨error, final, rfl⟩

/-- The entries behind those that stay can be loaded as if the load had not stopped. -/
theorem loadStandard_resumed {done more : List ManifestEntry} {manifest : Manifest} {final : LoadedRegistry Context}
    (run : registerEntries imports [] done before = .ok (done.map ManifestEntry.id) after) :
    loadStandard imports manifestPath (.dict { manifest with rules := more }) after = .ok () final ↔
      loadStandard imports manifestPath (.dict { manifest with rules := done ++ more }) before = .ok () final := by
  obtain ⟨adds, _, versions⟩ := adds_of_registerEntries run
  have seen : ∀ ruleId ∉ after.plugins.keys, ruleId ∈ [] ↔ ruleId ∈ done.map ManifestEntry.id := by
    intro ruleId absent
    rw [adds.keys, List.mem_append, not_or] at absent
    simp only [List.not_mem_nil, absent.2]
  rw [loadStandard_eq_ok, loadStandard_eq_ok, registerEntries_append run, versions]
  apply and_congr Iff.rfl
  constructor
  · rintro ⟨later, loaded, registered, rfl⟩
    obtain ⟨ended, same⟩ := registerEntries_congr seen registered
    exact ⟨ended, loaded, same, rfl⟩
  · rintro ⟨later, loaded, registered, rfl⟩
    obtain ⟨ended, same⟩ := registerEntries_congr (fun ruleId absent => (seen ruleId absent).symm) registered
    exact ⟨ended, loaded, same, rfl⟩

theorem leavesBehind_of_raised {error : LoadError}
    (raised : loadStandard imports manifestPath file before = .error error after) :
    ∃ done, LeavesBehind imports manifestPath file before error after done := by
  cases loadStandard_eq_error raised with
  | inl same =>
      subst same
      refine ⟨[], .inl ⟨rfl, raised⟩, .nil, rfl, by simp, ?_, ?_⟩
      · rintro otherPath otherFile ⟨_, _, left, listed, _⟩
        cases listed
      · intro manifest more final _
        rfl
  | inr stopped =>
      obtain ⟨manifest, rfl, refused⟩ := stopped
      obtain ⟨done, entry, rest, split, run, stopped⟩ := stop_of_registerEntries refused
      rw [List.nil_append] at run stopped
      obtain ⟨adds, _, versions⟩ := adds_of_registerEntries run
      refine ⟨done, .inr ⟨entry, rest, split, stopped⟩, adds, versions, adds.eq_iff versions, ?_, ?_⟩
      · rintro otherPath otherFile ⟨other, listed, left, kept, same⟩
        apply error_of_registered listed
        rw [ManifestEntry.id, same]
        exact (adds.fresh kept).1
      · intro sameManifest more final same
        cases same
        exact loadStandard_resumed run

/-- A load stops at the first entry that raises, and what was registered before stays. -/
theorem loadStandard_inOrder (imports : Imports Context) (manifestPath : String) (file : ManifestFile)
    (before : LoadedRegistry Context) : LoadsInOrder imports manifestPath file before where
  returned _ := addsStandard_of_returned
  raised _ _ := leavesBehind_of_raised

/-! ### Many loads -/

theorem Adds.trans {first second : List ManifestEntry} (adds : Adds imports before first middle)
    (more : Adds imports middle second after) : Adds imports before (first ++ second) after := by
  obtain ⟨registrations, imported, plugins, metadata⟩ := adds
  obtain ⟨others, otherImported, otherPlugins, otherMetadata⟩ := more
  refine ⟨registrations ++ others, List.rel_append imported otherImported, ?_, ?_⟩
  · rw [otherPlugins, plugins, List.map_append, List.append_assoc]
  · rw [otherMetadata, metadata, List.map_append, List.append_assoc]

theorem Adds.initial_keys (adds : Adds imports initial entries after) :
    after.plugins.keys = entries.map ManifestEntry.id :=
  adds.keys

/-- An entry is accepted only if its dependencies are among the rules before it. -/
theorem supported_of_registerEntries {listed : List ManifestEntry} {later : List String}
    (adds : Adds imports initial listed before)
    (supported : SupportedBy ManifestEntry.id ManifestEntry.dependencies listed)
    (run : registerEntries imports seen entries before = .ok later after) :
    SupportedBy ManifestEntry.id ManifestEntry.dependencies (listed ++ entries) := by
  induction entries generalizing seen before listed with
  | nil =>
      rw [List.append_nil]
      exact supported
  | cons entry rest ih =>
      obtain ⟨registration, accepts, more⟩ := registerEntries_cons_eq_ok run
      have added : Adds imports before [entry] (before.register registration) := .cons accepts .nil
      have resolved := accepts.resolved
      rw [adds.initial_keys] at resolved
      have continued := ih (adds.trans added) (supported.concat resolved) more
      rw [List.append_assoc, List.singleton_append] at continued
      exact continued

theorem headerError_extended {versions : OrderedDict String String} {manifest : Manifest}
    (header : headerError versions manifestPath manifest = none) {extended : String}
    (listed : extended ∈ manifest.extendedStandard.toList.filter (· ≠ "")) : extended ∈ versions.keys := by
  obtain ⟨named, present⟩ := List.mem_filter.mp listed
  have same : manifest.extendedStandard = some extended := by simpa using named
  by_contra absent
  unfold headerError at header
  dsimp only at header
  split at header
  · cases header
  · rw [same, Option.getD_some, if_pos ⟨by simpa using present, absent⟩] at header
    cases header

/-- A standard is loaded again with the same version only. -/
theorem headerError_version {versions : OrderedDict String String} {manifest : Manifest} {existing : String}
    (header : headerError versions manifestPath manifest = none)
    (found : versions.get? (manifest.standard.getD "") = some existing) : existing = manifest.version := by
  unfold headerError at header
  dsimp only at header
  split at header
  · cases header
  · split at header
    · cases header
    · rw [found, Option.bind_some, versionMismatch] at header
      by_contra different
      rw [if_pos (Ne.symm different)] at header
      cases header

section Runs

variable {manifests : List Manifest}

theorem Explains.initial : Explains imports [] [] (initial : LoadedRegistry Context) where
  registered := .nil
  supported := .nil
  extended := .nil
  whole := by simp
  versions := by
    intro standard version
    simp [LoadedRegistry.initial]

/-- The entries in front of one that raises stay explained. -/
theorem Explains.raised (explains : Explains imports entries manifests before) {error : LoadError}
    (raised : loadStandard imports manifestPath file before = .error error after) :
    ∃ done, done.Sublist file.entries ∧ Explains imports (entries ++ done) manifests after := by
  cases loadStandard_eq_error raised with
  | inl same =>
      subst same
      refine ⟨[], List.nil_sublist _, ?_⟩
      rw [List.append_nil]
      exact explains
  | inr stopped =>
      obtain ⟨manifest, rfl, refused⟩ := stopped
      obtain ⟨done, entry, rest, split, run, _⟩ := stop_of_registerEntries refused
      obtain ⟨adds, _, versions⟩ := adds_of_registerEntries run
      refine ⟨done, ?_, explains.registered.trans adds,
        supported_of_registerEntries explains.registered explains.supported run, explains.extended, ?_, ?_⟩
      · rw [ManifestFile.entries, split]
        exact List.sublist_append_left _ _
      · intro other listed
        exact (explains.whole other listed).trans (List.infix_append' [] entries done)
      · rw [versions]
        exact explains.versions

theorem Explains.returned (explains : Explains imports entries manifests before) {manifest : Manifest}
    (returned : loadStandard imports manifestPath (.dict manifest) before = .ok () after) :
    Explains imports (entries ++ manifest.rules) (manifests ++ [manifest]) after := by
  obtain ⟨header, later, loaded, run, rfl⟩ := loadStandard_eq_ok.mp returned
  obtain ⟨adds, _, versions⟩ := adds_of_registerEntries run
  have named := headerError_eq_none header
  refine ⟨explains.registered.trans adds,
    supported_of_registerEntries explains.registered explains.supported run, ?_, ?_, ?_⟩
  · apply explains.extended.concat
    intro extended needed
    obtain ⟨version, found⟩ := (OrderedDict.mem_keys_iff _ _).mp (headerError_extended header needed)
    obtain ⟨earlier, listed, standard, _⟩ := (explains.versions extended version).mp found
    exact List.mem_map.mpr ⟨earlier, listed, by rw [standard, Option.getD_some]⟩
  · intro other listed
    cases List.mem_append.mp listed with
    | inl earlier => exact (explains.whole other earlier).trans (List.infix_append' [] entries manifest.rules)
    | inr last =>
        rw [List.mem_singleton.mp last]
        exact (List.suffix_append entries manifest.rules).isInfix
  · intro standard version
    rw [recordVersion, versions, OrderedDict.get?_insert]
    constructor
    · intro found
      split at found
      · rename_i same
        cases found
        exact ⟨manifest, by simp, by rw [named, same], rfl⟩
      · obtain ⟨earlier, listed, facts⟩ := (explains.versions standard version).mp found
        exact ⟨earlier, List.mem_append_left _ listed, facts⟩
    · rintro ⟨other, listed, standardOf, rfl⟩
      split
      · rename_i same
        cases List.mem_append.mp listed with
        | inl earlier =>
            have found := (explains.versions standard other.version).mpr ⟨other, earlier, standardOf, rfl⟩
            rw [same] at found
            rw [headerError_version header found]
        | inr last => rw [List.mem_singleton.mp last]
      · rename_i different
        cases List.mem_append.mp listed with
        | inl earlier => exact (explains.versions standard other.version).mpr ⟨other, earlier, standardOf, rfl⟩
        | inr last =>
            rw [List.mem_singleton.mp last] at standardOf
            rw [standardOf, Option.getD_some] at different
            exact absurd rfl different

/-- One load adds the entries that it registers, and its manifest if it returns. -/
theorem Explains.load (explains : Explains imports entries manifests before) (load : String × ManifestFile) :
    ∃ done, done.Sublist load.2.entries ∧
      Explains imports (entries ++ done) (manifests ++ loadedManifest imports before load)
        (afterLoad imports before load) := by
  obtain ⟨path, file⟩ := load
  cases outcome : loadStandard imports path file before with
  | error error after =>
      have next : afterLoad imports before (path, file) = after := by simp only [afterLoad, outcome]
      have none : loadedManifest imports before (path, file) = [] := by simp only [loadedManifest, outcome]
      rw [next, none, List.append_nil]
      exact explains.raised outcome
  | ok value after =>
      have next : afterLoad imports before (path, file) = after := by simp only [afterLoad, outcome]
      cases file with
      | absent | unreadable _ | other => cases outcome
      | dict manifest =>
          have one : loadedManifest imports before (path, .dict manifest) = [manifest] := by
            simp only [loadedManifest, outcome]
          rw [next, one]
          exact ⟨manifest.rules, List.Sublist.refl _, explains.returned outcome⟩

theorem Explains.loads (explains : Explains imports entries manifests before) (loads : List (String × ManifestFile)) :
    ∃ done, done.Sublist (loads.flatMap fun load => load.2.entries) ∧
      Explains imports (entries ++ done) (manifests ++ loadedManifests imports before loads)
        (afterLoads imports before loads) := by
  induction loads generalizing before entries manifests with
  | nil =>
      refine ⟨[], List.Sublist.refl _, ?_⟩
      rw [List.append_nil, loadedManifests, List.append_nil]
      exact explains
  | cons load rest ih =>
      obtain ⟨first, firstListed, next⟩ := explains.load load
      obtain ⟨second, secondListed, last⟩ := ih next
      refine ⟨first ++ second, ?_, ?_⟩
      · rw [List.flatMap_cons]
        exact firstListed.append secondListed
      · rw [loadedManifests, ← List.append_assoc, ← List.append_assoc]
        exact last

/-- The rules of every sequence of loads stand behind their dependencies, whichever loads raise. -/
theorem loads_explained (imports : Imports Context) (loads : List (String × ManifestFile)) :
    Explained imports loads := by
  have start : Explains imports [] [] initial := Explains.initial
  obtain ⟨entries, listed, explains⟩ := start.loads loads
  exact ⟨entries, listed, explains⟩

/-! ### The discovery of the standards -/

theorem loadManifests_cons_of_ok {load : String × ManifestFile} {loads : List (String × ManifestFile)}
    (returned : loadStandard imports load.1 load.2 before = .ok () middle) :
    loadManifests imports (load :: loads) before = loadManifests imports loads middle := by
  rw [loadManifests]
  simp only [bind, EStateM.bind, returned]

theorem loadManifests_cons_of_error {load : String × ManifestFile} {loads : List (String × ManifestFile)}
    {error : LoadError} (raised : loadStandard imports load.1 load.2 before = .error error after) :
    loadManifests imports (load :: loads) before = .error error after := by
  rw [loadManifests]
  simp only [bind, EStateM.bind, raised]

theorem manifest_of_returned {load : String × ManifestFile}
    (returned : loadStandard imports load.1 load.2 before = .ok () after) :
    ∃ manifest, load.2 = .dict manifest := by
  obtain ⟨_, manifest, _, same, _⟩ := addsStandard_of_returned returned
  exact ⟨manifest, same⟩

/-- The manifests of a loop that returns add all their entries. -/
theorem Explains.manifests_returned (explains : Explains imports entries manifests before)
    {loads : List (String × ManifestFile)} (returned : loadManifests imports loads before = .ok () after) :
    ∃ more, loads.map Prod.snd = more.map ManifestFile.dict ∧
      Explains imports (entries ++ more.flatMap Manifest.rules) (manifests ++ more) after := by
  induction loads generalizing before entries manifests with
  | nil =>
      cases returned
      refine ⟨[], rfl, ?_⟩
      rw [List.flatMap_nil, List.append_nil, List.append_nil]
      exact explains
  | cons load rest ih =>
      cases first : loadStandard imports load.1 load.2 before with
      | error error stopped =>
          rw [loadManifests_cons_of_error first] at returned
          cases returned
      | ok value middle =>
          rw [loadManifests_cons_of_ok first] at returned
          obtain ⟨manifest, same⟩ := manifest_of_returned first
          rw [same] at first
          obtain ⟨more, files, last⟩ := ih (explains.returned first) returned
          refine ⟨manifest :: more, by rw [List.map_cons, List.map_cons, files, same], ?_⟩
          rw [List.flatMap_cons, ← List.append_assoc, ← List.singleton_append, ← List.append_assoc]
          exact last

/-- The manifests in front of one that raises add all their entries. -/
theorem Explains.manifests_raised (explains : Explains imports entries manifests before) {error : LoadError}
    {loads : List (String × ManifestFile)} (raised : loadManifests imports loads before = .error error after) :
    ∃ front load back more middle, loads = front ++ load :: back ∧
      front.map Prod.snd = more.map ManifestFile.dict ∧
      Explains imports (entries ++ more.flatMap Manifest.rules) (manifests ++ more) middle ∧
      loadStandard imports load.1 load.2 middle = .error error after := by
  induction loads generalizing before entries manifests with
  | nil => cases raised
  | cons load rest ih =>
      cases first : loadStandard imports load.1 load.2 before with
      | error other stopped =>
          rw [loadManifests_cons_of_error first] at raised
          cases raised
          refine ⟨[], load, rest, [], before, rfl, rfl, ?_, first⟩
          rw [List.flatMap_nil, List.append_nil, List.append_nil]
          exact explains
      | ok value middle =>
          rw [loadManifests_cons_of_ok first] at raised
          obtain ⟨manifest, same⟩ := manifest_of_returned first
          rw [same] at first
          obtain ⟨front, stop, back, more, last, rfl, files, explained, refused⟩ := ih (explains.returned first) raised
          refine ⟨load :: front, stop, back, manifest :: more, last, rfl, ?_, ?_, refused⟩
          · rw [List.map_cons, List.map_cons, files, same]
          · rw [List.flatMap_cons, ← List.append_assoc, ← List.singleton_append, ← List.append_assoc]
            exact explained

/-- Listings of the same directories are sorted in one way. -/
theorem sortedManifests_perm (standardsRoot : String) {found other : List (String × ManifestFile)}
    (distinct : (found.map Prod.fst).Nodup) (same : other.Perm found) :
    sortedManifests standardsRoot other = sortedManifests standardsRoot found := by
  let precedes : String × ManifestFile → String × ManifestFile → Prop := fun first second => first.1 ≤ second.1
  have total : Std.Total precedes := ⟨fun first second => le_total first.1 second.1⟩
  have transitive : IsTrans (String × ManifestFile) precedes := ⟨fun _ _ _ => le_trans⟩
  have sorted : other.insertionSort precedes = found.insertionSort precedes := by
    apply List.Perm.eq_of_pairwise _ (List.pairwise_insertionSort precedes other)
      (List.pairwise_insertionSort precedes found)
    · exact (List.perm_insertionSort precedes other).trans (same.trans (List.perm_insertionSort precedes found).symm)
    · intro first second firstListed secondListed below above
      rw [List.mem_insertionSort] at firstListed secondListed
      exact List.inj_on_of_nodup_map distinct (same.mem_iff.mp firstListed) secondListed (le_antisymm below above)
  rw [sortedManifests, sortedManifests]
  exact congrArg (List.map _) sorted

theorem discover_of_found (standardsRoot : String) {found : List (String × ManifestFile)} (present : found ≠ []) :
    discover imports standardsRoot (some found) = loadManifests imports (sortedManifests standardsRoot found) := by
  cases found with
  | nil => exact absurd rfl present
  | cons => rfl

theorem discoversInOrder (imports : Imports Context) (standardsRoot : String)
    (found : List (String × ManifestFile)) : DiscoversInOrder imports standardsRoot found := by
  by_cases empty : found = []
  · subst empty
    constructor
    · intro after returned
      cases returned
    · intro error after raised
      cases raised
      exact .inl ⟨rfl, rfl⟩
  · constructor
    · intro after returned
      rw [discover_of_found standardsRoot empty] at returned
      exact Explains.initial.manifests_returned returned
    · intro error after raised
      rw [discover_of_found standardsRoot empty] at raised
      exact .inr (Explains.initial.manifests_raised raised)

/-- The order in which the directories are listed does not matter. -/
theorem discover_inOrder (imports : Imports Context) (standardsRoot : String)
    (found other : List (String × ManifestFile)) (distinct : (found.map Prod.fst).Nodup) (same : other.Perm found) :
    discover imports standardsRoot (some other) = discover imports standardsRoot (some found) ∧
      DiscoversInOrder imports standardsRoot found := by
  refine ⟨?_, discoversInOrder imports standardsRoot found⟩
  by_cases empty : found = []
  · subst empty
    rw [same.eq_nil]
  · have present : other ≠ [] := fun none => empty (none ▸ same).symm.eq_nil
    rw [discover_of_found standardsRoot empty, discover_of_found standardsRoot present,
      sortedManifests_perm standardsRoot distinct same]

/-! ### The execution of the registered rules -/

section Selection

variable {registry : RuleRegistry Context} {enabled : Option (List String)} {rule : RulePlugin Context}

theorem ruleId_of_get? {ruleId : String} (found : registry.plugins.get? ruleId = some rule) :
    rule.metadata.ruleId = ruleId :=
  registry.keyed (ruleId, rule) ((OrderedDict.mem_entries_iff _ _ _).mpr found)

/-- A selected rule is registered under its own id. -/
theorem get?_of_selected (selected : rule ∈ registry.selectRules enabled) :
    registry.plugins.get? rule.metadata.ruleId = some rule := by
  unfold RuleRegistry.selectRules at selected
  split at selected
  · obtain ⟨⟨ruleId, plugin⟩, listed, rfl⟩ := List.mem_map.mp selected
    rw [registry.keyed _ listed]
    exact (OrderedDict.mem_entries_iff _ _ _).mp listed
  · obtain ⟨ruleId, _, found⟩ := List.mem_filterMap.mp selected
    rw [ruleId_of_get? found]
    exact found

theorem selectRules_distinct (distinct : (enabled.getD []).Nodup) :
    ((registry.selectRules enabled).map fun rule => rule.metadata.ruleId).Nodup := by
  unfold RuleRegistry.selectRules
  split
  · have keys : (registry.plugins.values.map fun rule => rule.metadata.ruleId) = registry.plugins.keys := by
      rw [OrderedDict.values, List.map_map, OrderedDict.keys]
      exact List.map_congr_left registry.keyed
    rw [keys]
    exact registry.plugins.keys_nodup
  · rw [List.map_filterMap]
    apply List.Nodup.filterMap _ distinct
    intro first second ruleId firstFound secondFound
    obtain ⟨rule, found, rfl⟩ := Option.mem_map.mp firstFound
    obtain ⟨other, otherFound, same⟩ := Option.mem_map.mp secondFound
    rw [← ruleId_of_get? found, ← ruleId_of_get? otherFound, same]

end Selection

/-- A dependency that the entry of a rule names is registered before the rule. -/
theorem Explains.acyclic (explains : Explains imports entries manifests after) {enabled : Option (List String)}
    (declared : ¬ Undeclared entries (after.selectRules enabled)) (rule : RulePlugin Context) :
    ¬ Relation.TransGen (ExecutionPlanner.DependsOn RulePlugin.metadata (after.selectRules enabled)) rule rule := by
  have keys := explains.registered.initial_keys
  have distinct : (entries.map ManifestEntry.id).Nodup := keys ▸ after.plugins.keys_nodup
  apply acyclic_of_rank fun rule : RulePlugin Context => (entries.map ManifestEntry.id).idxOf rule.metadata.ruleId
  intro rule dependency depends
  have registered : rule.metadata.ruleId ∈ after.plugins.keys :=
    (OrderedDict.mem_keys_iff _ _).mpr ⟨rule, get?_of_selected depends.1⟩
  rw [keys] at registered
  obtain ⟨entry, listed, same⟩ := List.mem_map.mp registered
  have named : dependency.metadata.ruleId ∈ entry.dependencies := by
    by_contra missing
    exact declared ⟨rule, dependency, depends, entry, listed, same, missing⟩
  rw [← same]
  exact explains.supported.idxOf_lt distinct listed named

theorem executes_of_acyclic {rules : List (RulePlugin Context)}
    (distinct : (rules.map fun rule => rule.metadata.ruleId).Nodup)
    (acyclic : ∀ rule, ¬ Relation.TransGen (ExecutionPlanner.DependsOn RulePlugin.metadata rules) rule rule) :
    Executes rules := by
  constructor
  · cases ExecutionPlanner.resolveExecutionGroupsIn_outcome distinct (List.Perm.refl rules) with
    | inl raised =>
        obtain ⟨_, _, rule, path⟩ := raised
        exact absurd path (acyclic rule)
    | inr resolved =>
        obtain ⟨tier, leveled, answered⟩ := resolved
        exact ⟨tier, _, answered, ExecutionPlanner.respects_of_leveling distinct leveled⟩
  · intro engine sha256 completion context
    cases RuleExecutionEngine.waves_outcome distinct true with
    | inl raised =>
        obtain ⟨_, _, _, rule, path⟩ := raised
        exact absurd path (acyclic rule)
    | inr planned =>
        obtain ⟨_, groups, answered, partition⟩ := planned
        obtain ⟨order, rearranged, collected⟩ :=
          @RuleExecutionEngine.collect_eq Context engine context completion groups
        refine ⟨_, by rw [RuleExecutionEngine.execute, answered]; rfl, ?_⟩
        have ids : (order.map fun rule => engine.executeRuleSafe rule context).map
            (fun execution => execution.1.ruleId) = order.map fun rule => rule.metadata.ruleId := by
          rw [List.map_map]
          exact List.map_congr_left fun rule _ => RuleExecutionEngine.attempt_ruleId rule _ _ _
        rw [collected, RuleExecutionEngine.report, List.map_map, Function.comp_def, ids]
        exact (rearranged.trans partition).map _

/-- After any loads the planner raises only for a dependency that no manifest declares. -/
theorem loads_executed (imports : Imports Context) (loads : List (String × ManifestFile))
    (enabled : Option (List String)) (distinct : (enabled.getD []).Nodup) :
    ∃ entries, entries.Sublist (loads.flatMap fun load => load.2.entries) ∧
      Explains imports entries (loadedManifests imports initial loads) (afterLoads imports initial loads) ∧
      (Undeclared entries ((afterLoads imports initial loads).selectRules enabled) ∨
        Executes ((afterLoads imports initial loads).selectRules enabled)) := by
  have start : Explains imports [] [] initial := Explains.initial
  obtain ⟨entries, listed, explains⟩ := start.loads loads
  rw [List.nil_append, List.nil_append] at explains
  refine ⟨entries, listed, explains, ?_⟩
  by_cases declared : Undeclared entries ((afterLoads imports initial loads).selectRules enabled)
  · exact .inl declared
  · exact .inr (executes_of_acyclic (selectRules_distinct distinct) (explains.acyclic declared))

end Runs

section PartialLoad

def emptyRegistry : LoadedRegistry Unit where
  plugins := .empty
  metadata := .empty
  keyed := by
    intro entry listed
    cases listed
  sameKeys := rfl
  manifestVersions := .empty

/-- Every class makes the rule that has its name as id. -/
def namedImports : Imports Unit := fun _ className =>
  .ok ⟨⟨⟨className, "A_ast_only", []⟩, fun _ _ => .ok []⟩, ⟨"major", "required"⟩⟩

def entryOf (name : String) : ManifestEntry where
  ruleId := some name
  modulePath := some "rules"
  className := some name

/-- The second entry has an id only. -/
def brokenManifest : Manifest where
  standard := some "misra_c_2012"
  rules := [entryOf "first", { ruleId := some "second" }]

def correctedManifest : Manifest where
  standard := some "misra_c_2012"
  rules := [entryOf "first", entryOf "second"]

def sampleLoad (manifest : Manifest) : Loading Unit Unit := loadStandard namedImports "manifest.yaml" (.dict manifest)

/-- The first rule stays when the second entry raises, and then the corrected manifest raises as well. -/
theorem partial_load : ¬ AllOrNothing namedImports "manifest.yaml" (.dict brokenManifest) emptyRegistry ∧
    ∃ error after, sampleLoad brokenManifest emptyRegistry = .error error after ∧
      (∃ final, sampleLoad correctedManifest emptyRegistry = .ok () final) ∧
      ∃ other final, sampleLoad correctedManifest after = .error other final := by
  have stopped : ∃ error after, sampleLoad brokenManifest emptyRegistry = .error error after ∧
      after.plugins.keys = ["first"] := ⟨_, _, rfl, by decide⟩
  obtain ⟨error, after, raised, keys⟩ := stopped
  constructor
  · intro unchanged
    rw [unchanged error after raised] at keys
    cases keys
  · refine ⟨error, after, raised, ⟨_, rfl⟩, ?_⟩
    have listed : entryOf "first" ∈ (ManifestFile.dict correctedManifest).entries := List.mem_cons_self
    apply error_of_registered listed
    rw [keys]
    decide

/-- This standard extends the corrected one, and its rule needs one of its rules. -/
def extendingManifest : Manifest where
  standard := some "misra_c_2023"
  extendedStandard := some "misra_c_2012"
  rules := [{ entryOf "third" with dependencies := ["second"] }]

def sampleListing : List (String × ManifestFile) :=
  [("misra_c_2012", .dict correctedManifest), ("misra_c_2023", .dict extendingManifest)]

theorem discover_inOrder_sample :
    discover namedImports "standards" (some sampleListing.reverse) =
        discover namedImports "standards" (some sampleListing) ∧
      DiscoversInOrder namedImports "standards" sampleListing :=
  discover_inOrder namedImports "standards" sampleListing sampleListing.reverse (by decide) (List.Perm.swap _ _ _)

example : (match discover namedImports "standards" (some sampleListing.reverse) initial with
    | .ok _ after => some after.listRuleIds
    | .error _ _ => none) = some ["first", "second", "third"] := by decide

/-- The broken manifest leaves its first rule, and the one behind it does not load. -/
def sampleLoads : List (String × ManifestFile) :=
  [("broken", .dict brokenManifest), ("extending", .dict extendingManifest), ("absent", .absent)]

theorem loads_executed_sample :
    ∃ entries, entries.Sublist (sampleLoads.flatMap fun load => load.2.entries) ∧
      Explains namedImports entries (loadedManifests namedImports initial sampleLoads)
        (afterLoads namedImports initial sampleLoads) ∧
      (Undeclared entries ((afterLoads namedImports initial sampleLoads).selectRules (some ["third", "first"])) ∨
        Executes ((afterLoads namedImports initial sampleLoads).selectRules (some ["third", "first"]))) :=
  loads_executed namedImports sampleLoads (some ["third", "first"]) (by decide)

end PartialLoad

end LoadedRegistry

end MisraPlatform

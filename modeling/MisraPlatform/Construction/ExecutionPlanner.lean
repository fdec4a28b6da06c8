import Mathlib.Data.List.Sort
import MisraPlatform.Library.OrderedDict

/-
This file is the grouping of rules into execution groups.
-/

namespace MisraPlatform

/-- The planner and the engine read these declarations of a rule. -/
structure RuleMetadata where
  ruleId : String
  implementationCategory : String
  ruleDependencies : List String
  deriving DecidableEq

inductive RuleImplementationCategory
  | aAstOnly
  | bTypeSystem
  | cControlFlow
  | dDataFlow
  | eCrossTranslationUnit
  | fPreprocessor
  | gConfigurationBuild
  deriving DecidableEq

namespace RuleImplementationCategory

def value : RuleImplementationCategory → String
  | aAstOnly => "A_ast_only"
  | bTypeSystem => "B_type_system"
  | cControlFlow => "C_control_flow"
  | dDataFlow => "D_data_flow"
  | eCrossTranslationUnit => "E_cross_translation_unit"
  | fPreprocessor => "F_preprocessor"
  | gConfigurationBuild => "G_configuration_build"

def members : List RuleImplementationCategory :=
  [aAstOnly, bTypeSystem, cControlFlow, dDataFlow, eCrossTranslationUnit, fPreprocessor,
    gConfigurationBuild]

/-- The constructor of the enumeration raises on a text that no member has. -/
def ofValue (text : String) : Option RuleImplementationCategory :=
  members.find? fun category => category.value = text

end RuleImplementationCategory

namespace ExecutionPlanner

variable {Rule : Type} (metadata : Rule → RuleMetadata)

def categoryExecutionOrder : RuleImplementationCategory → Nat
  | .aAstOnly => 0
  | .fPreprocessor => 0
  | .bTypeSystem => 1
  | .cControlFlow => 2
  | .dDataFlow => 3
  | .eCrossTranslationUnit => 4
  | .gConfigurationBuild => 4

/-- A category outside the taxonomy has tier 0. -/
def tierOfCategory (text : String) : Nat :=
  match RuleImplementationCategory.ofValue text with
  | some category => categoryExecutionOrder category
  | none => 0

/-- A later rule with the same id replaces an earlier one. -/
def byId (rules : List Rule) : OrderedDict String Rule :=
  rules.foldl (fun dict rule => dict.insert (metadata rule).ruleId rule) .empty

def categoryTier (rules : List Rule) : OrderedDict String Nat :=
  rules.foldl (fun dict rule =>
    dict.insert (metadata rule).ruleId (tierOfCategory (metadata rule).implementationCategory)) .empty

inductive PlanError
  | cyclicRuleDependency (message : String)
  | keyError (ruleId : String)
  | callStackExhausted
  deriving DecidableEq

/-- The closure of the resolver shares its memo and passes the set of open calls along. -/
structure Resolution where
  resolvedTier : OrderedDict String Nat
  visiting : List String

abbrev Resolver : Type := String → Resolution → Except PlanError (Nat × Resolution)

/-- A listed dependency lifts the tier above its own, an unknown one is passed over. -/
def visitDependency (rules : List Rule) (resolve : Resolver) (current : Nat × Resolution)
    (dependencyId : String) : Except PlanError (Nat × Resolution) :=
  if dependencyId ∉ (byId metadata rules).keys then .ok current
  else do
    let answer ← resolve dependencyId current.2
    pure (max current.1 (answer.1 + 1), answer.2)

def dependencyIds (rules : List Rule) (ruleId : String) : List String :=
  match (byId metadata rules).get? ruleId with
  | some rule => (metadata rule).ruleDependencies
  | none => []

/-- The first argument bounds the depth of the call stack. -/
def resolve (rules : List Rule) : Nat → Resolver
  | 0, _, _ => .error .callStackExhausted
  | depth + 1, ruleId, state =>
      match state.resolvedTier.get? ruleId with
      | some tier => .ok (tier, state)
      | none =>
          if ruleId ∈ state.visiting then
            .error (.cyclicRuleDependency
              ("Cyclic rule_dependencies detected at '" ++ ruleId ++ "'"))
          else do
            let entered := { state with visiting := ruleId :: state.visiting }
            let final ← (dependencyIds metadata rules ruleId).foldlM
              (visitDependency metadata rules (resolve rules depth))
              (((categoryTier metadata rules).get? ruleId).getD 0, entered)
            pure (final.1,
              { resolvedTier := final.2.resolvedTier.insert ruleId final.1
                visiting := final.2.visiting.filter (· ≠ ruleId) })

/-- Every rule of the order is resolved with an empty set of open calls. -/
def resolveAll (rules order : List Rule) : Except PlanError (OrderedDict String Nat) :=
  order.foldlM (fun resolvedTier rule => do
    let answer ← resolve metadata rules (rules.length + 1) (metadata rule).ruleId
      { resolvedTier := resolvedTier, visiting := [] }
    pure answer.2.resolvedTier) .empty

/-- A rule is appended to the group of its tier. -/
def addToGroup (tier : Nat) (rule : Rule) (groups : OrderedDict Nat (List Rule)) :
    OrderedDict Nat (List Rule) :=
  (groups.setDefault tier []).modify tier (· ++ [rule])

def groupRules (resolvedTier : OrderedDict String Nat) (rules : List Rule) :
    Except PlanError (OrderedDict Nat (List Rule)) :=
  rules.foldlM (fun groups rule =>
    match resolvedTier.get? (metadata rule).ruleId with
    | some tier => .ok (addToGroup tier rule groups)
    | none => .error (.keyError (metadata rule).ruleId)) .empty

/-- The groups are listed by increasing tier. -/
def orderedGroups (groups : OrderedDict Nat (List Rule)) : List (List Rule) :=
  (groups.keys.insertionSort (· ≤ ·)).filterMap groups.get?

/-- The rules are resolved in the given order. -/
def resolveExecutionGroupsIn (order rules : List Rule) : Except PlanError (List (List Rule)) := do
  let resolvedTier ← resolveAll metadata rules order
  let groups ← groupRules metadata resolvedTier rules
  pure (orderedGroups groups)

/-- The source resolves the rules in the order of the list. -/
def resolveExecutionGroups (rules : List Rule) : Except PlanError (List (List Rule)) :=
  resolveExecutionGroupsIn metadata rules rules

end ExecutionPlanner

end MisraPlatform

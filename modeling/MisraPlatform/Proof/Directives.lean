import MisraPlatform.Semantics.Directives

/-
This file shows when the counts of the directives and the ends of a macro body decide whether it is reported, and which
directives of the worker the rules report.
-/

namespace MisraPlatform
open MacroAnalyzer

/-! ### Conditional groups -/

namespace Rule20_14

theorem hasText_eq (branch : Value) {text : String} (nonempty : text ≠ "") :
    hasText branch "directive" text = decide (branch.getText "directive" "" = text) := by
  unfold hasText Value.getText
  cases branch.get "directive" with
  | none => simp [nonempty.symm]
  | some value => cases value <;> simp [nonempty.symm]

theorem bracketOf_eq_opens (branch : Value) : bracketOf branch = .opens ↔ opens branch = true := by
  simp only [opens, hasText_eq branch (show "if" ≠ "" by decide), hasText_eq branch (show "ifdef" ≠ "" by decide),
    hasText_eq branch (show "ifndef" ≠ "" by decide), Bool.or_eq_true, decide_eq_true_eq]
  unfold bracketOf
  split <;> simp_all

theorem bracketOf_eq_closes (branch : Value) :
    bracketOf branch = .closes ↔ hasText branch "directive" "endif" = true := by
  rw [hasText_eq branch (show "endif" ≠ "" by decide), decide_eq_true_eq]
  unfold bracketOf
  split <;> simp_all

theorem count_bracketOf {bracket : Bracket} {holds : Value → Bool} (branches : List Value)
    (same : ∀ branch, bracketOf branch = bracket ↔ holds branch = true) :
    (branches.map bracketOf).count bracket = branches.countP holds := by
  rw [List.count, List.countP_map]
  apply List.countP_congr
  intro branch _
  rw [← same branch]
  simp

variable {artifact : Artifact}

/-- The rule compares the totals over all files. -/
theorem detect_ne_nil : rule.detect artifact ≠ [] ↔ ¬ TotalsBalance artifact := by
  rw [TotalsBalance, count_bracketOf _ bracketOf_eq_opens, count_bracketOf _ bracketOf_eq_closes]
  unfold ReportingRule.detect rule ReportingRule.ofDirectives unbalancedConditionalGroup
  dsimp only
  split
  · rename_i unequal
    simpa using unequal
  · rename_i equal
    simpa using equal

/-- The files of a translation unit have their own brackets, and the totals balance if those of each file do. -/
theorem totalsBalance_of_files (well : ∀ filePath, Bracket.WellBracketed (directivesIn artifact filePath)) :
    TotalsBalance artifact :=
  Bracket.count_eq_of_parts (fileOf artifact) bracketOf _ well

/-- The rule is right unless the totals balance while a file is not well bracketed. -/
theorem groupsReported_iff (artifact : Artifact) : GroupsReported artifact ↔
    (TotalsBalance artifact → ∀ filePath, Bracket.WellBracketed (directivesIn artifact filePath)) := by
  rw [GroupsReported, detect_ne_nil]
  constructor
  · intro exactly balance filePath
    by_contra unbalanced
    exact exactly.mpr ⟨filePath, unbalanced⟩ balance
  · intro given
    constructor
    · intro unequal
      by_contra none
      push Not at none
      exact unequal (totalsBalance_of_files none)
    · rintro ⟨filePath, unbalanced⟩ balance
      exact unbalanced (given balance filePath)

section SplitGroup

def directiveIn (filePath directive : String) : Value :=
  .dict [("directive", .text directive), ("range", .dict [("file_path", .text filePath)])]

/-- One header opens a group, and another one closes it. -/
def splitUnit : Artifact where
  filePath := "main.c"
  nodes := []
  macroTable := .dict [("conditional_branches", .list [directiveIn "open.h" "if", directiveIn "close.h" "endif"])]

/-- A group over two files is not reported. -/
theorem split_missed : rule.detect splitUnit = [] ∧
    (∃ filePath, ¬ Bracket.WellBracketed (directivesIn splitUnit filePath)) ∧ ¬ GroupsReported splitUnit := by
  have silent : rule.detect splitUnit = [] := by decide
  have unbalanced : ¬ Bracket.WellBracketed (directivesIn splitUnit "open.h") := by decide
  refine ⟨silent, ⟨"open.h", unbalanced⟩, fun given => ?_⟩
  exact given.mpr ⟨"open.h", unbalanced⟩ silent

end SplitGroup

end Rule20_14

/-! ### Macro bodies -/

namespace Rule20_7

variable {macroDef : Value}

theorem parenthesis_eq_opens {char : Char} : parenthesis char = .opens ↔ char = '(' := by
  unfold parenthesis
  split
  · simpa
  · split <;> simpa

theorem parenthesis_eq_closes {char : Char} : parenthesis char = .closes ↔ char = ')' := by
  unfold parenthesis
  split
  · rename_i opening
    simp [opening]
  · split <;> simpa

/-- The check looks at the ends of the body. -/
theorem ends_iff : (body macroDef).head? = some '(' ∧ (body macroDef).getLast? = some ')' ↔
    ∃ inner, (body macroDef).map parenthesis = .opens :: (inner ++ [.closes]) := by
  have first : (body macroDef).head? = some '(' ↔ ((body macroDef).map parenthesis).head? = some .opens := by
    simp only [List.head?_map, Option.map_eq_some_iff, parenthesis_eq_opens, exists_eq_right]
  have last : (body macroDef).getLast? = some ')' ↔ ((body macroDef).map parenthesis).getLast? = some .closes := by
    simp only [List.getLast?_map, Option.map_eq_some_iff, parenthesis_eq_closes, exists_eq_right]
  rw [first, last]
  generalize (body macroDef).map parenthesis = brackets
  constructor
  · rintro ⟨head, end_⟩
    obtain ⟨rest, rfl⟩ := List.head?_eq_some_iff.mp head
    rcases List.eq_nil_or_concat' rest with rfl | ⟨inner, item, rfl⟩
    · cases end_
    · rw [← List.cons_append, List.getLast?_concat, Option.some.injEq] at end_
      exact ⟨inner, by rw [end_]⟩
  · rintro ⟨inner, rfl⟩
    rw [← List.cons_append, List.getLast?_concat]
    exact ⟨rfl, rfl⟩

theorem found_eq_false (operator : HasOperator macroDef) : hasUnparenthesizedOperatorBody macroDef = false ↔
    ∃ inner, (body macroDef).map parenthesis = .opens :: (inner ++ [.closes]) := by
  rw [← ends_iff]
  have found : (body macroDef).any isOperator = true := List.any_eq_true.mpr operator
  unfold body valueOf at found ⊢
  unfold hasUnparenthesizedOperatorBody
  dsimp only
  rw [found, Bool.true_and, Bool.not_eq_false', Bool.and_eq_true, decide_eq_true_eq, decide_eq_true_eq]

/-- A report names the body. -/
theorem valueOf_eq_of_result {artifact : Artifact} {other : Value} (same :
    directiveResult rule.ruleId artifact (report other) = directiveResult rule.ruleId artifact (report macroDef)) :
    valueOf other = valueOf macroDef := by
  have fixes : (report other).suggestedFix = (report macroDef).suggestedFix :=
    congrArg RuleResult.suggestedFix same
  simp only [report, Option.some.injEq, SuggestedFix.mk.injEq] at fixes
  exact fixes.1

/-- Another macro has the report only with the same body. -/
theorem mem_detect {artifact : Artifact} (listed : macroDef ∈ functionLikeMacros artifact.macroTable) :
    directiveResult rule.ruleId artifact (report macroDef) ∈ rule.detect artifact ↔
      hasUnparenthesizedOperatorBody macroDef = true := by
  simp only [rule, ReportingRule.detect, ReportingRule.ofDirectives, List.map_map, List.mem_map, List.mem_filter,
    Function.comp_apply, RuleReport.result]
  constructor
  · rintro ⟨other, ⟨_, found⟩, same⟩
    have value : valueOf other = valueOf macroDef := valueOf_eq_of_result same
    unfold hasUnparenthesizedOperatorBody at found ⊢
    unfold valueOf at value
    rwa [value] at found
  · exact fun found => ⟨macroDef, ⟨listed, found⟩, rfl⟩

/-- The judgement is right unless the parentheses at the ends belong to different groups. -/
theorem bodyJudged_iff (macroDef : Value) (operator : HasOperator macroDef) :
    BodyJudged macroDef ↔ InnerBalances macroDef := by
  constructor
  · intro judged inner split
    obtain ⟨other, same, well⟩ := judged.found.mp ((found_eq_false operator).mpr ⟨inner, split⟩)
    rw [split] at same
    obtain rfl := List.append_cancel_right (List.cons.inj same).2
    exact well
  · intro given
    have found : hasUnparenthesizedOperatorBody macroDef = false ↔ Parenthesized macroDef := by
      rw [found_eq_false operator]
      constructor
      · rintro ⟨inner, split⟩
        exact ⟨inner, split, given inner split⟩
      · rintro ⟨inner, split, _⟩
        exact ⟨inner, split⟩
    refine ⟨found, fun artifact listed => ?_⟩
    rw [mem_detect listed, ← found, Bool.not_eq_false]

/-- Two groups side by side are not one group, whatever stands between them. -/
theorem joined_not_parenthesized {first between second : List Bracket} (well : Bracket.WellBracketed first)
    (split : (body macroDef).map parenthesis =
      .opens :: (first ++ .closes :: (between ++ .opens :: (second ++ [.closes])))) :
    ¬ Parenthesized macroDef := by
  rw [Parenthesized, split]
  apply Bracket.not_enclosed_of_rest well
  exact List.append_ne_nil_of_right_ne_nil _ (List.cons_ne_nil _ _)

section Sums

/-- The body is that of a function-like macro `ADD(a, b)`. -/
def addMacro (value : String) : Value :=
  .dict [("name", .text "ADD"), ("value", .text value), ("is_function_like", .flag true)]

def addUnit (value : String) : Artifact where
  filePath := "add.c"
  nodes := []
  macroTable := .dict [("macro_definitions", .list [addMacro value])]

theorem bodyJudged_iff_sum : BodyJudged (addMacro "((a) + (b))") ↔ InnerBalances (addMacro "((a) + (b))") :=
  bodyJudged_iff _ ⟨'+', by decide, by decide⟩

/-- The sum of two parenthesised groups is not reported. -/
theorem joined_missed : HasOperator (addMacro "(a) + (b)") ∧ rule.detect (addUnit "(a) + (b)") = [] ∧
    ¬ BodyJudged (addMacro "(a) + (b)") := by
  refine ⟨⟨'+', by decide, by decide⟩, by decide, fun judged => ?_⟩
  have parenthesized := judged.found.mp (by decide)
  have well : Bracket.WellBracketed [.other] := by decide
  have split : (body (addMacro "(a) + (b)")).map parenthesis =
      .opens :: ([.other] ++ .closes :: ([.other, .other, .other] ++ .opens :: ([.other] ++ [.closes]))) := by decide
  exact joined_not_parenthesized well split parenthesized

end Sums

end Rule20_7

/-! ### The directives of the worker -/

namespace ClangAnalysis.PreprocessorTracker
open AstClient

variable {sources : SourceManager} {callbacks : List Callback} {filePath : String} {nodes : List AstNode}

/-- A field of the output collects its part of each callback in their order. -/
theorem foldl_observe {α : Type} {field : PreprocessorMetadata → List α} {part : Callback → Option α}
    (step : ∀ output callback, field (observe sources output callback) = field output ++ (part callback).toList)
    (callbacks : List Callback) (output : PreprocessorMetadata) :
    field (callbacks.foldl (observe sources) output) = field output ++ callbacks.filterMap part := by
  induction callbacks generalizing output with
  | nil => exact (List.append_nil _).symm
  | cons callback rest ih =>
      rw [List.foldl_cons, ih, step, List.append_assoc, List.filterMap_cons]
      cases part callback <;> rfl

theorem macroDefinitions_track : (track sources callbacks).macroDefinitions =
    callbacks.filterMap (defined sources) := by
  refine foldl_observe (fun output callback => ?_) callbacks {}
  cases callback with
  | macroDefined macroName info => cases info <;> simp [observe, defined]
  | _ => exact (List.append_nil _).symm

theorem macroExpansions_track : (track sources callbacks).macroExpansions.map MacroExpansion.name =
    callbacks.filterMap expanded := by
  refine @foldl_observe _ _ (fun output => output.macroExpansions.map MacroExpansion.name) _
    (fun output callback => ?_) callbacks {}
  cases callback with
  | macroExpands macroName info range => simp [observe, expanded, expansionOf]
  | macroDefined macroName info => cases info <;> exact (List.append_nil _).symm
  | _ => exact (List.append_nil _).symm

theorem includeDirectives_track : (track sources callbacks).includeDirectives =
    callbacks.filterMap (included sources) := by
  refine foldl_observe (fun output callback => ?_) callbacks {}
  cases callback with
  | inclusionDirective fileName isAngled filenameRange file searchPath relativePath => rfl
  | macroDefined macroName info => cases info <;> exact (List.append_nil _).symm
  | _ => exact (List.append_nil _).symm

def branched (sources : SourceManager) : Callback → Option ConditionalBranch
  | .if conditionRange conditionValue => some (conditionBranch sources "if" conditionRange conditionValue)
  | .elif conditionRange conditionValue => some (conditionBranch sources "elif" conditionRange conditionValue)
  | .ifdef loc macroName info => some (nameBranch sources "ifdef" macroName info.isSome loc)
  | .ifndef loc macroName info => some (nameBranch sources "ifndef" macroName info.isNone loc)
  | .endif loc => some { directive := "endif", range := makeSourceRange sources (loc, loc) }
  | _ => none

theorem conditionalBranches_track : (track sources callbacks).conditionalBranches =
    callbacks.filterMap (branched sources) := by
  refine foldl_observe (fun output callback => ?_) callbacks {}
  cases callback with
  | macroDefined macroName info => cases info <;> exact (List.append_nil _).symm
  | «if» | elif | ifdef | ifndef | endif => rfl
  | _ => exact (List.append_nil _).symm

/-- The callbacks that are no conditional directives do not count. -/
theorem count_branched {bracket : Bracket} (counted : bracket ≠ .other) :
    (((callbacks.filterMap (branched sources)).map branchToDict).map Rule20_14.bracketOf).count bracket =
      (callbacks.map bracketOf).count bracket := by
  induction callbacks with
  | nil => rfl
  | cons callback rest ih =>
      cases callback with
      | «if» | elif | ifdef | ifndef | endif =>
          rw [List.filterMap_cons, List.map_cons, List.count_cons]
          dsimp only [branched]
          rw [List.map_cons, List.map_cons, List.count_cons, ih]
          rfl
      | _ => exact ih.trans (List.count_cons_of_ne counted.symm).symm

section Rules

theorem detect_ofDirectives (ruleId : String) (reports : Value → List DirectiveReport) (artifact : Artifact) :
    (ReportingRule.ofDirectives ruleId reports).detect artifact =
      (reports artifact.macroTable).map (directiveResult ruleId artifact) :=
  List.map_map

/-- A rule that filters a list of the table reports the directives that violate its condition. -/
theorem reports_of {α : Type} {ruleId : String} {toDict : α → Value} {report : Value → DirectiveReport}
    {directive : Callback → Option α} {items : Value → List Value} {violates : Value → Value → Bool}
    {holds : α → Prop} [DecidablePred holds]
    (listed : items (tracked sources callbacks filePath nodes).macroTable =
      (callbacks.filterMap directive).map toDict)
    (same : ∀ item, violates (tracked sources callbacks filePath nodes).macroTable (toDict item) =
      decide (holds item)) :
    Reports sources callbacks filePath nodes
      (.ofDirectives ruleId fun macroTable => ((items macroTable).filter (violates macroTable)).map report)
      toDict report directive holds := by
  rw [Reports, detect_ofDirectives, listed, List.filter_map, List.map_map, List.map_map]
  have filtered : (callbacks.filterMap directive).filter
      (violates (tracked sources callbacks filePath nodes).macroTable ∘ toDict) =
        (callbacks.filterMap directive).filter fun item => decide (holds item) :=
    List.filter_congr fun item _ => same item
  rw [filtered]
  rfl

/-- A rule whose condition no directive of the table violates is silent. -/
theorem silent_of {α : Type} {ruleId : String} {toDict : α → Value} {report : Value → DirectiveReport}
    {items : Value → List Value} {violates : Value → Bool} {listed : List α}
    (known : items (tracked sources callbacks filePath nodes).macroTable = listed.map toDict)
    (never : ∀ item ∈ listed, violates (toDict item) = false) :
    (ReportingRule.ofDirectives ruleId fun macroTable => ((items macroTable).filter violates).map report).detect
      (tracked sources callbacks filePath nodes) = [] := by
  rw [detect_ofDirectives, known, List.map_eq_nil_iff, List.map_eq_nil_iff, List.filter_map, List.map_eq_nil_iff,
    List.filter_eq_nil_iff]
  intro item inside
  rw [Function.comp_apply, never item inside]
  exact Bool.false_ne_true

theorem macroDefinitions_tracked : macroDefinitions (tracked sources callbacks filePath nodes).macroTable =
    (callbacks.filterMap (defined sources)).map macroToDict :=
  congrArg (List.map macroToDict) macroDefinitions_track

theorem includeDirectives_tracked : includeDirectives (tracked sources callbacks filePath nodes).macroTable =
    (callbacks.filterMap (included sources)).map includeToDict :=
  congrArg (List.map includeToDict) includeDirectives_track

theorem conditionalBranches_tracked : conditionalBranches (tracked sources callbacks filePath nodes).macroTable =
    (callbacks.filterMap (branched sources)).map branchToDict :=
  congrArg (List.map branchToDict) conditionalBranches_track

theorem expansionsOf_tracked (name : String) :
    (expansionsOf (tracked sources callbacks filePath nodes).macroTable name).isEmpty =
      decide (name ∉ callbacks.filterMap expanded) := by
  rw [← @macroExpansions_track sources, expansionsOf]
  change (((track sources callbacks).macroExpansions.map expansionToDict).filter fun expansion =>
    hasText expansion "name" name).isEmpty = _
  rw [Bool.eq_iff_iff, List.isEmpty_iff, List.filter_map, List.map_eq_nil_iff, List.filter_eq_nil_iff,
    decide_eq_true_eq, List.mem_map]
  constructor
  · rintro none ⟨expansion, inside, rfl⟩
    exact none expansion inside (decide_eq_true rfl)
  · intro absent expansion inside same
    exact absent ⟨expansion, inside, of_decide_eq_true same⟩

/-- Only the text of an object-like macro is kept, and the rule looks at the others. -/
theorem silent_bodies : Rule20_7.rule.detect (tracked sources callbacks filePath nodes) = [] := by
  have none : (functionLikeMacros (tracked sources callbacks filePath nodes).macroTable).filter
      hasUnparenthesizedOperatorBody = [] := by
    rw [functionLikeMacros, macroDefinitions_tracked, List.filter_eq_nil_iff]
    intro macroDef listed
    obtain ⟨inside, functionLike⟩ := List.mem_filter.mp listed
    obtain ⟨item, collected, rfl⟩ := List.mem_map.mp inside
    obtain ⟨callback, _, made⟩ := List.mem_filterMap.mp collected
    cases callback with
    | macroDefined macroName info =>
        cases info with
        | none => cases made
        | some info =>
            cases made
            have function : info.isFunctionLike = true := functionLike
            have value : (definitionOf sources macroName info).value = "" := if_pos (.inl function)
            have empty : Rule20_7.valueOf (macroToDict (definitionOf sources macroName info)) = "" := value
            unfold hasUnparenthesizedOperatorBody
            rw [show (macroToDict (definitionOf sources macroName info)).getText "value" "" = "" from empty]
            decide
    | _ => cases made
  rw [Rule20_7.rule, detect_ofDirectives, none]
  rfl

theorem silent_rules (rule : ReportingRule) (listed : rule ∈ silentRules) :
    rule.detect (tracked sources callbacks filePath nodes) = [] := by
  simp only [silentRules, List.mem_cons, List.not_mem_nil, or_false] at listed
  obtain rfl | rfl | rfl | rfl | rfl | rfl | rfl | rfl | rfl | rfl | rfl := listed
  · exact silent_of includeDirectives_tracked fun _ _ => rfl
  · exact silent_of includeDirectives_tracked fun _ _ => rfl
  · rfl
  · exact silent_of macroDefinitions_tracked fun _ _ => rfl
  · exact silent_bodies
  · exact silent_of conditionalBranches_tracked fun _ _ => Bool.and_false _
  · refine silent_of conditionalBranches_tracked fun item _ => ?_
    have nothing : conditionalUndefinedIdentifiers (branchToDict item) = [] := ite_self _
    rw [nothing]
    rfl
  · exact silent_of macroDefinitions_tracked fun _ _ => rfl
  · exact silent_of macroDefinitions_tracked fun _ _ => rfl
  · exact silent_of macroDefinitions_tracked fun _ _ => rfl
  · rfl

/-- Whatever the preprocessor tells the worker, eleven rules report nothing, and the others what they are for. -/
theorem reportsDirectives (sources : SourceManager) (callbacks : List Callback) (filePath : String)
    (nodes : List AstNode) : ReportsDirectives sources callbacks filePath nodes := by
  have groups : Rule20_14.rule.detect (tracked sources callbacks filePath nodes) ≠ [] ↔
      (callbacks.map bracketOf).count .opens ≠ (callbacks.map bracketOf).count .closes := by
    rw [Rule20_14.detect_ne_nil, Rule20_14.TotalsBalance, conditionalBranches_tracked,
      count_branched (by decide), count_branched (by decide)]
  refine ⟨silent_rules, ?_, ?_, ?_, ?_, groups, ?_⟩
  · exact reports_of macroDefinitions_tracked fun item => expansionsOf_tracked item.name
  · exact reports_of macroDefinitions_tracked fun item => rfl
  · exact reports_of macroDefinitions_tracked fun item => Bool.decide_eq_true.symm
  · intro ruleId header riskDescription
    refine reports_of includeDirectives_tracked fun item => ?_
    have own : headerOf (includeToDict item) = item.includedFile := if_pos rfl
    rw [own]
    exact decide_eq_decide.mpr List.mem_singleton
  · intro well
    by_contra reported
    exact groups.mp reported well.closed

end Rules

end ClangAnalysis.PreprocessorTracker

end MisraPlatform

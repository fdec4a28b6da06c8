import MisraPlatform.Construction.ControlFlowRules

/-
This file is the structural queries on control flow and the rules that read them.
-/

namespace MisraPlatform
open CFGEngine

namespace CFGBuilder

/-- This set is `_UNCONDITIONAL_TERMINATORS`. -/
def UNCONDITIONAL_TERMINATORS : List NodeKind := [.returnStmt, .breakStmt, .continueStmt, .gotoStmt]

def isTerminator (node : AstNode) : Bool := node.nodeKind ∈ UNCONDITIONAL_TERMINATORS

/-- Behind a terminator every statement is unreachable up to the next label. -/
def scanBlock (terminated : Bool) : List AstNode → List AstNode
  | [] => []
  | child :: rest =>
      if terminated && child.nodeKind ≠ .labelStmt then child :: scanBlock true rest
      else scanBlock (isTerminator child) rest

def unreachableStatements (functionNode : AstNode) (graph : AstGraph) : List AstNode :=
  ((functionNode :: graph.descendants functionNode.nodeId).filter fun block => block.nodeKind = .compoundStmt).flatMap
    fun block => scanBlock false (graph.children block.nodeId)

/-- A label is pending until the next one, and a clause without a terminator falls through. -/
def scanClauses (pendingCase : Option AstNode) (sawTerminatorSinceCase : Bool) : List AstNode → List AstNode
  | [] => if sawTerminatorSinceCase then [] else pendingCase.toList
  | statement :: rest =>
      if isCaseLabel statement then
        (if sawTerminatorSinceCase then [] else pendingCase.toList) ++ scanClauses (some statement) false rest
      else scanClauses pendingCase (sawTerminatorSinceCase || isTerminator statement) rest

def switchBlocksWithoutTerminator (switchNode : AstNode) (graph : AstGraph) : List AstNode :=
  match (graph.children switchNode.nodeId).find? fun child => child.nodeKind = .compoundStmt with
  | none => []
  | some body => scanClauses none true (graph.children body.nodeId)

/-- The first of these blocks is the body of the switch. -/
def bodyCandidates (switchNode : AstNode) (graph : AstGraph) : List AstNode :=
  (graph.children switchNode.nodeId).filter fun child => child.nodeKind = .compoundStmt

/-- These are the labels that are children of the body. -/
def bodyClauses (body : AstNode) (graph : AstGraph) : List AstNode :=
  (graph.children body.nodeId).filter isCaseLabel

def switchHasNoClauses (switchNode : AstNode) (graph : AstGraph) : Bool :=
  match bodyCandidates switchNode graph with
  | [] => true
  | body :: _ => (bodyClauses body graph).isEmpty

def switchIsMalformed (switchNode : AstNode) (graph : AstGraph) : Bool :=
  switchNode.truthy "switch_malformed" || (bodyCandidates switchNode graph).isEmpty ||
    switchHasNoClauses switchNode graph

/-- The statement leaves a loop in one of the two ways that are counted. -/
def leavesLoop (statement : AstNode) : Bool := statement.nodeKind ∈ [NodeKind.breakStmt, .gotoStmt]

/-- A `break` inside belongs to this statement. -/
def takesBreaks (statement : AstNode) : Bool := statement.nodeKind.isLoop || statement.nodeKind = .switchStmt

/-- This is `_walk`, which enters a nested loop or switch only below the root. In a forest the node count is
enough fuel. -/
def walk (graph : AstGraph) : Nat → Bool → AstNode → List AstNode
  | 0, _, _ => []
  | fuel + 1, isLoopRoot, node => (graph.children node.nodeId).flatMap fun child =>
      if leavesLoop child then [child]
      else if !isLoopRoot && takesBreaks child then []
      else walk graph fuel false child

def loopTerminationStatements (loopNode : AstNode) (graph : AstGraph) : List AstNode :=
  walk graph (graph.nodes.length + 1) true loopNode

def gotoTargets (functionNode : AstNode) (graph : AstGraph) : List AstNode :=
  (graph.descendants functionNode.nodeId).filter fun node => node.nodeKind = .gotoStmt

def labels (functionNode : AstNode) (graph : AstGraph) : List AstNode :=
  (graph.descendants functionNode.nodeId).filter fun node => node.nodeKind = .labelStmt

end CFGBuilder

namespace Rule15_4
open BaseRulePlugin CFGBuilder

def ruleId : String := "misra-c2012-rule-15-4"

def explanation (count : Nat) : String :=
  "This loop is terminated by " ++ toString count ++ " separate break/goto statements."

def riskDescription : String := "Multiple loop-exit points make the loop's termination logic harder to verify."

def confidenceFactors : List (String × Rat) :=
  [("ast_match_specificity", 8 / 10), ("type_information_complete", 8 / 10), ("macro_clarity", 85 / 100),
    ("historical_false_positive_rate", 2 / 10), ("fix_generator_certainty", 3 / 10)]

/-- The first terminator is allowed. -/
def detectLoop (context : RuleContext) (loopNode : AstNode) : List RuleResult :=
  let terminators := loopTerminationStatements loopNode (graph context)
  terminators.tail.map fun terminator => makeResult ruleId context (graph context) terminator
    (explanation terminators.length) riskDescription confidenceFactors (72 / 100)

def detect (context : RuleContext) : List RuleResult :=
  [NodeKind.forStmt, .whileStmt, .doStmt].flatMap fun kind =>
    ((graph context).nodesByKind kind).flatMap (detectLoop context)

end Rule15_4

namespace Rule16_3
open BaseRulePlugin CFGBuilder

def ruleId : String := "misra-c2012-rule-16-3"

def explanation : String := "Switch clause falls through to the next clause without a break."

def riskDescription : String := "Unintended fallthrough is a common source of switch-statement defects."

def confidenceFactors : List (String × Rat) :=
  [("ast_match_specificity", 85 / 100), ("type_information_complete", 9 / 10), ("macro_clarity", 9 / 10),
    ("historical_false_positive_rate", 15 / 100), ("fix_generator_certainty", 6 / 10)]

def suggestedFix (caseNode : AstNode) : SuggestedFix where
  originalCode := AstGraph.offendingText caseNode
  suggestedCode := "add an explicit break at the end of this clause"
  rationale := "Terminate every switch clause unconditionally."
  confidenceScore := 6 / 10

def report (context : RuleContext) (caseNode : AstNode) : RuleResult :=
  makeResult ruleId context (graph context) caseNode explanation riskDescription confidenceFactors (8 / 10)
    (some (suggestedFix caseNode))

def detect (context : RuleContext) : List RuleResult :=
  ((graph context).nodesByKind .switchStmt).flatMap fun switchNode =>
    (switchBlocksWithoutTerminator switchNode (graph context)).map (report context)

end Rule16_3

namespace Rule16_1
open BaseRulePlugin CFGBuilder

def ruleId : String := "misra-c2012-rule-16-1"

def explanation : String := "Switch statement is not well-formed."

def riskDescription : String := "A switch without a proper compound body or clauses is hard to verify."

def confidenceFactors : List (String × Rat) :=
  [("ast_match_specificity", 9 / 10), ("type_information_complete", 85 / 100), ("macro_clarity", 9 / 10),
    ("historical_false_positive_rate", 1 / 10), ("fix_generator_certainty", 5 / 10)]

def suggestedFix (switchNode : AstNode) : SuggestedFix where
  originalCode := AstGraph.offendingText switchNode
  suggestedCode := "wrap the switch body in \x7b \x7d and add at least one case/default clause"
  rationale := "Give every switch a compound statement body with switch clauses."
  confidenceScore := 5 / 10

def report (context : RuleContext) (switchNode : AstNode) : RuleResult :=
  makeResult ruleId context (graph context) switchNode explanation riskDescription confidenceFactors (85 / 100)
    (some (suggestedFix switchNode))

def malformed (graph : AstGraph) : List AstNode :=
  (graph.nodesByKind .switchStmt).filter fun switchNode => switchIsMalformed switchNode graph

def detect (context : RuleContext) : List RuleResult := (malformed (graph context)).map (report context)

end Rule16_1

namespace Rule16_2
open BaseRulePlugin CFGBuilder

def ruleId : String := "misra-c2012-rule-16-2"

def explanation : String := "This switch label is not a direct clause of its switch's compound statement."

def riskDescription : String :=
  "A label nested inside an extra block is legal C but hides the switch's real structure."

def confidenceFactors : List (String × Rat) :=
  [("ast_match_specificity", 92 / 100), ("type_information_complete", 9 / 10), ("macro_clarity", 9 / 10),
    ("historical_false_positive_rate", 1 / 10), ("fix_generator_certainty", 35 / 100)]

def suggestedFix (label : AstNode) : SuggestedFix where
  originalCode := AstGraph.offendingText label
  suggestedCode := "move the label to be a direct clause of the switch's body"
  rationale := "Avoid nesting switch labels inside extra blocks."
  confidenceScore := 35 / 100

def report (context : RuleContext) (label : AstNode) : RuleResult :=
  makeResult ruleId context (graph context) label explanation riskDescription confidenceFactors (85 / 100)
    (some (suggestedFix label))

def isDirectClause (label : AstNode) (graph : AstGraph) : Bool :=
  (graph.get label.parentId).any fun parent => parent.nodeKind = .compoundStmt &&
    (graph.get parent.parentId).any fun grandparent => grandparent.nodeKind = .switchStmt

def misplaced (graph : AstGraph) : List AstNode :=
  graph.nodes.filter fun node => isCaseLabel node && !isDirectClause node graph

def detect (context : RuleContext) : List RuleResult := (misplaced (graph context)).map (report context)

end Rule16_2

namespace Rule16_4
open BaseRulePlugin CFGBuilder

def ruleId : String := "misra-c2012-rule-16-4"

def explanation : String := "Switch statement has no default clause."

def riskDescription : String := "Unhandled cases fail silently without a default clause."

def confidenceFactors : List (String × Rat) :=
  [("ast_match_specificity", 95 / 100), ("type_information_complete", 9 / 10), ("macro_clarity", 95 / 100),
    ("historical_false_positive_rate", 1 / 10), ("fix_generator_certainty", 6 / 10)]

def suggestedFix (switchNode : AstNode) : SuggestedFix where
  originalCode := AstGraph.offendingText switchNode
  suggestedCode := "add a default: clause"
  rationale := "Handle (or explicitly reject) every unlisted case value."
  confidenceScore := 6 / 10

def report (context : RuleContext) (switchNode : AstNode) : RuleResult :=
  makeResult ruleId context (graph context) switchNode explanation riskDescription confidenceFactors (87 / 100)
    (some (suggestedFix switchNode))

/-- The default clause of a switch inside counts too. -/
def withoutDefault (graph : AstGraph) : List AstNode :=
  (graph.nodesByKind .switchStmt).filter fun switchNode =>
    !(graph.descendants switchNode.nodeId).any fun node => node.nodeKind = .defaultStmt

def detect (context : RuleContext) : List RuleResult := (withoutDefault (graph context)).map (report context)

end Rule16_4

namespace Rule16_5
open BaseRulePlugin CFGBuilder

def ruleId : String := "misra-c2012-rule-16-5"

def explanation (position count : Nat) : String :=
  "The default clause is clause " ++ toString (position + 1) ++ " of " ++ toString count ++ ", neither first nor last."

def riskDescription : String := "A default clause buried among case clauses is easy to miss during review."

def confidenceFactors : List (String × Rat) :=
  [("ast_match_specificity", 95 / 100), ("type_information_complete", 9 / 10), ("macro_clarity", 95 / 100),
    ("historical_false_positive_rate", 5 / 100), ("fix_generator_certainty", 5 / 10)]

def suggestedFix : SuggestedFix where
  originalCode := "default:"
  suggestedCode := "move the default clause to be first or last"
  rationale := "Place default where reviewers expect to find it."
  confidenceScore := 5 / 10

def report (context : RuleContext) (clauses : List AstNode) (position : Nat) (clause : AstNode) : RuleResult :=
  makeResult ruleId context (graph context) clause (explanation position clauses.length) riskDescription
    confidenceFactors (88 / 100) (some suggestedFix)

/-- The first default clause has its position, when it is neither the first clause nor the last. -/
def buried (clauses : List AstNode) : Option (Nat × AstNode) :=
  (clauses.findIdx? fun clause => clause.nodeKind = .defaultStmt).bind fun position =>
    if position = 0 || position = clauses.length - 1 then none
    else clauses[position]?.map fun clause => (position, clause)

def detectSwitch (context : RuleContext) (switchNode : AstNode) : List RuleResult :=
  match bodyCandidates switchNode (graph context) with
  | [] => []
  | body :: _ =>
      let clauses := bodyClauses body (graph context)
      (buried clauses).toList.map fun found => report context clauses found.1 found.2

def detect (context : RuleContext) : List RuleResult :=
  ((graph context).nodesByKind .switchStmt).flatMap (detectSwitch context)

end Rule16_5

namespace Rule16_6
open BaseRulePlugin CFGBuilder

def ruleId : String := "misra-c2012-rule-16-6"

def explanation (clauseCount : Nat) : String := "Switch statement has only " ++ toString clauseCount ++ " clause(s)."

def riskDescription : String := "A switch with fewer than two clauses is better expressed as an if."

def confidenceFactors : List (String × Rat) :=
  [("ast_match_specificity", 9 / 10), ("type_information_complete", 9 / 10), ("macro_clarity", 95 / 100),
    ("historical_false_positive_rate", 1 / 10), ("fix_generator_certainty", 4 / 10)]

def suggestedFix (switchNode : AstNode) : SuggestedFix where
  originalCode := AstGraph.offendingText switchNode
  suggestedCode := "replace the switch with an if statement, or add more clauses"
  rationale := "Use switch only when it meaningfully improves readability over if."
  confidenceScore := 4 / 10

/-- The labels of a switch inside count too. -/
def clauseCount (switchNode : AstNode) (graph : AstGraph) : Nat :=
  (graph.descendants switchNode.nodeId).countP isCaseLabel

def report (context : RuleContext) (switchNode : AstNode) : RuleResult :=
  makeResult ruleId context (graph context) switchNode (explanation (clauseCount switchNode (graph context)))
    riskDescription confidenceFactors (82 / 100) (some (suggestedFix switchNode))

def withFewClauses (graph : AstGraph) : List AstNode :=
  (graph.nodesByKind .switchStmt).filter fun switchNode => clauseCount switchNode graph < 2

def detect (context : RuleContext) : List RuleResult := (withFewClauses (graph context)).map (report context)

end Rule16_6

namespace Rule15_7
open BaseRulePlugin

def ruleId : String := "misra-c2012-rule-15-7"

def explanation : String := "This if-else-if chain has no final else clause."

def riskDescription : String := "A missing final else silently drops the case where none of the conditions hold."

def confidenceFactors : List (String × Rat) :=
  [("ast_match_specificity", 85 / 100), ("type_information_complete", 8 / 10), ("macro_clarity", 9 / 10),
    ("historical_false_positive_rate", 15 / 100), ("fix_generator_certainty", 5 / 10)]

def suggestedFix : SuggestedFix where
  originalCode := "if (...) { ... } else if (...) { ... }"
  suggestedCode := "if (...) { ... } else if (...) { ... } else { /* handle the remaining case */ }"
  rationale := "Add a final else to handle every remaining case explicitly."
  confidenceScore := 5 / 10

def report (context : RuleContext) (chainEnd : AstNode) : RuleResult :=
  makeResult ruleId context (graph context) chainEnd explanation riskDescription confidenceFactors (78 / 100)
    (some suggestedFix)

/-- The last of three children is the else branch. -/
def elseBranch (graph : AstGraph) (node : AstNode) : Option AstNode :=
  if (graph.children node.nodeId).length < 3 then none else (graph.children node.nodeId).getLast?

def isElseBranch (node parent : AstNode) (graph : AstGraph) : Bool :=
  (elseBranch graph parent).any fun branch => branch.nodeId = node.nodeId

/-- The search does not end when an `if` stands below itself. -/
def finalElseIf (graph : AstGraph) : Nat → Bool → AstNode → Option (Option AstNode)
  | 0, _, _ => none
  | fuel + 1, foundChain, current =>
      match (elseBranch graph current).filter fun branch => branch.nodeKind = .ifStmt with
      | none => some (if foundChain then some current else none)
      | some branch => finalElseIf graph fuel true branch

def hasFinalElse (node : AstNode) (graph : AstGraph) : Bool :=
  (elseBranch graph node).any fun branch => branch.nodeKind ≠ .ifStmt

/-- An `else if` is left to the first `if` of its chain. -/
def continuesChain (graph : AstGraph) (node : AstNode) : Bool :=
  (graph.get node.parentId).any fun parent => parent.nodeKind = .ifStmt && isElseBranch node parent graph

/-- In a forest the node count is enough fuel. -/
def chainEnd (graph : AstGraph) (node : AstNode) : Option (Option AstNode) :=
  if continuesChain graph node then some none
  else (finalElseIf graph graph.nodes.length false node).map fun found =>
    found.filter fun last => !hasFinalElse last graph

def offending (graph : AstGraph) : Option (List AstNode) :=
  ((graph.nodesByKind .ifStmt).mapM (chainEnd graph)).map fun ends => ends.filterMap id

def detect (context : RuleContext) : Option (List RuleResult) :=
  (offending (graph context)).map fun nodes => nodes.map (report context)

end Rule15_7

namespace Rule15_2
open BaseRulePlugin

def ruleId : String := "misra-c2012-rule-15-2"

/-- A label without a name has the empty name here, and of the labels of one name the last one counts. -/
def labelsByName (functionNode : AstNode) (graph : AstGraph) : OrderedDict String AstNode :=
  (CFGBuilder.labels functionNode graph).foldl (fun labels label => labels.insert (label.property "name" "") label) .empty

/-- This is the chain of the ids above the node. -/
def enclosingScopeChain (node : AstNode) (graph : AstGraph) : List String :=
  graph.climb (graph.nodes.length + 1) node.parentId

def crosses (graph : AstGraph) (goto label : AstNode) : Bool :=
  label.parentId ∉ goto.parentId :: enclosingScopeChain goto graph

def gotoLabelPairsCrossingScope (functionNode : AstNode) (graph : AstGraph) : List (AstNode × AstNode) :=
  (CFGBuilder.gotoTargets functionNode graph).filterMap fun goto =>
    ((labelsByName functionNode graph).get? (targetLabel goto)).bind fun label =>
      if crosses graph goto label then some (goto, label) else none

def explanation (targetName : String) : String :=
  "'goto " ++ targetName ++ "' jumps into a block that does not enclose it."

def riskDescription : String :=
  "Jumping into a nested block skips that block's own initialization, which is unsound."

def confidenceFactors : List (String × Rat) :=
  [("ast_match_specificity", 85 / 100), ("type_information_complete", 75 / 100), ("macro_clarity", 9 / 10),
    ("historical_false_positive_rate", 1 / 10), ("fix_generator_certainty", 2 / 10)]

def report (context : RuleContext) (goto : AstNode) : RuleResult :=
  makeResult ruleId context (graph context) goto (explanation (targetLabel goto)) riskDescription confidenceFactors
    (82 / 100)

def offending (graph : AstGraph) : List (AstNode × AstNode) :=
  (graph.nodesByKind .functionDecl).flatMap fun functionNode => gotoLabelPairsCrossingScope functionNode graph

def detect (context : RuleContext) : List RuleResult :=
  (offending (graph context)).map fun pair => report context pair.1

end Rule15_2

namespace Rule15_3
open BaseRulePlugin

def ruleId : String := "misra-c2012-rule-15-3"

def explanation (labelName : String) : String :=
  "Label '" ++ labelName ++
    "' is declared in a block that does not enclose one of the goto statements referencing it."

def riskDescription : String :=
  "A goto targeting this label would skip this block's own initialization, which is unsound."

def report (context : RuleContext) (label : AstNode) : RuleResult :=
  makeResult ruleId context (graph context) label (explanation (label.property "name" "")) riskDescription
    Rule15_2.confidenceFactors (82 / 100)

/-- The pairs are those of the rule on gotos. -/
def detect (context : RuleContext) : List RuleResult :=
  (Rule15_2.offending (graph context)).map fun pair => report context pair.2

end Rule15_3

namespace Rule2_6
open BaseRulePlugin

def ruleId : String := "misra-c2012-rule-2-6"

def explanation (name : String) : String := "Label '" ++ name ++ "' is declared but never referenced by a goto."

def riskDescription : String := "Unused labels are dead control-flow surface."

def confidenceFactors : List (String × Rat) :=
  [("ast_match_specificity", 95 / 100), ("type_information_complete", 9 / 10), ("macro_clarity", 9 / 10),
    ("historical_false_positive_rate", 5 / 100), ("fix_generator_certainty", 5 / 10)]

def suggestedFix (label : AstNode) : SuggestedFix where
  originalCode := AstGraph.offendingText label
  suggestedCode := "remove the unused label"
  rationale := "Delete labels that no goto references."
  confidenceScore := 5 / 10

def report (context : RuleContext) (label : AstNode) : RuleResult :=
  makeResult ruleId context (graph context) label (explanation (label.property "name" "")) riskDescription
    confidenceFactors (88 / 100) (some (suggestedFix label))

/-- A label without a name is not checked. -/
def unusedLabels (graph : AstGraph) (functionNode : AstNode) : List AstNode :=
  (CFGBuilder.labels functionNode graph).filter fun label =>
    label.property "name" "" ≠ "" &&
      !((CFGBuilder.gotoTargets functionNode graph).map targetLabel).contains (label.property "name" "")

def detect (context : RuleContext) : List RuleResult :=
  (((graph context).nodesByKind .functionDecl).flatMap (unusedLabels (graph context))).map (report context)

end Rule2_6

end MisraPlatform

import MisraPlatform.Construction.CfgBuilder
import MisraPlatform.Proof.Descendants
import MisraPlatform.Semantics.Execution
import MisraPlatform.Semantics.FlowPaths
import MisraPlatform.Semantics.Traversals

/-
This file states which statements terminate a loop, which gotos jump into a scope, when control can run off the
end of a clause, which `if` statements form a chain, which switch a label belongs to, and when the structural query
for unreachable statements is sound.
-/

namespace MisraPlatform
open CFGEngine CFGBuilder

section Loops

variable (graph : AstGraph)

/-- The innermost loop or switch around the `break` is this one. -/
structure BreaksFrom (construct statement : AstNode) : Prop where
  kind : statement.nodeKind = .breakStmt
  below : graph.Below construct statement
  innermost : ∀ inner, takesBreaks inner = true → graph.Below construct inner → ¬ graph.Below inner statement

/-- The label of the `goto` stands in the loop. -/
def TargetInside (loopNode statement : AstNode) : Prop :=
  ∃ label, label.nodeKind = .labelStmt ∧ graph.Below loopNode label ∧ labelName label = targetLabel statement

/-- The `goto` stands in the loop and its label outside. -/
structure JumpsOut (loopNode statement : AstNode) : Prop where
  kind : statement.nodeKind = .gotoStmt
  below : graph.Below loopNode statement
  outside : ¬ TargetInside graph loopNode statement

/-- The list has each statement that terminates the loop once and no other statement. -/
def TerminatorsExact (loopNode : AstNode) : Prop :=
  (loopTerminationStatements loopNode graph).Nodup ∧ ∀ statement,
    statement ∈ loopTerminationStatements loopNode graph ↔
      BreaksFrom graph loopNode statement ∨ JumpsOut graph loopNode statement

/-- A `break` and a `goto` have no statements inside. -/
def JumpsAreLeaves : Prop :=
  ∀ jump statement, leavesLoop jump = true → leavesLoop statement = true → ¬ graph.Below jump statement

/-- A loop or switch that is no child of the loop stands around the statement. -/
def Deep (loopNode statement : AstNode) : Prop :=
  ∃ inner, takesBreaks inner = true ∧ graph.Below loopNode inner ∧ inner ∉ graph.children loopNode.nodeId ∧
    graph.Below inner statement

/-- No child of the loop has a `break` of its own, and of the gotos in the loop exactly those stay inside it
that stand deep. -/
structure Shallow (loopNode : AstNode) : Prop where
  breaks : ∀ child ∈ graph.children loopNode.nodeId, takesBreaks child = true →
    ∀ statement, ¬ BreaksFrom graph child statement
  gotos : ∀ statement, statement.nodeKind = .gotoStmt → graph.Below loopNode statement →
    (Deep graph loopNode statement ↔ TargetInside graph loopNode statement)

end Loops

section Gotos

variable (graph : AstGraph)

/-- The label is the only one of the function with the name that the goto has. -/
structure JumpsTo (functionNode goto label : AstNode) : Prop where
  jumps : goto.nodeKind = .gotoStmt
  marks : label.nodeKind = .labelStmt
  gotoBelow : graph.Below functionNode goto
  labelBelow : graph.Below functionNode label
  named : label.property "name" "" = targetLabel goto
  only : ∀ other, other.nodeKind = .labelStmt → graph.Below functionNode other →
    other.property "name" "" = targetLabel goto → other = label

/-- Every block around the label is one around the goto. -/
def InScope (goto label : AstNode) : Prop :=
  ∀ block, block.nodeKind = .compoundStmt → graph.Below block label → graph.Below block goto

/-- No function stands inside another. -/
def FunctionsApart : Prop :=
  ∀ outer ∈ graph.nodesByKind .functionDecl, ∀ inner ∈ graph.nodesByKind .functionDecl, ¬ graph.Below outer inner

/-- The pairs are gotos with labels of their names that stand in a node which is not above the goto. A goto with one
label is in a pair when the label is out of scope, or when it stands in a label or case that is not above the goto. -/
structure Crossings (pairs : List (AstNode × AstNode)) : Prop where
  named : ∀ pair ∈ pairs, ∃ functionNode ∈ graph.nodesByKind .functionDecl,
    pair.1.nodeKind = .gotoStmt ∧ pair.2.nodeKind = .labelStmt ∧ graph.Below functionNode pair.1 ∧
      graph.Below functionNode pair.2 ∧ pair.2.property "name" "" = targetLabel pair.1
  outside : ∀ pair ∈ pairs, ∀ parent, graph.ParentOf parent pair.2 → ¬ graph.Below parent pair.1
  once : FunctionsApart graph → (pairs.map Prod.fst).Nodup
  only : ∀ functionNode ∈ graph.nodesByKind .functionDecl, ∀ goto label parent,
    JumpsTo graph functionNode goto label → graph.ParentOf parent label →
      ((goto, label) ∈ pairs ↔
        ¬ InScope graph goto label ∨ parent.nodeKind ≠ .compoundStmt ∧ ¬ graph.Below parent goto)

end Gotos

end MisraPlatform

namespace MisraPlatform
open CFGBuilder

/-- Control can start at the list and fall off its end. A jump out of the list does not come back. -/
def RunsOff (code : Code) : Prop := ∃ trace, Executes code trace (.left .fellOff)

/-- These are the statements of the list that have statements below them. -/
def Code.nested : Code → List Code
  | .nil => []
  | .simple _ rest => rest.nested
  | .compound statement body rest => .compound statement body .nil :: rest.nested
  | .ifStmt statement thenBranch elseBranch rest =>
      .ifStmt statement thenBranch elseBranch .nil :: rest.nested
  | .loop statement body rest => .loop statement body .nil :: rest.nested
  | .switch statement groups rest => .switch statement groups .nil :: rest.nested
  | .bareSwitch statement rest => .bareSwitch statement .nil :: rest.nested

section Switches

variable (graph : AstGraph) (switchNode : AstNode)

/-- The body of the switch is a list of case groups, and no statement in it is a goto label. -/
structure FlatSwitch (groups : Groups) : Prop where
  reads : (Code.switch switchNode groups .nil).Reads graph [switchNode]
  unlabelled : ∀ statement ∈ groups.nodes, statement.nodeKind ≠ .labelStmt

/-- The label is returned exactly if its clause is not an empty one before another and control can run off its end. -/
def ClauseExact (label : AstNode) (body : Code) (more : Groups) : Prop :=
  label ∈ switchBlocksWithoutTerminator switchNode graph ↔
    (body ≠ .nil ∨ more = .nil) ∧ RunsOff (.simple label body)

/-- Control can run off a clause exactly if its label is returned and no nested statement of it stops control. -/
structure ClausesReported (groups : Groups) : Prop where
  labels : ∀ label ∈ switchBlocksWithoutTerminator switchNode graph,
    ∃ body more, Groups.IsTail (.cons label body more) groups
  falls : ∀ label body more, Groups.IsTail (.cons label body more) groups →
    (RunsOff (.simple label body) ↔ label ∈ switchBlocksWithoutTerminator switchNode graph ∧
      ∀ statement ∈ body.nested, RunsOff statement)

end Switches

/-! ### Chains of `if` statements -/

section Chains

variable (graph : AstGraph)

def HasElse (node branch : AstNode) : Prop :=
  ∃ condition thenBranch, graph.children node.nodeId = [condition, thenBranch, branch]

/-- The children of an `if` are its condition, its first branch and perhaps its else branch. -/
def IfsLaidOut : Prop :=
  ∀ node ∈ graph.nodesByKind .ifStmt,
    (∃ condition thenBranch, graph.children node.nodeId = [condition, thenBranch]) ∨
      ∃ branch, HasElse graph node branch

/-- The second `if` is the else branch of the first one, without braces. -/
structure ElseIf (first second : AstNode) : Prop where
  present : first ∈ graph.nodes
  firstKind : first.nodeKind = .ifStmt
  secondKind : second.nodeKind = .ifStmt
  branch : HasElse graph first second

/-- The chain has two links or more and goes on at neither end. -/
structure MaximalChain (first last : AstNode) : Prop where
  links : Relation.TransGen (ElseIf graph) first last
  starts : ∀ before, ¬ ElseIf graph before first
  ends : ∀ behind, ¬ ElseIf graph last behind

/-- The search ends, and the last `if` of each maximal chain without a final else is reported once. -/
structure ChainsReported (context : RuleContext) (nodes : List AstNode) : Prop where
  detected : Rule15_7.detect context = some (nodes.map (Rule15_7.report context))
  once : nodes.Nodup
  reported : ∀ node, node ∈ nodes ↔ (∃ first, MaximalChain ⟨context.astNodes⟩ first node) ∧
    ∀ branch, ¬ HasElse ⟨context.astNodes⟩ node branch

/-- An `if` in a first branch and an `if` between braces continue no chain. -/
structure StartsChains : Prop where
  thenBranch : ∀ node ∈ graph.nodesByKind .ifStmt, ∀ condition inner rest,
    graph.children node.nodeId = condition :: inner :: rest → ∀ before, ¬ ElseIf graph before inner
  braced : ∀ block ∈ graph.nodesByKind .compoundStmt, ∀ inner ∈ graph.children block.nodeId,
    ∀ before, ¬ ElseIf graph before inner

end Chains

open CFGEngine

/-! ### Labels of switches -/

section Labels

variable (graph : AstGraph)

/-- The innermost switch around the label is this one. -/
structure LabelOf (switchNode label : AstNode) : Prop where
  switch : switchNode.nodeKind = .switchStmt
  marks : isCaseLabel label = true
  below : graph.Below switchNode label
  innermost : ∀ inner, inner.nodeKind = .switchStmt → graph.Below switchNode inner → ¬ graph.Below inner label

/-- The label stands in a block, and the block in the switch. -/
structure DirectClause (switchNode label : AstNode) : Prop where
  switch : switchNode.nodeKind = .switchStmt
  marks : isCaseLabel label = true
  direct : ∃ body, body.nodeKind = .compoundStmt ∧ graph.ParentOf switchNode body ∧ graph.ParentOf body label

/-- The label is one of the switch or of a switch inside it. -/
def LabelWithin (switchNode label : AstNode) : Prop :=
  ∃ inner, graph.Under switchNode inner ∧ LabelOf graph inner label

/-- Every label is a clause of a switch. -/
def LabelsDirect : Prop :=
  ∀ label ∈ graph.nodes, isCaseLabel label = true → ∃ switchNode, DirectClause graph switchNode label

/-- The first default clause of the list has clauses before it and behind it. -/
structure Buried (clauses : List AstNode) (position : ℕ) (clause : AstNode) : Prop where
  here : clauses[position]? = some clause
  default : clause.nodeKind = .defaultStmt
  first : ∀ earlier < position, ∀ other, clauses[earlier]? = some other → other.nodeKind ≠ .defaultStmt
  after : 0 < position
  before : position + 1 < clauses.length

end Labels

open BaseRulePlugin in
/-- The labels that are no direct clauses are reported. A switch counts the labels of the switches inside as its own
when its clauses are counted and a default clause is looked for, and misses its own for one of theirs. -/
structure LabelsJudged (context : RuleContext) : Prop where
  misplaced : ∀ label, label ∈ Rule16_2.misplaced (graph context) ↔ label ∈ (graph context).nodes ∧
    isCaseLabel label = true ∧ ∀ switchNode, ¬ DirectClause (graph context) switchNode label
  withoutDefault : ∀ switchNode, switchNode ∈ Rule16_4.withoutDefault (graph context) ↔
    switchNode ∈ (graph context).nodesByKind .switchStmt ∧
      ∀ label, LabelWithin (graph context) switchNode label → label.nodeKind ≠ .defaultStmt
  missed : ∀ switchNode ∈ (graph context).nodesByKind .switchStmt,
    (∀ label, LabelOf (graph context) switchNode label → label.nodeKind ≠ .defaultStmt) →
      (switchNode ∉ Rule16_4.withoutDefault (graph context) ↔ ∃ inner label,
        (graph context).Below switchNode inner ∧ LabelOf (graph context) inner label ∧
          label.nodeKind = .defaultStmt)
  fewClauses : ∀ switchNode, switchNode ∈ Rule16_6.withFewClauses (graph context) ↔
    switchNode ∈ (graph context).nodesByKind .switchStmt ∧
      ∀ first second, LabelWithin (graph context) switchNode first →
        LabelWithin (graph context) switchNode second → first = second
  buried : ∀ result, result ∈ Rule16_5.detect context ↔
    ∃ switchNode ∈ (graph context).nodesByKind .switchStmt, ∃ body position clause,
      (bodyCandidates switchNode (graph context)).head? = some body ∧
        Buried (bodyClauses body (graph context)) position clause ∧
          result = Rule16_5.report context (bodyClauses body (graph context)) position clause

open BaseRulePlugin in
/-- If every label is a direct clause, then these clauses are all labels of a switch, and a switch with one block is
malformed when it has no label. -/
structure ClausesJudged (context : RuleContext) : Prop where
  silent : Rule16_2.detect context = [] ↔ LabelsDirect (graph context)
  direct : LabelsDirect (graph context) → ∀ switchNode label,
    LabelOf (graph context) switchNode label ↔ DirectClause (graph context) switchNode label
  malformed : LabelsDirect (graph context) → ∀ switchNode ∈ (graph context).nodesByKind .switchStmt,
    switchNode.truthy "switch_malformed" = false → (bodyCandidates switchNode (graph context)).length ≤ 1 →
      (switchNode ∈ Rule16_1.malformed (graph context) ↔
        ∀ label, ¬ LabelOf (graph context) switchNode label)

/-! ### Unreachable statements -/

/-- The statement stands behind a jump of its list, and no goto label stands between them. -/
def BehindJump (siblings : List AstNode) (statement : AstNode) : Prop :=
  ∃ front jump middle back, siblings = front ++ jump :: (middle ++ statement :: back) ∧
    isTerminator jump = true ∧ ∀ other ∈ middle ++ [statement], other.nodeKind ≠ .labelStmt

section Functions

variable (functionNode : AstNode) (graph : AstGraph) (body : Code) (cfg : ControlFlowGraph)

/-- No run of the body comes to the node, and no reachable block of the graph holds it. -/
def NeverReached (node : AstNode) : Prop :=
  ¬ Executable body node ∧ ∀ block, node ∈ cfg.statementsOf block → ¬ cfg.Reachable block

/-- No part of a reported statement is reachable, and no case label is reported. -/
structure UnreachableSound : Prop where
  dead : ∀ statement ∈ unreachableStatements functionNode graph, ∀ node,
    graph.Under statement node → NeverReached body cfg node
  cases_ : ∀ statement ∈ unreachableStatements functionNode graph, isCaseLabel statement = false

/-- No case label stands behind a jump, and no goto label inside a statement behind a jump is ever reached. -/
structure JumpsClosed : Prop where
  cases_ : ∀ block ∈ graph.descendants functionNode.nodeId, block.nodeKind = .compoundStmt →
    ∀ statement, BehindJump (graph.children block.nodeId) statement → isCaseLabel statement = false
  labels : ∀ block ∈ graph.descendants functionNode.nodeId, block.nodeKind = .compoundStmt →
    ∀ statement, BehindJump (graph.children block.nodeId) statement → ∀ node, graph.Under statement node →
      node.nodeKind = .labelStmt → NeverReached body cfg node

end Functions

end MisraPlatform

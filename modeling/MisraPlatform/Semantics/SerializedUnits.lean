import MisraPlatform.Construction.CfgEngine
import MisraPlatform.Construction.InitializationRules
import MisraPlatform.Construction.NodeRules
import MisraPlatform.Construction.StorageDurationRules
import MisraPlatform.Semantics.Evaluation
import MisraPlatform.Semantics.TranslationUnits

/-
This file is what the graphs and the rules promise about a serialized unit.
-/

namespace MisraPlatform
open Clang CFGEngine

/-- The first statement is a goto to the second one. -/
def Source.NamesLabel (goto label : Source) : Prop :=
  ∃ jump mark name, goto = .statement jump ∧ label = .statement mark ∧ jump.form = .gotoStmt name ∧
    mark.form = .labelStmt name

/-- The block of the goto has a goto edge to the block that begins with the label. -/
def ControlFlowGraph.LeadsTo (cfg : ControlFlowGraph) (goto label : AstNode) : Prop :=
  ∃ edge ∈ cfg.edges, edge.kind = .gotoEdge ∧ goto ∈ cfg.statementsOf edge.source ∧
    (cfg.statementsOf edge.target).head? = some label

/-- The statement stands in a reachable block. -/
def ControlFlowGraph.Reaches (cfg : ControlFlowGraph) (statement : AstNode) : Prop :=
  ∃ blockId, cfg.Reachable blockId ∧ statement ∈ cfg.statementsOf blockId

namespace AstSerializer

/-- The statement stands in the body of the function. -/
def InBody (spelling : DeclSpelling) (unit : TranslationUnit) (functionNode : AstNode)
    (emitted : Emitted) : Prop :=
  emitted ∈ handleTranslationUnit spelling unit ∧
    ∃ body ∈ (decoded spelling unit).children functionNode.nodeId, body.nodeKind = .compoundStmt ∧
      emitted.node ∈ (decoded spelling unit).descendants body.nodeId

/-- Every goto has its edge, and the labels of the reachable ones are reachable. -/
def GotosLinked (spelling : DeclSpelling) (unit : TranslationUnit) (functionNode : AstNode) : Prop :=
  ∃ cfg, build functionNode (decoded spelling unit) = some cfg ∧
    ∀ goto label, InBody spelling unit functionNode goto → InBody spelling unit functionNode label →
      goto.source.NamesLabel label.source →
        cfg.LeadsTo goto.node label.node ∧ (cfg.Reaches goto.node → cfg.Reaches label.node)

end AstSerializer
end MisraPlatform

namespace MisraPlatform
open Clang CFGEngine DataFlowEngineV2

namespace Clang

/-- The variable has automatic storage duration. -/
def DeclInfo.isAutomatic (info : DeclInfo) : Bool :=
  match info.form with
  | .var _ storageClass isLocalVarDecl _ _ =>
      isLocalVarDecl && storageClass ∈ [StorageClass.scNone, .scAuto, .scRegister]
  | _ => false

def DeclInfo.isLocalVarDecl (info : DeclInfo) : Bool :=
  match info.form with
  | .var _ _ isLocalVarDecl _ _ => isLocalVarDecl
  | _ => false

def DeclInfo.hasInit (info : DeclInfo) : Bool :=
  match info.form with
  | .var _ _ _ _ hasInit => hasInit
  | _ => false

/-- The function lists the variable among its declarations. -/
def TranslationUnit.HasLocal (unit : TranslationUnit) (function info : DeclInfo) : Prop :=
  function.canonical.isSome = true ∧ info.isLocalVarDecl = true ∧
    ∃ decls, (function, decls) ∈ Decl.contextsOf unit.visited ∧ info ∈ decls.map Decl.info

end Clang

/-- The address of the declaration that a reference leads to. -/
def Source.referenced (source : Source) : Option Nat :=
  match source with
  | .statement { form := .declRefExpr referenced _, .. } => some referenced.address
  | _ => none

namespace AstSerializer

/-- The node is that of the declaration. -/
def NodeOf (unit : TranslationUnit) (info : DeclInfo) (node : AstNode) : Prop :=
  ∃ emitted ∈ handleTranslationUnit ruleEngineSpelling unit, emitted.node = node ∧
    emitted.source = .declaration info

/-- The node is that of a reference to the declaration. -/
def RefersTo (unit : TranslationUnit) (node : AstNode) (info : DeclInfo) : Prop :=
  ∃ emitted ∈ handleTranslationUnit ruleEngineSpelling unit, emitted.node = node ∧
    emitted.source.referenced = some info.address

/-- The expression of the node has the type of an array. -/
def IsArrayNode (unit : TranslationUnit) (node : AstNode) : Prop :=
  ∃ emitted ∈ handleTranslationUnit ruleEngineSpelling unit, emitted.node = node ∧
    ∃ info, emitted.source = .statement info ∧ info.type.any QualType.isArray = true

/-- The node is the first operand of the other. -/
def IsFirstChild (unit : TranslationUnit) (inner outer : AstNode) : Prop :=
  ((decoded ruleEngineSpelling unit).children outer.nodeId).head? = some inner

/-- The node designates the variable of the reference or a part of it. An array decays before one of its
elements is selected. -/
inductive Designates (unit : TranslationUnit) (ref : AstNode) : AstNode → Prop
  | whole : Designates unit ref ref
  | part {inner outer : AstNode} (before : Designates unit ref inner) (first : IsFirstChild unit inner outer)
      (selects : outer.nodeKind ∈ [NodeKind.other "ParenExpr", .other "MemberExpr"]) :
      Designates unit ref outer
  | element {inner decayed outer : AstNode} (before : Designates unit ref inner)
      (array : IsArrayNode unit inner) (decays : IsFirstChild unit inner decayed)
      (kind : decayed.nodeKind = .other "ImplicitCastExpr") (first : IsFirstChild unit decayed outer)
      (selects : outer.nodeKind = .other "ArraySubscriptExpr") : Designates unit ref outer

/-- The variable of the reference or a part of it is stored to. -/
def Stores (unit : TranslationUnit) (ref : AstNode) : Prop :=
  ∃ target parent, Designates unit ref target ∧
    (decoded ruleEngineSpelling unit).get target.parentId = some parent ∧
    (isAssignment parent = true ∧ IsFirstChild unit target parent ∨
      parent.nodeKind = .unaryOperator ∧ opcode parent ∈ ["++", "--"])

/-- The value of the variable or of a part of it is used. The left side of `=` and the operand of `&` are
not. -/
def UsesValue (unit : TranslationUnit) (ref : AstNode) : Prop :=
  ∃ value parent, Designates unit ref value ∧ ¬ IsArrayNode unit value ∧
    (decoded ruleEngineSpelling unit).get value.parentId = some parent ∧
    parent.nodeKind ∉ [NodeKind.other "ParenExpr", .other "MemberExpr"] ∧
    ¬ (parent.nodeKind = .unaryOperator ∧ opcode parent = "&") ∧
    ¬ (isAssignment parent = true ∧ opcode parent = "=" ∧ IsFirstChild unit value parent)

/-- A path of the graph reads the variable before it stores to it. -/
def ReadsBeforeStore (unit : TranslationUnit) (header : ForHeader (decoded ruleEngineSpelling unit))
    (cfg : ControlFlowGraph) (info : DeclInfo) (ref : AstNode) : Prop :=
  RefersTo unit ref info ∧ UsesValue unit ref ∧
    ∃ blockId again actions order after, cfg.Trace header .entry false blockId again actions ∧
      cfg.Visit header again blockId (order ++ ⟨ref, .reads⟩ :: after) ∧
      ∀ action ∈ actions ++ order, Stores unit action.node → ¬ RefersTo unit action.node info

/-- The reference reads an automatic variable of a function that has no initializer. -/
def ReadsUninitialized (unit : TranslationUnit) (header : ForHeader (decoded ruleEngineSpelling unit))
    (ref : AstNode) : Prop :=
  ∃ function info functionNode cfg, unit.HasLocal function info ∧ info.isAutomatic = true ∧
    info.hasInit = false ∧ NodeOf unit function functionNode ∧
    build functionNode (decoded ruleEngineSpelling unit) = some cfg ∧
    ReadsBeforeStore unit header cfg info ref

/-- The rule reports every read of a variable without a value. -/
def ReadsReported (filePath : String) (unit : TranslationUnit)
    (header : ForHeader (decoded ruleEngineSpelling unit)) : Prop :=
  ∃ results, Rule9_1.detect ⟨filePath, (decoded ruleEngineSpelling unit).nodes⟩ = some results ∧
    ∀ ref, ReadsUninitialized unit header ref → ∃ result ∈ results, result.astNodeId = ref.nodeId

/-- No local with an initializer counts as uninitialized. -/
def InitializedSpared (unit : TranslationUnit) : Prop :=
  ∀ function info functionNode node, unit.HasLocal function info → info.hasInit = true →
    NodeOf unit function functionNode → NodeOf unit info node →
      node ∉ uninitializedLocalDecls functionNode (decoded ruleEngineSpelling unit)

end AstSerializer
end MisraPlatform

namespace MisraPlatform
open Clang DataFlowEngineV2

namespace Clang

/-- The variable is declared without a storage class or with `auto`. -/
def DeclInfo.isPlainLocal (info : DeclInfo) : Bool :=
  match info.form with
  | .var _ storageClass isLocalVarDecl _ _ =>
      isLocalVarDecl && storageClass ∈ [StorageClass.scNone, .scAuto]
  | _ => false

/-- The object is declared `extern`. -/
def DeclInfo.isExternObject (info : DeclInfo) : Bool :=
  match info.form with
  | .var _ storageClass _ _ _ => storageClass = .scExtern
  | _ => false

def DeclInfo.objectName (info : DeclInfo) : String :=
  match info.form with
  | .var name _ _ _ _ => name
  | _ => ""

/-- The statement is a reference by this name. -/
def StmtInfo.refersBy (info : StmtInfo) (name : String) : Bool :=
  match info.form with
  | .declRefExpr referenced _ => referenced.name = name
  | _ => false

/-- The loader visits these declarations of functions whose body refers to the name. -/
def TranslationUnit.usersOf (unit : TranslationUnit) (name : String) : List DeclInfo :=
  unit.visitedDecls.filter fun function =>
    (Stmt.allOf (unit.getBody function).toList).any fun statement => statement.refersBy name

end Clang

namespace AstSerializer

/-- The value of the expression is the address of the variable or of a part of it. -/
inductive YieldsAddress (unit : TranslationUnit) (info : DeclInfo) : AstNode → Prop
  | address {ref operand node : AstNode} (refers : RefersTo unit ref info)
      (designates : Designates unit ref operand) (first : IsFirstChild unit operand node)
      (kind : node.nodeKind = .unaryOperator) (takes : opcode node = "&") : YieldsAddress unit info node
  | decays {ref operand node : AstNode} (refers : RefersTo unit ref info)
      (designates : Designates unit ref operand) (array : IsArrayNode unit operand)
      (first : IsFirstChild unit operand node) (kind : node.nodeKind = .other "ImplicitCastExpr") :
      YieldsAddress unit info node
  | inside {inner node : AstNode} (yields : YieldsAddress unit info inner) (first : IsFirstChild unit inner node)
      (kind : node.nodeKind ∈ [NodeKind.other "ParenExpr", .other "ImplicitCastExpr", .other "CStyleCastExpr"]) :
      YieldsAddress unit info node

/-- The statement returns the address of an automatic variable of its function. -/
def ReturnsLocal (unit : TranslationUnit) (returnStmt : AstNode) : Prop :=
  ∃ function info functionNode value, unit.HasLocal function info ∧ info.isPlainLocal = true ∧
    NodeOf unit function functionNode ∧ returnStmt.nodeKind = .returnStmt ∧
    returnStmt ∈ (decoded ruleEngineSpelling unit).descendants functionNode.nodeId ∧
    IsFirstChild unit value returnStmt ∧ YieldsAddress unit info value

/-- The first rule reports every return of a local address. -/
def ReturnsReported (filePath : String) (unit : TranslationUnit) : Prop :=
  ∀ returnStmt, ReturnsLocal unit returnStmt →
    ∃ result ∈ Rule18_6.detect ⟨filePath, (decoded ruleEngineSpelling unit).nodes⟩,
      result.astNodeId = returnStmt.nodeId

/-- The second rule reports no object that is declared `extern`. -/
def ExternsSpared (filePath : String) (unit : TranslationUnit) : Prop :=
  ∀ info node, NodeOf unit info node → info.isExternObject = true →
    ∀ result ∈ Rule8_9.detect ⟨filePath, (decoded ruleEngineSpelling unit).nodes⟩,
      result.astNodeId ≠ node.nodeId

end AstSerializer
end MisraPlatform

/-! ### Rules on single nodes -/

namespace MisraPlatform
open Clang

/-- These rules look for a property that the serializer writes on no node. -/
def flagRules : List NodeRule :=
  [Rule1_3.rule, Rule7_2.rule, Rule8_1.rule, Rule8_10.rule, Rule8_11.rule, Rule12_4.rule, Rule13_2.rule,
    Rule17_3.rule, Rule17_5.rule, Rule17_6.rule, Rule19_2.rule, Rule21_14.rule, Rule21_19.rule, Rule22_1.rule,
    Rule22_2.rule, Rule22_3.rule, Rule22_4.rule, Rule22_7.rule, Rule22_8.rule, Rule22_9.rule, Rule22_10.rule]

/-- The last three look for a value that is never written, or for two properties that no node has both. -/
def unwrittenRules : List NodeRule := flagRules ++ [Rule4_1.rule, Rule7_1.rule, Rule21_13.rule]

namespace Clang

/-- A body stands under every visited declaration of its function, and the statements in preorder. -/
def TranslationUnit.visitedStatements (unit : TranslationUnit) : List StmtInfo :=
  unit.visitedDecls.flatMap fun info => Stmt.allOf (unit.getBody info).toList

namespace StmtForm

/-- The statement calls one of the functions by its name. -/
def calls (functions : List String) : StmtForm → Bool
  | .callExpr (some callee) _ _ => callee ∈ functions
  | _ => false

def hasLowercaseSuffix : StmtForm → Bool
  | .integerLiteral raw => raw.toList.contains 'l'
  | _ => false

def castsIncomplete : StmtForm → Bool
  | .cStyleCastExpr toIncomplete fromIncomplete => toIncomplete || fromIncomplete
  | _ => false

/-- A compound assignment is another class. -/
def isArithmetic : StmtForm → Bool
  | .binaryOperator false _ _ isAdditive isMultiplicative _ _ _ => isAdditive || isMultiplicative
  | _ => false

def isComma : StmtForm → Bool
  | .binaryOperator false opcode _ _ _ _ _ _ => opcode = ","
  | _ => false

def sizesDecayedArray : StmtForm → Bool
  | .unaryOperator opcode _ _ sizeofDecayedArray => opcode = "sizeof" && sizeofDecayedArray
  | _ => false

def isGoto : StmtForm → Bool
  | .gotoStmt _ => true
  | _ => false

end StmtForm
end Clang

open StmtForm in
/-- Each rule stands with the statements that violate it. -/
def statementRules : List (NodeRule × (StmtForm → Bool)) :=
  [(Rule21_3.rule, calls MALLOC_CALLS), (Rule21_6.rule, calls STDIO_CALLS), (Rule21_7.rule, calls ATO_CALLS),
    (Rule21_8.rule, calls ABORT_EXIT_CALLS), (Rule21_9.rule, calls BSEARCH_QSORT_CALLS),
    (Rule21_21.rule, calls ["system"]), (Rule7_3.rule, hasLowercaseSuffix), (Rule11_2.rule, castsIncomplete),
    (Rule12_1.rule, isArithmetic), (Rule12_3.rule, isComma), (Rule12_5.rule, sizesDecayedArray),
    (Rule15_1.rule, isGoto)]

/-- A result shows this place. -/
def RuleResult.place (result : RuleResult) : SourceRange where
  filePath := some result.filePath
  lineStart := result.lineStart
  lineEnd := result.lineEnd
  columnStart := result.columnStart
  columnEnd := result.columnEnd

/-- A range without a file is in the file of the unit. -/
def SourceRange.within (filePath : String) (range : SourceRange) : SourceRange :=
  { range with filePath := some (range.filePath.getD filePath) }

namespace AstSerializer

/-- Some rules are silent on every serialized unit, and the others report the statements that violate them, in
their order and at their places. -/
structure ReportsStatements (spelling : DeclSpelling) (unit : TranslationUnit) (filePath : String) : Prop where
  silent : ∀ rule ∈ unwrittenRules, rule.detect ⟨filePath, (decoded spelling unit).nodes⟩ = []
  reported : ∀ entry ∈ statementRules,
    (entry.1.detect ⟨filePath, (decoded spelling unit).nodes⟩).map RuleResult.place =
      (unit.visitedStatements.filter fun info => entry.2 info.form).map fun info => info.range.within filePath

end AstSerializer
end MisraPlatform

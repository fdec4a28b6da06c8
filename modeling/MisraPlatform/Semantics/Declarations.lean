import MisraPlatform.Construction.AstSerializer
import MisraPlatform.Construction.DeclarationRules
import MisraPlatform.Semantics.LinkedProject
import MisraPlatform.Semantics.Scoping

/-
This file states what the rules on declarations should report and which declarations hide which others.
-/

namespace MisraPlatform
open DataFlowEngineV2

section Units

variable (graph : AstGraph)

/-! ### Static declarations -/

/-- These are the functions and objects that are declared with the name. -/
def declarationsOf (name : String) : List AstNode :=
  graph.nodes.filter fun node => Rule8_8.isDefinitionKind node && node.property "name" "" = name

/-- At file scope the declarations of one name denote one entity. -/
def fileScopeDeclarations (name : String) : List AstNode :=
  (declarationsOf graph name).filter fun node => graph.isFileScope node.nodeId

/-- One of the declarations is static and another one is not. -/
def Mixed (decls : List AstNode) : Prop :=
  (∃ decl ∈ decls, SymbolIndex.storageClass decl = "static") ∧
    ∃ decl ∈ decls, SymbolIndex.storageClass decl ≠ "static"

instance (decls : List AstNode) : Decidable (Mixed decls) := inferInstanceAs (Decidable (_ ∧ _))

/-! ### Parameters -/

/-- These declarations put a name among the ordinary identifiers. -/
def ORDINARY_KINDS : List NodeKind :=
  [.varDecl, .parmVarDecl, .functionDecl, .other "TypedefDecl", .other "EnumConstantDecl"]

/-- Of the visible declarations of its name, a reference has the one of the innermost scope. -/
structure ResolvesTo (decl ref : AstNode) : Prop where
  reference : ref.nodeKind = .declRefExpr
  named : declRefName ref = declRefName decl
  visible : Visible graph decl ref
  innermost : ∀ other ∈ graph.nodes, other.nodeKind ∈ ORDINARY_KINDS → declRefName other = declRefName decl →
    Visible graph other ref → ∃ outer ∈ scopeOf graph other, ∃ scope ∈ scopeOf graph decl, InSubtree graph outer scope

/-- A reference in the body of the function has the parameter. -/
def UsesParam (functionNode param : AstNode) : Prop :=
  ∃ body ∈ graph.children functionNode.nodeId, body.nodeKind = .compoundStmt ∧
    ∃ ref, InSubtree graph body ref ∧ ResolvesTo graph param ref

/-- The parameter has a name and belongs to a function with a body. -/
structure IsNamedParam (functionNode param : AstNode) : Prop where
  function : functionNode ∈ graph.nodes
  kind : functionNode.nodeKind = .functionDecl
  body : graph.hasCompoundChild functionNode.nodeId = true
  child : param ∈ graph.children functionNode.nodeId
  paramKind : param.nodeKind = .parmVarDecl
  named : declRefName param ≠ ""

/-- A reference in the body of the function writes a variable that has the name of a parameter. -/
structure ModifiesParam (functionNode ref : AstNode) : Prop where
  reference : ref.nodeKind = .declRefExpr
  named : declRefName ref ≠ ""
  inside : ∃ statement ∈ CFGEngine.bodyStatements functionNode graph, InSubtree graph statement ref
  param : ∃ param ∈ graph.children functionNode.nodeId,
    param.nodeKind = .parmVarDecl ∧ declRefName param = declRefName ref
  writes : Effect.writes ∈ referenceEffects graph ref

/-- The reference is an operand of an assignment such as `+=`. -/
def CompoundOperand (ref : AstNode) : Prop :=
  ∃ parent, graph.get ref.parentId = some parent ∧ parent.nodeKind = .other "CompoundAssignOperator"

end Units

def ReportedAt (results : List RuleResult) (node : AstNode) : Prop :=
  ∃ result ∈ results, result.astNodeId = node.nodeId

/-! ### Non-defining declarations -/

namespace LinkageIndex

/-- A declaration without a file of its own stands in the file of the unit. -/
def Unit.sourceFile (unit : Unit) (node : AstNode) : String := node.sourceRange.filePath.getD unit.filePath

/-- The node declares an external identifier and has no body and no initializer. -/
structure Unit.DeclaresOnly (unit : Unit) (name : String) (node : AstNode) : Prop where
  external : ¬ unit.Internal name
  declares : unit.Declares name node
  bodiless : ¬ unit.HasBody node
  uninitialized : ¬ HasInitializer node

/-- The unit has a declaration without a body that is not declared static itself. -/
def Unit.LacksBody (unit : Unit) (name : String) : Prop :=
  ∃ node, unit.Declares name node ∧ ¬ isStatic node ∧ ¬ unit.HasBody node

variable (units : List Unit)

/-- Non-defining declarations of the name stand in two files. -/
def TwoFiles (name : String) : Prop :=
  ∃ first ∈ units, ∃ firstNode, first.DeclaresOnly name firstNode ∧
    ∃ second ∈ units, ∃ secondNode, second.DeclaresOnly name secondNode ∧
      first.sourceFile firstNode ≠ second.sourceFile secondNode

/-- The fix of the rule names the identifier. -/
def RetypingReported (unit : Unit) (name : String) : Prop :=
  ∃ result ∈ Rule8_5.detect (build units) unit.translationUnitId unit.context,
    result.suggestedFix = some (Rule8_5.suggestedFix name)

def FilesCounted (name : String) : Prop :=
  ∀ unit ∈ units, RetypingReported units unit name ↔ TwoFiles units name ∧ ∃ node, unit.DeclaresOnly name node

/-- Units and files are two in the same cases, and then the same units are concerned. -/
structure UnitsMatchFiles (name : String) : Prop where
  several : (TwoUnits units fun unit => unit.LacksBody name) ↔ TwoFiles units name
  concerned : TwoFiles units name → ∀ unit ∈ units, unit.LacksBody name → ∃ node, unit.DeclaresOnly name node

/-- Some unit declares the name at file scope. -/
def Indexed (name : String) : Prop := name ≠ "" ∧ SomeUnit units fun unit => ∃ node, unit.Declares name node

/-- The names differ behind the significant characters alone, and the smaller one comes first. -/
def Collide (first second : String) : Prop :=
  first < second ∧ first.toList.take Rule5_1.significantChars = second.toList.take Rule5_1.significantChars ∧
    Indexed units first ∧ Indexed units second

/-- The node is the first one of the unit that declares a function or an object and has the property. -/
def Unit.FirstDecl (unit : Unit) (property : AstNode → Prop) (node : AstNode) : Prop :=
  ∃ before after, unit.graph.nodes = before ++ node :: after ∧
    (node.nodeKind = .functionDecl ∨ node.nodeKind = .varDecl) ∧ property node ∧
      ∀ other ∈ before, other.nodeKind = .functionDecl ∨ other.nodeKind = .varDecl → ¬ property other

end LinkageIndex

end MisraPlatform

namespace MisraPlatform
open SymbolIndex

section Units

variable (graph : AstGraph)

/-- The parent of the first declaration is a strict ancestor of the parent of the second one, and file scope
encloses everything else. -/
def ScopeEncloses (outer inner : AstNode) : Prop :=
  outer.parentId ≠ inner.parentId ∧ (outer.parentId = "" ∨ outer.parentId ∈ graph.nodePath inner.parentId)

instance (outer inner : AstNode) : Decidable (ScopeEncloses graph outer inner) :=
  inferInstanceAs (Decidable (_ ∧ _))

/-- Two declarations share a name across nested scopes. -/
structure SharesName (outer inner : AstNode) : Prop where
  outerDeclared : outer ∈ graph.nodes ∧ isNamedDecl outer = true
  innerDeclared : inner ∈ graph.nodes ∧ isNamedDecl inner = true
  named : outer.property "name" "" = inner.property "name" ""
  encloses : ScopeEncloses graph outer inner

/-- The members of one aggregate have a name space of their own. -/
def SameNameSpace (first second : AstNode) : Prop :=
  namespaceOf first = namespaceOf second ∧ (namespaceOf first = .member → first.parentId = second.parentId)

/-- The pairs are those of one name space, each once. -/
def ShadowingExact : Prop :=
  (shadowingPairs graph).Nodup ∧ ∀ outer inner, (outer, inner) ∈ shadowingPairs graph ↔
    SharesName graph outer inner ∧ SameNameSpace outer inner

/-- The pairs share a name, and the rule picks those of the ordinary identifiers by their kinds. -/
structure NamesPaired : Prop where
  once : (shadowingPairs graph).Nodup
  shared : ∀ outer inner, (outer, inner) ∈ shadowingPairs graph ↔ SharesName graph outer inner
  reported : ∀ outer inner, (outer, inner) ∈ Rule5_3.offending graph ↔ SharesName graph outer inner ∧
    outer.nodeKind ∈ [NodeKind.varDecl, .parmVarDecl, .functionDecl] ∧
    inner.nodeKind ∈ [NodeKind.varDecl, .parmVarDecl]
  ordinary : ∀ outer inner, (outer, inner) ∈ Rule5_3.offending graph →
    namespaceOf outer = .ordinary ∧ namespaceOf inner = .ordinary

/-- Every node has an id, and the serializer lists a node before its children. -/
structure Serialized : Prop where
  named : ∀ node ∈ graph.nodes, node.nodeId ≠ ""
  ordered : ∀ node parent, [node, parent].Sublist graph.nodes → node.parentId ≠ parent.nodeId

end Units

/-! ### External definitions -/

namespace LinkageIndex

/-- The node defines an external identifier, and no declaration of it at file scope comes before. -/
structure Unit.DefinesUndeclared (unit : Unit) (node : AstNode) : Prop where
  named : node.property "name" "" ≠ ""
  declares : unit.Declares (node.property "name" "") node
  external : ¬ unit.Internal (node.property "name" "")
  defines : unit.HasBody node ∨ HasInitializer node
  first : ∀ earlier, unit.Declares (node.property "name" "") earlier →
    ¬ [earlier, node].Sublist unit.graph.nodes

/-- Exactly these definitions are reported, each once. -/
structure DefinitionsReported (unit : Unit) : Prop where
  once : (Rule8_4.offending unit.graph).Nodup
  reported : ∀ node, node ∈ Rule8_4.offending unit.graph ↔ unit.DefinesUndeclared node

/-- The definition is that of a function, and nothing else in the unit has the name, in no scope. -/
def Unit.AloneWithName (unit : Unit) (node : AstNode) : Prop :=
  node.nodeKind = .functionDecl ∧ ∀ other ∈ unit.graph.nodes,
    other.nodeKind = .functionDecl ∨ other.nodeKind = .varDecl →
      other.property "name" "" = node.property "name" "" → other = node

/-- An object has no compound child. -/
def Unit.ObjectsBodiless (unit : Unit) : Prop :=
  ∀ node ∈ unit.graph.nodes, node.nodeKind = .varDecl → unit.graph.hasCompoundChild node.nodeId = false

end LinkageIndex

/-! ### Typedefs -/

namespace Rule2_3

/-- Characters beyond ASCII may stand in identifiers. -/
def isIdentifierChar (char : Char) : Bool := char.isAlphanum || char = '_' || char = '$' || 128 ≤ char.toNat

/-- The name stands in the text with no identifier character before it or behind it. -/
def OccursWhole (name text : String) : Prop :=
  ∃ before behind, text.toList = before ++ name.toList ++ behind ∧
    before.getLast?.any isIdentifierChar = false ∧ behind.head?.any isIdentifierChar = false

theorem occursWhole_iff {name text : String} : OccursWhole name text ↔
    ∃ start ∈ List.range (text.toList.length + 1),
      text.toList = text.toList.take start ++ name.toList ++ text.toList.drop (start + name.toList.length) ∧
      (text.toList.take start).getLast?.any isIdentifierChar = false ∧
      (text.toList.drop (start + name.toList.length)).head?.any isIdentifierChar = false := by
  constructor
  · rintro ⟨before, behind, split, apart⟩
    have front : text.toList.take before.length = before := by simp [split]
    have back : text.toList.drop (before.length + name.toList.length) = behind := by
      rw [split, ← List.length_append, List.drop_left]
    refine ⟨before.length, ?_, by rw [front, back]; exact ⟨split, apart⟩⟩
    rw [List.mem_range, split, List.length_append, List.length_append]
    omega
  · rintro ⟨start, _, whole⟩
    exact ⟨_, _, whole⟩

instance (name text : String) : Decidable (OccursWhole name text) := decidable_of_iff' _ occursWhole_iff

/-- The node has the type of the name, or its typedef chain has the complete name. -/
def Uses (name : String) (node : AstNode) : Prop :=
  SymbolIndex.namesType name node = true ∨ OccursWhole name node.typedefChain

instance (name : String) (node : AstNode) : Decidable (Uses name node) := inferInstanceAs (Decidable (_ ∨ _))

variable (graph : AstGraph)

def UsedElsewhere (node : AstNode) : Prop :=
  ∃ other ∈ graph.nodes, other.nodeId ≠ node.nodeId ∧ Uses (node.property "name" "") other

/-- The typedef chain of another node contains the name, perhaps inside a longer one. -/
def MentionedElsewhere (node : AstNode) : Prop :=
  ∃ other ∈ graph.nodes, other.nodeId ≠ node.nodeId ∧
    (node.property "name" "").toList <:+: other.typedefChain.toList

/-- A typedef is reported exactly if no other node uses its name. -/
def TypedefsReported : Prop :=
  ∀ node, node ∈ offending graph ↔ node ∈ typedefs graph ∧ ¬ UsedElsewhere graph node

end Rule2_3

/-! ### Enumerators -/

namespace Rule8_12

/-- The properties of the enumerator are those that the serializer gives it. -/
def Records (node : AstNode) (value : Int) (isImplicit : Bool) : Prop :=
  node.flags = [] ∧ ∃ (info : Clang.DeclInfo) (name : String), info.form = .enumConstant name value !isImplicit ∧
    node.semanticProperties = AstSerializer.enrichDeclProperties info

variable (graph : AstGraph)

def Recorded : Prop := ∀ node ∈ enumerators graph, ∃ value isImplicit, Records node value isImplicit

/-- Another enumerator of the enum has the value. -/
def Shares (node : AstNode) (value : Int) (isImplicit : Bool) : Prop :=
  ∃ other ∈ enumerators graph, other ≠ node ∧ other.parentId = node.parentId ∧ Records other value isImplicit

/-- An implicit enumerator is reported, once, exactly if another one of its enum has its value. -/
structure EnumeratorsReported : Prop where
  once : (offending graph).Nodup
  reported : ∀ node, node ∈ offending graph ↔ node ∈ enumerators graph ∧
    ∃ value, Records node value true ∧ ∃ isImplicit, Shares graph node value isImplicit

/-- An implicit enumerator with an explicit value shares it with another implicit one. -/
def SharedImplicitly : Prop :=
  ∀ node ∈ enumerators graph, ∀ value, Records node value true → Shares graph node value false →
    Shares graph node value true

end Rule8_12

end MisraPlatform

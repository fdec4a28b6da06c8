import Mathlib.Logic.Relation
import MisraPlatform.Construction.LinkageAnalyzer
import MisraPlatform.Construction.RecursionCycles

/-
This file is the calls of a project, each resolved by the linkage of its name, and its external
definitions, functions with a body and objects with an initializer.
-/

namespace MisraPlatform.LinkageIndex

/-- An internal function belongs to its unit, an external one is shared by the project. -/
inductive LinkedFunction
  | internal (unitIndex : Nat) (name : String)
  | external (name : String)
  deriving DecidableEq

def LinkedFunction.name : LinkedFunction → String
  | .internal _ name => name
  | .external name => name

/-- A static declaration at file scope gives the name internal linkage in the unit. -/
def Unit.HasStatic (unit : Unit) (name : String) : Prop :=
  ∃ node ∈ unit.graph.nodes, node.nodeKind = .functionDecl ∧ node.property "name" "" = name ∧
    unit.graph.isFileScope node.nodeId = true ∧ node.property "storage_class" "external" = "static"

instance (unit : Unit) (name : String) : Decidable (unit.HasStatic name) :=
  inferInstanceAs (Decidable (∃ node ∈ unit.graph.nodes, _))

def Unit.resolve (unit : Unit) (unitIndex : Nat) (name : String) : LinkedFunction :=
  if unit.HasStatic name then .internal unitIndex name else .external name

/-- The node is a function definition of the unit at this position. -/
def Defines (units : List Unit) (unitIndex : Nat) (unit : Unit) (definition : AstNode) : Prop :=
  units[unitIndex]? = some unit ∧ definition ∈ unit.graph.nodes ∧ definition.nodeKind = .functionDecl ∧
    definition.property "name" "" ≠ "" ∧ unit.graph.hasCompoundChild definition.nodeId = true

/-- The body of the definition calls the named function directly. -/
def NamesCallee (unit : Unit) (definition : AstNode) (callee : String) : Prop :=
  callee ≠ "" ∧ ∃ call ∈ unit.graph.descendants definition.nodeId,
    call.nodeKind = .callExpr ∧ call.property "callee" "" = callee

/-- Some definition of the caller calls the callee, both resolved in the unit of the definition. -/
def LinkedCall (units : List Unit) (caller callee : LinkedFunction) : Prop :=
  ∃ unitIndex unit definition calleeName, Defines units unitIndex unit definition ∧
    NamesCallee unit definition calleeName ∧
    unit.resolve unitIndex (definition.property "name" "") = caller ∧
    unit.resolve unitIndex calleeName = callee

/-- Some definition of the caller's name names the callee, whatever functions the names stand for. -/
def NamedCall (units : List Unit) (caller callee : String) : Prop :=
  ∃ unitIndex unit definition, Defines units unitIndex unit definition ∧
    NamesCallee unit definition callee ∧ definition.property "name" "" = caller

/-- The function of the definition calls itself through a chain of direct calls. -/
def Recursive (units : List Unit) (unitIndex : Nat) (unit : Unit) (definition : AstNode) : Prop :=
  Relation.TransGen (LinkedCall units) (unit.resolve unitIndex (definition.property "name" ""))
    (unit.resolve unitIndex (definition.property "name" ""))

def Unit.context (unit : Unit) : RuleContext where
  filePath := unit.filePath
  astNodes := unit.graph.nodes

/-- The rule reports the definition when it runs on its unit with the index of the project. -/
def RecursionReported (units : List Unit) (unit : Unit) (definition : AstNode) : Prop :=
  Rule17_2.report unit.context definition ∈ Rule17_2.detect (build units) unit.context

/-- The reported definitions are the recursive ones. -/
def RecursionExact (units : List Unit) : Prop :=
  ∀ unitIndex unit definition, Defines units unitIndex unit definition →
    (RecursionReported units unit definition ↔ Recursive units unitIndex unit definition)

/-- A chain of names that returns to the name of a definition is a chain of functions that returns to it. -/
def NamedCyclesLinked (units : List Unit) : Prop :=
  ∀ unitIndex unit definition, Defines units unitIndex unit definition →
    Relation.TransGen (NamedCall units) (definition.property "name" "") (definition.property "name" "") →
      Recursive units unitIndex unit definition

end MisraPlatform.LinkageIndex

namespace MisraPlatform.LinkageIndex

/-- The node declares the name at file scope as a function or an object. -/
def Unit.Declares (unit : Unit) (name : String) (node : AstNode) : Prop :=
  node ∈ unit.graph.nodes ∧ (node.nodeKind = .functionDecl ∨ node.nodeKind = .varDecl) ∧
    node.property "name" "" = name ∧ unit.graph.isFileScope node.nodeId = true

def isStatic (node : AstNode) : Prop := node.property "storage_class" "external" = "static"

/-- One static declaration gives all declarations of the name in the unit internal linkage. -/
def Unit.Internal (unit : Unit) (name : String) : Prop := ∃ node, unit.Declares name node ∧ isStatic node

def Unit.DeclaresExternal (unit : Unit) (name : String) : Prop :=
  ¬ unit.Internal name ∧ ∃ node, unit.Declares name node

def Unit.HasBody (unit : Unit) (node : AstNode) : Prop :=
  node.nodeKind = .functionDecl ∧ unit.graph.hasCompoundChild node.nodeId = true

/-- The serializer writes the property for an object that has an initializer, and for no other. -/
def HasInitializer (node : AstNode) : Prop :=
  node.nodeKind = .varDecl ∧ node.truthy "has_initializer" = true

def Unit.DefinesExternal (unit : Unit) (name : String) : Prop :=
  ¬ unit.Internal name ∧ ∃ node, unit.Declares name node ∧ (unit.HasBody node ∨ HasInitializer node)

/-- The unit has a body for the name that is not declared static itself. -/
def Unit.DefinesBody (unit : Unit) (name : String) : Prop :=
  ∃ node, unit.Declares name node ∧ ¬ isStatic node ∧ unit.HasBody node

variable (units : List Unit)

def SomeUnit (property : Unit → Prop) : Prop := ∃ unit ∈ units, property unit

def TwoUnits (property : Unit → Prop) : Prop :=
  ∃ first ∈ units, ∃ second ∈ units, first.translationUnitId ≠ second.translationUnitId ∧
    property first ∧ property second

/-- The name is an identifier that some unit declares with external linkage. -/
def ExternalIdentifier (name : String) : Prop :=
  name ≠ "" ∧ SomeUnit units fun unit => unit.DeclaresExternal name

def Reported (results : List RuleResult) (explanation : String) : Prop :=
  ∃ result ∈ results, result.explanation = explanation

/-- The two queries and the two rules agree with the external definitions of the identifier. -/
structure DefinitionsExact (name : String) : Prop where
  duplicates : (LinkageAnalyzer.duplicateDefinitions (build units) name).isSome = true ↔
    TwoUnits units fun unit => unit.DefinesExternal name
  undefined : name ∈ LinkageAnalyzer.undefinedExternalReferences (build units) ↔
    ¬ SomeUnit units fun unit => unit.DefinesExternal name
  unique : ∀ unit ∈ units, Reported (Rule5_8.detect (build units) unit.context) (Rule5_8.explanation name) ↔
    (TwoUnits units fun other => other.DefinesExternal name) ∧ (Rule5_8.localDecl unit.context name).isSome = true
  once : ∀ unit ∈ units, Reported (Rule8_6.detect (build units) unit.context) (Rule8_6.explanation name) ↔
    (TwoUnits units fun other => other.DefinesExternal name) ∧ ∃ node, unit.Declares name node

/-- Bodies alone tell whether no, one or several units define the identifier. -/
def BodiesDecide (name : String) : Prop :=
  ((SomeUnit units fun unit => unit.DefinesBody name) ↔ SomeUnit units fun unit => unit.DefinesExternal name) ∧
    ((TwoUnits units fun unit => unit.DefinesBody name) ↔ TwoUnits units fun unit => unit.DefinesExternal name)

end MisraPlatform.LinkageIndex

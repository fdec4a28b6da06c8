import MisraPlatform.Construction.AliasAnalyzer
import MisraPlatform.Construction.ExpressionRules
import MisraPlatform.Construction.InitializationRules
import MisraPlatform.Construction.SymbolIndex
import MisraPlatform.Semantics.Scoping

/-
This file is the two ways to write a boolean property and the results that should not tell them apart.
-/

namespace MisraPlatform
open DataFlowEngineV2 AliasAnalyzer BaseRulePlugin

/-! ### Boolean properties -/

/-- The serializer writes these properties as the texts `true` and `false`. -/
def SERIALIZED_BOOLEANS : List String :=
  ["has_initializer", "is_parameter_decayed_array", "is_bit_field", "bit_field_is_signed",
    "is_implicit_enumerator", "has_u_suffix", "has_uppercase_u_suffix", "has_l_suffix",
    "uses_lowercase_l_suffix", "escape_sequence_terminated", "has_side_effect", "accesses_volatile",
    "sizeof_operand_is_decayed_array", "needs_explicit_parentheses", "is_sequence_point",
    "converts_to_incomplete", "converts_from_incomplete", "is_fully_bracketed", "has_designator",
    "duplicate_designator", "stream_opened_readonly", "accesses_volatile_object",
    "argument_may_be_negative_char"]

/-- The analyzers and the rules test these further properties for truth. -/
def TESTED_BOOLEANS : List String :=
  ["array_static", "call_argument_shape_mismatch", "cast_to_void", "compares_null_terminated_strings",
    "concurrent_stream_access", "controlling_expression_invariant", "declaration_incompatible",
    "double_release", "duplicate_implicit_enumerator", "dynamic_resource_leak", "eof_operand_modified",
    "errno_cleared", "errno_not_tested", "errno_tested_without_failure_check", "has_non_void_return",
    "implicit_declaration", "implicit_type", "incompatible_pointer_args", "invalid_bit_field_type",
    "invalid_pointer_argument", "is_array", "is_array_initializer", "is_composite_expression",
    "is_constant_unsigned", "is_flexible_array_member", "is_function", "is_inline",
    "is_pointer_arithmetic", "missing_array_size", "missing_u_suffix", "octal_nonzero_constant",
    "offset_exceeds_array_size", "pointer_arithmetic_out_of_bounds", "pointer_should_be_const",
    "removes_qualifier", "requires_errno_clear", "returned_pointer_missing_const",
    "size_exceeds_destination", "string_buffer_overflow", "switch_malformed", "undefined_behaviour",
    "unordered_evaluation", "unterminated_escape", "use_after_file_close",
    "use_after_string_invalidation", "wraps_on_evaluation", "writes_to_readonly_stream"]

def BOOLEAN_PROPERTIES : List String := SERIALIZED_BOOLEANS ++ TESTED_BOOLEANS

/-- Only these two texts stand for a boolean. -/
def booleanOf (text : String) : Option Bool :=
  if text = "true" then some true else if text = "false" then some false else none

def isBooleanText (entry : String × String) : Bool :=
  entry.1 ∈ BOOLEAN_PROPERTIES && (booleanOf entry.2).isSome

/-- The texts of the boolean properties become booleans. -/
def AstNode.replaceBooleans (node : AstNode) : AstNode :=
  { node with
    semanticProperties := node.semanticProperties.filter fun entry => !isBooleanText entry
    flags := node.flags ++ BOOLEAN_PROPERTIES.filterMap fun key =>
      ((node.semanticProperties.lookup key).bind booleanOf).map fun flag => (key, flag) }

def AstGraph.replaceBooleans (graph : AstGraph) : AstGraph := graph.relabel AstNode.replaceBooleans

def RuleContext.replaceBooleans (context : RuleContext) : RuleContext :=
  { context with astNodes := context.astNodes.map AstNode.replaceBooleans }

/-! ### Independence -/

/-- The results are the same for both ways to write the booleans. -/
structure BooleansIndependent (context : RuleContext) : Prop where
  bracketed : Rule9_2.detect context.replaceBooleans = Rule9_2.detect context
  designated : Rule9_4.detect context.replaceBooleans = Rule9_4.detect context
  declared : SymbolIndex.incompatibleDeclarationGroups (graph context.replaceBooleans) =
    (SymbolIndex.incompatibleDeclarationGroups (graph context)).map fun entry =>
      (entry.1, entry.2.map AstNode.replaceBooleans)
  controlled : ∀ node ∈ (graph context).nodes,
    ExpressionClassifier.controllingExpressionInvariant node.replaceBooleans (graph context.replaceBooleans) =
      ExpressionClassifier.controllingExpressionInvariant node (graph context)
  closed : ∀ functionNode ∈ (graph context).nodesByKind .functionDecl,
    useAfterFileCloseReads (analyze functionNode.replaceBooleans (graph context.replaceBooleans))
        functionNode.replaceBooleans (graph context.replaceBooleans) =
      (useAfterFileCloseReads (analyze functionNode (graph context)) functionNode (graph context)).map
        AstNode.replaceBooleans

/-! ### Denials -/

/-- The property has the text `false`, which counts as true. -/
def AstNode.denies (node : AstNode) (key : String) : Prop := node.value key = some (.text "false")

instance (node : AstNode) (key : String) : Decidable (node.denies key) :=
  inferInstanceAs (Decidable (_ = _))

/-- The property counts as true and has another value than the text `false`. -/
def AstNode.affirms (node : AstNode) (key : String) : Prop := node.truthy key = true ∧ ¬ node.denies key

instance (node : AstNode) (key : String) : Decidable (node.affirms key) :=
  inferInstanceAs (Decidable (_ ∧ _))

/-- One of the nodes affirms the property when one of them denies it. -/
def Outvoted (nodes : List AstNode) (key : String) : Prop :=
  (∃ node ∈ nodes, node.denies key) → ∃ node ∈ nodes, node.affirms key

instance (nodes : List AstNode) (key : String) : Decidable (Outvoted nodes key) :=
  inferInstanceAs (Decidable (_ → _))

/-- These are the named declarations of one name. -/
def namesakes (graph : AstGraph) (name : String) : List AstNode :=
  graph.nodes.filter fun node => SymbolIndex.isNamedDecl node && node.property "name" "" = name

/-- A statement may be marked itself or through its condition. -/
def controlNodes (node : AstNode) (graph : AstGraph) : List AstNode :=
  node :: (ExpressionClassifier.conditionOf node graph).toList

/-- An alias of the name has been passed to a closing call. -/
def ClosedIn (pointsTo : PointsTo) (graph : AstGraph) (before : List AstNode) (name : String) : Prop :=
  ∃ call ∈ before, ∃ stream ∈ closedNames call graph, name ∈ aliasesOf pointsTo stream

/-- This is a named reference that does not stand right under a closing call. -/
def isStreamUse (graph : AstGraph) (node : AstNode) : Prop :=
  node.nodeKind = .declRefExpr ∧ (graph.get node.parentId).any closesFile = false

/-- No text `false` decides a result. -/
structure DenialsHarmless (graph : AstGraph) : Prop where
  designators : ∀ node ∈ graph.nodesByKind (.other "InitListExpr"), ¬ node.denies "duplicate_designator"
  declarations : ∀ name, 2 ≤ (namesakes graph name).length →
    Outvoted (namesakes graph name) "declaration_incompatible"
  conditions : ∀ node ∈ graph.nodes, Outvoted (controlNodes node graph) "controlling_expression_invariant"
  uses : ∀ functionNode ∈ graph.nodesByKind .functionDecl, ∀ before ref after,
    linearize (functionNodes functionNode graph) = before ++ ref :: after → isStreamUse graph ref →
      (ref.denies "use_after_file_close" →
        declRefName ref ≠ "" ∧ ClosedIn (analyze functionNode graph.replaceBooleans) graph before
          (declRefName ref)) ∧
      (ref.truthy "use_after_file_close" = false → declRefName ref ≠ "" →
        (ClosedIn (analyze functionNode graph) graph before (declRefName ref) ↔
          ClosedIn (analyze functionNode graph.replaceBooleans) graph before (declRefName ref)))

end MisraPlatform

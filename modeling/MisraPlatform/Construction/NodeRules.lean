import MisraPlatform.Construction.DeclarationRules
import MisraPlatform.Construction.DirectiveRules
import MisraPlatform.Construction.ExpressionRules

/-
This file is the rules that test single nodes.
-/

namespace MisraPlatform

/-- A rule on single nodes reports those of its nodes that violate it. -/
structure NodeRule where
  ruleId : String
  select : AstGraph → List AstNode
  violates : AstNode → Bool
  report : AstNode → NodeReport

namespace NodeRule

/-- The nodes of each kind follow those of the kind before. -/
def ofKinds (kinds : List NodeKind) (graph : AstGraph) : List AstNode := kinds.flatMap graph.nodesByKind

def result (rule : NodeRule) (context : RuleContext) (report : NodeReport) : RuleResult :=
  BaseRulePlugin.makeResult rule.ruleId context (BaseRulePlugin.graph context) report.node report.explanation
    report.riskDescription report.confidenceFactors report.confidenceScore report.suggestedFix

def detect (rule : NodeRule) (context : RuleContext) : List RuleResult :=
  ((rule.select (BaseRulePlugin.graph context)).filter rule.violates).map fun node =>
    rule.result context (rule.report node)

end NodeRule

/-- The fix quotes the node. -/
def offendingFix (node : AstNode) (suggestedCode rationale : String) (confidenceScore : Rat) : SuggestedFix where
  originalCode := AstGraph.offendingText node
  suggestedCode := suggestedCode
  rationale := rationale
  confidenceScore := confidenceScore

open NodeRule (ofKinds)
open Rule8_12 (metaTrue)
open ExpressionClassifier (essentialTypeOf)

/-- This is a rule that only calls `_forbidden_call_results`. -/
def callRule (ruleId : String) (forbidden : List String) (explanation : String → String)
    (riskDescription : String) : NodeRule where
  ruleId := ruleId
  select := ofKinds [.callExpr]
  violates node := node.property "callee" "" ∈ forbidden
  report := forbiddenCallReport explanation riskDescription

def STDIO_CALLS : List String :=
  ["clearerr", "fclose", "feof", "ferror", "fflush", "fgetc", "fgetpos", "fgets", "fopen", "fprintf",
    "fputc", "fputs", "fread", "freopen", "fscanf", "fseek", "fsetpos", "ftell", "fwrite", "getc", "getchar",
    "gets", "perror", "printf", "putc", "putchar", "puts", "remove", "rename", "rewind", "scanf", "setbuf",
    "setvbuf", "snprintf", "sprintf", "sscanf", "tmpfile", "tmpnam", "ungetc", "vfprintf", "vfscanf",
    "vprintf", "vscanf", "vsnprintf", "vsprintf", "vsscanf"]

def ATO_CALLS : List String :=
  ["atof", "atoi", "atol", "atoll"]

def ABORT_EXIT_CALLS : List String :=
  ["abort", "exit", "getenv", "system"]

def MALLOC_CALLS : List String :=
  ["malloc", "calloc", "realloc", "free"]

def BSEARCH_QSORT_CALLS : List String :=
  ["bsearch", "qsort"]

def Rule21_3.rule : NodeRule :=
  callRule "misra-c2012-rule-21-3" MALLOC_CALLS
    (fun callee => "Call to dynamic-memory function '" ++ callee ++ "' is banned.")
    "Dynamic allocation is not permitted in this safety profile."

def Rule21_6.rule : NodeRule :=
  callRule "misra-c2012-rule-21-6" STDIO_CALLS
    (fun callee => "Call to stdio function '" ++ callee ++ "' is banned.")
    "Standard-library I/O should not be used in this safety profile."

def Rule21_7.rule : NodeRule :=
  callRule "misra-c2012-rule-21-7" ATO_CALLS
    (fun callee => "Call to banned conversion function '" ++ callee ++ "'.")
    "ato* functions provide no reliable error indication."

def Rule21_8.rule : NodeRule :=
  callRule "misra-c2012-rule-21-8" ABORT_EXIT_CALLS
    (fun callee => "Call to banned environment/termination function '" ++ callee ++ "'.")
    "Process termination and host-environment calls are not permitted."

def Rule21_9.rule : NodeRule :=
  callRule "misra-c2012-rule-21-9" BSEARCH_QSORT_CALLS
    (fun callee => "Call to banned sorting/search function '" ++ callee ++ "'.")
    "bsearch/qsort introduce callback-based control flow."

def Rule21_21.rule : NodeRule :=
  callRule "misra-c2012-rule-21-21" ["system"]
    (fun callee => "Call to banned function '" ++ callee ++ "'.")
    "system() shall not be used."

def Rule1_3.rule : NodeRule where
  ruleId := "misra-c2012-rule-1-3"
  select := AstGraph.nodes
  violates node := node.truthy "undefined_behaviour"
  report node :=
    { node := node
      explanation := "This construct has undefined or critical unspecified behaviour."
      riskDescription := "Undefined behaviour cannot be relied upon in safety-critical code."
      confidenceFactors := factors (9 / 10) (85 / 100) (85 / 100) (1 / 10) (3 / 10)
      confidenceScore := 85 / 100 }

def Rule4_1.rule : NodeRule where
  ruleId := "misra-c2012-rule-4-1"
  select := ofKinds [.other "CharacterLiteral", .other "StringLiteral"]
  violates node :=
    let terminated := node.value "escape_sequence_terminated"
    !(!metaTrue (node.value "unterminated_escape") && (terminated.isNone || metaTrue terminated))
  report node :=
    { node := node
      explanation := "A character or string literal contains an unterminated escape sequence."
      riskDescription := "Unterminated escapes are undefined behaviour."
      confidenceFactors := factors (95 / 100) (9 / 10) (95 / 100) (5 / 100) (5 / 10)
      confidenceScore := 9 / 10
      suggestedFix := some (offendingFix node "terminate every octal/hex escape sequence"
        "Escape sequences must be syntactically complete." (5 / 10)) }

def Rule7_1.rule : NodeRule where
  ruleId := "misra-c2012-rule-7-1"
  select := ofKinds [.other "IntegerLiteral"]
  violates node := node.property "literal_base" "" = "octal" || metaTrue (node.value "octal_nonzero_constant")
  report node :=
    { node := node
      explanation := "A non-zero octal integer constant is used."
      riskDescription := "Octal notation is error-prone and should be avoided."
      confidenceFactors := factors (95 / 100) (9 / 10) (95 / 100) (5 / 100) (6 / 10)
      confidenceScore := 9 / 10
      suggestedFix := some (offendingFix node "rewrite the constant in decimal or hexadecimal"
        "Use decimal or hex instead of octal notation." (6 / 10)) }

def Rule7_2.rule : NodeRule where
  ruleId := "misra-c2012-rule-7-2"
  select := ofKinds [.other "IntegerLiteral"]
  violates node :=
    metaTrue (node.value "missing_u_suffix") && "unsigned".toList.isPrefixOf (essentialTypeOf node).toList
  report node :=
    let essential := essentialTypeOf node
    { node := node
      explanation := "Unsigned integer constant lacks a u/U suffix (essential type '" ++ essential ++ "')."
      riskDescription := "Implicit typing of unsigned constants can cause unexpected conversions."
      confidenceFactors := factors (92 / 100) (88 / 100) (95 / 100) (8 / 100) (7 / 10)
      confidenceScore := 88 / 100
      suggestedFix := some (offendingFix node "append a u or U suffix to the literal"
        "Unsigned constants should spell out their unsignedness explicitly." (7 / 10)) }

def Rule7_3.rule : NodeRule where
  ruleId := "misra-c2012-rule-7-3"
  select := ofKinds [.other "IntegerLiteral"]
  violates node := metaTrue (node.value "uses_lowercase_l_suffix")
  report node :=
    { node := node
      explanation := "An integer constant uses the lowercase 'l' suffix."
      riskDescription := "Lowercase 'l' is visually indistinguishable from '1' in many fonts."
      confidenceFactors := factors (97 / 100) (9 / 10) (95 / 100) (3 / 100) (8 / 10)
      confidenceScore := 92 / 100
      suggestedFix := some (offendingFix node "use uppercase 'L' instead of lowercase 'l'"
        "Always use 'L' for long integer suffixes." (8 / 10)) }

def Rule8_1.rule : NodeRule where
  ruleId := "misra-c2012-rule-8-1"
  select := ofKinds [.varDecl, .functionDecl, .parmVarDecl]
  violates node := node.truthy "implicit_type"
  report node :=
    let name := node.property "name" "<unnamed>"
    { node := node
      explanation := "'" ++ name ++ "' is declared without an explicit type (implicit int)."
      riskDescription := "Implicit typing hides the author's intent and is easy to get wrong."
      confidenceFactors := factors (95 / 100) (7 / 10) (95 / 100) (5 / 100) (6 / 10)
      confidenceScore := 9 / 10
      suggestedFix := some {
        originalCode := name
        suggestedCode := "give '" ++ name ++ "' an explicit type"
        rationale := "Every declaration should spell out its type."
        confidenceScore := 6 / 10 } }

def Rule8_10.rule : NodeRule where
  ruleId := "misra-c2012-rule-8-10"
  select := ofKinds [.functionDecl]
  violates node := node.truthy "is_inline" && node.property "storage_class" "external" ≠ "static"
  report node :=
    let name := node.property "name" "<anonymous>"
    { node := node
      explanation := "Inline function '" ++ name ++ "' does not have internal (static) linkage."
      riskDescription := "Inconsistent inline definitions across TUs are undefined behaviour."
      confidenceFactors := factors (9 / 10) (85 / 100) (9 / 10) (1 / 10) (75 / 100)
      confidenceScore := 85 / 100
      suggestedFix := some {
        originalCode := "inline " ++ name
        suggestedCode := "static inline " ++ name
        rationale := "Add the static keyword to inline function declarations."
        confidenceScore := 75 / 100 } }

def Rule8_11.rule : NodeRule where
  ruleId := "misra-c2012-rule-8-11"
  select := ofKinds [.varDecl]
  violates node :=
    node.property "linkage" "" = "external" && node.isArray && metaTrue (node.value "missing_array_size")
  report node :=
    let name := node.property "name" "<array>"
    { node := node
      explanation := "Externally-linked array '" ++ name ++ "' lacks an explicit size."
      riskDescription := "Unsized extern arrays hide the intended bound from other translation units."
      confidenceFactors := factors (9 / 10) (85 / 100) (9 / 10) (1 / 10) (5 / 10)
      confidenceScore := 85 / 100
      suggestedFix := some (offendingFix node ("give extern array '" ++ name ++ "' an explicit bound")
        "Declare the array size at its external definition/declaration." (5 / 10)) }

def Rule11_2.rule : NodeRule where
  ruleId := "misra-c2012-rule-11-2"
  select := ofKinds [.other "CStyleCastExpr"]
  violates node :=
    metaTrue (node.value "converts_to_incomplete") || metaTrue (node.value "converts_from_incomplete")
  report node :=
    { node := node
      explanation := "Cast converts to or from a pointer to an incomplete type."
      riskDescription := "Incomplete-type conversions are unsafe and non-portable."
      confidenceFactors := factors (92 / 100) (88 / 100) (9 / 10) (1 / 10) (35 / 100)
      confidenceScore := 85 / 100
      suggestedFix := some (offendingFix node "complete the type before converting the pointer"
        "Avoid casts involving incomplete object types." (35 / 100)) }

def Rule12_1.rule : NodeRule where
  ruleId := "misra-c2012-rule-12-1"
  select := ofKinds [.binaryOperator]
  violates node := metaTrue (node.value "needs_explicit_parentheses")
  report node :=
    let opcode := node.property "opcode" ""
    { node := node
      explanation := "Operator precedence in this '" ++ opcode ++ "' expression should be made explicit."
      riskDescription := "Unclear precedence can hide the author's intended evaluation order."
      confidenceFactors := factors (8 / 10) (75 / 100) (85 / 100) (25 / 100) (45 / 100)
      confidenceScore := 72 / 100
      suggestedFix := some (offendingFix node "add parentheses to clarify operator precedence"
        "Make non-obvious precedence explicit with parentheses." (45 / 100)) }

def Rule12_3.rule : NodeRule where
  ruleId := "misra-c2012-rule-12-3"
  select := ofKinds [.binaryOperator]
  violates node := node.property "opcode" "" = ","
  report node :=
    { node := node
      explanation := "The comma operator is used to sequence expressions."
      riskDescription := "Comma-operator side effects are easy to overlook during review."
      confidenceFactors := factors (95 / 100) (9 / 10) (95 / 100) (1 / 10) (55 / 100)
      confidenceScore := 85 / 100
      suggestedFix := some (offendingFix node "split into separate statements"
        "Make each side effect an explicit, separate statement." (55 / 100)) }

def Rule12_4.rule : NodeRule where
  ruleId := "misra-c2012-rule-12-4"
  select := ofKinds [.binaryOperator]
  violates node := node.truthy "wraps_on_evaluation" &&
    ("unsigned".toList.isPrefixOf (essentialTypeOf node).toList || node.truthy "is_constant_unsigned")
  report node :=
    { node := node
      explanation := "Constant unsigned integer expression wraps on evaluation."
      riskDescription := "Wrap-around may indicate an incorrect constant value."
      confidenceFactors := factors (85 / 100) (8 / 10) (88 / 100) (2 / 10) (35 / 100)
      confidenceScore := 75 / 100
      suggestedFix := some (offendingFix node "use a wider essential type or a different literal"
        "Avoid wrap-around in constant unsigned expressions." (35 / 100)) }

def Rule12_5.rule : NodeRule where
  ruleId := "misra-c2012-rule-12-5"
  select := ofKinds [.unaryOperator]
  violates node :=
    node.property "opcode" "" = "sizeof" && metaTrue (node.value "sizeof_operand_is_decayed_array")
  report node :=
    { node := node
      explanation := "sizeof is applied to a decayed array function parameter."
      riskDescription := "The result is the pointer size, not the declared array extent."
      confidenceFactors := factors (95 / 100) (9 / 10) (95 / 100) (5 / 100) (5 / 10)
      confidenceScore := 9 / 10
      suggestedFix := some (offendingFix node
        "pass the array length as a separate parameter instead of using sizeof"
        "Do not use sizeof on a decayed array parameter." (5 / 10)) }

def Rule13_2.rule : NodeRule where
  ruleId := "misra-c2012-rule-13-2"
  select := ofKinds [.binaryOperator]
  violates node := node.truthy "unordered_evaluation"
  report node :=
    { node := node
      explanation := "Expression value depends on unspecified evaluation order."
      riskDescription := "Permitted evaluation orders may yield different results."
      confidenceFactors := factors (88 / 100) (8 / 10) (85 / 100) (12 / 100) (4 / 10)
      confidenceScore := 82 / 100
      suggestedFix := some (offendingFix node "split into separate statements with a single side effect each"
        "Do not rely on evaluation order between sub-expressions." (4 / 10)) }

def Rule15_1.rule : NodeRule where
  ruleId := "misra-c2012-rule-15-1"
  select := ofKinds [.gotoStmt]
  violates _ := true
  report node :=
    { node := node
      explanation := "A goto statement is used."
      riskDescription := "goto-based control flow is harder to verify and maintain."
      confidenceFactors := factors 1 1 (95 / 100) (5 / 100) (3 / 10)
      confidenceScore := 9 / 10
      suggestedFix := some (offendingFix node "restructure control flow using loops/conditionals"
        "Replace goto with structured control flow where feasible." (3 / 10)) }

def Rule17_3.rule : NodeRule where
  ruleId := "misra-c2012-rule-17-3"
  select := ofKinds [.callExpr]
  violates node := node.truthy "implicit_declaration"
  report node :=
    let callee := node.property "callee" "<callee>"
    { node := node
      explanation := "'" ++ callee ++ "' is called with no visible declaration, so it is implicitly declared."
      riskDescription := "An implicitly-declared function defaults to an assumed signature, which is unsound."
      confidenceFactors := factors (95 / 100) (7 / 10) (95 / 100) (5 / 100) (5 / 10)
      confidenceScore := 9 / 10
      suggestedFix := some {
        originalCode := callee ++ "(...)"
        suggestedCode := "add a prototype for '" ++ callee ++ "' before this call"
        rationale := "Every called function must have a visible declaration."
        confidenceScore := 5 / 10 } }

def Rule17_5.rule : NodeRule where
  ruleId := "misra-c2012-rule-17-5"
  select := ofKinds [.callExpr]
  violates node := metaTrue (node.value "call_argument_shape_mismatch")
  report node :=
    let callee := node.property "callee" "<callee>"
    { node := node
      explanation := "Call to '" ++ callee ++ "' passes an argument whose shape does not match the " ++
        "array parameter."
      riskDescription := "Mismatched array argument shapes can hide size/bounds errors."
      confidenceFactors := factors (85 / 100) (8 / 10) (85 / 100) (2 / 10) (4 / 10)
      confidenceScore := 78 / 100
      suggestedFix := some (offendingFix node "pass an argument matching the declared array parameter type"
        "Align call-site argument types with the prototype array parameter." (4 / 10)) }

def Rule17_6.rule : NodeRule where
  ruleId := "misra-c2012-rule-17-6"
  select := ofKinds [.parmVarDecl]
  violates node := node.truthy "is_array" && node.truthy "array_static"
  report node :=
    let name := node.property "name" "<param>"
    { node := node
      explanation := "Array parameter '" ++ name ++ "' is declared with the static keyword."
      riskDescription := "A static array-size hint constrains callers in a way that is easy to violate " ++
        "undetected."
      confidenceFactors := factors (95 / 100) (85 / 100) (95 / 100) (5 / 100) (7 / 10)
      confidenceScore := 9 / 10
      suggestedFix := some {
        originalCode := "static " ++ name ++ "[]"
        suggestedCode := "remove the static keyword from '" ++ name ++ "'"
        rationale := "Do not use the static array-parameter form."
        confidenceScore := 7 / 10 } }

def Rule19_2.rule : NodeRule where
  ruleId := "misra-c2012-rule-19-2"
  select := ofKinds [.other "RecordDecl"]
  violates node := node.property "record_kind" "" = "union"
  report node :=
    let name := node.property "name" "<anonymous>"
    { node := node
      explanation := "'union " ++ name ++ "' is declared."
      riskDescription := "Unions permit reading an object through a member other than the one last " ++
        "written, an unsafe type-punning idiom."
      confidenceFactors := factors (97 / 100) (9 / 10) (97 / 100) (3 / 100) (2 / 10)
      confidenceScore := 9 / 10
      suggestedFix := some {
        originalCode := "union " ++ name
        suggestedCode := "replace 'union " ++ name ++ "' with a struct, or a documented " ++
          "toolchain-specific alternative"
        rationale := "Avoid the union keyword entirely."
        confidenceScore := 2 / 10 } }

def CTYPE_CALLS : List String :=
  ["isalnum", "isalpha", "isblank", "iscntrl", "isdigit", "isgraph", "islower", "isprint", "ispunct",
    "isspace", "isupper", "isxdigit", "tolower", "toupper"]

def Rule21_13.rule : NodeRule where
  ruleId := "misra-c2012-rule-21-13"
  select := ofKinds [.callExpr]
  violates node := node.property "callee" "" ∈ CTYPE_CALLS && node.truthy "argument_may_be_negative_char"
  report node :=
    let callee := node.property "callee" ""
    { node := node
      explanation := "Argument to ctype function '" ++ callee ++ "' may be a negative char value."
      riskDescription := "ctype.h functions require unsigned char or EOF values."
      confidenceFactors := factors (9 / 10) (85 / 100) (9 / 10) (1 / 10) (5 / 10)
      confidenceScore := 85 / 100
      suggestedFix := some (offendingFix node "cast the argument to unsigned char before the ctype call"
        "Ensure ctype arguments are representable as unsigned char or EOF." (5 / 10)) }

def Rule21_14.rule : NodeRule where
  ruleId := "misra-c2012-rule-21-14"
  select := ofKinds [.callExpr]
  violates node := node.property "callee" "" = "memcmp" && node.truthy "compares_null_terminated_strings"
  report node :=
    { node := node
      explanation := "memcmp is used to compare null-terminated strings."
      riskDescription := "memcmp may read past the null terminator."
      confidenceFactors := factors (9 / 10) (85 / 100) (9 / 10) (1 / 10) (5 / 10)
      confidenceScore := 85 / 100
      suggestedFix := some (offendingFix node "use strcmp instead of memcmp for null-terminated strings"
        "strcmp respects the null terminator." (5 / 10)) }

def Rule21_19.rule : NodeRule where
  ruleId := "misra-c2012-rule-21-19"
  select := ofKinds [.declRefExpr, .unaryOperator]
  violates node := node.truthy "returned_pointer_missing_const"
  report node :=
    { node := node
      explanation := "Library-returned pointer is used without const qualification."
      riskDescription := "Writing through a library-returned pointer may be undefined behaviour."
      confidenceFactors := factors (9 / 10) (85 / 100) (88 / 100) (1 / 10) (5 / 10)
      confidenceScore := 85 / 100
      suggestedFix := some (offendingFix node "declare the pointer as const-qualified"
        "Treat library-returned pointers as read-only." (5 / 10)) }

def Rule22_1.rule : NodeRule where
  ruleId := "misra-c2012-rule-22-1"
  select := ofKinds [.callExpr, .functionDecl]
  violates node := node.truthy "dynamic_resource_leak"
  report node :=
    { node := node
      explanation := "A dynamically obtained resource is not explicitly released."
      riskDescription := "Resource leaks accumulate and can exhaust system memory."
      confidenceFactors := factors (85 / 100) (75 / 100) (85 / 100) (15 / 100) (4 / 10)
      confidenceScore := 78 / 100
      suggestedFix := some (offendingFix node "add an explicit free/close for every dynamic allocation"
        "Pair every dynamic resource acquisition with an explicit release." (4 / 10)) }

def Rule22_2.rule : NodeRule where
  ruleId := "misra-c2012-rule-22-2"
  select := ofKinds [.callExpr]
  violates node := node.truthy "double_release"
  report node :=
    let callee := node.property "callee" ""
    { node := node
      explanation := "'" ++ callee ++ "' releases a resource that was already released."
      riskDescription := "Double release corrupts heap state and is undefined behaviour."
      confidenceFactors := factors (9 / 10) (8 / 10) (85 / 100) (1 / 10) (45 / 100)
      confidenceScore := 85 / 100
      suggestedFix := some (offendingFix node "release the resource exactly once and null the pointer afterward"
        "Never call free/close on an already-released resource." (45 / 100)) }

def Rule22_3.rule : NodeRule where
  ruleId := "misra-c2012-rule-22-3"
  select := ofKinds [.callExpr]
  violates node := node.truthy "concurrent_stream_access"
  report node :=
    let callee := node.property "callee" ""
    { node := node
      explanation := "'" ++ callee ++ "' opens concurrent read/write access to the same file."
      riskDescription := "Concurrent streams on one file can corrupt buffered I/O state."
      confidenceFactors := factors (85 / 100) (75 / 100) (85 / 100) (15 / 100) (35 / 100)
      confidenceScore := 75 / 100
      suggestedFix := some (offendingFix node "use a single stream or serialize access to the file"
        "Avoid opening the same file for read and write simultaneously." (35 / 100)) }

def Rule22_4.rule : NodeRule where
  ruleId := "misra-c2012-rule-22-4"
  select := ofKinds [.callExpr]
  violates node := node.truthy "writes_to_readonly_stream"
  report node :=
    let callee := node.property "callee" "<call>"
    { node := node
      explanation := "Call to '" ++ callee ++ "' writes to a stream opened read-only."
      riskDescription := "Writing to a read-only stream is undefined behaviour."
      confidenceFactors := factors (92 / 100) (85 / 100) (9 / 10) (8 / 100) (45 / 100)
      confidenceScore := 88 / 100
      suggestedFix := some (offendingFix node
        "open the stream with a write-capable mode or use a separate output stream"
        "Only write to streams opened for writing." (45 / 100)) }

def Rule22_7.rule : NodeRule where
  ruleId := "misra-c2012-rule-22-7"
  select := ofKinds [.binaryOperator]
  violates node := node.truthy "eof_operand_modified"
  report node :=
    { node := node
      explanation := "EOF is compared with a modified stream-input return value."
      riskDescription := "Modified return values may not equal EOF even at end-of-file."
      confidenceFactors := factors (9 / 10) (85 / 100) (88 / 100) (1 / 10) (5 / 10)
      confidenceScore := 85 / 100
      suggestedFix := some (offendingFix node "compare EOF with the unmodified return value"
        "Do not transform the stream-input result before EOF comparison." (5 / 10)) }

def Rule22_8.rule : NodeRule where
  ruleId := "misra-c2012-rule-22-8"
  select := ofKinds [.callExpr]
  violates node := node.truthy "requires_errno_clear" && !node.truthy "errno_cleared"
  report node :=
    let callee := node.property "callee" ""
    { node := node
      explanation := "errno was not cleared before calling '" ++ callee ++ "'."
      riskDescription := "A stale errno may be misread as belonging to this call."
      confidenceFactors := factors (9 / 10) (8 / 10) (85 / 100) (1 / 10) (5 / 10)
      confidenceScore := 85 / 100
      suggestedFix := some (offendingFix node "errno = 0; /* then call */"
        "Clear errno immediately before an errno-setting library call." (5 / 10)) }

def Rule22_9.rule : NodeRule where
  ruleId := "misra-c2012-rule-22-9"
  select graph := graph.nodes.filter fun node =>
    node.nodeKind ∈ [NodeKind.compoundStmt, .ifStmt, .whileStmt, .forStmt, .doStmt]
  violates node := node.truthy "errno_not_tested"
  report node :=
    { node := node
      explanation := "errno was not tested after an errno-setting library call."
      riskDescription := "Untested errno may leave an error condition undetected."
      confidenceFactors := factors (88 / 100) (8 / 10) (85 / 100) (12 / 100) (5 / 10)
      confidenceScore := 82 / 100
      suggestedFix := some (offendingFix node "if (errno != 0) { /* handle error */ }"
        "Test errno against zero after every errno-setting call." (5 / 10)) }

def Rule22_10.rule : NodeRule where
  ruleId := "misra-c2012-rule-22-10"
  select := ofKinds [.binaryOperator, .ifStmt]
  violates node := node.truthy "errno_tested_without_failure_check"
  report node :=
    { node := node
      explanation := "errno is tested without first checking that the library call failed."
      riskDescription := "errno may contain a stale value when the call succeeded."
      confidenceFactors := factors (88 / 100) (8 / 10) (85 / 100) (12 / 100) (5 / 10)
      confidenceScore := 82 / 100
      suggestedFix := some (offendingFix node "check the return value for failure before testing errno"
        "Only inspect errno when the function return indicates an error." (5 / 10)) }

end MisraPlatform

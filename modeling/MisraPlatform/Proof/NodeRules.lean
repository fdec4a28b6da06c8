import MisraPlatform.Proof.DecodedAst
import MisraPlatform.Semantics.SerializedUnits

/-
This file shows which rules are silent on every serialized unit, and that others report exactly the statements that
violate them.
-/

namespace MisraPlatform
open Clang

namespace AstSerializer

variable {spelling : DeclSpelling} {unit : TranslationUnit}

/-! ### Properties of serialized nodes -/

/-- These properties come from the declaration or statement of a node. -/
def sourceProperties : Source → List (String × String)
  | .declaration info => enrichDeclProperties info
  | .statement info => enrichStmtProperties info.form

def sourceRange : Source → SourceRange
  | .declaration info => info.range
  | .statement info => info.range

theorem properties_entry (entry : Forest.Entry Source) :
    (entryNode spelling entry).semanticProperties = sourceProperties entry.label := by
  obtain ⟨index, parent, children, source⟩ := entry
  cases source <;> rfl

theorem flags_entry (entry : Forest.Entry Source) : (entryNode spelling entry).flags = [] := by
  obtain ⟨index, parent, children, source⟩ := entry
  rfl

theorem range_entry (entry : Forest.Entry Source) :
    (entryNode spelling entry).sourceRange = sourceRange entry.label := by
  obtain ⟨index, parent, children, source⟩ := entry
  cases source <;> rfl

/-- A declaration has no properties but these. -/
def declKeys : List String :=
  ["name", "storage_class", "storage_duration", "linkage", "has_initializer", "is_parameter_decayed_array",
    "is_bit_field", "bit_field_is_signed", "bit_field_type_category", "bit_field_width", "enumerator_value",
    "is_implicit_enumerator"]

/-- A statement of the form has no properties but these. -/
def formKeys : StmtForm → List String
  | .integerLiteral _ =>
      ["raw_literal_spelling", "literal_base", "has_u_suffix", "has_uppercase_u_suffix", "has_l_suffix",
        "uses_lowercase_l_suffix"]
  | .characterLiteral _ | .stringLiteral _ => ["raw_literal_spelling", "escape_sequence_terminated"]
  | .unaryOperator .. => ["opcode", "has_side_effect", "accesses_volatile", "sizeof_operand_is_decayed_array"]
  | .binaryOperator .. =>
      ["opcode", "precedence_level", "needs_explicit_parentheses", "is_sequence_point", "has_side_effect",
        "accesses_volatile"]
  | .cStyleCastExpr .. => ["converts_to_incomplete", "converts_from_incomplete"]
  | .initListExpr _ => ["is_fully_bracketed", "has_designator", "duplicate_designator"]
  | .callExpr .. => ["callee", "fopen_mode", "stream_opened_readonly", "call_argument_shapes"]
  | .declRefExpr .. =>
      ["name", "value_category", "accesses_volatile_object", "argument_may_be_negative_char"]
  | _ => []

theorem declKeys_written (info : DeclInfo) : ∀ property ∈ enrichDeclProperties info, property.1 ∈ declKeys := by
  unfold enrichDeclProperties varProperties
  cases info.form with
  | function | record | enum | typedef | label | indirectField => simp [declKeys]
  | fileScopeAsm | staticAssert | empty => simp
  | enumConstant => simp [declKeys]
  | field name bitField => cases bitField <;> simp [declKeys]
  | var name storageClass isLocalVarDecl linkage hasInit => cases hasInit <;> simp [declKeys]
  | parmVar name storageClass linkage hasInit =>
      cases hasInit <;> cases info.type.any QualType.isArray <;> simp [declKeys]

theorem formKeys_written (form : StmtForm) :
    ∀ property ∈ enrichStmtProperties form, property.1 ∈ formKeys form := by
  unfold enrichStmtProperties integerProperties
  cases form with
  | callExpr callee argumentTypes secondLiteral =>
      cases callee with
      | none => simp
      | some name =>
          unfold fopenProperties
          cases secondLiteral with
          | none => by_cases named : 0 < name.length <;> simp [named, formKeys]
          | some mode =>
              by_cases opens : name = "fopen" <;> by_cases named : 0 < name.length <;>
                simp [opens, named, formKeys]
  | unaryOperator opcode isIncrementDecrement derefsVolatile sizeofDecayedArray =>
      cases derefsVolatile <;> cases sizeofDecayedArray <;> simp [formKeys]
  | binaryOperator compoundAssignment opcode precedence isAdditive isMultiplicative isAssignment lhsVolatile
      rhsVolatile => cases lhsVolatile <;> cases rhsVolatile <;> simp [formKeys]
  | declRefExpr referenced isLValue =>
      dsimp only
      cases referenced.type.isVolatile <;>
        cases referenced.isParm && (referenced.type.isSignedInteger || referenced.type.isChar) <;>
          simp [formKeys]
  | _ => simp [formKeys]

theorem lookup_missing {properties : List (String × String)} {keys : List String} {key : String}
    (written : ∀ property ∈ properties, property.1 ∈ keys) (missing : key ∉ keys) :
    properties.lookup key = none := by
  apply List.lookup_eq_none_iff.mpr
  intro property listed
  have different : key ≠ property.1 := fun same => missing (same ▸ written property listed)
  simpa using different

/-- No node has a property outside of these. -/
def writtenKeys : List String :=
  declKeys ++ formKeys (.integerLiteral "") ++ formKeys (.stringLiteral "") ++
    formKeys (.unaryOperator "" false false false) ++
    formKeys (.binaryOperator false "" 0 false false false false false) ++
    formKeys (.cStyleCastExpr false false) ++ formKeys (.initListExpr false) ++ formKeys (.callExpr none [] none) ++
    formKeys (.declRefExpr ⟨0, "", { spelling := "" }, false⟩ false)

theorem formKeys_subset (form : StmtForm) : formKeys form ⊆ writtenKeys := by
  intro key listed
  cases form with
  | integerLiteral | characterLiteral | stringLiteral | unaryOperator | binaryOperator | cStyleCastExpr
  | initListExpr | callExpr | declRefExpr =>
      simp only [writtenKeys, List.mem_append]
      tauto
  | _ => cases listed

theorem value_entry (entry : Forest.Entry Source) (key : String) : (entryNode spelling entry).value key =
    ((sourceProperties entry.label).lookup key).map .text := by
  rw [AstNode.value, properties_entry]
  obtain ⟨index, parent, children, source⟩ := entry
  rfl

theorem property_entry (entry : Forest.Entry Source) (key default : String) :
    (entryNode spelling entry).property key default =
      ((sourceProperties entry.label).lookup key).getD default := by
  rw [AstNode.property, properties_entry]

theorem lookup_unwritten {key : String} (unwritten : key ∉ writtenKeys) (source : Source) :
    (sourceProperties source).lookup key = none := by
  cases source with
  | declaration info =>
      apply lookup_missing (declKeys_written info)
      intro listed
      apply unwritten
      simp only [writtenKeys, List.mem_append]
      tauto
  | statement info =>
      exact lookup_missing (formKeys_written info.form) fun listed => unwritten (formKeys_subset info.form listed)

theorem value_unwritten {key : String} (unwritten : key ∉ writtenKeys) (entry : Forest.Entry Source) :
    (entryNode spelling entry).value key = none := by
  rw [value_entry, lookup_unwritten unwritten]
  rfl

theorem truthy_unwritten {key : String} (unwritten : key ∉ writtenKeys) (entry : Forest.Entry Source) :
    (entryNode spelling entry).truthy key = false := by
  rw [AstNode.truthy, value_unwritten unwritten]
  rfl

theorem property_unwritten {key : String} (unwritten : key ∉ writtenKeys) (entry : Forest.Entry Source)
    (default : String) : (entryNode spelling entry).property key default = default := by
  rw [property_entry, lookup_unwritten unwritten]
  rfl

theorem lookup_declaration (info : DeclInfo) {key : String} (missing : key ∉ declKeys) :
    (sourceProperties (.declaration info)).lookup key = none :=
  lookup_missing (declKeys_written info) missing

theorem lookup_form (info : StmtInfo) {form : StmtForm} (same : info.form = form) {key : String}
    (missing : key ∉ formKeys form) : (sourceProperties (.statement info)).lookup key = none :=
  lookup_missing (formKeys_written info.form) (same ▸ missing)

/-- The serializer says of every literal that its escapes are terminated. -/
theorem escapes_terminated (source : Source) :
    (sourceProperties source).lookup "escape_sequence_terminated" = none ∨
      (sourceProperties source).lookup "escape_sequence_terminated" = some "true" := by
  cases source with
  | declaration info => exact .inl (lookup_declaration info (by decide))
  | statement info =>
      cases form : info.form with
      | characterLiteral | stringLiteral =>
          right
          rw [sourceProperties, form]
          rfl
      | _ =>
          left
          apply lookup_form info form
          simp [formKeys]

/-- The serializer never writes that a constant is octal. -/
theorem base_not_octal (source : Source) : (sourceProperties source).lookup "literal_base" ≠ some "octal" := by
  cases source with
  | declaration info => simp [lookup_declaration info (by decide : "literal_base" ∉ declKeys)]
  | statement info =>
      cases form : info.form with
      | integerLiteral raw =>
          have base : (sourceProperties (.statement info)).lookup "literal_base" =
              some (if 1 < raw.length ∧ raw.toList.head? = some '0' then "non_decimal" else "decimal") := by
            rw [sourceProperties, form]
            rfl
          rw [base]
          split <;> decide
      | _ => simp [lookup_form info form (by simp [formKeys] : "literal_base" ∉ formKeys _)]

/-- Only references may be negative characters, and only calls have a callee. -/
theorem callee_or_negative (source : Source) : (sourceProperties source).lookup "callee" = none ∨
    (sourceProperties source).lookup "argument_may_be_negative_char" = none := by
  cases source with
  | declaration info => exact .inl (lookup_declaration info (by decide))
  | statement info =>
      cases form : info.form with
      | callExpr =>
          right
          apply lookup_form info form
          simp [formKeys]
      | _ =>
          left
          apply lookup_form info form
          simp [formKeys]

theorem mem_ofKinds {kinds : List NodeKind} {graph : AstGraph} {node : AstNode}
    (inside : node ∈ NodeRule.ofKinds kinds graph) : node ∈ graph.nodes := by
  obtain ⟨kind, _, listed⟩ := List.mem_flatMap.mp inside
  exact (List.mem_filter.mp listed).1

theorem harmless_flags : ∀ rule ∈ flagRules, ∀ entry : Forest.Entry Source,
    rule.violates (entryNode spelling entry) = false := by
  simp only [flagRules, List.forall_mem_cons]
  and_intros
  all_goals first
    | exact List.forall_mem_nil _
    | intro entry
      simp (disch := decide) [truthy_unwritten, value_unwritten, property_unwritten, Rule8_12.metaTrue, Rule1_3.rule,
        Rule7_2.rule, Rule8_1.rule, Rule8_10.rule, Rule8_11.rule, Rule12_4.rule, Rule13_2.rule, Rule17_3.rule,
        Rule17_5.rule, Rule17_6.rule, Rule19_2.rule, Rule21_14.rule, Rule21_19.rule, Rule22_1.rule, Rule22_2.rule,
        Rule22_3.rule, Rule22_4.rule, Rule22_7.rule, Rule22_8.rule, Rule22_9.rule, Rule22_10.rule]

theorem harmless_escapes (entry : Forest.Entry Source) :
    Rule4_1.rule.violates (entryNode spelling entry) = false := by
  show (!(!Rule8_12.metaTrue ((entryNode spelling entry).value "unterminated_escape") && _)) = false
  rw [value_unwritten (by decide), value_entry]
  rcases escapes_terminated entry.label with absent | written
  · rw [absent]
    rfl
  · rw [written]
    rfl

theorem harmless_octals (entry : Forest.Entry Source) :
    Rule7_1.rule.violates (entryNode spelling entry) = false := by
  show (decide ((entryNode spelling entry).property "literal_base" "" = "octal") ||
    Rule8_12.metaTrue ((entryNode spelling entry).value "octal_nonzero_constant")) = false
  rw [value_unwritten (by decide), property_entry]
  have other : ((sourceProperties entry.label).lookup "literal_base").getD "" ≠ "octal" := by
    cases base : (sourceProperties entry.label).lookup "literal_base" with
    | none => decide
    | some text => exact fun same => base_not_octal entry.label (base.trans (congrArg some same))
  rw [decide_eq_false other]
  rfl

theorem harmless_negatives (entry : Forest.Entry Source) :
    Rule21_13.rule.violates (entryNode spelling entry) = false := by
  show (decide ((entryNode spelling entry).property "callee" "" ∈ CTYPE_CALLS) &&
    ((entryNode spelling entry).value "argument_may_be_negative_char").any PropertyValue.truthy) = false
  rw [property_entry, value_entry]
  rcases callee_or_negative entry.label with nameless | positive
  · rw [nameless]
    rfl
  · rw [positive]
    exact Bool.and_false _

theorem harmless : ∀ rule ∈ unwrittenRules, ∀ entry : Forest.Entry Source,
    rule.violates (entryNode spelling entry) = false := by
  rw [unwrittenRules, List.forall_mem_append]
  refine ⟨harmless_flags, ?_⟩
  simp only [List.forall_mem_cons]
  exact ⟨harmless_escapes, harmless_octals, harmless_negatives, List.forall_mem_nil _⟩

theorem selected : ∀ rule ∈ unwrittenRules, ∀ graph, ∀ node ∈ rule.select graph, node ∈ graph.nodes := by
  simp only [unwrittenRules, flagRules, List.forall_mem_append, List.forall_mem_cons]
  and_intros
  all_goals first
    | exact fun graph node inside => inside
    | exact fun graph node inside => (List.mem_filter.mp inside).1
    | exact fun graph node inside => mem_ofKinds inside
    | exact List.forall_mem_nil _

/-- A rule that spares every node of the worker reports nothing. -/
theorem silent_rules (spelling : DeclSpelling) (unit : TranslationUnit) (filePath : String) :
    ∀ rule ∈ unwrittenRules, rule.detect ⟨filePath, (decoded spelling unit).nodes⟩ = [] := by
  intro rule listed
  have spared : (rule.select (decoded spelling unit)).filter rule.violates = [] := by
    apply List.filter_eq_nil_iff.mpr
    intro node inside
    obtain ⟨entry, _, rfl⟩ := mem_decoded (selected rule listed _ node inside)
    rw [harmless rule listed entry]
    decide
  exact congrArg (List.map _) spared

/-! ### Statements that violate a rule -/

def statementOf : Source → Option StmtInfo
  | .declaration _ => none
  | .statement info => some info

def violatedBy (test : StmtForm → Bool) (source : Source) : Bool :=
  (statementOf source).any fun info => test info.form

/-- The serialized statements are those that the unit visits. -/
theorem statements_entries (unit : TranslationUnit) :
    ((entries unit).map Forest.Entry.label).filterMap statementOf = unit.visitedStatements := by
  rw [labels_entries, List.filterMap_flatMap]
  apply List.flatMap_congr
  intro info _
  rw [sources, List.filterMap_cons_none rfl, List.filterMap_map]
  exact List.filterMap_some

theorem filter_violated (test : StmtForm → Bool) (filePath : String) (labels : List Source) :
    (labels.filter (violatedBy test)).map (fun source => (sourceRange source).within filePath) =
      ((labels.filterMap statementOf).filter fun info => test info.form).map fun info =>
        info.range.within filePath := by
  induction labels with
  | nil => rfl
  | cons source rest ih =>
      cases source with
      | declaration info =>
          rw [List.filter_cons_of_neg (by simp [violatedBy, statementOf]), List.filterMap_cons_none rfl, ih]
      | statement info =>
          have stated : statementOf (.statement info) = some info := rfl
          rw [List.filterMap_cons_some stated]
          cases violated : test info.form with
          | false =>
              rw [List.filter_cons_of_neg (by simp [violatedBy, statementOf, violated]),
                List.filter_cons_of_neg (by simp [violated]), ih]
          | true =>
              rw [List.filter_cons_of_pos (by simp [violatedBy, statementOf, violated]),
                List.filter_cons_of_pos (by simp [violated]), List.map_cons, List.map_cons, ih]
              rfl

/-- The rule tests nodes of one kind, and its test agrees with that of the statements. -/
structure Judges (rule : NodeRule) (test : StmtForm → Bool) (kind : NodeKind) : Prop where
  selects : rule.select = NodeRule.ofKinds [kind]
  reports : ∀ node, (rule.report node).node = node
  declared : kind.isStmtClass = true ∨ ∀ (node : AstNode) (info : DeclInfo), node.flags = [] →
    node.semanticProperties = enrichDeclProperties info → rule.violates node = false
  stated : ∀ (node : AstNode) (form : StmtForm), node.flags = [] →
    node.semanticProperties = enrichStmtProperties form → form.className = kind → rule.violates node = test form
  others : ∀ form : StmtForm, form.className ≠ kind → test form = false

theorem Judges.agrees {rule : NodeRule} {test : StmtForm → Bool} {kind : NodeKind} (judges : Judges rule test kind)
    (entry : Forest.Entry Source) :
    (rule.violates (entryNode spelling entry) && decide ((entryNode spelling entry).nodeKind = kind)) =
      violatedBy test entry.label := by
  have properties : (entryNode spelling entry).semanticProperties = sourceProperties entry.label :=
    properties_entry entry
  cases label : entry.label with
  | declaration info =>
      rw [label] at properties
      have spared : violatedBy test (.declaration info) = false := rfl
      rw [spared]
      rcases judges.declared with known | harmless
      · have different : (entryNode spelling entry).nodeKind ≠ kind := by
          intro same
          rw [kind_declaration label] at same
          have declares := spelling.declares info.form.kind
          rw [same, known] at declares
          cases declares
        rw [decide_eq_false different, Bool.and_false]
      · rw [harmless _ info (flags_entry entry) properties, Bool.false_and]
  | statement info =>
      rw [label] at properties
      rw [kind_statement label]
      show _ = test info.form
      by_cases same : info.form.className = kind
      · rw [decide_eq_true same, Bool.and_true, judges.stated _ _ (flags_entry entry) properties same]
      · rw [decide_eq_false same, Bool.and_false, judges.others info.form same]

theorem Judges.places {rule : NodeRule} {test : StmtForm → Bool} {kind : NodeKind} (judges : Judges rule test kind)
    (spelling : DeclSpelling) (unit : TranslationUnit) (filePath : String) :
    (rule.detect ⟨filePath, (decoded spelling unit).nodes⟩).map RuleResult.place =
      (unit.visitedStatements.filter fun info => test info.form).map fun info => info.range.within filePath := by
  have place : ∀ node, (rule.result ⟨filePath, (decoded spelling unit).nodes⟩ (rule.report node)).place =
      node.sourceRange.within filePath := by
    intro node
    rw [NodeRule.result, judges.reports]
    rfl
  have listed : (rule.select (decoded spelling unit)).filter rule.violates =
      ((entries unit).filter fun entry => violatedBy test entry.label).map (entryNode spelling) := by
    rw [judges.selects]
    show ((decoded spelling unit).nodesByKind kind ++ []).filter rule.violates = _
    rw [List.append_nil, AstGraph.nodesByKind, List.filter_filter, decoded_nodes, List.filter_map]
    exact congrArg (List.map _) (List.filter_congr fun entry _ => judges.agrees entry)
  have detected : rule.detect ⟨filePath, (decoded spelling unit).nodes⟩ =
      ((rule.select (decoded spelling unit)).filter rule.violates).map fun node =>
        rule.result ⟨filePath, (decoded spelling unit).nodes⟩ (rule.report node) := rfl
  rw [detected, listed, ← statements_entries, ← filter_violated, List.filter_map, List.map_map, List.map_map,
    List.map_map]
  apply List.map_congr_left
  intro entry _
  show (rule.result _ (rule.report (entryNode spelling entry))).place = _
  rw [place, range_entry]
  rfl

/-! ### The rules -/

section Rules
open StmtForm

theorem value_bare {node : AstNode} (bare : node.flags = []) (key : String) :
    node.value key = (node.semanticProperties.lookup key).map .text := by
  rw [AstNode.value, bare]
  rfl

theorem metaTrue_boolText (value : Bool) :
    Rule8_12.metaTrue (some (.text (boolText value))) = value := by
  cases value <;> rfl

theorem spared_of_class {test : StmtForm → Bool} {kind : NodeKind}
    (classed : ∀ form, test form = true → form.className = kind) (form : StmtForm) (other : form.className ≠ kind) :
    test form = false :=
  Bool.eq_false_iff.mpr (mt (classed form) other)

theorem exists_binary {form : StmtForm} (kind : form.className = .binaryOperator) :
    ∃ opcode precedence isAdditive isMultiplicative isAssignment lhsVolatile rhsVolatile,
      form = .binaryOperator false opcode precedence isAdditive isMultiplicative isAssignment lhsVolatile
        rhsVolatile := by
  cases form with
  | binaryOperator compoundAssignment =>
      cases compoundAssignment with
      | false => exact ⟨_, _, _, _, _, _, _, rfl⟩
      | true => cases kind
  | _ => cases kind

theorem judges_calls (ruleId : String) (functions : List String) (explanation : String → String)
    (riskDescription : String) (named : "" ∉ functions) :
    Judges (callRule ruleId functions explanation riskDescription) (calls functions) .callExpr where
  selects := rfl
  reports _ := rfl
  declared := .inl rfl
  stated := by
    intro node form bare properties kind
    show decide (node.property "callee" "" ∈ functions) = _
    rw [AstNode.property, properties]
    cases form with
    | callExpr callee argumentTypes secondLiteral =>
        cases callee with
        | none => exact decide_eq_false named
        | some name => rfl
    | binaryOperator compoundAssignment => cases compoundAssignment <;> cases kind
    | _ => cases kind
  others := by
    apply spared_of_class
    intro form holds
    unfold calls at holds
    split at holds
    · rfl
    · cases holds

theorem judges_suffix : Judges Rule7_3.rule hasLowercaseSuffix (.other "IntegerLiteral") where
  selects := rfl
  reports _ := rfl
  declared := by
    right
    intro node info bare properties
    show Rule8_12.metaTrue (node.value "uses_lowercase_l_suffix") = false
    rw [value_bare bare, properties, lookup_missing (declKeys_written info) (by decide)]
    rfl
  stated := by
    intro node form bare properties kind
    show Rule8_12.metaTrue (node.value "uses_lowercase_l_suffix") = _
    rw [value_bare bare, properties]
    cases form with
    | integerLiteral raw => exact metaTrue_boolText _
    | binaryOperator compoundAssignment => cases compoundAssignment <;> simp [className] at kind
    | other className => rfl
    | _ => simp [className] at kind
  others := by
    apply spared_of_class
    intro form holds
    unfold hasLowercaseSuffix at holds
    split at holds
    · rfl
    · cases holds

theorem judges_casts : Judges Rule11_2.rule castsIncomplete (.other "CStyleCastExpr") where
  selects := rfl
  reports _ := rfl
  declared := by
    right
    intro node info bare properties
    show (Rule8_12.metaTrue (node.value "converts_to_incomplete") ||
      Rule8_12.metaTrue (node.value "converts_from_incomplete")) = false
    rw [value_bare bare, value_bare bare, properties, lookup_missing (declKeys_written info) (by decide),
      lookup_missing (declKeys_written info) (by decide)]
    rfl
  stated := by
    intro node form bare properties kind
    show (Rule8_12.metaTrue (node.value "converts_to_incomplete") ||
      Rule8_12.metaTrue (node.value "converts_from_incomplete")) = _
    rw [value_bare bare, value_bare bare, properties]
    cases form with
    | cStyleCastExpr toIncomplete fromIncomplete =>
        exact congrArg₂ or (metaTrue_boolText toIncomplete) (metaTrue_boolText fromIncomplete)
    | binaryOperator compoundAssignment => cases compoundAssignment <;> simp [className] at kind
    | other className => rfl
    | _ => simp [className] at kind
  others := by
    apply spared_of_class
    intro form holds
    unfold castsIncomplete at holds
    split at holds
    · rfl
    · cases holds

theorem judges_arithmetic : Judges Rule12_1.rule isArithmetic .binaryOperator where
  selects := rfl
  reports _ := rfl
  declared := .inl rfl
  stated := by
    intro node form bare properties kind
    show Rule8_12.metaTrue (node.value "needs_explicit_parentheses") = _
    rw [value_bare bare, properties]
    obtain ⟨opcode, precedence, isAdditive, isMultiplicative, isAssignment, lhsVolatile, rhsVolatile, rfl⟩ :=
      exists_binary kind
    exact metaTrue_boolText _
  others := by
    apply spared_of_class
    intro form holds
    unfold isArithmetic at holds
    split at holds
    · rfl
    · cases holds

theorem judges_commas : Judges Rule12_3.rule isComma .binaryOperator where
  selects := rfl
  reports _ := rfl
  declared := .inl rfl
  stated := by
    intro node form bare properties kind
    show decide (node.property "opcode" "" = ",") = _
    rw [AstNode.property, properties]
    obtain ⟨opcode, precedence, isAdditive, isMultiplicative, isAssignment, lhsVolatile, rhsVolatile, rfl⟩ :=
      exists_binary kind
    rfl
  others := by
    apply spared_of_class
    intro form holds
    unfold isComma at holds
    split at holds
    · rfl
    · cases holds

theorem judges_sizes : Judges Rule12_5.rule sizesDecayedArray .unaryOperator where
  selects := rfl
  reports _ := rfl
  declared := .inl rfl
  stated := by
    intro node form bare properties kind
    show (decide (node.property "opcode" "" = "sizeof") &&
      Rule8_12.metaTrue (node.value "sizeof_operand_is_decayed_array")) = _
    rw [value_bare bare, AstNode.property, properties]
    cases form with
    | unaryOperator opcode isIncrementDecrement derefsVolatile sizeofDecayedArray =>
        cases derefsVolatile <;> cases sizeofDecayedArray <;> rfl
    | binaryOperator compoundAssignment => cases compoundAssignment <;> cases kind
    | _ => cases kind
  others := by
    apply spared_of_class
    intro form holds
    unfold sizesDecayedArray at holds
    split at holds
    · rfl
    · cases holds

theorem judges_gotos : Judges Rule15_1.rule isGoto .gotoStmt where
  selects := rfl
  reports _ := rfl
  declared := .inl rfl
  stated := by
    intro node form bare properties kind
    cases form with
    | gotoStmt => rfl
    | binaryOperator compoundAssignment => cases compoundAssignment <;> cases kind
    | _ => cases kind
  others := by
    apply spared_of_class
    intro form holds
    unfold isGoto at holds
    split at holds
    · rfl
    · cases holds

end Rules

end AstSerializer
end MisraPlatform

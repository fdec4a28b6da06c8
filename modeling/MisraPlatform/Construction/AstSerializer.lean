import MisraPlatform.Construction.Ast

/-
This file is the serializer of the declarations and statements of a translation unit.
-/

namespace MisraPlatform

/-! ### Declarations and statements -/

namespace Clang

inductive StorageClass where
  | scNone | scExtern | scStatic | scPrivateExtern | scAuto | scRegister
  deriving DecidableEq, Repr

inductive Linkage where
  | noLinkage | internalLinkage | uniqueExternalLinkage | externalLinkage
  deriving DecidableEq, Repr

/-- A type keeps what the serializer asks of it. The essential type is that of `resolveEssentialType`. -/
structure QualType where
  spelling : String
  essentialType : String := "unknown"
  fundamentalKind : String := ""
  isPointer : Bool := false
  isArray : Bool := false
  isVolatile : Bool := false
  isIncomplete : Bool := false
  isSignedInteger : Bool := false
  isUnsignedInteger : Bool := false
  isChar : Bool := false
  deriving DecidableEq, Repr

/-- A reference leads to a declaration, which may be a parameter. -/
structure Referenced where
  address : Nat
  name : String
  type : QualType
  isParm : Bool := false
  deriving DecidableEq, Repr

/-- The form of a statement is its class with the answers that the serializer asks for. -/
inductive StmtForm where
  | compoundStmt | ifStmt | forStmt | whileStmt | doStmt | switchStmt | caseStmt | defaultStmt
  | returnStmt | breakStmt | continueStmt
  | labelStmt (name : String)
  | gotoStmt (label : String)
  | integerLiteral (raw : String)
  | characterLiteral (raw : String)
  | stringLiteral (raw : String)
  | unaryOperator (opcode : String) (isIncrementDecrement derefsVolatile sizeofDecayedArray : Bool)
  | binaryOperator (compoundAssignment : Bool) (opcode : String) (precedence : Nat)
      (isAdditive isMultiplicative isAssignment lhsVolatile rhsVolatile : Bool)
  | cStyleCastExpr (toIncomplete fromIncomplete : Bool)
  | initListExpr (hasExplicitBraces : Bool)
  | callExpr (callee : Option String) (argumentTypes : List String) (secondLiteral : Option String)
  | declRefExpr (referenced : Referenced) (isLValue : Bool)
  | other (className : String)
  deriving DecidableEq, Repr

structure StmtInfo where
  address : Nat
  form : StmtForm
  type : Option QualType := none
  range : SourceRange := {}
  deriving DecidableEq, Repr

/-- The children are those that are there. The serializer leaves a null child out. -/
inductive Stmt where
  | mk (info : StmtInfo) (children : List Stmt)

inductive DeclKind where
  | function | var | parmVar | field | enumConstant | record | enum | typedef | label | indirectField
  | fileScopeAsm | staticAssert | empty
  deriving DecidableEq, Repr

structure BitField where
  isSigned : Bool
  isUnsigned : Bool
  width : Nat
  deriving DecidableEq, Repr

/-- The redeclarations of a function have one canonical declaration. A body belongs to the declaration
that is the definition. -/
inductive DeclForm where
  | function (name : String) (canonical : Nat) (storageClass : StorageClass) (linkage : Linkage)
      (body : Option Stmt)
  | var (name : String) (storageClass : StorageClass) (isLocalVarDecl : Bool) (linkage : Linkage)
      (hasInit : Bool)
  | parmVar (name : String) (storageClass : StorageClass) (linkage : Linkage) (hasInit : Bool)
  | field (name : String) (bitField : Option BitField)
  | enumConstant (name : String) (value : Int) (hasInitExpr : Bool)
  | record (name : String) | enum (name : String) | typedef (name : String) | label (name : String)
  | indirectField (name : String)
  | fileScopeAsm | staticAssert | empty

def DeclForm.kind : DeclForm → DeclKind
  | .function .. => .function
  | .var .. => .var
  | .parmVar .. => .parmVar
  | .field .. => .field
  | .enumConstant .. => .enumConstant
  | .record _ => .record
  | .enum _ => .enum
  | .typedef _ => .typedef
  | .label _ => .label
  | .indirectField _ => .indirectField
  | .fileScopeAsm => .fileScopeAsm
  | .staticAssert => .staticAssert
  | .empty => .empty

structure DeclInfo where
  address : Nat
  form : DeclForm
  type : Option QualType := none
  range : SourceRange := {}
  validLocation : Bool := true

/-- The declarations inside are those of `DeclContext::decls`. -/
inductive Decl where
  | mk (info : DeclInfo) (decls : List Decl)

def Decl.info : Decl → DeclInfo
  | .mk info _ => info

structure TranslationUnit where
  decls : List Decl

mutual

def Decl.all : Decl → List DeclInfo
  | .mk info decls => info :: Decl.allOf decls

def Decl.allOf : List Decl → List DeclInfo
  | [] => []
  | declaration :: rest => declaration.all ++ Decl.allOf rest

end

/-- The declaration has a body of its own. -/
def DeclInfo.body (info : DeclInfo) : Option Stmt :=
  match info.form with
  | .function _ _ _ _ body => body
  | _ => none

/-- Only functions have a canonical declaration here. -/
def DeclInfo.canonical (info : DeclInfo) : Option Nat :=
  match info.form with
  | .function _ canonical _ _ _ => some canonical
  | _ => none

namespace TranslationUnit

def allDecls (unit : TranslationUnit) : List DeclInfo := Decl.allOf unit.decls

/-- The body of a function is looked up through all of its redeclarations. -/
def getBody (unit : TranslationUnit) (info : DeclInfo) : Option Stmt :=
  info.canonical.bind fun canonical => unit.allDecls.findSome? fun other =>
    if other.canonical = some canonical then other.body else none

end TranslationUnit

end Clang

/-! ### The serializer -/

open Clang

/-- This is the name that `getDeclKindName` gives. -/
def Clang.DeclKind.name : DeclKind → String
  | .function => "Function"
  | .var => "Var"
  | .parmVar => "ParmVar"
  | .field => "Field"
  | .enumConstant => "EnumConstant"
  | .record => "Record"
  | .enum => "Enum"
  | .typedef => "Typedef"
  | .label => "Label"
  | .indirectField => "IndirectField"
  | .fileScopeAsm => "FileScopeAsm"
  | .staticAssert => "StaticAssert"
  | .empty => "Empty"

/-- These are the classes of statements that the rules compare with. -/
def NodeKind.isStmtClass : NodeKind → Bool
  | .functionDecl | .parmVarDecl | .varDecl | .enumDecl | .builtinType | .pointerType | .recordType
  | .other _ => false
  | _ => true

/-- The spelling of the kinds of declarations decides which of them the rules find. No declaration is
spelled as a statement. -/
structure DeclSpelling where
  kind : DeclKind → NodeKind
  declares : ∀ declKind, (kind declKind).isStmtClass = false

/-- The serializer writes the name of the kind, which no rule compares with. -/
def getDeclKindName : DeclSpelling where
  kind declKind := .other declKind.name
  declares _ := rfl

/-- The rules look for the names of the classes. -/
def ruleEngineSpelling : DeclSpelling where
  kind
    | .function => .functionDecl
    | .var => .varDecl
    | .parmVar => .parmVarDecl
    | .enum => .enumDecl
    | declKind => .other (declKind.name ++ "Decl")
  declares declKind := by cases declKind <;> rfl

/-- This is the name that `getStmtClassName` gives. -/
def Clang.StmtForm.className : StmtForm → NodeKind
  | .compoundStmt => .compoundStmt
  | .ifStmt => .ifStmt
  | .forStmt => .forStmt
  | .whileStmt => .whileStmt
  | .doStmt => .doStmt
  | .switchStmt => .switchStmt
  | .caseStmt => .caseStmt
  | .defaultStmt => .defaultStmt
  | .returnStmt => .returnStmt
  | .breakStmt => .breakStmt
  | .continueStmt => .continueStmt
  | .labelStmt _ => .labelStmt
  | .gotoStmt _ => .gotoStmt
  | .integerLiteral _ => .other "IntegerLiteral"
  | .characterLiteral _ => .other "CharacterLiteral"
  | .stringLiteral _ => .other "StringLiteral"
  | .unaryOperator .. => .unaryOperator
  | .binaryOperator compoundAssignment .. =>
      if compoundAssignment then .other "CompoundAssignOperator" else .binaryOperator
  | .cStyleCastExpr .. => .other "CStyleCastExpr"
  | .initListExpr _ => .other "InitListExpr"
  | .callExpr .. => .callExpr
  | .declRefExpr .. => .declRefExpr
  | .other className => .other className

/-- A node is emitted for one declaration or statement. -/
inductive Source where
  | declaration (info : DeclInfo)
  | statement (info : StmtInfo)

/-- The response has the node. The source stays beside it for statements about the serializer. -/
structure Emitted where
  node : AstNode
  source : Source

structure AstSerializer where
  nodeCounter : Nat := 0
  emitted : List Emitted := []

namespace AstSerializer

def nodeId (count : Nat) : String := "node-" ++ toString count

def linkageName : Linkage → String
  | .noLinkage => "none"
  | .internalLinkage => "internal"
  | .uniqueExternalLinkage => "unique_external"
  | .externalLinkage => "external"

def storageClassName : StorageClass → String
  | .scNone => "none"
  | .scExtern => "external"
  | .scStatic => "static"
  | .scPrivateExtern => "private_extern"
  | .scAuto => "auto"
  | .scRegister => "register"

/-- A boolean is written as text. -/
def boolText (value : Bool) : String := if value then "true" else "false"

/-- A parameter is a variable as well. -/
def varProperties (storageClass : StorageClass) (isLocalVarDecl : Bool) (linkage : Linkage)
    (hasInit : Bool) : List (String × String) :=
  [("storage_class", storageClassName storageClass),
    ("storage_duration", if isLocalVarDecl then "automatic" else "static"),
    ("linkage", linkageName linkage)] ++
    if hasInit then [("has_initializer", "true")] else []

def enrichDeclProperties (info : DeclInfo) : List (String × String) :=
  match info.form with
  | .function name .. => [("name", name)]
  | .var name storageClass isLocalVarDecl linkage hasInit =>
      ("name", name) :: varProperties storageClass isLocalVarDecl linkage hasInit
  | .parmVar name storageClass linkage hasInit =>
      ("name", name) :: varProperties storageClass false linkage hasInit ++
        if info.type.any QualType.isArray then [("is_parameter_decayed_array", "true")] else []
  | .field name bitField =>
      ("name", name) :: match bitField with
        | none => []
        | some bits => [("is_bit_field", "true"), ("bit_field_is_signed", boolText bits.isSigned),
            ("bit_field_type_category", if bits.isUnsigned then "unsigned" else "signed"),
            ("bit_field_width", toString bits.width)]
  | .enumConstant name value hasInitExpr =>
      [("name", name), ("enumerator_value", toString value),
        ("is_implicit_enumerator", boolText !hasInitExpr)]
  | .record name | .enum name | .typedef name | .label name | .indirectField name => [("name", name)]
  | .fileScopeAsm | .staticAssert | .empty => []

def integerProperties (raw : String) : List (String × String) :=
  let has (suffix : Char) := raw.toList.contains suffix
  [("raw_literal_spelling", raw),
    ("literal_base", if 1 < raw.length ∧ raw.toList.head? = some '0' then "non_decimal" else "decimal"),
    ("has_u_suffix", boolText (has 'u' || has 'U')), ("has_uppercase_u_suffix", boolText (has 'U')),
    ("has_l_suffix", boolText (has 'l' || has 'L')), ("uses_lowercase_l_suffix", boolText (has 'l'))]

/-- The mode of a stream is written for a call of `fopen` with a literal mode. -/
def fopenProperties (name : String) (secondLiteral : Option String) : List (String × String) :=
  match secondLiteral with
  | none => []
  | some mode =>
      if name = "fopen" then
        [("fopen_mode", mode), ("stream_opened_readonly",
          boolText (mode.toList.contains 'r' && !mode.toList.contains '+'))]
      else []

/-- Labels and gotos have no properties. -/
def enrichStmtProperties (form : StmtForm) : List (String × String) :=
  match form with
  | .integerLiteral raw => integerProperties raw
  | .characterLiteral raw => [("raw_literal_spelling", raw), ("escape_sequence_terminated", "true")]
  | .stringLiteral raw => [("raw_literal_spelling", raw), ("escape_sequence_terminated", "true")]
  | .unaryOperator opcode isIncrementDecrement derefsVolatile sizeofDecayedArray =>
      [("opcode", opcode), ("has_side_effect", boolText isIncrementDecrement)] ++
        (if derefsVolatile then [("accesses_volatile", "true")] else []) ++
        if sizeofDecayedArray then [("sizeof_operand_is_decayed_array", "true")] else []
  | .binaryOperator _ opcode precedence isAdditive isMultiplicative isAssignment lhsVolatile rhsVolatile =>
      [("opcode", opcode), ("precedence_level", toString precedence),
        ("needs_explicit_parentheses", boolText (isAdditive || isMultiplicative)),
        ("is_sequence_point", boolText isAssignment), ("has_side_effect", boolText isAssignment)] ++
        if lhsVolatile || rhsVolatile then [("accesses_volatile", "true")] else []
  | .cStyleCastExpr toIncomplete fromIncomplete =>
      [("converts_to_incomplete", boolText toIncomplete),
        ("converts_from_incomplete", boolText fromIncomplete)]
  | .initListExpr hasExplicitBraces =>
      [("is_fully_bracketed", boolText hasExplicitBraces), ("has_designator", "false"),
        ("duplicate_designator", "false")]
  | .callExpr callee argumentTypes secondLiteral =>
      match callee with
      | none => []
      | some name =>
          ("callee", name) :: fopenProperties name secondLiteral ++
            if 0 < name.length then [("call_argument_shapes", String.intercalate "," argumentTypes)] else []
  | .declRefExpr referenced isLValue =>
      [("name", referenced.name), ("value_category", if isLValue then "lvalue" else "rvalue")] ++
        (if referenced.type.isVolatile then [("accesses_volatile_object", "true")] else []) ++
        if referenced.isParm && (referenced.type.isSignedInteger || referenced.type.isChar) then
          [("argument_may_be_negative_char", "true")]
        else []
  | _ => []

def sourceType : Source → Option QualType
  | .declaration info => info.type
  | .statement info => info.type

/-- A null type has an empty spelling and an unknown essential type. -/
def newNode (spelling : DeclSpelling) (source : Source) (nodeId parentId : String) : AstNode where
  nodeId := nodeId
  nodeKind :=
    match source with
    | .declaration info => spelling.kind info.form.kind
    | .statement info => info.form.className
  parentId := parentId
  sourceRange :=
    match source with
    | .declaration info => info.range
    | .statement info => info.range
  semanticProperties :=
    match source with
    | .declaration info => enrichDeclProperties info
    | .statement info => enrichStmtProperties info.form
  essentialType := some (((sourceType source).map QualType.essentialType).getD "unknown")
  typeSpelling := ((sourceType source).map QualType.spelling).getD ""
  fundamentalKind := ((sourceType source).map QualType.fundamentalKind).getD ""
  isPointer := (sourceType source).any QualType.isPointer
  isArray := (sourceType source).any QualType.isArray

/-- The first node with the id of the parent gets the child. -/
def addChild (parentId childId : String) : List Emitted → List Emitted
  | [] => []
  | existing :: rest =>
      if existing.node.nodeId = parentId then
        { existing with node :=
          { existing.node with childrenIds := existing.node.childrenIds ++ [childId] } } :: rest
      else existing :: addChild parentId childId rest

def addNode (spelling : DeclSpelling) (source : Source) (nodeId parentId : String)
    (emitted : List Emitted) : List Emitted :=
  (if parentId = "" then emitted else addChild parentId nodeId emitted) ++
    [⟨newNode spelling source nodeId parentId, source⟩]

/-- The node of a source gets the next id. -/
def emit (spelling : DeclSpelling) (source : Source) (parentId : String) (serializer : AstSerializer) :
    String × AstSerializer :=
  let count := serializer.nodeCounter + 1
  (nodeId count, { nodeCounter := count
                   emitted := addNode spelling source (nodeId count) parentId serializer.emitted })

mutual

def visitStmt (spelling : DeclSpelling) : Stmt → String → AstSerializer → AstSerializer
  | .mk info children, parentId, serializer =>
      let (nodeId, serializer) := emit spelling (.statement info) parentId serializer
      visitStmts spelling children nodeId serializer

def visitStmts (spelling : DeclSpelling) : List Stmt → String → AstSerializer → AstSerializer
  | [], _, serializer => serializer
  | statement :: rest, parentId, serializer =>
      visitStmts spelling rest parentId (visitStmt spelling statement parentId serializer)

end

mutual

/-- The body that any redeclaration has goes under this declaration. -/
def visitDecl (spelling : DeclSpelling) (unit : TranslationUnit) :
    Decl → String → AstSerializer → AstSerializer
  | .mk info decls, parentId, serializer =>
      let (nodeId, serializer) := emit spelling (.declaration info) parentId serializer
      let serializer :=
        match unit.getBody info with
        | none => serializer
        | some body => visitStmt spelling body nodeId serializer
      visitDecls spelling unit decls nodeId serializer

def visitDecls (spelling : DeclSpelling) (unit : TranslationUnit) :
    List Decl → String → AstSerializer → AstSerializer
  | [], _, serializer => serializer
  | declaration :: rest, parentId, serializer =>
      visitDecls spelling unit rest parentId (visitDecl spelling unit declaration parentId serializer)

end

/-- This is `CaptureAstConsumer::HandleTranslationUnit`, which leaves out a declaration without a
location. -/
def handleTranslationUnit (spelling : DeclSpelling) (unit : TranslationUnit) : List Emitted :=
  ((unit.decls.filter fun declaration => declaration.info.validLocation).foldl
    (fun serializer declaration => visitDecl spelling unit declaration "" serializer) {}).emitted

/-- The decoded AST of the unit has the emitted nodes. -/
def decoded (spelling : DeclSpelling) (unit : TranslationUnit) : AstGraph :=
  ⟨(handleTranslationUnit spelling unit).map Emitted.node⟩

end AstSerializer
end MisraPlatform

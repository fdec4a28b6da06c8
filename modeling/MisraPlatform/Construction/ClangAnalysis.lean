import Mathlib.Init

/-
This file is the messages of the contract between the worker and the platform, and what the worker tells about the
preprocessor in them.
-/

namespace MisraPlatform.ClangAnalysis

structure SourceRange where
  filePath : String := ""
  lineStart : Nat := 0
  lineEnd : Nat := 0
  columnStart : Nat := 0
  columnEnd : Nat := 0
  offsetStart : Nat := 0
  offsetEnd : Nat := 0
  deriving DecidableEq, Repr

structure TypeInformation where
  spelling : String := ""
  canonicalSpelling : String := ""
  typedefChain : String := ""
  fundamentalKind : String := ""
  bitWidth : Nat := 0
  isSigned : Bool := false
  isInteger : Bool := false
  isFloating : Bool := false
  isPointer : Bool := false
  isArray : Bool := false
  isRecord : Bool := false
  isTypedef : Bool := false
  pointeeType : String := ""
  isIncomplete : Bool := false
  pointerNestingDepth : Nat := 0
  isVariableLengthArray : Bool := false
  arraySize : Nat := 0
  arraySizeExpression : String := ""
  arraySizeIsConstant : Bool := false
  isParameterDecayedArray : Bool := false
  deriving DecidableEq, Repr

structure MacroOrigin where
  fromMacro : Bool := false
  macroName : String := ""
  definitionRange : SourceRange := {}
  expansionRange : SourceRange := {}
  expansionChain : List String := []
  deriving DecidableEq, Repr

/-- The properties are a map, listed in the order of its iteration. -/
structure AstNode where
  nodeId : String := ""
  nodeKind : String := ""
  sourceRange : SourceRange := {}
  parentId : String := ""
  childrenIds : List String := []
  typeInformation : TypeInformation := {}
  qualifiers : List String := []
  essentialType : String := ""
  macroOrigin : MacroOrigin := {}
  semanticProperties : List (String × String) := []
  deriving DecidableEq, Repr

structure MacroBodyToken where
  kind : String := ""
  spelling : String := ""
  deriving DecidableEq, Repr

structure MacroDefinition where
  name : String := ""
  value : String := ""
  isFunctionLike : Bool := false
  range : SourceRange := {}
  filePath : String := ""
  bodyTokens : List MacroBodyToken := []
  usesStringify : Bool := false
  usesTokenPaste : Bool := false
  deriving DecidableEq, Repr

structure UndefDirective where
  macroName : String := ""
  range : SourceRange := {}
  deriving DecidableEq, Repr

structure PragmaDirective where
  pragmaText : String := ""
  range : SourceRange := {}
  deriving DecidableEq, Repr

structure MacroExpansion where
  name : String := ""
  replacement : String := ""
  useRange : SourceRange := {}
  definitionRange : SourceRange := {}
  chain : List String := []
  deriving DecidableEq, Repr

structure IncludeDirective where
  includedFile : String := ""
  resolvedPath : String := ""
  isSystem : Bool := false
  range : SourceRange := {}
  deriving DecidableEq, Repr

structure ConditionalBranch where
  condition : String := ""
  taken : Bool := false
  range : SourceRange := {}
  directive : String := ""
  deriving DecidableEq, Repr

structure PreprocessorMetadata where
  macroDefinitions : List MacroDefinition := []
  macroExpansions : List MacroExpansion := []
  includeDirectives : List IncludeDirective := []
  conditionalBranches : List ConditionalBranch := []
  undefDirectives : List UndefDirective := []
  pragmaDirectives : List PragmaDirective := []
  deriving DecidableEq, Repr

structure ParseTranslationUnitResponse where
  nodes : List AstNode := []
  preprocessor : PreprocessorMetadata := {}
  deriving DecidableEq, Repr

namespace PreprocessorTracker

/-- The locations of the compiler are numbers, of which zero is invalid. -/
abbrev SourceLocation := Nat

/-- A range has its begin and its end. -/
abbrev LocationRange := SourceLocation × SourceLocation

/-- These are the answers of the compiler. The data of a location is the rest of its file, and two kinds of tokens
are the operators of macro bodies. -/
structure SourceManager where
  getFilename : SourceLocation → String
  getSpellingLineNumber : SourceLocation → Nat
  getSpellingColumnNumber : SourceLocation → Nat
  getFileOffset : SourceLocation → Nat
  getCharacterData : SourceLocation → String
  hash : Nat
  hashhash : Nat

structure Token where
  kind : Nat
  name : String
  deriving DecidableEq, Repr

structure MacroInfo where
  isFunctionLike : Bool
  definitionLoc : SourceLocation
  replacementTokenRange : LocationRange
  tokens : List Token
  deriving DecidableEq, Repr

inductive ConditionValueKind where
  | notEvaluated | false | true
  deriving DecidableEq, Repr

/-- The preprocessor calls the tracker at these points of a translation unit. A macro may have no info. -/
inductive Callback where
  | macroDefined (macroName : String) (info : Option MacroInfo)
  | macroUndefined (macroName : String) (range : LocationRange)
  | pragmaDirective (location : SourceLocation) (pragmaName pragmaValue : String)
  | macroExpands (macroName : String) (info : Option MacroInfo) (range : LocationRange)
  | inclusionDirective (fileName : String) (isAngled : Bool) (filenameRange : LocationRange)
      (file : Option String) (searchPath relativePath : String)
  | «if» (conditionRange : LocationRange) (conditionValue : ConditionValueKind)
  | elif (conditionRange : LocationRange) (conditionValue : ConditionValueKind)
  | ifdef (loc : SourceLocation) (macroName : String) (info : Option MacroInfo)
  | ifndef (loc : SourceLocation) (macroName : String) (info : Option MacroInfo)
  | endif (loc : SourceLocation)
  deriving DecidableEq, Repr

variable (sources : SourceManager)

/-- An invalid range is left empty. -/
def makeSourceRange (range : LocationRange) : SourceRange :=
  if range.1 = 0 ∨ range.2 = 0 then {}
  else
    { filePath := sources.getFilename range.1
      lineStart := sources.getSpellingLineNumber range.1
      lineEnd := sources.getSpellingLineNumber range.2
      columnStart := sources.getSpellingColumnNumber range.1
      columnEnd := sources.getSpellingColumnNumber range.2
      offsetStart := sources.getFileOffset range.1
      offsetEnd := sources.getFileOffset range.2 }

def getSpelling (location : SourceLocation) : String :=
  if location = 0 then "" else sources.getCharacterData location

def captureMacroBodyTokens (info : MacroInfo) (definition : MacroDefinition) : MacroDefinition :=
  { definition with
    bodyTokens := info.tokens.map fun token => { kind := Nat.repr token.kind, spelling := token.name }
    usesStringify := info.tokens.any fun token => token.kind = sources.hash
    usesTokenPaste := info.tokens.any fun token => token.kind = sources.hashhash }

/-- Only an object-like macro has a value. -/
def definitionOf (macroName : String) (info : MacroInfo) : MacroDefinition :=
  captureMacroBodyTokens sources info
    { name := macroName
      isFunctionLike := info.isFunctionLike
      filePath := sources.getFilename info.definitionLoc
      value :=
        if info.isFunctionLike ∨ info.replacementTokenRange.1 = 0 ∨ info.replacementTokenRange.2 = 0 then ""
        else getSpelling sources info.replacementTokenRange.1
      range := makeSourceRange sources (info.definitionLoc, info.definitionLoc) }

def expansionOf (macroName : String) (info : Option MacroInfo) (range : LocationRange) : MacroExpansion where
  name := macroName
  useRange := makeSourceRange sources range
  replacement := (info.map fun info => getSpelling sources info.definitionLoc).getD ""
  definitionRange :=
    (info.map fun info => makeSourceRange sources (info.definitionLoc, info.definitionLoc)).getD {}
  chain := [macroName]

/-- A file that is not found is looked for under its search path. -/
def includeOf (fileName : String) (isAngled : Bool) (filenameRange : LocationRange) (file : Option String)
    (searchPath relativePath : String) : IncludeDirective where
  includedFile := fileName
  isSystem := isAngled
  range := makeSourceRange sources filenameRange
  resolvedPath := file.getD (if searchPath = "" then "" else searchPath ++ relativePath)

/-- The branch of `#if` and `#elif` has the text from its condition on. -/
def conditionBranch (directive : String) (conditionRange : LocationRange) (conditionValue : ConditionValueKind) :
    ConditionalBranch where
  directive := directive
  taken := conditionValue = .true
  condition := getSpelling sources conditionRange.1
  range := makeSourceRange sources conditionRange

def nameBranch (directive macroName : String) (taken : Bool) (loc : SourceLocation) : ConditionalBranch where
  directive := directive
  taken := taken
  condition := macroName
  range := makeSourceRange sources (loc, loc)

/-- A pragma with a value has it behind its name. -/
def pragmaText (pragmaName pragmaValue : String) : String :=
  pragmaName ++ if pragmaValue = "" then "" else " " ++ pragmaValue

def observe (output : PreprocessorMetadata) : Callback → PreprocessorMetadata
  | .macroDefined _ none => output
  | .macroDefined macroName (some info) =>
      { output with macroDefinitions := output.macroDefinitions ++ [definitionOf sources macroName info] }
  | .macroUndefined macroName range =>
      { output with undefDirectives := output.undefDirectives ++
          [{ macroName := macroName, range := makeSourceRange sources range }] }
  | .pragmaDirective location pragmaName pragmaValue =>
      { output with pragmaDirectives := output.pragmaDirectives ++
          [{ pragmaText := pragmaText pragmaName pragmaValue
             range := makeSourceRange sources (location, location) }] }
  | .macroExpands macroName info range =>
      { output with macroExpansions := output.macroExpansions ++ [expansionOf sources macroName info range] }
  | .inclusionDirective fileName isAngled filenameRange file searchPath relativePath =>
      { output with includeDirectives := output.includeDirectives ++
          [includeOf sources fileName isAngled filenameRange file searchPath relativePath] }
  | .if conditionRange conditionValue =>
      { output with conditionalBranches := output.conditionalBranches ++
          [conditionBranch sources "if" conditionRange conditionValue] }
  | .elif conditionRange conditionValue =>
      { output with conditionalBranches := output.conditionalBranches ++
          [conditionBranch sources "elif" conditionRange conditionValue] }
  | .ifdef loc macroName info =>
      { output with conditionalBranches := output.conditionalBranches ++
          [nameBranch sources "ifdef" macroName info.isSome loc] }
  | .ifndef loc macroName info =>
      { output with conditionalBranches := output.conditionalBranches ++
          [nameBranch sources "ifndef" macroName info.isNone loc] }
  | .endif loc =>
      { output with conditionalBranches := output.conditionalBranches ++
          [{ directive := "endif", range := makeSourceRange sources (loc, loc) }] }

/-- The preprocessor has called the tracker in this order. -/
def track (callbacks : List Callback) : PreprocessorMetadata := callbacks.foldl (observe sources) {}

end PreprocessorTracker

end MisraPlatform.ClangAnalysis

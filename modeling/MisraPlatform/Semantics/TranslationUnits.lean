import MisraPlatform.Construction.AstSerializer
import MisraPlatform.Construction.LinkageIndex

/-
This file is what a translation unit promises, what its serialization should keep, and where the
linkage index agrees with it.
-/

namespace MisraPlatform

namespace Clang

def Stmt.info : Stmt → StmtInfo
  | .mk info _ => info

mutual

/-- The statements stand in preorder. -/
def Stmt.all : Stmt → List StmtInfo
  | .mk info children => info :: Stmt.allOf children

def Stmt.allOf : List Stmt → List StmtInfo
  | [] => []
  | statement :: rest => statement.all ++ Stmt.allOf rest

end

def TranslationUnit.statements (unit : TranslationUnit) : List StmtInfo :=
  unit.allDecls.flatMap fun info => Stmt.allOf info.body.toList

/-- The loader visits the declarations with a location. -/
def TranslationUnit.visited (unit : TranslationUnit) : List Decl :=
  unit.decls.filter fun declaration => declaration.info.validLocation

/-- These are the visited declarations and the declarations inside them. -/
def TranslationUnit.visitedDecls (unit : TranslationUnit) : List DeclInfo := Decl.allOf unit.visited

mutual

/-- Every declaration stands with the declarations inside it. -/
def Decl.contexts : Decl → List (DeclInfo × List Decl)
  | .mk info decls => (info, decls) :: Decl.contextsOf decls

def Decl.contextsOf : List Decl → List (DeclInfo × List Decl)
  | [] => []
  | declaration :: rest => declaration.contexts ++ Decl.contextsOf rest

end

/-- Only these declarations are contexts of others. -/
def DeclKind.isContext : DeclKind → Bool
  | .function | .record | .enum => true
  | _ => false

/-- Every declaration and every statement is one object, the body of a function is a compound statement,
and a function without a body has no variables inside. -/
structure ParsedUnit extends TranslationUnit where
  declsOnce : (toTranslationUnit.allDecls.map DeclInfo.address).Nodup
  stmtsOnce : (toTranslationUnit.statements.map StmtInfo.address).Nodup
  compound : ∀ info ∈ toTranslationUnit.allDecls, ∀ body ∈ info.body, body.info.form = .compoundStmt
  leaves : ∀ context ∈ Decl.contextsOf decls, context.1.form.kind.isContext = false → context.2.isEmpty = true
  locals : ∀ context ∈ Decl.contextsOf decls, context.1.canonical.isSome = true →
    context.1.body.isNone = true → ∀ inner ∈ Decl.allOf context.2, inner.form.kind ≠ .var

end Clang

/-! ### One node for every statement -/

open Clang

/-- The node is emitted for the statement at this address. -/
def Source.isStatement (source : Source) (address : Nat) : Bool :=
  match source with
  | .statement info => info.address = address
  | .declaration _ => false

namespace AstSerializer

/-- Every statement of a body has one node, which stands under the node of the definition, and only the
node of a definition has a compound statement among its children. -/
structure OneToOne (spelling : DeclSpelling) (unit : TranslationUnit) : Prop where
  once : ∀ info ∈ unit.allDecls, ∀ body ∈ info.body, ∀ statement ∈ body.all,
    (handleTranslationUnit spelling unit).countP
      (fun emitted => emitted.source.isStatement statement.address) = 1
  below : ∀ info ∈ unit.allDecls, ∀ body ∈ info.body, ∀ statement ∈ body.all,
    ∀ emitted ∈ handleTranslationUnit spelling unit, emitted.source.isStatement statement.address = true →
      ∃ definition ∈ handleTranslationUnit spelling unit, definition.source = .declaration info ∧
        emitted.node ∈ (decoded spelling unit).descendants definition.node.nodeId
  marks : ∀ emitted ∈ handleTranslationUnit spelling unit, ∀ info, emitted.source = .declaration info →
    ((∃ child ∈ (decoded spelling unit).children emitted.node.nodeId, child.nodeKind = .compoundStmt) ↔
      info.body.isSome = true)

/-- Of the declarations of a function that has a body, the loader visits the definition alone. -/
def DefinedOnce (unit : TranslationUnit) : Prop :=
  ∀ info ∈ unit.allDecls, info.body.isSome = true →
    (unit.visitedDecls.filter fun other => other.canonical = info.canonical).map DeclInfo.address =
      [info.address]

end AstSerializer
end MisraPlatform

namespace MisraPlatform
open Clang

structure LinkedUnit where
  translationUnitId : String
  filePath : String
  unit : TranslationUnit

/-- The index is built from the decoded AST of the unit. -/
def LinkedUnit.indexed (linked : LinkedUnit) : LinkageIndex.Unit where
  translationUnitId := linked.translationUnitId
  filePath := linked.filePath
  graph := AstSerializer.decoded getDeclKindName linked.unit

namespace Clang

/-- A function or an object has a name and a linkage. -/
def DeclInfo.entity (info : DeclInfo) : Option (String × Linkage) :=
  match info.form with
  | .function name _ _ linkage _ => some (name, linkage)
  | .var name _ _ linkage _ => some (name, linkage)
  | _ => none

/-- This kind is the one that the index gives to a function or an object. -/
def DeclInfo.indexedKind (info : DeclInfo) : NodeKind :=
  match info.form with
  | .function .. => .functionDecl
  | _ => .varDecl

end Clang

namespace LinkageIndex

/-- These are the named functions and objects that a unit declares at file scope. -/
def declared (linked : LinkedUnit) : List DeclInfo :=
  (linked.unit.visited.map Decl.info).filter fun info => info.entity.any fun entity => entity.1 ≠ ""

/-- The occurrence is that of the declaration. -/
structure Describes (linked : LinkedUnit) (info : DeclInfo) (name : String) (occurrence : Occurrence) :
    Prop where
  named : info.entity.map Prod.fst = some name
  unit : occurrence.translationUnitId = linked.translationUnitId
  file : occurrence.filePath = linked.filePath
  kind : occurrence.nodeKind = info.indexedKind
  body : occurrence.hasBody = info.body.isSome
  static : occurrence.storageClass = "static" ↔ info.entity.map Prod.snd = some .internalLinkage

/-- The occurrences of the index are matched with the declarations, one with one. -/
def Agrees (units : List LinkedUnit) : Prop :=
  ∃ pairing : List ((LinkedUnit × DeclInfo) × String × Occurrence),
    pairing.map Prod.fst = units.flatMap (fun linked => (declared linked).map fun info => (linked, info)) ∧
      (pairing.map Prod.snd).Perm ((build (units.map LinkedUnit.indexed)).symbols.entries.flatMap fun entry =>
        entry.2.map fun occurrence => (entry.1, occurrence)) ∧
      ∀ pair ∈ pairing, Describes pair.1.1 pair.1.2 pair.2.1 pair.2.2

end LinkageIndex
end MisraPlatform

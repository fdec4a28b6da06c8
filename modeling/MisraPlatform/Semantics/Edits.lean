import MisraPlatform.Construction.AstSerializer
import MisraPlatform.Construction.DirectiveRules
import MisraPlatform.Construction.ViolationStore

/-
This file is the insertion of a declaration into a translation unit and what two analysis runs make of it.
-/

namespace MisraPlatform

/-! ### Moved text -/

namespace Clang

section Relocate

variable (shift : SourceRange → SourceRange)

mutual

/-- The text of the statement has moved in its file. -/
def Stmt.relocate : Stmt → Stmt
  | .mk info children => .mk { info with range := shift info.range } (Stmt.relocateAll children)

def Stmt.relocateAll : List Stmt → List Stmt
  | [] => []
  | statement :: rest => statement.relocate :: Stmt.relocateAll rest

end

def DeclForm.relocate : DeclForm → DeclForm
  | .function name canonical storageClass linkage body =>
      .function name canonical storageClass linkage (body.map (Stmt.relocate shift))
  | form => form

def DeclInfo.relocate (info : DeclInfo) : DeclInfo :=
  { info with form := info.form.relocate shift, range := shift info.range }

mutual

def Decl.relocate : Decl → Decl
  | .mk info decls => .mk (info.relocate shift) (Decl.relocateAll decls)

def Decl.relocateAll : List Decl → List Decl
  | [] => []
  | declaration :: rest => declaration.relocate :: Decl.relocateAll rest

end

end Relocate

/-! ### Edits -/

/-- A declaration of its own is inserted between top-level declarations, and text moves within its file. -/
structure Edit where
  before : List Decl
  inserted : Decl
  after : List Decl
  shift : SourceRange → SourceRange
  sameFile : ∀ range, (shift range).filePath = range.filePath
  unrelated : ∀ info ∈ inserted.all, info.canonical.isSome = true →
    ∀ other ∈ Decl.allOf (before ++ after), other.canonical ≠ info.canonical

namespace Edit

/-- This is the translation unit without the declaration. -/
def shorter (edit : Edit) : TranslationUnit := ⟨edit.before ++ edit.after⟩

def moved (edit : Edit) (decls : List Decl) : List Decl := Decl.relocateAll edit.shift decls

/-- This is the translation unit with the declaration. -/
def longer (edit : Edit) : TranslationUnit :=
  ⟨edit.moved edit.before ++ edit.inserted :: edit.moved edit.after⟩

end Edit
end Clang

/-! ### Two runs -/

open Clang

namespace AstSerializer

/-- The serializer has visited the first declarations of a unit. -/
def visitedFirst (spelling : DeclSpelling) (unit : TranslationUnit) (decls : List Decl) : AstSerializer :=
  (decls.filter fun declaration => declaration.info.validLocation).foldl
    (fun serializer declaration => visitDecl spelling unit declaration "" serializer) {}

def context (spelling : DeclSpelling) (filePath : String) (unit : TranslationUnit) : RuleContext where
  filePath := filePath
  astNodes := (decoded spelling unit).nodes

end AstSerializer

namespace Clang.Edit
open AstSerializer

/-- The serializer reaches the node before the inserted declaration. -/
def ComesBefore (edit : Edit) (spelling : DeclSpelling) (node : AstNode) : Prop :=
  node ∈ (visitedFirst spelling edit.shorter edit.before).emitted.map Emitted.node

/-- The nodes of the inserted declaration are left out. -/
def remaining (edit : Edit) (spelling : DeclSpelling) : List AstNode :=
  let nodes := (decoded spelling edit.longer).nodes
  nodes.take (visitedFirst spelling edit.longer (edit.moved edit.before)).nodeCounter ++
    nodes.drop (visitedFirst spelling edit.longer (edit.moved edit.before ++ [edit.inserted])).nodeCounter

/-- The two nodes stand for the same piece of the source. -/
def Counterparts (edit : Edit) (spelling : DeclSpelling) (node other : AstNode) : Prop :=
  (node, other) ∈ (decoded spelling edit.shorter).nodes.zip (edit.remaining spelling)

/-- The declaration gives no nodes, or all of them come after the node. -/
def Harmless (edit : Edit) (spelling : DeclSpelling) (node : AstNode) : Prop :=
  edit.inserted.info.validLocation = false ∨ edit.ComesBefore spelling node

section Decide

variable (edit : Edit) (spelling : DeclSpelling) (node other : AstNode)

instance : Decidable (edit.ComesBefore spelling node) :=
  inferInstanceAs (Decidable (_ ∈ List.map Emitted.node _))

instance : Decidable (edit.Counterparts spelling node other) :=
  inferInstanceAs (Decidable (_ ∈ List.zip _ _))

instance : Decidable (edit.Harmless spelling node) := inferInstanceAs (Decidable (_ ∨ _))

end Decide

end Clang.Edit

/-- A rule reports a node of the unit with its own texts. -/
def AstSerializer.finding (spelling : DeclSpelling) (ruleId filePath : String) (unit : TranslationUnit)
    (report : NodeReport) : RuleResult :=
  BaseRulePlugin.makeResult ruleId (context spelling filePath unit)
    (BaseRulePlugin.graph (context spelling filePath unit)) report.node report.explanation report.riskDescription
    report.confidenceFactors report.confidenceScore report.suggestedFix

namespace ViolationRepository

/-- No two rows share an id, and no two rows of a project share a fingerprint. -/
structure Keyed (store : List ViolationRecord) : Prop where
  ids : (store.map ViolationRecord.id).Nodup
  keys : (store.map fun record => (record.projectId, record.fingerprint)).Nodup

/-- The row is the same one and has kept its status and its history. -/
structure Continues (record row : ViolationRecord) : Prop where
  id : record.id = row.id
  projectId : record.projectId = row.projectId
  fingerprint : record.fingerprint = row.fingerprint
  status : record.status = row.status
  assignedReviewerId : record.assignedReviewerId = row.assignedReviewerId
  assignedReviewerName : record.assignedReviewerName = row.assignedReviewerName
  firstSeenAt : record.firstSeenAt = row.firstSeenAt

/-- A row saved the earlier finding. The relation compares it with the row that the later finding is saved in. -/
def Resaved (sha256 : String → String) (earlier later : RuleResult)
    (relation : ViolationRecord → ViolationRecord → Prop) : Prop :=
  ∀ (call : Upsert) (store : List ViolationRecord), Keyed store → ∀ row ∈ store, row.projectId = call.projectId →
    row.fingerprint = Fingerprint.generateFingerprint sha256 earlier →
    ∀ (payloads : List ViolationPayload) (index : Nat) (severity category : String),
      payloads[index]? = some (ViolationPayload.of sha256 severity category later) →
      ∃ saved after record, upsertViolations call payloads store = .ok (saved, after) ∧
        saved[index]? = some record ∧ relation record row

def KeepsRow (sha256 : String → String) (earlier later : RuleResult) : Prop :=
  Resaved sha256 earlier later Continues

def LosesRow (sha256 : String → String) (earlier later : RuleResult) : Prop :=
  Resaved sha256 earlier later fun record row => record.id ≠ row.id

end ViolationRepository
end MisraPlatform

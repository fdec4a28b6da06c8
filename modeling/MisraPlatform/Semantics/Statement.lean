import MisraPlatform.Construction.CfgEngine

/-
This file is the statement structure of a C function body and the statement positions of its AST.
-/

namespace MisraPlatform
open CFGEngine

mutual

/-- A statement list keeps the AST node of each statement. -/
inductive Code where
  | nil
  | simple (statement : AstNode) (rest : Code)
  | compound (statement : AstNode) (body rest : Code)
  | ifStmt (statement : AstNode) (thenBranch elseBranch : Branch) (rest : Code)
  | loop (statement : AstNode) (body : Branch) (rest : Code)
  | switch (statement : AstNode) (groups : Groups) (rest : Code)
  | bareSwitch (statement : AstNode) (rest : Code)

/-- A branch or a loop body may be missing from a malformed tree. -/
inductive Branch where
  | absent
  | present (body : Code)

/-- A case group is a label and the flat statements up to the next label. -/
inductive Groups where
  | nil
  | cons (label : AstNode) (body : Code) (more : Groups)

end

deriving instance DecidableEq for Code, Branch, Groups

def NodeKind.isJump : NodeKind → Bool
  | .returnStmt | .breakStmt | .continueStmt | .gotoStmt => true
  | _ => false

/-- The other kinds have statements below them. -/
def NodeKind.isSimple : NodeKind → Bool
  | .ifStmt | .forStmt | .whileStmt | .doStmt | .switchStmt | .compoundStmt => false
  | _ => true

/-- A statement that is no label belongs to the label before it. -/
def isPlain (statement : AstNode) : Bool := !isCaseLabel statement

def Groups.hasDefault : Groups → Bool
  | .nil => false
  | .cons label _ more => label.nodeKind = .defaultStmt || more.hasDefault

mutual

/-- The nodes stand in the order of the source text. -/
def Code.nodes : Code → List AstNode
  | .nil => []
  | .simple statement rest => statement :: rest.nodes
  | .compound _ body rest => body.nodes ++ rest.nodes
  | .ifStmt statement thenBranch elseBranch rest =>
      statement :: thenBranch.nodes ++ elseBranch.nodes ++ rest.nodes
  | .loop statement body rest => statement :: body.nodes ++ rest.nodes
  | .switch statement groups rest => statement :: groups.nodes ++ rest.nodes
  | .bareSwitch statement rest => statement :: rest.nodes

def Branch.nodes : Branch → List AstNode
  | .absent => []
  | .present body => body.nodes

def Groups.nodes : Groups → List AstNode
  | .nil => []
  | .cons label body more => label :: body.nodes ++ more.nodes

end

mutual

/-- Every statement has the kind that its place in the code asks for. -/
def Code.Kinded : Code → Prop
  | .nil => True
  | .simple statement rest => statement.nodeKind.isSimple = true ∧ rest.Kinded
  | .compound statement body rest =>
      statement.nodeKind = .compoundStmt ∧ body.Kinded ∧ rest.Kinded
  | .ifStmt statement thenBranch elseBranch rest =>
      statement.nodeKind = .ifStmt ∧ thenBranch.Kinded ∧ elseBranch.Kinded ∧ rest.Kinded
  | .loop statement body rest => statement.nodeKind.isLoop = true ∧ body.Kinded ∧ rest.Kinded
  | .switch statement groups rest =>
      statement.nodeKind = .switchStmt ∧ groups.Kinded ∧ rest.Kinded
  | .bareSwitch statement rest => statement.nodeKind = .switchStmt ∧ rest.Kinded

def Branch.Kinded : Branch → Prop
  | .absent => True
  | .present body => body.Kinded

def Groups.Kinded : Groups → Prop
  | .nil => True
  | .cons label body more => isCaseLabel label = true ∧ body.Kinded ∧ more.Kinded

end

/-! ### The layout of the AST -/

mutual

/-- The AST lays a statement list out as Clang orders the children of each statement. -/
def Code.Reads (graph : AstGraph) : Code → List AstNode → Prop
  | .nil, nodes => nodes = []
  | .simple statement rest, nodes => ∃ tail, nodes = statement :: tail ∧
      statement.nodeKind.isSimple = true ∧ rest.Reads graph tail
  | .compound statement body rest, nodes => ∃ tail, nodes = statement :: tail ∧
      statement.nodeKind = .compoundStmt ∧ body.Reads graph (graph.children statement.nodeId) ∧
      rest.Reads graph tail
  | .ifStmt statement thenBranch elseBranch rest, nodes => ∃ tail condition thenNode elseNode,
      nodes = statement :: tail ∧ statement.nodeKind = .ifStmt ∧
      graph.children statement.nodeId = condition :: thenNode :: elseNode.toList ∧
      thenBranch.Reads graph (some thenNode) ∧ elseBranch.Reads graph elseNode ∧
      rest.Reads graph tail
  | .loop statement body rest, nodes => ∃ tail bodyNode clauses, nodes = statement :: tail ∧
      statement.nodeKind.isLoop = true ∧
      (graph.children statement.nodeId =
        if statement.nodeKind = .doStmt then bodyNode :: clauses else clauses ++ [bodyNode]) ∧
      body.Reads graph (some bodyNode) ∧ rest.Reads graph tail
  | .switch statement groups rest, nodes => ∃ tail header body, nodes = statement :: tail ∧
      statement.nodeKind = .switchStmt ∧
      graph.children statement.nodeId = header ++ [body] ∧
      (∀ child ∈ header, child.nodeKind ≠ .compoundStmt) ∧ body.nodeKind = .compoundStmt ∧
      groups.Reads graph (graph.children body.nodeId) ∧ rest.Reads graph tail
  | .bareSwitch _ _, _ => False

/-- A branch with braces is the list of the statements inside them. -/
def Branch.Reads (graph : AstGraph) : Branch → Option AstNode → Prop
  | .absent, node => node = none
  | .present body, node => ∃ found, node = some found ∧
      if found.nodeKind = .compoundStmt then body.Reads graph (graph.children found.nodeId)
      else body.Reads graph [found]

/-- The groups split a flat list at its labels and the first statement is a label. -/
def Groups.Reads (graph : AstGraph) : Groups → List AstNode → Prop
  | .nil, nodes => nodes = []
  | .cons label body more, nodes => ∃ inner outer, nodes = label :: inner ++ outer ∧
      isCaseLabel label = true ∧ (∀ node ∈ inner, isCaseLabel node = false) ∧
      body.Reads graph inner ∧ more.Reads graph outer

end

/-- The body of a function is the statement list that the engine starts from. -/
def FunctionBody (graph : AstGraph) (functionNode : AstNode) (body : Code) : Prop :=
  body.Reads graph (bodyStatements functionNode graph)

/-! ### The reading of the engine -/

/-- The engine visits these statements of an arbitrary tree and leaves out the others. -/
abbrev Reader := List AstNode → Option Code

def readBranch (read : Reader) (graph : AstGraph) : Option AstNode → Option Branch
  | none => some .absent
  | some node =>
      if node.nodeKind = .compoundStmt then (read (graph.children node.nodeId)).map .present
      else (read [node]).map .present

def readGroups (read : Reader) : List (AstNode × List AstNode) → Option Groups
  | [] => some .nil
  | (label, group) :: rest => do
      let body ← read group
      let more ← readGroups read rest
      some (.cons label body more)

/-- The reading of one statement goes in front of the reading of the rest. -/
def readStatement (read : Reader) (graph : AstGraph) (statement : AstNode) (rest : Code) :
    Option Code :=
  let children := graph.children statement.nodeId
  match statement.nodeKind with
  | .ifStmt => do
      let thenBranch ← readBranch read graph children[1]?
      let elseBranch ← readBranch read graph children[2]?
      some (.ifStmt statement thenBranch elseBranch rest)
  | .forStmt | .whileStmt | .doStmt => do
      let body ← readBranch read graph (loopBody statement children)
      some (.loop statement body rest)
  | .switchStmt =>
      match children.find? fun child => child.nodeKind = .compoundStmt with
      | none => some (.bareSwitch statement rest)
      | some body => do
          let groups ← readGroups read (caseGroups (graph.children body.nodeId))
          some (.switch statement groups rest)
  | .compoundStmt => do
      let body ← read children
      some (.compound statement body rest)
  | _ => some (.simple statement rest)

def readStatements (read : Reader) (graph : AstGraph) : Reader
  | [] => some .nil
  | statement :: rest => do
      let rest ← readStatements read graph rest
      readStatement read graph statement rest

def readCode (graph : AstGraph) : Nat → Reader
  | 0, _ => none
  | fuel + 1, statements => readStatements (readCode graph fuel) graph statements

section ReadAs

variable (read : Reader) (graph : AstGraph) (statement : AstNode) (rest : Code)

/-- A statement is read in one of these ways. -/
inductive ReadAs : Code → Prop
  | ifStmt {thenBranch elseBranch : Branch} (kind : statement.nodeKind = .ifStmt)
      (readThen : readBranch read graph (graph.children statement.nodeId)[1]? = some thenBranch)
      (readElse : readBranch read graph (graph.children statement.nodeId)[2]? = some elseBranch) :
      ReadAs (.ifStmt statement thenBranch elseBranch rest)
  | loop {body : Branch} (kind : statement.nodeKind.isLoop = true)
      (readBody : readBranch read graph (loopBody statement (graph.children statement.nodeId)) = some body) :
      ReadAs (.loop statement body rest)
  | bareSwitch (kind : statement.nodeKind = .switchStmt)
      (missing : (graph.children statement.nodeId).find? (fun child => child.nodeKind = .compoundStmt) = none) :
      ReadAs (.bareSwitch statement rest)
  | switch {body : AstNode} {groups : Groups} (kind : statement.nodeKind = .switchStmt)
      (found : (graph.children statement.nodeId).find? (fun child => child.nodeKind = .compoundStmt) = some body)
      (readBody : readGroups read (caseGroups (graph.children body.nodeId)) = some groups) :
      ReadAs (.switch statement groups rest)
  | compound {body : Code} (kind : statement.nodeKind = .compoundStmt)
      (readBody : read (graph.children statement.nodeId) = some body) : ReadAs (.compound statement body rest)
  | simple (kind : statement.nodeKind.isSimple = true) : ReadAs (.simple statement rest)

variable {read graph statement rest}

theorem readStatement_cases {code : Code} (reads : readStatement read graph statement rest = some code) :
    ReadAs read graph statement rest code := by
  unfold readStatement at reads
  have loop : statement.nodeKind.isLoop = true → (do
      let body ← readBranch read graph (loopBody statement (graph.children statement.nodeId))
      some (Code.loop statement body rest)) = some code → ReadAs read graph statement rest code := by
    intro kind reads
    obtain ⟨body, readBody, reads⟩ := Option.bind_eq_some_iff.mp reads
    obtain rfl := Option.some.inj reads
    exact .loop kind readBody
  split at reads
  · rename_i kind
    obtain ⟨thenBranch, readThen, reads⟩ := Option.bind_eq_some_iff.mp reads
    obtain ⟨elseBranch, readElse, reads⟩ := Option.bind_eq_some_iff.mp reads
    obtain rfl := Option.some.inj reads
    exact .ifStmt kind readThen readElse
  · rename_i kind
    exact loop (by rw [kind]; rfl) reads
  · rename_i kind
    exact loop (by rw [kind]; rfl) reads
  · rename_i kind
    exact loop (by rw [kind]; rfl) reads
  · rename_i kind
    simp only at reads
    split at reads
    · rename_i missing
      obtain rfl := Option.some.inj reads
      exact .bareSwitch kind missing
    · rename_i body found
      obtain ⟨groups, readBody, reads⟩ := Option.bind_eq_some_iff.mp reads
      obtain rfl := Option.some.inj reads
      exact .switch kind found readBody
  · rename_i kind
    obtain ⟨body, readBody, reads⟩ := Option.bind_eq_some_iff.mp reads
    obtain rfl := Option.some.inj reads
    exact .compound kind readBody
  · obtain rfl := Option.some.inj reads
    refine .simple ?_
    cases kind : statement.nodeKind <;> simp_all [NodeKind.isSimple]

end ReadAs

end MisraPlatform

namespace MisraPlatform
open CFGEngine

/-- The parent of the node is a switch. -/
def AstGraph.inSwitch (graph : AstGraph) (node : AstNode) : Bool :=
  (graph.get node.parentId).any fun parent => parent.nodeKind = .switchStmt

/-- A case label, a default label and a goto label have the next statement as their last child. -/
def isLabel (statement : AstNode) : Bool :=
  isCaseLabel statement || statement.nodeKind = .labelStmt

/-- A statement has these statements below it. The flag tells whether the builder goes on to them. -/
inductive Passes (graph : AstGraph) (parent child : AstNode) : Bool → Prop
  | compound (kind : parent.nodeKind = .compoundStmt) (outside : graph.inSwitch parent = false)
      (inside : child ∈ graph.children parent.nodeId) : Passes graph parent child true
  | group (kind : parent.nodeKind = .compoundStmt) (body : graph.inSwitch parent = true)
      (inside : child ∈ (graph.children parent.nodeId).dropWhile isPlain) :
      Passes graph parent child true
  | early (kind : parent.nodeKind = .compoundStmt) (body : graph.inSwitch parent = true)
      (inside : child ∈ (graph.children parent.nodeId).takeWhile isPlain) :
      Passes graph parent child false
  | branch {index : Nat} (kind : parent.nodeKind = .ifStmt) (either : index = 1 ∨ index = 2)
      (inside : (graph.children parent.nodeId)[index]? = some child) : Passes graph parent child true
  | loop (kind : parent.nodeKind.isLoop = true)
      (inside : loopBody parent (graph.children parent.nodeId) = some child) :
      Passes graph parent child true
  | switch (kind : parent.nodeKind = .switchStmt)
      (inside : (graph.children parent.nodeId).getLast? = some child) :
      Passes graph parent child (child.nodeKind = .compoundStmt)
  | labelled (kind : isLabel parent = true)
      (inside : (graph.children parent.nodeId).getLast? = some child) :
      Passes graph parent child false

/-- A node stands in a function as a statement. The flag is lost below a place that the builder
leaves out. -/
inductive Stands (graph : AstGraph) (functionNode : AstNode) : Bool → AstNode → Prop
  | top {statement : AstNode} (inside : statement ∈ bodyStatements functionNode graph) :
      Stands graph functionNode true statement
  | nested {kept keeps : Bool} {parent child : AstNode} (above : Stands graph functionNode kept parent)
      (passes : Passes graph parent child keeps) : Stands graph functionNode (kept && keeps) child

/-- The condition of a switch is an expression, so its body is the only compound child. -/
def SwitchesShaped (graph : AstGraph) : Prop :=
  ∀ node ∈ graph.nodes, node.nodeKind = .switchStmt →
    ∀ child ∈ (graph.children node.nodeId).dropLast, child.nodeKind ≠ .compoundStmt

end MisraPlatform

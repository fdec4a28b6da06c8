import MisraPlatform.Proof.Forest
import Mathlib.Data.List.DropRight

/-
This file shows what the engine reads of a forest.
-/

namespace MisraPlatform
open CFGEngine

/-! ### Case groups -/

theorem CaseScan.next_label {statement : AstNode} (label : isCaseLabel statement = true)
    (scan : CaseScan) : scan.next statement = ⟨some statement, [], scan.close⟩ := by
  simp [CaseScan.next, label]

theorem CaseScan.next_plain {statement : AstNode} (plain : isCaseLabel statement = false)
    (scan : CaseScan) :
    scan.next statement = ⟨scan.currentCase, scan.currentGroup ++ [statement], scan.closed⟩ := by
  simp [CaseScan.next, plain]

/-- An open label takes the statements up to the next label. -/
theorem scan_open (statements : List AstNode) (label : AstNode) (group : List AstNode)
    (closed : List (AstNode × List AstNode)) :
    (statements.foldl CaseScan.next ⟨some label, group, closed⟩).close =
      closed ++ (label, group ++ statements.takeWhile isPlain) ::
        caseGroups (statements.dropWhile isPlain) := by
  induction statements generalizing label group closed with
  | nil => simp [CaseScan.close, caseGroups]
  | cons statement rest ih =>
      rw [List.foldl_cons]
      cases kind : isCaseLabel statement with
      | true =>
          have reopened : caseGroups (statement :: rest) =
              (rest.foldl CaseScan.next ⟨some statement, [], []⟩).close := by
            rw [caseGroups, List.foldl_cons, CaseScan.next_label kind]
            rfl
          rw [CaseScan.next_label kind, ih, List.takeWhile_cons_of_neg (by simp [isPlain, kind]),
            List.dropWhile_cons_of_neg (by simp [isPlain, kind]), reopened, ih]
          simp [CaseScan.close]
      | false =>
          rw [CaseScan.next_plain kind, ih, List.takeWhile_cons_of_pos (by simp [isPlain, kind]),
            List.dropWhile_cons_of_pos (by simp [isPlain, kind])]
          simp

theorem caseGroups_label {label : AstNode} (kind : isCaseLabel label = true) (rest : List AstNode) :
    caseGroups (label :: rest) =
      (label, rest.takeWhile isPlain) :: caseGroups (rest.dropWhile isPlain) := by
  rw [caseGroups, List.foldl_cons, CaseScan.next_label kind]
  exact scan_open rest label [] []

/-- The statements in front of the first label are in no group. -/
theorem caseGroups_dropWhile (statements : List AstNode) :
    caseGroups statements = caseGroups (statements.dropWhile isPlain) := by
  have unopened : ∀ (statements group : List AstNode),
      (statements.foldl CaseScan.next ⟨none, group, []⟩).close =
        caseGroups (statements.dropWhile isPlain) := by
    intro statements
    induction statements with
    | nil => exact fun _ => rfl
    | cons statement rest ih =>
        intro group
        rw [List.foldl_cons]
        cases kind : isCaseLabel statement with
        | true =>
            rw [CaseScan.next_label kind, List.dropWhile_cons_of_neg (by simp [isPlain, kind]),
              caseGroups_label kind]
            exact scan_open rest statement [] []
        | false =>
            rw [CaseScan.next_plain kind, List.dropWhile_cons_of_pos (by simp [isPlain, kind])]
            exact ih _
  exact unopened statements []

theorem dropWhile_head {rest : List AstNode} {statement : AstNode} {after : List AstNode}
    (same : rest.dropWhile isPlain = statement :: after) : isCaseLabel statement = true := by
  have first := List.head?_dropWhile_not isPlain rest
  rw [same] at first
  simpa [isPlain] using first

/-- The groups keep every statement from the first label on and begin with labels. -/
theorem caseGroups_flat (statements : List AstNode) :
    ((caseGroups statements).flatMap fun group => group.1 :: group.2) =
        statements.dropWhile isPlain ∧
      ∀ group ∈ caseGroups statements, isCaseLabel group.1 = true := by
  generalize bound : statements.length = size
  induction size using Nat.strongRecOn generalizing statements with
  | _ size ih =>
  subst bound
  rw [caseGroups_dropWhile]
  cases same : statements.dropWhile isPlain with
  | nil => exact ⟨rfl, fun group inside => absurd inside List.not_mem_nil⟩
  | cons label rest =>
      have kind := dropWhile_head same
      have shorter : (rest.dropWhile isPlain).length < statements.length := by
        have whole := (List.dropWhile_sublist isPlain (l := statements)).length_le
        have part := (List.dropWhile_sublist isPlain (l := rest)).length_le
        rw [same, List.length_cons] at whole
        omega
      obtain ⟨flat, labels⟩ := ih _ shorter (rest.dropWhile isPlain) rfl
      rw [caseGroups_label kind]
      constructor
      · rw [List.flatMap_cons, flat, List.dropWhile_idempotent, List.cons_append,
          List.takeWhile_append_dropWhile]
      · intro group inside
        rcases List.mem_cons.mp inside with rfl | later
        · exact kind
        · exact labels group later

/-! ### The reading of a forest -/

section Reading

variable {graph : AstGraph}

theorem mem_loopBody {statement top : AstNode} {children : List AstNode}
    (inside : top ∈ loopBody statement children) : top ∈ children := by
  unfold loopBody at inside
  split at inside
  · exact List.mem_of_head? inside
  · exact List.mem_of_getLast? inside

/-- The nodes are different and each of them stands under one of the tops. -/
def Covers (graph : AstGraph) (tops nodes : List AstNode) : Prop :=
  nodes.Nodup ∧ ∀ node ∈ nodes, ∃ top ∈ tops, graph.Under top node

theorem Covers.widen {tops wider nodes : List AstNode} (covers : Covers graph tops nodes)
    (inside : ∀ top ∈ tops, top ∈ wider) : Covers graph wider nodes := by
  refine ⟨covers.1, fun node present => ?_⟩
  obtain ⟨top, listed, under⟩ := covers.2 node present
  exact ⟨top, inside top listed, under⟩

theorem Covers.nil (tops : List AstNode) : Covers graph tops [] :=
  ⟨List.nodup_nil, fun _ inside => absurd inside List.not_mem_nil⟩

theorem Covers.singleton (node : AstNode) : Covers graph [node] [node] :=
  ⟨List.nodup_singleton _, fun _ inside => ⟨node, List.mem_singleton.mpr rfl,
    List.mem_singleton.mp inside ▸ .refl⟩⟩

theorem Covers.append (wellFormed : graph.WellFormed) {first second front back : List AstNode}
    (apart : graph.Apart (first ++ second)) (left : Covers graph first front)
    (right : Covers graph second back) : Covers graph (first ++ second) (front ++ back) := by
  refine ⟨List.nodup_append.mpr ⟨left.1, right.1, ?_⟩, fun node inside => ?_⟩
  · rintro node inside other also rfl
    obtain ⟨top, listed, under⟩ := left.2 node inside
    obtain ⟨other, named, below⟩ := right.2 node also
    have separate := (List.pairwise_append.mp apart).2.2 top listed other named
    exact (wellFormed.under_line under below).elim separate.1 separate.2
  · rcases List.mem_append.mp inside with early | late
    · obtain ⟨top, listed, under⟩ := left.2 node early
      exact ⟨top, List.mem_append_left _ listed, under⟩
    · obtain ⟨top, listed, under⟩ := right.2 node late
      exact ⟨top, List.mem_append_right _ listed, under⟩

/-- What stands under the children of a node stands under the node. -/
theorem Covers.above {top : AstNode} (present : top ∈ graph.nodes) {nodes : List AstNode}
    (covers : Covers graph (graph.children top.nodeId) nodes) : Covers graph [top] nodes := by
  refine ⟨covers.1, fun node inside => ⟨top, List.mem_singleton.mpr rfl, ?_⟩⟩
  obtain ⟨child, listed, under⟩ := covers.2 node inside
  exact .head ⟨present, listed⟩ under

/-- A node does not stand under its own children. -/
theorem Covers.parent (wellFormed : graph.WellFormed) {top : AstNode} (present : top ∈ graph.nodes)
    {nodes : List AstNode} (covers : Covers graph (graph.children top.nodeId) nodes) :
    Covers graph [top] (top :: nodes) := by
  refine ⟨List.nodup_cons.mpr ⟨fun inside => ?_, covers.1⟩, fun node inside => ?_⟩
  · obtain ⟨child, listed, under⟩ := covers.2 top inside
    exact wellFormed.not_under_self listed rfl under
  · rcases List.mem_cons.mp inside with rfl | below
    · exact ⟨node, List.mem_singleton.mpr rfl, .refl⟩
    · exact (covers.above present).2 node below

theorem Apart.sublist {nodes more : List AstNode} (apart : graph.Apart more)
    (part : nodes.Sublist more) : graph.Apart nodes := List.Pairwise.sublist part apart

/-- The reader answers with a body that covers the list. -/
def ReadsOnce (graph : AstGraph) (read : Reader) : Prop :=
  ∀ statements code, read statements = some code → (∀ node ∈ statements, node ∈ graph.nodes) →
    graph.Apart statements → code.Kinded ∧ Covers graph statements code.nodes

section Once

variable (wellFormed : graph.WellFormed) {read : Reader} (once : ReadsOnce graph read)

include wellFormed once

theorem readBranch_once {node : Option AstNode} (present : ∀ top ∈ node, top ∈ graph.nodes)
    {branch : Branch} (reads : readBranch read graph node = some branch) :
    branch.Kinded ∧ Covers graph node.toList branch.nodes := by
  cases node with
  | none =>
      obtain rfl := Option.some.inj reads
      exact ⟨trivial, Covers.nil _⟩
  | some top =>
      simp only [readBranch] at reads
      split at reads
      · obtain ⟨code, found, rfl⟩ := Option.map_eq_some_iff.mp reads
        obtain ⟨kinded, covers⟩ := once _ code found (fun _ inside => (AstGraph.mem_children inside).1)
          (wellFormed.children_apart _)
        exact ⟨kinded, covers.above (present top rfl)⟩
      · obtain ⟨code, found, rfl⟩ := Option.map_eq_some_iff.mp reads
        exact once _ code found (by simpa using present top rfl) (List.pairwise_singleton _ _)

theorem readGroups_once {groups : List (AstNode × List AstNode)} {result : Groups}
    (reads : readGroups read groups = some result)
    (labels : ∀ group ∈ groups, isCaseLabel group.1 = true)
    (present : ∀ node ∈ groups.flatMap fun group => group.1 :: group.2, node ∈ graph.nodes)
    (apart : graph.Apart (groups.flatMap fun group => group.1 :: group.2)) :
    result.Kinded ∧ Covers graph (groups.flatMap fun group => group.1 :: group.2) result.nodes := by
  induction groups generalizing result with
  | nil =>
      obtain rfl := Option.some.inj reads
      exact ⟨trivial, Covers.nil _⟩
  | cons group rest ih =>
      obtain ⟨label, statements⟩ := group
      rw [List.flatMap_cons] at present apart ⊢
      obtain ⟨body, bodyRead, reads⟩ := Option.bind_eq_some_iff.mp reads
      obtain ⟨more, moreRead, reads⟩ := Option.bind_eq_some_iff.mp reads
      obtain rfl := Option.some.inj reads
      have own := (List.pairwise_append.mp apart).1
      obtain ⟨bodyKinded, bodyCovers⟩ := once _ body bodyRead
        (fun node inside => present node (by simp [inside])) (List.pairwise_cons.mp own).2
      obtain ⟨moreKinded, moreCovers⟩ := ih moreRead
        (fun group inside => labels group (List.mem_cons_of_mem _ inside))
        (fun node inside => present node (List.mem_append_right _ inside))
        (List.pairwise_append.mp apart).2.1
      have front : Covers graph ([label] ++ statements) ([label] ++ body.nodes) :=
        Covers.append wellFormed own (Covers.singleton label) bodyCovers
      exact ⟨⟨labels _ List.mem_cons_self, bodyKinded, moreKinded⟩,
        Covers.append wellFormed apart front moreCovers⟩

/-- The nodes of one statement stand under it. -/
theorem readStatement_once {statement : AstNode} (present : statement ∈ graph.nodes) {rest code : Code}
    (reads : readStatement read graph statement rest = some code) (restKinded : rest.Kinded) :
    ∃ nodes, code.Kinded ∧ Covers graph [statement] nodes ∧ code.nodes = nodes ++ rest.nodes := by
  have below : ∀ node ∈ graph.children statement.nodeId, node ∈ graph.nodes := fun _ inside =>
    (AstGraph.mem_children inside).1
  have apart := wellFormed.children_apart statement.nodeId
  cases readStatement_cases reads with
  | @ifStmt thenBranch elseBranch kind readThen readElse =>
      obtain ⟨thenKinded, thenCovers⟩ := readBranch_once wellFormed once
        (fun top inside => below top (List.mem_of_getElem? inside)) readThen
      obtain ⟨elseKinded, elseCovers⟩ := readBranch_once wellFormed once
        (fun top inside => below top (List.mem_of_getElem? inside)) readElse
      have part : ((graph.children statement.nodeId)[1]?.toList ++
          (graph.children statement.nodeId)[2]?.toList).Sublist (graph.children statement.nodeId) := by
        rcases graph.children statement.nodeId with _ | ⟨first, _ | ⟨second, _ | ⟨third, more⟩⟩⟩ <;> simp
      have both := Covers.append wellFormed (Apart.sublist apart part) thenCovers elseCovers
      exact ⟨statement :: (thenBranch.nodes ++ elseBranch.nodes),
        ⟨kind, thenKinded, elseKinded, restKinded⟩,
        Covers.parent wellFormed present (both.widen fun _ inside => part.subset inside),
        by simp [Code.nodes]⟩
  | @loop body kind readBody =>
      have child : ∀ top ∈ loopBody statement (graph.children statement.nodeId),
          top ∈ graph.children statement.nodeId := fun _ => mem_loopBody
      obtain ⟨kinded, covers⟩ := readBranch_once wellFormed once
        (fun top inside => below top (child top inside)) readBody
      exact ⟨statement :: body.nodes, ⟨kind, kinded, restKinded⟩,
        Covers.parent wellFormed present (covers.widen fun top inside =>
          child top (Option.mem_toList.mp inside)), rfl⟩
  | bareSwitch kind _ => exact ⟨[statement], ⟨kind, restKinded⟩, Covers.singleton _, rfl⟩
  | @switch body groups kind found readBody =>
      have inside := List.mem_of_find?_eq_some found
      obtain ⟨flat, labels⟩ := caseGroups_flat (graph.children body.nodeId)
      have part := List.dropWhile_sublist isPlain (l := graph.children body.nodeId)
      obtain ⟨kinded, covers⟩ := readGroups_once wellFormed once readBody labels
        (fun node listed => (AstGraph.mem_children (part.subset (flat ▸ listed))).1)
        (flat ▸ Apart.sublist (wellFormed.children_apart _) part)
      rw [flat] at covers
      have whole := (covers.widen fun _ listed => part.subset listed).above (below body inside)
      exact ⟨statement :: groups.nodes, ⟨kind, kinded, restKinded⟩,
        Covers.parent wellFormed present (whole.widen fun top listed =>
          List.mem_singleton.mp listed ▸ inside), rfl⟩
  | @compound body kind readBody =>
      obtain ⟨kinded, covers⟩ := once _ body readBody below apart
      exact ⟨body.nodes, ⟨kind, kinded, restKinded⟩, covers.above present, rfl⟩
  | simple kind => exact ⟨[statement], ⟨kind, restKinded⟩, Covers.singleton _, rfl⟩

end Once

theorem readStatements_once (wellFormed : graph.WellFormed) {read : Reader}
    (once : ReadsOnce graph read) : ReadsOnce graph (readStatements read graph) := by
  intro statements
  induction statements with
  | nil =>
      intro code reads _ _
      obtain rfl := Option.some.inj reads
      exact ⟨trivial, Covers.nil _⟩
  | cons statement rest ih =>
      intro code reads present apart
      obtain ⟨others, restRead, reads⟩ := Option.bind_eq_some_iff.mp reads
      obtain ⟨restKinded, restCovers⟩ := ih others restRead
        (fun node inside => present node (List.mem_cons_of_mem _ inside))
        (List.pairwise_cons.mp apart).2
      obtain ⟨nodes, kinded, covers, same⟩ := readStatement_once wellFormed once
        (present statement List.mem_cons_self) reads restKinded
      have whole : graph.Apart ([statement] ++ rest) := apart
      exact ⟨kinded, same ▸ Covers.append wellFormed whole covers restCovers⟩

/-- The engine reads every statement under a list at most once. -/
theorem readCode_once (wellFormed : graph.WellFormed) (fuel : Nat) :
    ReadsOnce graph (readCode graph fuel) := by
  induction fuel with
  | zero => exact fun _ _ reads => by simp [readCode] at reads
  | succ fuel ih => exact readStatements_once wellFormed ih

/-! ### The end of the reading -/

/-- The reader answers every list of nodes that are deeper than the statement. -/
def Answers (read : Reader) (depth : String → Nat) (statement : AstNode) : Prop :=
  ∀ statements : List AstNode, (∀ node ∈ statements, depth node.nodeId < depth statement.nodeId) →
    ∃ code, read statements = some code

section Answers

variable {read : Reader} {depth : String → Nat} {statement : AstNode}
  (decreases : ∀ nodeId, ∀ child ∈ graph.children nodeId, depth child.nodeId < depth nodeId)
  (answers : Answers read depth statement)

include decreases answers

theorem readBranch_answers {node : Option AstNode}
    (inside : ∀ top ∈ node, top ∈ graph.children statement.nodeId) :
    ∃ branch, readBranch read graph node = some branch := by
  cases node with
  | none => exact ⟨.absent, rfl⟩
  | some top =>
      have smaller := decreases _ top (inside top rfl)
      simp only [readBranch]
      split
      · obtain ⟨code, found⟩ := answers (graph.children top.nodeId) fun node listed =>
          Nat.lt_trans (decreases _ node listed) smaller
        exact ⟨.present code, by rw [found]; rfl⟩
      · obtain ⟨code, found⟩ := answers [top] fun node listed => by
          rw [List.mem_singleton.mp listed]
          exact smaller
        exact ⟨.present code, by rw [found]; rfl⟩

omit decreases in
theorem readGroups_answers {groups : List (AstNode × List AstNode)}
    (inside : ∀ node ∈ groups.flatMap fun group => group.1 :: group.2,
      depth node.nodeId < depth statement.nodeId) :
    ∃ result, readGroups read groups = some result := by
  induction groups with
  | nil => exact ⟨.nil, rfl⟩
  | cons group rest ih =>
      obtain ⟨label, statements⟩ := group
      rw [List.flatMap_cons] at inside
      obtain ⟨body, found⟩ := answers statements fun node listed => inside node (by simp [listed])
      obtain ⟨more, others⟩ := ih fun node listed => inside node (List.mem_append_right _ listed)
      exact ⟨.cons label body more, by simp [readGroups, found, others]⟩

theorem readStatement_answers (rest : Code) :
    ∃ code, readStatement read graph statement rest = some code := by
  have loop : ∃ code, (do
      let body ← readBranch read graph (loopBody statement (graph.children statement.nodeId))
      some (Code.loop statement body rest)) = some code := by
    obtain ⟨body, found⟩ := readBranch_answers decreases answers fun _ => mem_loopBody
    exact ⟨_, by rw [found]; rfl⟩
  simp only [readStatement]
  split
  · obtain ⟨thenBranch, first⟩ := readBranch_answers decreases answers fun top inside =>
      List.mem_of_getElem? (i := 1) inside
    obtain ⟨elseBranch, second⟩ := readBranch_answers decreases answers fun top inside =>
      List.mem_of_getElem? (i := 2) inside
    exact ⟨_, by rw [first, second]; rfl⟩
  · exact loop
  · exact loop
  · exact loop
  · split
    · exact ⟨_, rfl⟩
    · rename_i body found
      have smaller := decreases _ body (List.mem_of_find?_eq_some found)
      obtain ⟨groups, same⟩ := readGroups_answers answers fun node listed => by
        rw [(caseGroups_flat (graph.children body.nodeId)).1] at listed
        have inside := (List.dropWhile_sublist isPlain).subset listed
        exact Nat.lt_trans (decreases _ node inside) smaller
      exact ⟨_, by rw [same]; rfl⟩
  · obtain ⟨body, found⟩ := answers (graph.children statement.nodeId) fun node listed =>
      decreases _ node listed
    exact ⟨_, by rw [found]; rfl⟩
  · exact ⟨_, rfl⟩

end Answers

/-- The reading ends when the fuel is larger than the depth. -/
theorem readCode_answers {depth : String → Nat}
    (decreases : ∀ nodeId, ∀ child ∈ graph.children nodeId, depth child.nodeId < depth nodeId)
    (fuel : Nat) (positive : 0 < fuel) (statements : List AstNode)
    (shallow : ∀ node ∈ statements, depth node.nodeId + 1 < fuel) :
    ∃ code, readCode graph fuel statements = some code := by
  induction fuel generalizing statements with
  | zero => omega
  | succ fuel ih =>
      change ∃ code, readStatements (readCode graph fuel) graph statements = some code
      induction statements with
      | nil => exact ⟨.nil, rfl⟩
      | cons statement rest others =>
          obtain ⟨tail, found⟩ := others fun node listed => shallow node (List.mem_cons_of_mem _ listed)
          have small := shallow statement List.mem_cons_self
          have answers : Answers (readCode graph fuel) depth statement := fun inner deeper =>
            ih (by omega) inner fun node listed => by
              have smaller := deeper node listed
              omega
          obtain ⟨code, same⟩ := readStatement_answers decreases answers tail
          exact ⟨code, by simp only [readStatements, found]; exact same⟩

theorem bodyStatements_present {functionNode node : AstNode}
    (inside : node ∈ bodyStatements functionNode graph) : node ∈ graph.nodes := by
  unfold bodyStatements at inside
  simp only at inside
  split at inside
  · exact (AstGraph.mem_children inside).1
  · exact (AstGraph.mem_children (List.mem_filter.mp inside).1).1

theorem bodyStatements_apart (wellFormed : graph.WellFormed) (functionNode : AstNode) :
    graph.Apart (bodyStatements functionNode graph) := by
  unfold bodyStatements
  simp only
  split
  · exact wellFormed.children_apart _
  · exact Apart.sublist (wellFormed.children_apart _) List.filter_sublist

/-- The engine reads the body of every function of a forest. -/
theorem body_reading (wellFormed : graph.WellFormed) (functionNode : AstNode) :
    ∃ body, readCode graph (graph.nodes.length + 1) (bodyStatements functionNode graph) = some body ∧
      body.Kinded ∧ body.nodes.Nodup := by
  obtain ⟨depth, decreases, small⟩ := wellFormed.depth
  obtain ⟨body, found⟩ := readCode_answers decreases (graph.nodes.length + 1) (Nat.succ_pos _)
    (bodyStatements functionNode graph) fun node inside => by
      have bound := small node (bodyStatements_present inside)
      omega
  obtain ⟨kinded, covers⟩ := readCode_once wellFormed _ _ body found
    (fun _ => bodyStatements_present) (bodyStatements_apart wellFormed functionNode)
  exact ⟨body, found, kinded, covers.1⟩

/-! ### The layout of Clang -/

theorem readStatements_cons {read : Reader} {statement : AstNode} {rest : List AstNode} {code : Code}
    (reads : readStatements read graph (statement :: rest) = some code) :
    ∃ tail, readStatements read graph rest = some tail ∧
      readStatement read graph statement tail = some code :=
  Option.bind_eq_some_iff.mp reads

theorem readStatement_loop {read : Reader} {statement : AstNode} {rest code : Code}
    (kind : statement.nodeKind.isLoop = true)
    (reads : readStatement read graph statement rest = some code) :
    ∃ body, readBranch read graph (loopBody statement (graph.children statement.nodeId)) = some body ∧
      code = .loop statement body rest := by
  cases readStatement_cases reads with
  | loop _ readBody => exact ⟨_, readBody, rfl⟩
  | simple same => cases named : statement.nodeKind <;> simp [named, NodeKind.isLoop, NodeKind.isSimple] at kind same
  | _ same => simp [same, NodeKind.isLoop] at kind

theorem readStatement_simple {read : Reader} {statement : AstNode} {rest code : Code}
    (kind : statement.nodeKind.isSimple = true)
    (reads : readStatement read graph statement rest = some code) : code = .simple statement rest := by
  cases readStatement_cases reads with
  | simple _ => rfl
  | loop same _ => cases named : statement.nodeKind <;> simp [named, NodeKind.isLoop, NodeKind.isSimple] at kind same
  | _ same => simp [same, NodeKind.isSimple] at kind

/-- The head of a flat list is its first label and its first group. -/
theorem caseGroups_cons {label : AstNode} {inner outer : List AstNode}
    (kind : isCaseLabel label = true) (plain : ∀ node ∈ inner, isCaseLabel node = false)
    (next : ∀ node ∈ outer.head?, isCaseLabel node = true) :
    caseGroups (label :: inner ++ outer) = (label, inner) :: caseGroups outer := by
  have all : ∀ node ∈ inner, isPlain node = true := fun node inside => by simp [isPlain, plain node inside]
  have stop : outer.takeWhile isPlain = [] ∧ outer.dropWhile isPlain = outer := by
    cases outer with
    | nil => exact ⟨rfl, rfl⟩
    | cons first rest =>
        have labelled := next first rfl
        exact ⟨List.takeWhile_cons_of_neg (by simp [isPlain, labelled]),
          List.dropWhile_cons_of_neg (by simp [isPlain, labelled])⟩
  rw [List.cons_append, caseGroups_label kind, List.takeWhile_append_of_pos all,
    List.dropWhile_append_of_pos all, stop.1, stop.2, List.append_nil]

theorem Groups.reads_head : ∀ {groups : Groups} {nodes : List AstNode}, groups.Reads graph nodes →
    ∀ node ∈ nodes.head?, isCaseLabel node = true
  | .nil, _, reads, node, inside => by
      rw [reads] at inside
      simp at inside
  | .cons label body more, _, reads, node, inside => by
      obtain ⟨inner, outer, rfl, kind, _⟩ := reads
      obtain rfl := Option.some.inj inside
      exact kind

mutual

/-- The engine reads a body that Clang lays out as that body. -/
theorem Code.reads_same : ∀ (body : Code) (fuel : Nat) (nodes : List AstNode) (code : Code),
    body.Reads graph nodes → readCode graph fuel nodes = some code → code = body
  | _, 0, _, _, _, read => by simp [readCode] at read
  | .nil, fuel + 1, nodes, code, reads, read => by
      subst reads
      exact (Option.some.inj read).symm
  | .simple statement rest, fuel + 1, nodes, code, reads, read => by
      obtain ⟨tail, rfl, kind, restReads⟩ := reads
      obtain ⟨others, restRead, read⟩ := readStatements_cons read
      rw [readStatement_simple kind read, rest.reads_same (fuel + 1) tail others restReads restRead]
  | .compound statement body rest, fuel + 1, nodes, code, reads, read => by
      obtain ⟨tail, rfl, kind, bodyReads, restReads⟩ := reads
      obtain ⟨others, restRead, read⟩ := readStatements_cons read
      simp only [readStatement, kind] at read
      obtain ⟨inner, bodyRead, read⟩ := Option.bind_eq_some_iff.mp read
      rw [← Option.some.inj read, body.reads_same fuel _ inner bodyReads bodyRead,
        rest.reads_same (fuel + 1) tail others restReads restRead]
  | .ifStmt statement thenBranch elseBranch rest, fuel + 1, nodes, code, reads, read => by
      obtain ⟨tail, condition, thenNode, elseNode, rfl, kind, children, thenReads, elseReads,
        restReads⟩ := reads
      obtain ⟨others, restRead, read⟩ := readStatements_cons read
      have second : (graph.children statement.nodeId)[1]? = some thenNode := by simp [children]
      have third : (graph.children statement.nodeId)[2]? = elseNode := by
        cases elseNode <;> simp [children]
      simp only [readStatement, kind, second, third] at read
      obtain ⟨first, thenRead, read⟩ := Option.bind_eq_some_iff.mp read
      obtain ⟨other, elseRead, read⟩ := Option.bind_eq_some_iff.mp read
      rw [← Option.some.inj read, thenBranch.reads_same fuel _ first thenReads thenRead,
        elseBranch.reads_same fuel _ other elseReads elseRead,
        rest.reads_same (fuel + 1) tail others restReads restRead]
  | .loop statement body rest, fuel + 1, nodes, code, reads, read => by
      obtain ⟨tail, bodyNode, clauses, rfl, kind, children, bodyReads, restReads⟩ := reads
      obtain ⟨others, restRead, read⟩ := readStatements_cons read
      obtain ⟨branch, bodyRead, rfl⟩ := readStatement_loop kind read
      have inside : loopBody statement (graph.children statement.nodeId) = some bodyNode := by
        unfold loopBody
        rw [children]
        split <;> simp
      rw [inside] at bodyRead
      rw [body.reads_same fuel _ branch bodyReads bodyRead,
        rest.reads_same (fuel + 1) tail others restReads restRead]
  | .switch statement groups rest, fuel + 1, nodes, code, reads, read => by
      obtain ⟨tail, header, bodyNode, rfl, kind, children, plain, compound, groupsReads, restReads⟩ :=
        reads
      obtain ⟨others, restRead, read⟩ := readStatements_cons read
      have found : ((graph.children statement.nodeId).find? fun child =>
          child.nodeKind = .compoundStmt) = some bodyNode := by
        rw [children, List.find?_append, List.find?_eq_none.mpr (by simpa using plain)]
        simp [compound]
      simp only [readStatement, kind, found] at read
      obtain ⟨inner, groupsRead, read⟩ := Option.bind_eq_some_iff.mp read
      rw [← Option.some.inj read, groups.reads_same fuel _ inner groupsReads groupsRead,
        rest.reads_same (fuel + 1) tail others restReads restRead]
  | .bareSwitch _ _, _ + 1, _, _, reads, _ => absurd reads id

theorem Branch.reads_same : ∀ (branch : Branch) (fuel : Nat) (node : Option AstNode) (read : Branch),
    branch.Reads graph node → readBranch (readCode graph fuel) graph node = some read → read = branch
  | .absent, _, _, _, reads, found => by
      subst reads
      exact (Option.some.inj found).symm
  | .present body, fuel, _, _, reads, found => by
      obtain ⟨top, rfl, inside⟩ := reads
      simp only [readBranch] at found
      split at found
      · rename_i kind
        rw [if_pos kind] at inside
        obtain ⟨code, read, rfl⟩ := Option.map_eq_some_iff.mp found
        rw [body.reads_same fuel _ code inside read]
      · rename_i kind
        rw [if_neg kind] at inside
        obtain ⟨code, read, rfl⟩ := Option.map_eq_some_iff.mp found
        rw [body.reads_same fuel _ code inside read]

theorem Groups.reads_same : ∀ (groups : Groups) (fuel : Nat) (nodes : List AstNode) (read : Groups),
    groups.Reads graph nodes → readGroups (readCode graph fuel) (caseGroups nodes) = some read →
    read = groups
  | .nil, _, _, _, reads, found => by
      subst reads
      exact (Option.some.inj found).symm
  | .cons label body more, fuel, _, _, reads, found => by
      obtain ⟨inner, outer, rfl, kind, plain, bodyReads, moreReads⟩ := reads
      rw [caseGroups_cons kind plain (Groups.reads_head moreReads)] at found
      obtain ⟨code, bodyRead, found⟩ := Option.bind_eq_some_iff.mp found
      obtain ⟨others, moreRead, found⟩ := Option.bind_eq_some_iff.mp found
      rw [← Option.some.inj found, body.reads_same fuel _ code bodyReads bodyRead,
        more.reads_same fuel _ others moreReads moreRead]

end

/-- The engine reads a function body that Clang lays out. -/
theorem FunctionBody.reading (wellFormed : graph.WellFormed) {functionNode : AstNode} {body : Code}
    (layout : FunctionBody graph functionNode body) :
    readCode graph (graph.nodes.length + 1) (bodyStatements functionNode graph) = some body ∧
      body.Kinded ∧ body.nodes.Nodup := by
  obtain ⟨code, found, kinded, nodup⟩ := body_reading wellFormed functionNode
  obtain rfl := body.reads_same _ _ code layout found
  exact ⟨found, kinded, nodup⟩

end Reading

end MisraPlatform

import MisraPlatform.Proof.Descendants
import MisraPlatform.Proof.Reading
import MisraPlatform.Semantics.Statement

/-
This file shows that the engine reads exactly the statements whose flag is kept.
-/

namespace MisraPlatform
open CFGEngine

variable {graph : AstGraph} {functionNode : AstNode}

/-! ### The flag of a statement -/

theorem Passes.child {parent child : AstNode} {keeps : Bool} (passes : Passes graph parent child keeps) :
    child ∈ graph.children parent.nodeId := by
  cases passes with
  | compound _ _ inside => exact inside
  | group _ _ inside => exact (List.dropWhile_sublist _).subset inside
  | early _ _ inside => exact (List.takeWhile_sublist _).subset inside
  | branch _ _ inside => exact List.mem_of_getElem? inside
  | loop _ inside => exact mem_loopBody inside
  | switch _ inside => exact List.mem_of_getLast? inside
  | labelled _ inside => exact List.mem_of_getLast? inside

theorem Passes.kind {parent child : AstNode} {keeps : Bool} (passes : Passes graph parent child keeps) :
    parent.nodeKind ≠ .functionDecl := by
  intro declaration
  cases passes with
  | compound kind | group kind | early kind | branch kind | switch kind => simp [declaration] at kind
  | loop kind => simp [declaration, NodeKind.isLoop] at kind
  | labelled kind => simp [declaration, isLabel, isCaseLabel] at kind

theorem isLoop_iff (kind : NodeKind) :
    kind.isLoop = true ↔ kind = .forStmt ∨ kind = .whileStmt ∨ kind = .doStmt := by
  cases kind <;> simp [NodeKind.isLoop]

/-- The flag follows from the parent and the child. -/
def keepsFlag (graph : AstGraph) (parent child : AstNode) : Bool :=
  match parent.nodeKind with
  | .compoundStmt => !graph.inSwitch parent || child ∈ (graph.children parent.nodeId).dropWhile isPlain
  | .switchStmt => child.nodeKind = .compoundStmt
  | _ => !isLabel parent

theorem Passes.flag (wellFormed : graph.WellFormed) {parent child : AstNode} {keeps : Bool}
    (passes : Passes graph parent child keeps) : keeps = keepsFlag graph parent child := by
  unfold keepsFlag
  cases passes with
  | compound kind outside => simp [kind, outside]
  | group kind body inside => simp [kind, inside]
  | early kind body inside =>
      have distinct := wellFormed.children_nodup parent.nodeId
      rw [← List.takeWhile_append_dropWhile (p := isPlain) (l := graph.children parent.nodeId)]
        at distinct
      have away : child ∉ (graph.children parent.nodeId).dropWhile isPlain := fun late =>
        (List.nodup_append.mp distinct).2.2 child inside child late rfl
      simp [kind, body, away]
  | branch kind => simp [kind, isLabel, isCaseLabel]
  | loop kind =>
      rcases (isLoop_iff _).mp kind with same | same | same <;> simp [same, isLabel, isCaseLabel]
  | switch kind => simp [kind]
  | labelled kind =>
      cases same : parent.nodeKind <;> simp_all [isLabel, isCaseLabel]

/-! ### The function of a statement -/

/-- A statement knows the function that it stands in. -/
theorem Stands.present {kept : Bool} {statement : AstNode}
    (stands : Stands graph functionNode kept statement) : statement ∈ graph.nodes := by
  cases stands with
  | top inside => exact bodyStatements_present inside
  | nested _ passes => exact (AstGraph.mem_children passes.child).1

/-- A statement of the outermost list is a child of the function or of its compound child. -/
theorem bodyStatements_parent (wellFormed : graph.WellFormed) {statement : AstNode}
    (inside : statement ∈ bodyStatements functionNode graph) :
    statement.parentId = functionNode.nodeId ∧
        (∀ child ∈ graph.children functionNode.nodeId, child.nodeKind ≠ .compoundStmt) ∨
      ∃ body ∈ graph.children functionNode.nodeId, body.nodeKind = .compoundStmt ∧
        statement.parentId = body.nodeId := by
  unfold bodyStatements at inside
  simp only at inside
  split at inside
  · rename_i body found
    exact .inr ⟨body, List.mem_of_find?_eq_some found, by simpa using List.find?_some found,
      wellFormed.parent inside⟩
  · rename_i absent
    refine .inl ⟨wellFormed.parent (List.mem_filter.mp inside).1, fun child listed => ?_⟩
    simpa using List.find?_eq_none.mp absent child listed

section Functions

variable (wellFormed : graph.WellFormed) {other : AstNode}
  (present : functionNode ∈ graph.nodes) (declares : functionNode.nodeKind = .functionDecl)
  (known : other ∈ graph.nodes) (states : other.nodeKind = .functionDecl)

include wellFormed present declares known states

omit states in
/-- The compound child of a function stands in no function. -/
theorem body_not_stands {body : AstNode} (inside : body ∈ graph.children functionNode.nodeId)
    (compound : body.nodeKind = .compoundStmt) {kept : Bool} : ¬ Stands graph other kept body := by
  intro stands
  have above := wellFormed.parent inside
  cases stands with
  | top listed =>
      rcases bodyStatements_parent wellFormed listed with ⟨same, none_⟩ | ⟨outer, child, kind, same⟩
      · have equal := wellFormed.unique present known (above.symm.trans same)
        exact none_ body (equal ▸ inside) compound
      · have equal := wellFormed.unique present (AstGraph.mem_children child).1 (above.symm.trans same)
        rw [equal, kind] at declares
        exact absurd declares (by simp)
  | nested higher passes =>
      have same := above.symm.trans (wellFormed.parent passes.child)
      have equal := wellFormed.unique present higher.present same
      exact passes.kind (equal ▸ declares)

/-- The outermost statements of a function are below no statement. -/
theorem top_not_nested {statement parent : AstNode} {kept keeps : Bool}
    (inside : statement ∈ bodyStatements functionNode graph) (above : Stands graph other kept parent)
    (passes : Passes graph parent statement keeps) : False := by
  have child := wellFormed.parent passes.child
  rcases bodyStatements_parent wellFormed inside with ⟨same, _⟩ | ⟨body, listed, kind, same⟩
  · have equal := wellFormed.unique present above.present (same.symm.trans child)
    exact passes.kind (equal ▸ declares)
  · have equal := wellFormed.unique (AstGraph.mem_children listed).1 above.present
      (same.symm.trans child)
    exact body_not_stands wellFormed present declares known listed kind (equal ▸ above)

theorem top_unique {statement : AstNode} (first : statement ∈ bodyStatements functionNode graph)
    (second : statement ∈ bodyStatements other graph) : functionNode = other := by
  rcases bodyStatements_parent wellFormed first with ⟨same, _⟩ | ⟨body, listed, kind, same⟩
  · rcases bodyStatements_parent wellFormed second with ⟨again, _⟩ | ⟨inner, child, compound, again⟩
    · exact wellFormed.unique present known (same.symm.trans again)
    · have equal := wellFormed.unique present (AstGraph.mem_children child).1 (same.symm.trans again)
      rw [equal, compound] at declares
      exact absurd declares (by simp)
  · rcases bodyStatements_parent wellFormed second with ⟨again, _⟩ | ⟨inner, child, compound, again⟩
    · have equal := wellFormed.unique (AstGraph.mem_children listed).1 known (same.symm.trans again)
      rw [← equal, kind] at states
      exact absurd states (by simp)
    · have equal := wellFormed.unique (AstGraph.mem_children listed).1 (AstGraph.mem_children child).1
        (same.symm.trans again)
      rw [← equal] at child
      exact wellFormed.unique present known
        ((wellFormed.parent listed).symm.trans (wellFormed.parent child))

end Functions

/-- A statement stands in one function and has one flag. -/
theorem Stands.unique (wellFormed : graph.WellFormed) {other statement : AstNode} {kept still : Bool}
    (present : functionNode ∈ graph.nodes) (declares : functionNode.nodeKind = .functionDecl)
    (known : other ∈ graph.nodes) (states : other.nodeKind = .functionDecl)
    (first : Stands graph functionNode kept statement) (second : Stands graph other still statement) :
    functionNode = other ∧ kept = still := by
  induction first generalizing still with
  | top inside =>
      cases second with
      | top listed =>
          exact ⟨top_unique wellFormed present declares known states inside listed, rfl⟩
      | nested above passes =>
          exact (top_not_nested wellFormed present declares known states inside above passes).elim
  | nested above passes ih =>
      cases second with
      | top listed =>
          exact (top_not_nested wellFormed known states present declares listed above passes).elim
      | nested higher crosses =>
          have same := (wellFormed.parent passes.child).symm.trans (wellFormed.parent crosses.child)
          obtain rfl := wellFormed.unique above.present higher.present same
          obtain ⟨equal, flags⟩ := ih higher
          exact ⟨equal, by rw [flags, passes.flag wellFormed, crosses.flag wellFormed]⟩

/-! ### The reading and the flag -/

theorem inSwitch_child (wellFormed : graph.WellFormed) {parent child : AstNode}
    (present : parent ∈ graph.nodes) (inside : child ∈ graph.children parent.nodeId) :
    graph.inSwitch child = decide (parent.nodeKind = .switchStmt) := by
  rw [AstGraph.inSwitch, wellFormed.parent inside, wellFormed.get present]
  rfl

/-- The compound child of a switch is its last child. -/
theorem switch_body (shaped : SwitchesShaped graph) {statement body : AstNode}
    (present : statement ∈ graph.nodes) (kind : statement.nodeKind = .switchStmt) :
    ((graph.children statement.nodeId).find? fun child => child.nodeKind = .compoundStmt) = some body ↔
      (graph.children statement.nodeId).getLast? = some body ∧ body.nodeKind = .compoundStmt := by
  have others := shaped statement present kind
  generalize graph.children statement.nodeId = children at others
  cases found : children.getLast? with
  | none =>
      rw [List.getLast?_eq_none_iff] at found
      simp [found]
  | some last =>
      have whole := List.dropLast_append_getLast? last found
      have front : (children.dropLast.find? fun child => child.nodeKind = .compoundStmt) = none :=
        List.find?_eq_none.mpr (by simpa using others)
      rw [← whole, List.find?_append, front]
      by_cases compound : last.nodeKind = .compoundStmt
      · simp only [Option.none_or, List.find?_singleton, compound, decide_true, if_true,
          Option.some.injEq]
        exact ⟨fun same => ⟨same, same ▸ compound⟩, fun same => same.1⟩
      · simp only [Option.none_or, List.find?_singleton, compound, decide_false, Bool.false_eq_true,
          if_false, Option.some.injEq]
        constructor
        · exact fun impossible => absurd impossible (by simp)
        · rintro ⟨rfl, kind⟩
          exact absurd kind compound

/-- The builder meets the node in a statement list. -/
def Listed (graph : AstGraph) (functionNode node : AstNode) : Prop :=
  Stands graph functionNode true node ∧ graph.inSwitch node = false

section Reading

variable (wellFormed : graph.WellFormed) (shaped : SwitchesShaped graph)
  (present : functionNode ∈ graph.nodes) (declares : functionNode.nodeKind = .functionDecl)

/-- The reader answers listed statements with nodes that stand as statements. -/
def ReadsListed (graph : AstGraph) (functionNode : AstNode) (read : Reader) : Prop :=
  ∀ statements code, read statements = some code →
    (∀ statement ∈ statements, Listed graph functionNode statement) →
    ∀ node ∈ code.nodes, Stands graph functionNode true node ∧ node.nodeKind ≠ .compoundStmt

section Listed

variable {read : Reader} (reader : ReadsListed graph functionNode read)

include wellFormed in
theorem listed_children {parent : AstNode} (stands : Stands graph functionNode true parent)
    (kind : parent.nodeKind = .compoundStmt) (outside : graph.inSwitch parent = false) :
    ∀ child ∈ graph.children parent.nodeId, Listed graph functionNode child := by
  intro child inside
  refine ⟨.nested stands (.compound kind outside inside), ?_⟩
  rw [inSwitch_child wellFormed stands.present inside]
  simp [kind]

include reader wellFormed in
theorem readBranch_listed {parent : AstNode} {node : Option AstNode} {branch : Branch}
    (reads : readBranch read graph node = some branch) (above : parent.nodeKind ≠ .switchStmt)
    (known : parent ∈ graph.nodes) (child : ∀ top ∈ node, top ∈ graph.children parent.nodeId)
    (stands : ∀ top ∈ node, Stands graph functionNode true top) :
    ∀ inner ∈ branch.nodes, Stands graph functionNode true inner ∧ inner.nodeKind ≠ .compoundStmt := by
  cases node with
  | none =>
      obtain rfl := Option.some.inj reads
      exact fun _ inside => absurd inside List.not_mem_nil
  | some top =>
      have outside : graph.inSwitch top = false := by
        rw [inSwitch_child wellFormed known (child top rfl)]
        simpa using above
      simp only [readBranch] at reads
      split at reads
      · rename_i kind
        obtain ⟨code, found, rfl⟩ := Option.map_eq_some_iff.mp reads
        exact reader _ code found (listed_children wellFormed (stands top rfl) kind outside)
      · obtain ⟨code, found, rfl⟩ := Option.map_eq_some_iff.mp reads
        refine reader _ code found fun statement inside => ?_
        rw [List.mem_singleton.mp inside]
        exact ⟨stands top rfl, outside⟩

include reader in
theorem readGroups_listed {groups : List (AstNode × List AstNode)} {result : Groups}
    (reads : readGroups read groups = some result)
    (labels : ∀ group ∈ groups, isCaseLabel group.1 = true)
    (listed : ∀ node ∈ groups.flatMap fun group => group.1 :: group.2,
      Listed graph functionNode node) :
    ∀ inner ∈ result.nodes, Stands graph functionNode true inner ∧ inner.nodeKind ≠ .compoundStmt := by
  induction groups generalizing result with
  | nil =>
      obtain rfl := Option.some.inj reads
      exact fun _ inside => absurd inside List.not_mem_nil
  | cons group rest ih =>
      obtain ⟨label, statements⟩ := group
      rw [List.flatMap_cons] at listed
      obtain ⟨body, bodyRead, reads⟩ := Option.bind_eq_some_iff.mp reads
      obtain ⟨more, moreRead, reads⟩ := Option.bind_eq_some_iff.mp reads
      obtain rfl := Option.some.inj reads
      intro inner inside
      simp only [Groups.nodes, List.cons_append, List.mem_cons, List.mem_append] at inside
      rcases inside with rfl | early | late
      · refine ⟨(listed inner (by simp)).1, fun kind => ?_⟩
        have label := labels _ List.mem_cons_self
        simp [isCaseLabel, kind] at label
      · exact reader _ body bodyRead (fun node inside => listed node (by simp [inside])) inner early
      · exact ih moreRead (fun group inside => labels group (List.mem_cons_of_mem _ inside))
          (fun node inside => listed node (List.mem_append_right _ inside)) inner late

include reader wellFormed shaped in
theorem readStatement_listed {statement : AstNode} (listed : Listed graph functionNode statement)
    {rest code : Code} (reads : readStatement read graph statement rest = some code) :
    ∀ node ∈ code.nodes, node ∈ rest.nodes ∨
      Stands graph functionNode true node ∧ node.nodeKind ≠ .compoundStmt := by
  have known := listed.1.present
  intro node inside
  cases readStatement_cases reads with
  | ifStmt kind readThen readElse =>
      have branch := fun {index : Nat} {found : Branch} either read =>
        @readBranch_listed graph functionNode wellFormed _ reader statement
          (graph.children statement.nodeId)[index]? found read (by simp [kind]) known
          (fun top child => List.mem_of_getElem? child)
          (fun top child => .nested listed.1 (.branch kind either child)) node
      simp only [Code.nodes, List.cons_append, List.mem_cons, List.mem_append] at inside
      rcases inside with rfl | (first | second) | late
      · exact .inr ⟨listed.1, by simp [kind]⟩
      · exact .inr (branch (.inl rfl) readThen first)
      · exact .inr (branch (.inr rfl) readElse second)
      · exact .inl late
  | loop kind readBody =>
      simp only [Code.nodes, List.cons_append, List.mem_cons, List.mem_append] at inside
      rcases inside with rfl | early | late
      · refine .inr ⟨listed.1, fun compound => ?_⟩
        simp [compound, NodeKind.isLoop] at kind
      · refine .inr (readBranch_listed wellFormed reader readBody (fun switch => ?_) known
          (fun top child => mem_loopBody child) (fun top child => .nested listed.1 (.loop kind child))
          node early)
        simp [switch, NodeKind.isLoop] at kind
      · exact .inl late
  | bareSwitch kind _ =>
      rcases List.mem_cons.mp inside with rfl | late
      · exact .inr ⟨listed.1, by simp [kind]⟩
      · exact .inl late
  | @switch body groups kind found readBody =>
      obtain ⟨last, compound⟩ := (switch_body shaped known kind).mp found
      have stands : Stands graph functionNode true body := by
        have nested := Stands.nested listed.1 (.switch kind last)
        simpa [compound] using nested
      have inner := inSwitch_child wellFormed known (List.mem_of_find?_eq_some found)
      obtain ⟨flat, labels⟩ := caseGroups_flat (graph.children body.nodeId)
      simp only [Code.nodes, List.cons_append, List.mem_cons, List.mem_append] at inside
      rcases inside with rfl | early | late
      · exact .inr ⟨listed.1, by simp [kind]⟩
      · refine .inr (readGroups_listed reader readBody labels (fun top inside => ?_) node early)
        rw [flat] at inside
        refine ⟨.nested stands (.group compound (by simpa [kind] using inner) inside), ?_⟩
        rw [inSwitch_child wellFormed stands.present ((List.dropWhile_sublist _).subset inside)]
        simp [compound]
      · exact .inl late
  | compound kind readBody =>
      rcases List.mem_append.mp inside with early | late
      · exact .inr (reader _ _ readBody (listed_children wellFormed listed.1 kind listed.2) node early)
      · exact .inl late
  | simple kind =>
      rcases List.mem_cons.mp inside with rfl | late
      · refine .inr ⟨listed.1, fun compound => ?_⟩
        simp [compound, NodeKind.isSimple] at kind
      · exact .inl late

end Listed

include wellFormed shaped in
theorem readCode_listed (fuel : Nat) : ReadsListed graph functionNode (readCode graph fuel) := by
  induction fuel with
  | zero => exact fun _ _ reads => by simp [readCode] at reads
  | succ fuel ih =>
      intro statements
      induction statements with
      | nil =>
          intro code reads _ node inside
          obtain rfl := Option.some.inj reads
          exact absurd inside List.not_mem_nil
      | cons statement rest further =>
          intro code reads listed node inside
          obtain ⟨others, restRead, reads⟩ := readStatements_cons reads
          rcases readStatement_listed wellFormed shaped ih (listed statement List.mem_cons_self) reads
            node inside with late | here
          · exact further others restRead (fun other inside =>
              listed other (List.mem_cons_of_mem _ inside)) node late
          · exact here

include wellFormed present declares in
theorem bodyStatements_listed {statement : AstNode}
    (inside : statement ∈ bodyStatements functionNode graph) :
    Listed graph functionNode statement := by
  refine ⟨.top inside, ?_⟩
  rcases bodyStatements_parent wellFormed inside with ⟨same, _⟩ | ⟨body, child, kind, same⟩
  · rw [AstGraph.inSwitch, same, wellFormed.get present]
    simp [declares]
  · rw [AstGraph.inSwitch, same, wellFormed.get (AstGraph.mem_children child).1]
    simp [kind]

end Reading

/-! ### Statements that the engine reads -/

/-- The engine reads the statement on its way, and its nodes are among the given ones. -/
def Opened (graph : AstGraph) (nodes : List AstNode) (statement : AstNode) : Prop :=
  ∃ fuel rest code, readStatement (readCode graph fuel) graph statement rest = some code ∧
    code.nodes ⊆ nodes

/-- The engine reads the groups of the compound body of a switch on its way. -/
def Grouped (graph : AstGraph) (nodes : List AstNode) (body : AstNode) : Prop :=
  ∃ fuel groups, readGroups (readCode graph fuel) (caseGroups (graph.children body.nodeId)) =
    some groups ∧ groups.nodes ⊆ nodes

section Opened

variable {nodes : List AstNode}

theorem readStatement_rest {read : Reader} {statement : AstNode} {rest code : Code}
    (reads : readStatement read graph statement rest = some code) : rest.nodes ⊆ code.nodes := by
  cases readStatement_cases reads with
  | ifStmt _ _ _ => exact fun _ inside => List.mem_append_right _ inside
  | loop _ _ => exact fun _ inside => List.mem_append_right _ inside
  | bareSwitch _ _ => exact fun _ inside => List.mem_cons_of_mem _ inside
  | switch _ _ _ => exact fun _ inside => List.mem_append_right _ inside
  | compound _ _ => exact fun _ inside => List.mem_append_right _ inside
  | simple _ => exact fun _ inside => List.mem_cons_of_mem _ inside

/-- Every statement of a list that the engine reads is opened. -/
theorem opened_list {fuel : Nat} {statements : List AstNode} {code : Code}
    (reads : readCode graph fuel statements = some code) (inside : code.nodes ⊆ nodes) :
    ∀ statement ∈ statements, Opened graph nodes statement := by
  cases fuel with
  | zero => simp [readCode] at reads
  | succ fuel =>
      induction statements generalizing code with
      | nil => exact fun _ absent => absurd absent List.not_mem_nil
      | cons first rest ih =>
          obtain ⟨others, restRead, read⟩ := readStatements_cons reads
          intro statement listed
          rcases List.mem_cons.mp listed with rfl | later
          · exact ⟨fuel, others, code, read, inside⟩
          · exact ih (fun _ deeper => inside (readStatement_rest read deeper)) restRead statement later

/-- A branch opens the node that stands for it. -/
theorem opened_branch {fuel : Nat} {top : AstNode} {branch : Branch}
    (reads : readBranch (readCode graph fuel) graph (some top) = some branch)
    (inside : branch.nodes ⊆ nodes) : Opened graph nodes top := by
  simp only [readBranch] at reads
  split at reads
  · rename_i kind
    obtain ⟨code, found, rfl⟩ := Option.map_eq_some_iff.mp reads
    refine ⟨fuel, .nil, .compound top code .nil, ?_, by simpa [Code.nodes, Branch.nodes] using inside⟩
    simp only [readStatement, kind]
    rw [found]
    rfl
  · obtain ⟨code, found, rfl⟩ := Option.map_eq_some_iff.mp reads
    exact opened_list found inside top (List.mem_singleton.mpr rfl)

/-- The groups open their labels and their statements. -/
theorem opened_groups {fuel : Nat} {groups : List (AstNode × List AstNode)} {result : Groups}
    (reads : readGroups (readCode graph fuel) groups = some result) (inside : result.nodes ⊆ nodes)
    (labels : ∀ group ∈ groups, isCaseLabel group.1 = true) :
    ∀ statement ∈ groups.flatMap fun group => group.1 :: group.2, Opened graph nodes statement := by
  induction groups generalizing result with
  | nil => exact fun _ absent => absurd absent List.not_mem_nil
  | cons group rest ih =>
      obtain ⟨label, statements⟩ := group
      obtain ⟨body, bodyRead, reads⟩ := Option.bind_eq_some_iff.mp reads
      obtain ⟨more, moreRead, reads⟩ := Option.bind_eq_some_iff.mp reads
      obtain rfl := Option.some.inj reads
      simp only [Groups.nodes, List.cons_append, List.cons_subset, List.append_subset] at inside
      intro statement listed
      rw [List.flatMap_cons] at listed
      rcases List.mem_append.mp listed with here | later
      · rcases List.mem_cons.mp here with rfl | deeper
        · have kind := labels _ List.mem_cons_self
          refine ⟨fuel, .nil, .simple statement .nil, ?_, by simpa [Code.nodes] using inside.1⟩
          simp only [isCaseLabel, Bool.or_eq_true, decide_eq_true_eq] at kind
          rcases kind with case | default_
          · simp [readStatement, case]
          · simp [readStatement, default_]
        · exact opened_list bodyRead inside.2.1 statement deeper
      · exact ih moreRead inside.2.2 (fun group known => labels group (List.mem_cons_of_mem _ known))
          statement later

theorem opened_mem {statement : AstNode} (opened : Opened graph nodes statement)
    (kind : statement.nodeKind ≠ .compoundStmt) : statement ∈ nodes := by
  obtain ⟨fuel, rest, code, reads, inside⟩ := opened
  apply inside
  cases readStatement_cases reads with
  | compound same _ => exact absurd same kind
  | _ => exact List.mem_cons_self

/-- What the engine does at a statement decides what it does below it. -/
theorem Passes.opened (wellFormed : graph.WellFormed) (shaped : SwitchesShaped graph)
    {parent child : AstNode} (present : parent ∈ graph.nodes)
    (passes : Passes graph parent child true)
    (opened : graph.inSwitch parent = false → Opened graph nodes parent)
    (grouped : graph.inSwitch parent = true → parent.nodeKind = .compoundStmt →
      Grouped graph nodes parent)
    (outer : parent.nodeKind ≠ .compoundStmt → graph.inSwitch parent = false) :
    (graph.inSwitch child = false → Opened graph nodes child) ∧
      (graph.inSwitch child = true → child.nodeKind = .compoundStmt → Grouped graph nodes child) := by
  have below := inSwitch_child wellFormed present passes.child
  generalize flag : true = keeps at passes
  cases passes with
  | compound kind outside inside =>
      obtain ⟨fuel, rest, code, reads, subset⟩ := opened outside
      simp only [readStatement, kind] at reads
      obtain ⟨body, found, reads⟩ := Option.bind_eq_some_iff.mp reads
      obtain rfl := Option.some.inj reads
      refine ⟨fun _ => opened_list found (fun _ listed => subset (List.mem_append_left _ listed)) child
        inside, fun switch => ?_⟩
      simp [below, kind] at switch
  | group kind body inside =>
      obtain ⟨fuel, groups, reads, subset⟩ := grouped body kind
      obtain ⟨flat, labels⟩ := caseGroups_flat (graph.children parent.nodeId)
      refine ⟨fun _ => opened_groups reads subset labels child (flat ▸ inside), fun switch => ?_⟩
      simp [below, kind] at switch
  | @branch index kind either inside =>
      obtain ⟨fuel, rest, code, reads, subset⟩ := opened (outer (by simp [kind]))
      simp only [readStatement, kind] at reads
      obtain ⟨thenBranch, thenRead, reads⟩ := Option.bind_eq_some_iff.mp reads
      obtain ⟨elseBranch, elseRead, reads⟩ := Option.bind_eq_some_iff.mp reads
      obtain rfl := Option.some.inj reads
      simp only [Code.nodes, List.cons_append, List.cons_subset, List.append_subset] at subset
      refine ⟨fun _ => ?_, fun switch => by simp [below, kind] at switch⟩
      rcases either with rfl | rfl
      · rw [inside] at thenRead
        exact opened_branch thenRead subset.2.1.1
      · rw [inside] at elseRead
        exact opened_branch elseRead subset.2.1.2
  | loop kind inside =>
      have other : parent.nodeKind ≠ .compoundStmt ∧ parent.nodeKind ≠ .switchStmt := by
        rcases (isLoop_iff _).mp kind with same | same | same <;> simp [same]
      obtain ⟨fuel, rest, code, reads, subset⟩ := opened (outer other.1)
      obtain ⟨body, bodyRead, rfl⟩ := readStatement_loop kind reads
      simp only [Code.nodes, List.cons_append, List.cons_subset, List.append_subset] at subset
      rw [inside] at bodyRead
      exact ⟨fun _ => opened_branch bodyRead subset.2.1, fun switch => by simp [below, other] at switch⟩
  | switch kind inside =>
      have compound : child.nodeKind = .compoundStmt := of_decide_eq_true flag.symm
      have found := (switch_body shaped present kind).mpr ⟨inside, compound⟩
      obtain ⟨fuel, rest, code, reads, subset⟩ := opened (outer (by simp [kind]))
      simp only [readStatement, kind, found] at reads
      obtain ⟨groups, groupsRead, reads⟩ := Option.bind_eq_some_iff.mp reads
      obtain rfl := Option.some.inj reads
      simp only [Code.nodes, List.cons_append, List.cons_subset, List.append_subset] at subset
      exact ⟨fun outside => by simp [below, kind] at outside,
        fun _ _ => ⟨fuel, groups, groupsRead, subset.2.1⟩⟩
  | early | labelled => exact absurd flag (by simp)

/-- Only a compound statement has a switch as its parent. -/
theorem Stands.outer (wellFormed : graph.WellFormed) (present : functionNode ∈ graph.nodes)
    (declares : functionNode.nodeKind = .functionDecl) {statement : AstNode} {kept : Bool}
    (stands : Stands graph functionNode kept statement) (flag : kept = true)
    (other : statement.nodeKind ≠ .compoundStmt) : graph.inSwitch statement = false := by
  cases stands with
  | top inside => exact (bodyStatements_listed wellFormed present declares inside).2
  | nested above passes =>
      rw [inSwitch_child wellFormed above.present passes.child]
      obtain ⟨_, rfl⟩ := Bool.and_eq_true_iff.mp flag
      rw [decide_eq_false_iff_not]
      intro switch
      have keeps := passes.flag wellFormed
      simp [keepsFlag, switch, other] at keeps

end Opened

/-- The nodes of the reading are the statements that stand with their flag kept. -/
theorem mem_nodes_iff (wellFormed : graph.WellFormed) (shaped : SwitchesShaped graph)
    (present : functionNode ∈ graph.nodes) (declares : functionNode.nodeKind = .functionDecl)
    {fuel : Nat} {body : Code}
    (reads : readCode graph fuel (bodyStatements functionNode graph) = some body) (node : AstNode) :
    node ∈ body.nodes ↔ Stands graph functionNode true node ∧ node.nodeKind ≠ .compoundStmt := by
  constructor
  · exact readCode_listed wellFormed shaped fuel _ body reads
      (fun statement inside => bodyStatements_listed wellFormed present declares inside) node
  · rintro ⟨stands, kind⟩
    have opened : ∀ {kept : Bool} {statement : AstNode}, Stands graph functionNode kept statement →
        kept = true → (graph.inSwitch statement = false → Opened graph body.nodes statement) ∧
          (graph.inSwitch statement = true → statement.nodeKind = .compoundStmt →
            Grouped graph body.nodes statement) := by
      intro kept statement stands
      induction stands with
      | @top statement inside =>
          have outside := (bodyStatements_listed wellFormed present declares inside).2
          exact fun _ => ⟨fun _ => opened_list reads (List.Subset.refl _) statement inside,
            fun switch => absurd switch (by simp [outside])⟩
      | nested above passes ih =>
          intro flag
          obtain ⟨rfl, rfl⟩ := Bool.and_eq_true_iff.mp flag
          obtain ⟨opened, grouped⟩ := ih rfl
          exact passes.opened wellFormed shaped above.present opened grouped
            (above.outer wellFormed present declares rfl)
    exact opened_mem ((opened stands rfl).1 (stands.outer wellFormed present declares rfl kind)) kind

end MisraPlatform

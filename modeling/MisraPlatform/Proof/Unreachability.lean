import Mathlib.Data.List.Chain
import MisraPlatform.Proof.ClauseEnds
import MisraPlatform.Proof.StructuredReachability
import MisraPlatform.Semantics.ControlStatements

/-
This file proves when the statements that the structural query reports are unreachable.
-/

namespace MisraPlatform
open CFGEngine CFGBuilder

/-! ### The scan of one list -/

/-- This is the flag behind a list. -/
def scanFlag (terminated : Bool) : List AstNode → Bool
  | [] => terminated
  | child :: rest => scanFlag (terminated && child.nodeKind ≠ .labelStmt || isTerminator child) rest

theorem scanFlag_append (terminated : Bool) (front back : List AstNode) :
    scanFlag terminated (front ++ back) = scanFlag (scanFlag terminated front) back := by
  induction front generalizing terminated with
  | nil => rfl
  | cons child front ih => exact ih _

theorem scanBlock_append (terminated : Bool) (front back : List AstNode) :
    scanBlock terminated (front ++ back) =
      scanBlock terminated front ++ scanBlock (scanFlag terminated front) back := by
  induction front generalizing terminated with
  | nil => rfl
  | cons child front ih =>
      rw [List.cons_append, scanBlock, scanBlock, scanFlag]
      by_cases dead : (terminated && child.nodeKind ≠ .labelStmt) = true
      · rw [if_pos dead, if_pos dead, ih, dead, Bool.true_or, List.cons_append]
      · rw [if_neg dead, if_neg dead, ih, Bool.eq_false_iff.mpr dead, Bool.false_or]

theorem scanBlock_sublist (terminated : Bool) (list : List AstNode) : (scanBlock terminated list).Sublist list := by
  induction list generalizing terminated with
  | nil => exact .slnil
  | cons child rest ih =>
      rw [scanBlock]
      split
      · exact (ih _).cons_cons child
      · exact (ih _).cons child

/-- One statement of a list is reported if the flag is set before it. -/
theorem mem_scanBlock {front back : List AstNode} {statement : AstNode}
    (distinct : (front ++ statement :: back).Nodup) :
    statement ∈ scanBlock false (front ++ statement :: back) ↔
      scanFlag false front = true ∧ statement.nodeKind ≠ .labelStmt := by
  obtain ⟨_, later, apart⟩ := List.nodup_append.mp distinct
  have early : ∀ flag, statement ∉ scanBlock flag front := fun flag inside =>
    apart statement ((scanBlock_sublist flag front).subset inside) statement List.mem_cons_self rfl
  have late : ∀ flag, statement ∉ scanBlock flag back := fun flag inside =>
    (List.nodup_cons.mp later).1 ((scanBlock_sublist flag back).subset inside)
  rw [scanBlock_append, List.mem_append, or_iff_right (early false), scanBlock]
  split
  · rename_i dead
    simpa using dead
  · rename_i live
    simp only [late, false_iff]
    simpa using live

/-- The flag is set behind a jump until a label comes. -/
theorem scanFlag_iff (list : List AstNode) : scanFlag false list = true ↔
    ∃ front jump middle, list = front ++ jump :: middle ∧ isTerminator jump = true ∧
      ∀ other ∈ middle, other.nodeKind ≠ .labelStmt := by
  induction list using List.reverseRecOn with
  | nil => simp [scanFlag]
  | append_singleton list last ih =>
      rw [scanFlag_append]
      simp only [scanFlag, Bool.or_eq_true, Bool.and_eq_true, decide_eq_true_eq]
      constructor
      · rintro (⟨flag, plain⟩ | jump)
        · obtain ⟨front, jump, middle, rfl, terminates, between⟩ := ih.mp flag
          refine ⟨front, jump, middle ++ [last], by simp, terminates, fun other inside => ?_⟩
          rcases List.mem_append.mp inside with inside | inside
          · exact between other inside
          · exact List.mem_singleton.mp inside ▸ plain
        · exact ⟨list, last, [], by simp, jump, by simp⟩
      · rintro ⟨front, jump, middle, same, terminates, between⟩
        rcases List.eq_nil_or_concat middle with rfl | ⟨before, final, rfl⟩
        · obtain ⟨rfl, rfl⟩ := List.append_inj' same rfl |>.imp id List.cons.inj |>.imp id And.left
          exact .inr terminates
        · have whole : list ++ [last] = (front ++ jump :: before) ++ [final] := by simpa using same
          obtain ⟨rfl, ends⟩ := List.append_inj' whole rfl
          obtain rfl := (List.cons.inj ends).1
          refine .inl ⟨ih.mpr ⟨front, jump, before, rfl, terminates, fun other inside => ?_⟩, ?_⟩
          · exact between other (by simp [inside])
          · exact between last (by simp)

/-! ### A region that control enters at labels only -/

/-- Behind a live statement that is no jump stands a live one, and behind a dead statement a dead one or a label. -/
def Onward (dead : AstNode → Prop) (first second : AstNode) : Prop :=
  (¬ dead first → first.nodeKind.isJump = false → ¬ dead second) ∧
    (dead first → second.nodeKind ≠ .labelStmt → dead second)

/-- The dead nodes are closed downwards, and they begin behind the jumps of a compound statement. -/
structure DeadRegion (graph : AstGraph) (dead : AstNode → Prop) : Prop where
  chain : ∀ node ∈ graph.nodes, (graph.children node.nodeId).IsChain (Onward dead)
  first : ∀ node ∈ graph.nodes, ¬ dead node → ∀ child ∈ (graph.children node.nodeId).head?, ¬ dead child
  plain : ∀ node ∈ graph.nodes, node.nodeKind ≠ .compoundStmt → ¬ dead node →
    ∀ child ∈ graph.children node.nodeId, ¬ dead child
  cases_ : ∀ node ∈ graph.nodes, ¬ dead node → ∀ child ∈ graph.children node.nodeId,
    isCaseLabel child = true → ¬ dead child
  down : ∀ parent child, graph.Child parent child → dead parent → dead child

section Live

variable (graph : AstGraph) (dead : AstNode → Prop)

/-- A list of the AST begins with a live statement, or it is over and a live label follows. -/
def LiveCode (code : Code) (after : List AstNode) : Prop :=
  ∃ nodes, nodes ⊆ graph.nodes ∧ code.Reads graph nodes ∧ (nodes ++ after).IsChain (Onward dead) ∧
    ∀ first ∈ (nodes ++ after).head?, ¬ dead first

def LiveBranch (branch : Branch) : Prop := ∀ inner, branch = .present inner → LiveCode graph dead inner []

def LiveGroups (groups : Groups) : Prop :=
  ∃ nodes, nodes ⊆ graph.nodes ∧ groups.Reads graph nodes ∧ nodes.IsChain (Onward dead) ∧
    ∀ label ∈ nodes, isCaseLabel label = true → ¬ dead label

def Groups.firstLabel : Groups → List AstNode
  | .nil => []
  | .cons label _ _ => [label]

/-- The label of the next group follows in the same list. -/
def Cont.after : Cont → List AstNode
  | .switch _ more _ _ => more.firstLabel
  | _ => []

/-- Control that goes on comes to live statements only. -/
def Cont.Live : Cont → Prop
  | .stop => True
  | .seq rest next | .block rest next => LiveCode graph dead rest next.after ∧ next.Live
  | .loop statement body rest next =>
      ¬ dead statement ∧ LiveBranch graph dead body ∧ LiveCode graph dead rest next.after ∧ next.Live
  | .switch lead more rest next =>
      LiveCode graph dead lead next.after ∧ LiveGroups graph dead more ∧ LiveCode graph dead rest next.after ∧
        next.Live

def State.Live : State → Prop
  | .run lead code next =>
      LiveCode graph dead lead next.after ∧ LiveCode graph dead code next.after ∧ next.Live graph dead
  | .head statement body rest next _ =>
      ¬ dead statement ∧ LiveBranch graph dead body ∧ LiveCode graph dead rest next.after ∧ next.Live graph dead
  | .left _ => True

end Live

section Region

variable {graph : AstGraph} {dead : AstNode → Prop}

theorem LiveCode.current {lead code : Code} {next : Cont} {statement : AstNode}
    (listed : LiveCode graph dead code next.after) (current : (State.run lead code next).current = some statement) :
    ¬ dead statement := by
  obtain ⟨nodes, _, reads, _, live⟩ := listed
  cases code with
  | nil | compound | loop => cases current
  | simple | ifStmt | switch =>
      obtain rfl := Option.some.inj current
      obtain ⟨tail, rest⟩ := reads
      first
        | (obtain ⟨rfl, _⟩ := rest; exact live _ rfl)
        | (obtain ⟨_, _, _, rfl, _⟩ := rest; exact live _ rfl)
        | (obtain ⟨_, _, rfl, _⟩ := rest; exact live _ rfl)
  | bareSwitch => exact reads.elim

theorem State.Live.current {state : State} {statement : AstNode} (live : state.Live graph dead)
    (current : state.current = some statement) : ¬ dead statement := by
  cases state with
  | run lead code next => exact live.2.1.current current
  | head node body rest next fresh =>
      obtain rfl := Option.some.inj current
      exact live.1
  | left departure => cases current

theorem LiveCode.of_head {code : Code} {nodes after : List AstNode} {first : AstNode} (known : nodes ⊆ graph.nodes)
    (reads : code.Reads graph nodes) (chain : (nodes ++ after).IsChain (Onward dead))
    (head : first ∈ (nodes ++ after).head?) (live : ¬ dead first) : LiveCode graph dead code after := by
  refine ⟨nodes, known, reads, chain, fun other inside => ?_⟩
  obtain rfl := Option.mem_unique head inside
  exact live

/-- The rest behind a live statement that is no jump is live. -/
theorem LiveCode.behind {statement : AstNode} {rest : Code} {tail after : List AstNode}
    (known : statement :: tail ⊆ graph.nodes) (reads : rest.Reads graph tail)
    (chain : (statement :: tail ++ after).IsChain (Onward dead)) (live : ¬ dead statement)
    (straight : statement.nodeKind.isJump = false) : LiveCode graph dead rest after := by
  obtain ⟨onward, chained⟩ := List.isChain_cons.mp chain
  exact ⟨tail, fun _ inside => known (List.mem_cons_of_mem _ inside), reads, chained,
    fun other inside => (onward other inside).1 live straight⟩

variable (region : DeadRegion graph dead)

include region

theorem entered_of_live {statement node : AstNode} {branch : Branch} (known : statement ∈ graph.nodes)
    (plain : statement.nodeKind ≠ .compoundStmt) (live : ¬ dead statement)
    (inside : node ∈ graph.children statement.nodeId) (reads : branch.Reads graph (some node)) :
    LiveBranch graph dead branch := by
  rintro inner rfl
  obtain ⟨found, same, reads⟩ := reads
  obtain rfl := Option.some.inj same
  have here := (AstGraph.mem_children inside).1
  have lives := region.plain statement known plain live node inside
  split at reads
  · refine ⟨_, fun child listed => (AstGraph.mem_children listed).1, reads, ?_, ?_⟩
    · rw [List.append_nil]
      exact region.chain node here
    · rw [List.append_nil]
      exact region.first node here lives
  · exact .of_head (by simpa using here) reads (List.isChain_singleton _) rfl lives

theorem entered_of_optional {statement : AstNode} {node : Option AstNode} {branch : Branch}
    (known : statement ∈ graph.nodes) (plain : statement.nodeKind ≠ .compoundStmt) (live : ¬ dead statement)
    (inside : ∀ found ∈ node, found ∈ graph.children statement.nodeId) (reads : branch.Reads graph node) :
    LiveBranch graph dead branch := by
  cases node with
  | none =>
      rintro inner rfl
      obtain ⟨found, same, _⟩ := reads
      cases same
  | some found => exact entered_of_live region known plain live (inside found rfl) reads

theorem grouped_of_live {statement body : AstNode} {groups : Groups} (known : statement ∈ graph.nodes)
    (plain : statement.nodeKind ≠ .compoundStmt) (live : ¬ dead statement)
    (inside : body ∈ graph.children statement.nodeId) (reads : groups.Reads graph (graph.children body.nodeId)) :
    LiveGroups graph dead groups := by
  have here := (AstGraph.mem_children inside).1
  have lives := region.plain statement known plain live body inside
  exact ⟨_, fun child listed => (AstGraph.mem_children listed).1, reads, region.chain body here,
    region.cases_ body here lives⟩

omit region in
theorem LiveCode.simple {statement : AstNode} {rest : Code} {after : List AstNode}
    (live : LiveCode graph dead (.simple statement rest) after) :
    statement.nodeKind.isJump = false → LiveCode graph dead rest after := by
  obtain ⟨_, known, ⟨tail, rfl, _, reads⟩, chain, lives⟩ := live
  exact .behind known reads chain (lives statement rfl)

theorem LiveCode.compound {statement : AstNode} {body rest : Code} {after : List AstNode}
    (live : LiveCode graph dead (.compound statement body rest) after) :
    LiveCode graph dead body [] ∧ LiveCode graph dead rest after := by
  obtain ⟨_, known, ⟨tail, rfl, kind, inner, reads⟩, chain, lives⟩ := live
  have here : statement ∈ graph.nodes := known List.mem_cons_self
  refine ⟨⟨_, fun child listed => (AstGraph.mem_children listed).1, inner, ?_, ?_⟩,
    .behind known reads chain (lives statement rfl) (by rw [kind]; rfl)⟩
  · rw [List.append_nil]
    exact region.chain statement here
  · rw [List.append_nil]
    exact region.first statement here (lives statement rfl)

theorem LiveCode.ifStmt {statement : AstNode} {thenBranch elseBranch : Branch} {rest : Code} {after : List AstNode}
    (live : LiveCode graph dead (.ifStmt statement thenBranch elseBranch rest) after) :
    LiveBranch graph dead thenBranch ∧ LiveBranch graph dead elseBranch ∧ LiveCode graph dead rest after := by
  obtain ⟨_, known, ⟨tail, condition, thenNode, elseNode, rfl, kind, children, readsThen, readsElse, reads⟩,
    chain, lives⟩ := live
  have here : statement ∈ graph.nodes := known List.mem_cons_self
  have plain : statement.nodeKind ≠ .compoundStmt := by simp [kind]
  refine ⟨entered_of_live region here plain (lives statement rfl) ?_ readsThen,
    entered_of_optional region here plain (lives statement rfl) ?_ readsElse,
    .behind known reads chain (lives statement rfl) (by rw [kind]; rfl)⟩
  · simp [children]
  · intro found inside
    simp [children, Option.mem_def.mp inside]

theorem LiveCode.loop {statement : AstNode} {body : Branch} {rest : Code} {after : List AstNode}
    (live : LiveCode graph dead (.loop statement body rest) after) :
    ¬ dead statement ∧ LiveBranch graph dead body ∧ LiveCode graph dead rest after := by
  obtain ⟨_, known, ⟨tail, bodyNode, clauses, rfl, kind, children, inner, reads⟩, chain, lives⟩ := live
  have here : statement ∈ graph.nodes := known List.mem_cons_self
  have plain : statement.nodeKind ≠ .compoundStmt ∧ statement.nodeKind.isJump = false := by
    cases same : statement.nodeKind <;> simp [NodeKind.isLoop, NodeKind.isJump, same] at kind ⊢
  have listed : bodyNode ∈ graph.children statement.nodeId := by
    rw [children]
    split <;> simp
  exact ⟨lives statement rfl, entered_of_live region here plain.1 (lives statement rfl) listed inner,
    .behind known reads chain (lives statement rfl) plain.2⟩

theorem LiveCode.switch {statement : AstNode} {groups : Groups} {rest : Code} {after : List AstNode}
    (live : LiveCode graph dead (.switch statement groups rest) after) :
    LiveGroups graph dead groups ∧ LiveCode graph dead rest after := by
  obtain ⟨_, known, ⟨tail, header, body, rfl, kind, children, _, _, inner, reads⟩, chain, lives⟩ := live
  have here : statement ∈ graph.nodes := known List.mem_cons_self
  refine ⟨grouped_of_live region here (by simp [kind]) (lives statement rfl) ?_ inner,
    .behind known reads chain (lives statement rfl) (by rw [kind]; rfl)⟩
  simp [children]

omit region in
/-- The list of a group ends with the label of the next one. -/
theorem group_chain {front outer : List AstNode} {more : Groups} (reads : more.Reads graph outer)
    (chain : (front ++ outer).IsChain (Onward dead)) : (front ++ more.firstLabel).IsChain (Onward dead) := by
  cases more with
  | nil =>
      rw [Groups.firstLabel, List.append_nil]
      exact chain.left_of_append
  | cons next code others =>
      obtain ⟨inner, back, rfl, _⟩ := reads
      have whole : (front ++ [next] ++ (inner ++ back)).IsChain (Onward dead) := by simpa using chain
      exact whole.left_of_append

omit region in
/-- A group is a list that ends at the next label. -/
theorem LiveGroups.first {label : AstNode} {body : Code} {more : Groups}
    (live : LiveGroups graph dead (.cons label body more)) :
    LiveCode graph dead (.simple label body) more.firstLabel ∧ LiveGroups graph dead more := by
  obtain ⟨_, known, ⟨inner, outer, rfl, kind, plain, reads, later⟩, chain, lives⟩ := live
  have simple : label.nodeKind.isSimple = true := by
    cases same : label.nodeKind <;> simp [isCaseLabel, NodeKind.isSimple, same] at kind ⊢
  have there : outer ⊆ graph.nodes := fun _ inside => known (List.mem_append_right _ inside)
  refine ⟨⟨label :: inner, fun _ inside => known (List.mem_append_left outer inside),
      ⟨inner, rfl, simple, reads⟩, group_chain later chain, ?_⟩,
    outer, there, later, chain.right_of_append, fun other inside => lives other (List.mem_append_right _ inside)⟩
  intro first head
  obtain rfl := Option.some.inj head
  exact lives label List.mem_cons_self kind

omit region in
theorem LiveGroups.tail {tail groups : Groups} (live : LiveGroups graph dead groups) (inside : tail.IsTail groups) :
    LiveGroups graph dead tail := by
  induction inside with
  | here => exact live
  | later label body _ ih => exact ih live.first.2

omit region in
theorem State.enter_live {code : Code} {next : Cont} (live : LiveCode graph dead code next.after)
    (following : next.Live graph dead) : (State.enter code next).Live graph dead := ⟨live, live, following⟩

omit region in
theorem Branch.enter_live {branch : Branch} {rest : Code} {next : Cont} (live : LiveBranch graph dead branch)
    (later : LiveCode graph dead rest next.after) (following : next.Live graph dead) :
    (branch.enter rest next).Live graph dead := by
  cases branch with
  | absent => exact State.enter_live later following
  | present body => exact State.enter_live (live body rfl) ⟨later, following⟩

omit region in
theorem Cont.breakTarget_live {next : Cont} {target : State} (live : next.Live graph dead)
    (enclosed : next.breakTarget = some target) : target.Live graph dead := by
  induction next with
  | stop => cases enclosed
  | seq rest next ih => exact ih live.2 enclosed
  | block rest next ih => exact ih live.2 enclosed
  | loop statement body rest next =>
      obtain rfl := Option.some.inj enclosed
      exact State.enter_live live.2.2.1 live.2.2.2
  | switch lead more rest next =>
      obtain rfl := Option.some.inj enclosed
      exact State.enter_live live.2.2.1 live.2.2.2

omit region in
theorem Cont.continueTarget_live {reading : Reading} {next : Cont} {target : State} (live : next.Live graph dead)
    (enclosed : next.continueTarget reading = some target) : target.Live graph dead := by
  induction next with
  | stop => cases enclosed
  | seq rest next ih => exact ih live.2 enclosed
  | block rest next ih => exact ih live.2 enclosed
  | loop statement body rest next =>
      obtain rfl := Option.some.inj enclosed
      exact live
  | switch lead more rest next ih =>
      rw [Cont.continueTarget] at enclosed
      split at enclosed
      · obtain rfl := Option.some.inj enclosed
        exact State.enter_live live.1 live.2.2.2
      · exact ih live.2.2.2 enclosed

omit region in
/-- A straight statement keeps the stretch of straight code live. -/
theorem leadAfter_live {lead rest : Code} {statement : AstNode} {after : List AstNode}
    (ahead : LiveCode graph dead lead after) (here : LiveCode graph dead (.simple statement rest) after)
    (straight : statement.nodeKind.isJump = false) : LiveCode graph dead (leadAfter lead statement rest) after := by
  rw [leadAfter, if_neg (by simp [straight]), leadAt]
  split
  · exact here
  · exact ahead

/-- Control stays with live statements as long as it jumps to live labels. -/
theorem Step.live {reading : Reading} {body : Code} {state target : State} (taken : Step reading body state target)
    (gotos : ∀ name, body.resolve name = some target → target.Live graph dead) (live : state.Live graph dead) :
    target.Live graph dead := by
  cases taken with
  | simple straight =>
      exact ⟨leadAfter_live live.1 live.2.1 straight, live.2.1.simple straight, live.2.2⟩
  | returnStmt | gotoMissing | fallOff => trivial
  | breakStmt _ enclosed => exact Cont.breakTarget_live live.2.2 enclosed
  | continueStmt _ enclosed => exact Cont.continueTarget_live live.2.2 enclosed
  | gotoStmt _ found => exact gotos _ found
  | compound =>
      obtain ⟨inner, later⟩ := live.2.1.compound region
      exact State.enter_live inner ⟨later, live.2.2⟩
  | thenBranch =>
      obtain ⟨inner, _, later⟩ := live.2.1.ifStmt region
      exact Branch.enter_live inner later live.2.2
  | elseBranch =>
      obtain ⟨_, inner, later⟩ := live.2.1.ifStmt region
      exact Branch.enter_live inner later live.2.2
  | loop =>
      obtain ⟨here, inner, later⟩ := live.2.1.loop region
      exact ⟨here, inner, later, live.2.2⟩
  | iterate => exact State.enter_live (live.2.1 _ rfl) live
  | leave => exact State.enter_live live.2.2.1 live.2.2.2
  | dispatch inside =>
      obtain ⟨groups, later⟩ := live.2.1.switch region
      obtain ⟨group, more⟩ := (groups.tail inside).first
      exact State.enter_live group ⟨live.1, more, later, live.2.2⟩
  | noMatch => exact State.enter_live (live.2.1.switch region).2 live.2.2
  | bareSwitch =>
      obtain ⟨_, _, reads, _⟩ := live.2.1
      exact reads.elim
  | endSeq | endBlock => exact State.enter_live live.2.2.1 live.2.2.2
  | endLoop => exact live.2.2
  | endGroup =>
      obtain ⟨group, more⟩ := live.2.2.2.1.first
      exact State.enter_live group ⟨live.2.2.1, more, live.2.2.2.2⟩
  | endSwitch => exact State.enter_live live.2.2.2.2.1 live.2.2.2.2.2

/-! ### The labels -/

omit region in
mutual

/-- The statements of a list stand under its nodes. -/
theorem Code.reads_under : ∀ (code : Code) (nodes : List AstNode), code.Reads graph nodes → nodes ⊆ graph.nodes →
    ∀ node ∈ code.nodes, ∃ top ∈ nodes, graph.Under top node
  | .nil, _, _, _, _, inside => absurd inside List.not_mem_nil
  | .simple statement rest, _, ⟨tail, rfl, _, reads⟩, known, node, inside => by
      rcases List.mem_cons.mp inside with rfl | later
      · exact ⟨node, List.mem_cons_self, .refl⟩
      · obtain ⟨top, listed, under⟩ := rest.reads_under tail reads (fun _ own => known (.tail _ own)) node later
        exact ⟨top, .tail _ listed, under⟩
  | .compound statement body rest, _, ⟨tail, rfl, _, inner, reads⟩, known, node, inside => by
      rcases List.mem_append.mp inside with early | later
      · obtain ⟨top, listed, under⟩ :=
          body.reads_under _ inner (fun _ own => (AstGraph.mem_children own).1) node early
        exact ⟨statement, List.mem_cons_self, .head ⟨known List.mem_cons_self, listed⟩ under⟩
      · obtain ⟨top, listed, under⟩ := rest.reads_under tail reads (fun _ own => known (.tail _ own)) node later
        exact ⟨top, .tail _ listed, under⟩
  | .ifStmt statement thenBranch elseBranch rest, _,
      ⟨tail, condition, thenNode, elseNode, rfl, _, children, readsThen, readsElse, reads⟩, known, node, inside => by
      have here : statement ∈ graph.nodes := known List.mem_cons_self
      simp only [Code.nodes, List.cons_append, List.mem_cons, List.mem_append] at inside
      rcases inside with rfl | (early | middle) | later
      · exact ⟨node, List.mem_cons_self, .refl⟩
      · exact ⟨statement, List.mem_cons_self,
          thenBranch.reads_under _ statement readsThen here (by simp [children]) node early⟩
      · exact ⟨statement, List.mem_cons_self,
          elseBranch.reads_under _ statement readsElse here (by simp +contextual [children]) node middle⟩
      · obtain ⟨top, listed, under⟩ := rest.reads_under tail reads (fun _ own => known (.tail _ own)) node later
        exact ⟨top, .tail _ listed, under⟩
  | .loop statement body rest, _, ⟨tail, bodyNode, clauses, rfl, _, children, inner, reads⟩, known, node,
      inside => by
      have here : statement ∈ graph.nodes := known List.mem_cons_self
      have listed : ∀ found ∈ some bodyNode, found ∈ graph.children statement.nodeId := by
        rintro found ⟨⟩
        rw [children]
        split <;> simp
      simp only [Code.nodes, List.cons_append, List.mem_cons, List.mem_append] at inside
      rcases inside with rfl | early | later
      · exact ⟨node, List.mem_cons_self, .refl⟩
      · exact ⟨statement, List.mem_cons_self, body.reads_under _ statement inner here listed node early⟩
      · obtain ⟨top, listed, under⟩ := rest.reads_under tail reads (fun _ own => known (.tail _ own)) node later
        exact ⟨top, .tail _ listed, under⟩
  | .switch statement groups rest, _, ⟨tail, header, body, rfl, _, children, _, _, inner, reads⟩, known, node,
      inside => by
      have here : statement ∈ graph.nodes := known List.mem_cons_self
      have child : body ∈ graph.children statement.nodeId := by simp [children]
      simp only [Code.nodes, List.cons_append, List.mem_cons, List.mem_append] at inside
      rcases inside with rfl | early | later
      · exact ⟨node, List.mem_cons_self, .refl⟩
      · obtain ⟨top, listed, under⟩ :=
          groups.reads_under _ inner (fun _ own => (AstGraph.mem_children own).1) node early
        have above : graph.Under body node := .head ⟨(AstGraph.mem_children child).1, listed⟩ under
        exact ⟨statement, List.mem_cons_self, .head ⟨here, child⟩ above⟩
      · obtain ⟨top, listed, under⟩ := rest.reads_under tail reads (fun _ own => known (.tail _ own)) node later
        exact ⟨top, .tail _ listed, under⟩
  | .bareSwitch _ _, _, reads, _, _, _ => reads.elim

theorem Branch.reads_under : ∀ (branch : Branch) (top : Option AstNode) (statement : AstNode),
    branch.Reads graph top → statement ∈ graph.nodes → (∀ found ∈ top, found ∈ graph.children statement.nodeId) →
    ∀ node ∈ branch.nodes, graph.Under statement node
  | .absent, _, _, _, _, _, _, inside => absurd inside List.not_mem_nil
  | .present body, _, statement, ⟨found, rfl, reads⟩, here, listed, node, inside => by
      have child := listed found rfl
      have known := (AstGraph.mem_children child).1
      have step : graph.Child statement found := ⟨here, child⟩
      split at reads
      · obtain ⟨top, own, under⟩ :=
          body.reads_under _ reads (fun _ own => (AstGraph.mem_children own).1) node inside
        exact .head step (.head ⟨known, own⟩ under)
      · obtain ⟨top, own, under⟩ := body.reads_under [found] reads (by simpa using known) node inside
        obtain rfl := List.mem_singleton.mp own
        exact .head step under

theorem Groups.reads_under : ∀ (groups : Groups) (nodes : List AstNode), groups.Reads graph nodes →
    nodes ⊆ graph.nodes → ∀ node ∈ groups.nodes, ∃ top ∈ nodes, graph.Under top node
  | .nil, _, _, _, _, inside => absurd inside List.not_mem_nil
  | .cons label body more, _, ⟨inner, outer, rfl, _, _, reads, later⟩, known, node, inside => by
      simp only [Groups.nodes, List.cons_append, List.mem_cons, List.mem_append] at inside
      rcases inside with rfl | early | late
      · exact ⟨node, List.mem_cons_self, .refl⟩
      · obtain ⟨top, listed, under⟩ := body.reads_under inner reads
          (fun _ own => known (List.mem_append_left outer (.tail _ own))) node early
        exact ⟨top, List.mem_append_left outer (.tail _ listed), under⟩
      · obtain ⟨top, listed, under⟩ := more.reads_under outer later
          (fun _ own => known (List.mem_append_right _ own)) node late
        exact ⟨top, List.mem_append_right _ listed, under⟩

end

theorem DeadRegion.under {top node : AstNode} (under : graph.Under top node) (live : ¬ dead node) : ¬ dead top := by
  induction under with
  | refl => exact live
  | tail _ step ih => exact ih fun above => live (region.down _ _ step above)

theorem DeadRegion.above {top : AstNode} {code : Code} {nodes : List AstNode} {lead : Code} {next : Cont}
    (reads : code.Reads graph nodes) (known : nodes ⊆ graph.nodes) (below : ∀ node ∈ nodes, graph.Under top node)
    {entry : AstNode × State} (inside : entry ∈ code.positions lead next) (live : ¬ dead entry.1) : ¬ dead top := by
  have listed : entry.1 ∈ code.nodes := by
    rw [← code.positions_nodes lead next]
    exact List.mem_map_of_mem inside
  obtain ⟨node, own, under⟩ := code.reads_under nodes reads known entry.1 listed
  exact region.under ((below node own).trans under) live

/-- A live label stands behind live statements. -/
def LabelsLive (graph : AstGraph) (dead : AstNode → Prop) (entries : List (AstNode × State)) : Prop :=
  ∀ entry ∈ entries, entry.1.nodeKind = .labelStmt → ¬ dead entry.1 → entry.2.Live graph dead

omit region in
theorem LabelsLive.append {front back : List (AstNode × State)} (early : LabelsLive graph dead front)
    (late : LabelsLive graph dead back) : LabelsLive graph dead (front ++ back) := by
  intro entry inside
  rcases List.mem_append.mp inside with inside | inside
  · exact early entry inside
  · exact late entry inside

omit region in
theorem LabelsLive.cons {entry : AstNode × State} {back : List (AstNode × State)}
    (other : entry.1.nodeKind ≠ .labelStmt) (late : LabelsLive graph dead back) :
    LabelsLive graph dead (entry :: back) := by
  intro found inside
  rcases List.mem_cons.mp inside with rfl | inside
  · exact fun kind => absurd kind other
  · exact late found inside

omit region in
/-- The statements behind the first one make a list of their own. -/
theorem LiveCode.tail {statement : AstNode} {tail after : List AstNode} {rest : Code}
    (known : statement :: tail ⊆ graph.nodes) (chain : (statement :: tail ++ after).IsChain (Onward dead))
    (reads : rest.Reads graph tail) : tail ⊆ graph.nodes ∧ (tail ++ after).IsChain (Onward dead) ∧
      ∀ first ∈ (tail ++ after).head?, ¬ dead first → first.nodeKind ≠ .labelStmt →
        LiveCode graph dead rest after := by
  have there : tail ⊆ graph.nodes := fun _ own => known (.tail _ own)
  have chained := (List.isChain_cons.mp chain).2
  exact ⟨there, chained, fun first head lives _ => .of_head there reads chained head lives⟩

mutual

/-- Control that jumps to a live label stands before a live list. -/
theorem Code.positions_live : ∀ (code lead : Code) (next : Cont) (nodes : List AstNode), code.Reads graph nodes →
    nodes ⊆ graph.nodes → (nodes ++ next.after).IsChain (Onward dead) → next.Live graph dead →
    (∀ first ∈ (nodes ++ next.after).head?, ¬ dead first → first.nodeKind ≠ .labelStmt →
      LiveCode graph dead lead next.after) →
    LabelsLive graph dead (code.positions lead next)
  | .nil, _, _, _, _, _, _, _, _ => fun _ inside => absurd inside List.not_mem_nil
  | .simple statement rest, lead, next, _, ⟨tail, rfl, simple, reads⟩, known, chain, following, ahead => by
      have whole : (Code.simple statement rest).Reads graph (statement :: tail) := ⟨tail, rfl, simple, reads⟩
      have there : tail ⊆ graph.nodes := fun _ own => known (.tail _ own)
      obtain ⟨onward, chained⟩ := List.isChain_cons.mp chain
      intro entry inside kind live
      rcases List.mem_cons.mp inside with rfl | later
      · have here : LiveCode graph dead (.simple statement rest) next.after := .of_head known whole chain rfl live
        rw [leadAt, if_pos kind]
        exact ⟨here, here, following⟩
      · refine rest.positions_live _ next tail reads there chained following ?_ entry later kind live
        intro first head lives plain
        have above : ¬ dead statement := fun below => lives ((onward first head).2 below plain)
        rw [leadAfter]
        split
        · exact .of_head there reads chained head lives
        · rw [leadAt]
          split
          · exact .of_head known whole chain rfl above
          · rename_i other
            exact ahead statement rfl above other
  | .compound statement body rest, lead, next, _, ⟨tail, rfl, kind, inner, reads⟩, known, chain, following,
      ahead => by
      have here : statement ∈ graph.nodes := known List.mem_cons_self
      obtain ⟨there, later, behind⟩ := LiveCode.tail known chain reads
      have below : graph.children statement.nodeId ⊆ graph.nodes := fun _ own => (AstGraph.mem_children own).1
      have chained : (graph.children statement.nodeId ++ []).IsChain (Onward dead) := by
        rw [List.append_nil]
        exact region.chain statement here
      refine LabelsLive.append ?_ (rest.positions_live rest next tail reads there later following behind)
      intro entry inside labelKind live
      have above : ¬ dead statement := region.above inner below (fun _ own => .single ⟨here, own⟩) inside live
      exact body.positions_live body (.block rest next) _ inner below chained
        ⟨.behind known reads chain above (by rw [kind]; rfl), following⟩
        (fun first head lives _ => .of_head below inner chained head lives) entry inside labelKind live
  | .ifStmt statement thenBranch elseBranch rest, lead, next, _,
      ⟨tail, condition, thenNode, elseNode, rfl, kind, children, readsThen, readsElse, reads⟩, known, chain,
      following, ahead => by
      have here : statement ∈ graph.nodes := known List.mem_cons_self
      obtain ⟨there, chained, behind⟩ := LiveCode.tail known chain reads
      have later : ¬ dead statement → LiveCode graph dead rest next.after := fun above =>
        .behind known reads chain above (by rw [kind]; rfl)
      refine LabelsLive.append (LabelsLive.cons (by simp [kind]) (LabelsLive.append ?_ ?_))
        (rest.positions_live rest next tail reads there chained following behind)
      · exact thenBranch.positions_live (.seq rest next) (some thenNode) statement readsThen here (by simp [kind])
          (by simp [children]) rfl fun above => ⟨later above, following⟩
      · exact elseBranch.positions_live (.seq rest next) elseNode statement readsElse here (by simp [kind])
          (by simp +contextual [children]) rfl fun above => ⟨later above, following⟩
  | .loop statement body rest, lead, next, _, ⟨tail, bodyNode, clauses, rfl, kind, children, inner, reads⟩, known,
      chain, following, ahead => by
      have here : statement ∈ graph.nodes := known List.mem_cons_self
      obtain ⟨there, chained, behind⟩ := LiveCode.tail known chain reads
      have plain : statement.nodeKind ≠ .compoundStmt ∧ statement.nodeKind.isJump = false ∧
          statement.nodeKind ≠ .labelStmt := by
        cases same : statement.nodeKind <;> simp [NodeKind.isLoop, NodeKind.isJump, same] at kind ⊢
      have listed : bodyNode ∈ graph.children statement.nodeId := by
        rw [children]
        split <;> simp
      refine LabelsLive.append (LabelsLive.cons plain.2.2 ?_)
        (rest.positions_live rest next tail reads there chained following behind)
      refine body.positions_live (.loop statement body rest next) (some bodyNode) statement inner here plain.1
        (by simpa using listed) rfl fun above => ⟨above, ?_, ?_, following⟩
      · exact entered_of_live region here plain.1 above listed inner
      · exact .behind known reads chain above plain.2.1
  | .switch statement groups rest, lead, next, _, ⟨tail, header, bodyNode, rfl, kind, children, _, _, inner, reads⟩,
      known, chain, following, ahead => by
      have here : statement ∈ graph.nodes := known List.mem_cons_self
      obtain ⟨there, chained, behind⟩ := LiveCode.tail known chain reads
      have listed : bodyNode ∈ graph.children statement.nodeId := by simp [children]
      refine LabelsLive.append (LabelsLive.cons (by simp [kind]) ?_)
        (rest.positions_live rest next tail reads there chained following behind)
      intro entry inside labelKind live
      have own : entry.1 ∈ groups.nodes := by
        rw [← groups.positions_nodes lead rest next]
        exact List.mem_map_of_mem inside
      obtain ⟨node, child, under⟩ :=
        groups.reads_under _ inner (fun _ own => (AstGraph.mem_children own).1) entry.1 own
      have step : graph.Under bodyNode node := .single ⟨(AstGraph.mem_children listed).1, child⟩
      have above : ¬ dead statement := region.under (.head ⟨here, listed⟩ (step.trans under)) live
      exact groups.positions_live lead rest next (grouped_of_live region here (by simp [kind]) above listed inner)
        (ahead statement rfl above (by simp [kind])) (.behind known reads chain above (by rw [kind]; rfl)) following
        entry inside labelKind live
  | .bareSwitch _ _, _, _, _, reads, _, _, _, _ => reads.elim

theorem Branch.positions_live : ∀ (branch : Branch) (next : Cont) (top : Option AstNode) (statement : AstNode),
    branch.Reads graph top → statement ∈ graph.nodes → statement.nodeKind ≠ .compoundStmt →
    (∀ found ∈ top, found ∈ graph.children statement.nodeId) → next.after = [] →
    (¬ dead statement → next.Live graph dead) → LabelsLive graph dead (branch.positions next)
  | .absent, _, _, _, _, _, _, _, _, _ => fun _ inside => absurd inside List.not_mem_nil
  | .present body, next, _, statement, ⟨found, rfl, reads⟩, here, plain, listed, finished, following => by
      have child := listed found rfl
      have known := (AstGraph.mem_children child).1
      have step : graph.Under statement found := .single ⟨here, child⟩
      obtain ⟨nodes, there, inner, chain, below⟩ : ∃ nodes, nodes ⊆ graph.nodes ∧ body.Reads graph nodes ∧
          (nodes ++ next.after).IsChain (Onward dead) ∧ ∀ node ∈ nodes, graph.Under statement node := by
        rw [finished]
        split at reads
        · refine ⟨_, fun _ own => (AstGraph.mem_children own).1, reads, ?_, fun node own => step.tail ⟨known, own⟩⟩
          rw [List.append_nil]
          exact region.chain found known
        · exact ⟨[found], by simpa using known, reads, List.isChain_singleton _, by simpa using step⟩
      intro entry inside labelKind live
      have above := region.above inner there below inside live
      exact body.positions_live body next nodes inner there chain (following above)
        (fun first head lives _ => .of_head there inner chain head lives) entry inside labelKind live

theorem Groups.positions_live : ∀ (groups : Groups) (lead rest : Code) (next : Cont), LiveGroups graph dead groups →
    LiveCode graph dead lead next.after → LiveCode graph dead rest next.after → next.Live graph dead →
    LabelsLive graph dead (groups.positions lead rest next)
  | .nil, _, _, _, _, _, _, _ => fun _ inside => absurd inside List.not_mem_nil
  | .cons label body more, lead, rest, next, live, ahead, later, following => by
      obtain ⟨group, others⟩ := live.first
      obtain ⟨_, known, ⟨inner, outer, rfl, kind, _, reads, last⟩, chain, _⟩ := live
      have plain : label.nodeKind ≠ .labelStmt ∧ label.nodeKind.isJump = false := by
        cases same : label.nodeKind <;> simp [isCaseLabel, NodeKind.isJump, same] at kind ⊢
      refine LabelsLive.append (LabelsLive.cons plain.1 ?_)
        (more.positions_live lead rest next others ahead later following)
      exact body.positions_live _ (.switch lead more rest next) inner reads
        (fun _ own => known (List.mem_append_left outer (.tail _ own)))
        (List.isChain_cons.mp (group_chain last chain)).2 ⟨ahead, others, later, following⟩
        fun _ _ _ _ => leadAfter_live group group plain.2

end

/-- A run that only jumps to live labels gets to live states. -/
theorem gets_live {reading : Reading} {body : Code} {nodes : List AstNode} (kinded : body.Kinded)
    (reads : body.Reads graph nodes) (known : nodes ⊆ graph.nodes) (chain : nodes.IsChain (Onward dead))
    (begins : ∀ first ∈ nodes.head?, ¬ dead first)
    (labels : ∀ state statement, reading.Gets body state → state.current = some statement →
      statement.nodeKind = .labelStmt → ¬ dead statement) {state : State} (gets : reading.Gets body state) :
    state.Live graph dead := by
  have start : LiveCode graph dead body [] := by
    refine ⟨nodes, known, reads, ?_, ?_⟩
    · rwa [List.append_nil]
    · rwa [List.append_nil]
  have whole : (nodes ++ Cont.stop.after).IsChain (Onward dead) := by
    change (nodes ++ []).IsChain (Onward dead)
    rwa [List.append_nil]
  have positions := body.positions_live region body .stop nodes reads known whole trivial fun _ _ _ _ => start
  obtain ⟨trace, walk⟩ := gets
  induction walk with
  | start => exact State.enter_live start trivial
  | step walked taken ih =>
      refine taken.live region (fun name found => ?_) ih
      obtain ⟨statement, inside, kind, _⟩ := resolve_position found
      have current := (body.positions_fitting body .stop kinded _ inside).1
      exact positions _ inside kind (labels _ statement ⟨_, walked.step taken⟩ current kind)

end Region

/-! ### The statements behind a jump -/

theorem mem_scanBlock_iff {siblings : List AstNode} (distinct : siblings.Nodup) (statement : AstNode) :
    statement ∈ scanBlock false siblings ↔ BehindJump siblings statement := by
  constructor
  · intro reported
    obtain ⟨early, back, rfl⟩ := List.append_of_mem ((scanBlock_sublist false siblings).subset reported)
    obtain ⟨flag, plain⟩ := (mem_scanBlock distinct).mp reported
    obtain ⟨front, jump, middle, rfl, terminates, between⟩ := (scanFlag_iff early).mp flag
    refine ⟨front, jump, middle, back, by simp, terminates, fun other inside => ?_⟩
    rcases List.mem_append.mp inside with inside | inside
    · exact between other inside
    · exact List.mem_singleton.mp inside ▸ plain
  · rintro ⟨front, jump, middle, back, rfl, terminates, between⟩
    have same : front ++ jump :: (middle ++ statement :: back) = (front ++ jump :: middle) ++ statement :: back := by
      simp
    rw [same] at distinct ⊢
    refine (mem_scanBlock distinct).mpr ⟨(scanFlag_iff _).mpr ⟨front, jump, middle, rfl, terminates, ?_⟩, ?_⟩
    · exact fun other inside => between other (List.mem_append_left _ inside)
    · exact between statement (by simp)

theorem BehindJump.mem {siblings : List AstNode} {statement : AstNode} (behind : BehindJump siblings statement) :
    statement ∈ siblings := by
  obtain ⟨front, jump, middle, back, rfl, _⟩ := behind
  simp

/-- The node is a part of a reported statement. -/
def DeadNode (functionNode : AstNode) (graph : AstGraph) (node : AstNode) : Prop :=
  ∃ statement ∈ unreachableStatements functionNode graph, graph.Under statement node

section Functions

variable {graph : AstGraph} (wellFormed : graph.WellFormed) {functionNode : AstNode}
  (declares : functionNode.nodeKind = .functionDecl)

include declares

theorem mem_unreachableStatements {statement : AstNode} : statement ∈ unreachableStatements functionNode graph ↔
    ∃ block ∈ graph.descendants functionNode.nodeId, block.nodeKind = .compoundStmt ∧
      statement ∈ scanBlock false (graph.children block.nodeId) := by
  rw [unreachableStatements, List.filter_cons_of_neg (by simp [declares]), List.mem_flatMap]
  constructor
  · rintro ⟨block, inside, reported⟩
    obtain ⟨below, kind⟩ := List.mem_filter.mp inside
    exact ⟨block, below, of_decide_eq_true kind, reported⟩
  · rintro ⟨block, below, kind, reported⟩
    exact ⟨block, List.mem_filter.mpr ⟨below, decide_eq_true kind⟩, reported⟩

include wellFormed

/-- A child is dead with its parent, or it stands behind a jump of its list. -/
theorem deadNode_child_iff {parent child : AstNode} (known : parent ∈ graph.nodes)
    (inside : child ∈ graph.children parent.nodeId) : DeadNode functionNode graph child ↔
      DeadNode functionNode graph parent ∨
        ((parent ∈ graph.descendants functionNode.nodeId ∧ parent.nodeKind = .compoundStmt) ∧
          child ∈ scanBlock false (graph.children parent.nodeId)) := by
  constructor
  · rintro ⟨statement, reported, under⟩
    rcases Relation.ReflTransGen.cases_tail under with same | ⟨other, further, step⟩
    · subst same
      obtain ⟨block, below, kind, scanned⟩ := (mem_unreachableStatements declares).mp reported
      have listed := (scanBlock_sublist _ _).subset scanned
      have named : block.nodeId = parent.nodeId := by rw [← wellFormed.parent listed, wellFormed.parent inside]
      obtain ⟨top, outer, above⟩ := wellFormed.mem_descendants.mp below
      obtain rfl := wellFormed.unique (above.present (AstGraph.mem_children outer).1) known named
      exact .inr ⟨⟨below, kind⟩, scanned⟩
    · have named : other.nodeId = parent.nodeId := by rw [← wellFormed.parent step.2, wellFormed.parent inside]
      obtain rfl := wellFormed.unique step.1 known named
      exact .inl ⟨statement, reported, further⟩
  · rintro (⟨statement, reported, under⟩ | ⟨⟨below, kind⟩, scanned⟩)
    · exact ⟨statement, reported, under.tail ⟨known, inside⟩⟩
    · exact ⟨child, (mem_unreachableStatements declares).mpr ⟨parent, below, kind, scanned⟩, .refl⟩

/-- The parts of the reported statements are a region that control enters at labels only. -/
theorem deadRegion (plain : ∀ statement ∈ unreachableStatements functionNode graph, isCaseLabel statement = false) :
    DeadRegion graph (DeadNode functionNode graph) where
  chain := by
    intro node known
    refine List.isChain_iff_forall_rel_of_append_cons_cons.mpr fun {first second front back} same => ?_
    have distinct := wellFormed.children_nodup node.nodeId
    have here : first ∈ graph.children node.nodeId := by simp [same]
    have there : second ∈ graph.children node.nodeId := by simp [same]
    have firstFlag : first ∈ scanBlock false (graph.children node.nodeId) ↔
        scanFlag false front = true ∧ first.nodeKind ≠ .labelStmt := by
      rw [same] at distinct ⊢
      exact mem_scanBlock distinct
    have secondFlag : second ∈ scanBlock false (graph.children node.nodeId) ↔
        scanFlag false (front ++ [first]) = true ∧ second.nodeKind ≠ .labelStmt := by
      have split : front ++ first :: second :: back = (front ++ [first]) ++ second :: back := by simp
      rw [same, split] at distinct ⊢
      exact mem_scanBlock distinct
    rw [scanFlag_append] at secondFlag
    simp only [scanFlag, Bool.or_eq_true, Bool.and_eq_true, decide_eq_true_eq] at secondFlag
    rw [Onward, deadNode_child_iff wellFormed declares known here, deadNode_child_iff wellFormed declares known there,
      firstFlag, secondFlag, isTerminator_iff]
    constructor
    · rintro live straight (above | ⟨block, flag, _⟩)
      · exact live (.inl above)
      · refine live (.inr ⟨block, flag.resolve_right ?_⟩)
        simp [straight]
    · rintro (above | ⟨block, flag⟩) plain
      · exact .inl above
      · exact .inr ⟨block, .inl flag, plain⟩
  first := by
    intro node known live child head below
    obtain ⟨rest, same⟩ := List.head?_eq_some_iff.mp head
    have inside : child ∈ graph.children node.nodeId := by simp [same]
    rcases (deadNode_child_iff wellFormed declares known inside).mp below with above | ⟨_, scanned⟩
    · exact live above
    · have distinct := wellFormed.children_nodup node.nodeId
      rw [same] at distinct scanned
      exact Bool.false_ne_true ((@mem_scanBlock [] rest child distinct).mp scanned).1
  plain := by
    intro node known other live child inside below
    rcases (deadNode_child_iff wellFormed declares known inside).mp below with above | ⟨⟨_, kind⟩, _⟩
    · exact live above
    · exact other kind
  cases_ := by
    intro node known live child inside label below
    rcases (deadNode_child_iff wellFormed declares known inside).mp below with above | ⟨⟨below, kind⟩, scanned⟩
    · exact live above
    · have reported := (mem_unreachableStatements declares).mpr ⟨node, below, kind, scanned⟩
      exact Bool.false_ne_true ((plain child reported).symm.trans label)
  down := by
    rintro parent child step ⟨statement, reported, under⟩
    exact ⟨statement, reported, under.tail step⟩

/-- The function itself is no part of a statement in it. -/
theorem function_live : ¬ DeadNode functionNode graph functionNode := by
  rintro ⟨statement, reported, under⟩
  obtain ⟨block, below, _, scanned⟩ := (mem_unreachableStatements declares).mp reported
  obtain ⟨top, outer, above⟩ := wellFormed.mem_descendants.mp below
  have known := above.present (AstGraph.mem_children outer).1
  have step : graph.Child block statement := ⟨known, (scanBlock_sublist _ _).subset scanned⟩
  exact wellFormed.not_under_self outer rfl ((above.tail step).trans under)

/-- The body begins with a live statement. -/
theorem body_live (present : functionNode ∈ graph.nodes)
    (plain : ∀ statement ∈ unreachableStatements functionNode graph, isCaseLabel statement = false) :
    (bodyStatements functionNode graph).IsChain (Onward (DeadNode functionNode graph)) ∧
      ∀ first ∈ (bodyStatements functionNode graph).head?, ¬ DeadNode functionNode graph first := by
  have region := deadRegion wellFormed declares plain
  have live := region.plain functionNode present (by simp [declares]) (function_live wellFormed declares)
  unfold bodyStatements
  simp only
  split
  · rename_i block found
    have inside := List.mem_of_find?_eq_some found
    have known := (AstGraph.mem_children inside).1
    exact ⟨region.chain block known, region.first block known (live block inside)⟩
  · have alive : ∀ child ∈ (graph.children functionNode.nodeId).filter fun child =>
        child.nodeKind ∉ nonStatementKinds, ¬ DeadNode functionNode graph child := fun child listed =>
      live child (List.mem_filter.mp listed).1
    refine ⟨List.isChain_iff_forall_rel_of_append_cons_cons.mpr fun {first second front back} same => ⟨?_, ?_⟩, ?_⟩
    · exact fun _ _ => alive second (by rw [same]; simp)
    · exact fun below => absurd below (alive first (by rw [same]; simp))
    · exact fun first head => alive first (List.mem_of_mem_head? head)

/-- The reported statements are unreachable if no reachable label stands in them, and only then. -/
theorem unreachable_sound_iff (present : functionNode ∈ graph.nodes) {body : Code} {cfg : ControlFlowGraph}
    (layout : FunctionBody graph functionNode body) (built : build functionNode graph = some cfg) :
    UnreachableSound functionNode graph body cfg ↔ JumpsClosed functionNode graph body cfg := by
  have reported : ∀ block ∈ graph.descendants functionNode.nodeId, block.nodeKind = .compoundStmt →
      ∀ statement, BehindJump (graph.children block.nodeId) statement →
        statement ∈ unreachableStatements functionNode graph := by
    intro block below kind statement behind
    refine (mem_unreachableStatements declares).mpr ⟨block, below, kind, ?_⟩
    exact (mem_scanBlock_iff (wellFormed.children_nodup block.nodeId) statement).mpr behind
  constructor
  · intro sound
    constructor
    · intro block below kind statement behind
      exact sound.cases_ statement (reported block below kind statement behind)
    · intro block below kind statement behind node under _
      exact sound.dead statement (reported block below kind statement behind) node under
  · intro closed
    have plain : ∀ statement ∈ unreachableStatements functionNode graph, isCaseLabel statement = false := by
      intro statement listed
      obtain ⟨block, below, kind, scanned⟩ := (mem_unreachableStatements declares).mp listed
      exact closed.cases_ block below kind statement
        ((mem_scanBlock_iff (wellFormed.children_nodup block.nodeId) statement).mp scanned)
    have labels : ∀ label, DeadNode functionNode graph label → label.nodeKind = .labelStmt →
        NeverReached body cfg label := by
      rintro label ⟨statement, listed, under⟩ kind
      obtain ⟨block, below, compound, scanned⟩ := (mem_unreachableStatements declares).mp listed
      exact closed.labels block below compound statement
        ((mem_scanBlock_iff (wellFormed.children_nodup block.nodeId) statement).mp scanned) label under kind
    obtain ⟨chain, begins⟩ := body_live wellFormed declares present plain
    obtain ⟨reads, kinded, nodup⟩ := layout.reading wellFormed
    have never : ∀ (reading : Reading), (∀ state statement, reading.Gets body state →
        state.current = some statement → statement.nodeKind = .labelStmt →
          ¬ DeadNode functionNode graph statement) →
        ∀ node, DeadNode functionNode graph node → ∀ state, reading.Gets body state → state.current ≠ some node := by
      intro reading safe node dead state gets current
      have live := gets_live (deadRegion wellFormed declares plain) kinded layout
        (fun _ inside => bodyStatements_present inside) chain begins safe gets
      exact live.current current dead
    refine ⟨fun statement listed node under => ⟨?_, ?_⟩, plain⟩
    · rw [executable_iff_gets]
      rintro ⟨state, gets, current⟩
      refine never .c (fun other label gets current kind dead => ?_) node ⟨statement, listed, under⟩ state gets
        current
      exact (labels label dead kind).1 ((executable_iff_gets body label).mpr ⟨other, gets, current⟩)
    · intro block held reachable
      by_cases empty : bodyStatements functionNode graph = []
      · obtain ⟨other, same, trivial⟩ := build_trivial functionNode graph empty
        cases built.symm.trans same
        simp [trivial.empty] at held
      · obtain ⟨other, same, represents⟩ := build_represents functionNode graph body empty reads kinded nodup
        cases built.symm.trans same
        obtain ⟨first, last, spots, lays⟩ := represents.lays
        have reaches := fun node => reachable_iff_reached lays represents.kinded represents.anchored node
        obtain ⟨trace, state, walk, current⟩ := (reaches node).mp ⟨block, reachable, held⟩
        refine never .engine (fun other label gets current kind dead => ?_) node ⟨statement, listed, under⟩ state
          ⟨trace, walk⟩ current
        obtain ⟨steps, walked⟩ := gets
        obtain ⟨place, found, inside⟩ := (reaches label).mpr ⟨steps, other, walked, current⟩
        exact (labels label dead kind).2 place inside found

end Functions

/-! ### A statement behind a return -/

/-- These are the nodes of `f() { return; x(); }`. -/
def endedFunction : AstNode := { nodeId := "f", nodeKind := .functionDecl, childrenIds := ["b"] }

def endedReturn : AstNode := { nodeId := "r", nodeKind := .returnStmt, parentId := "b" }

def endedLater : AstNode := { nodeId := "x", nodeKind := .callExpr, parentId := "b" }

def endedGraph : AstGraph where
  nodes :=
    [endedFunction, { nodeId := "b", nodeKind := .compoundStmt, parentId := "f", childrenIds := ["r", "x"] },
      endedReturn, endedLater]

def endedBody : Code := .simple endedReturn (.simple endedLater .nil)

theorem ended_sound : endedLater ∈ unreachableStatements endedFunction endedGraph ∧
    ∃ cfg, build endedFunction endedGraph = some cfg ∧
      UnreachableSound endedFunction endedGraph endedBody cfg := by
  have wellFormed : endedGraph.WellFormed := by
    apply AstGraph.WellFormed.of_order <;> decide
  have statements : bodyStatements endedFunction endedGraph = [endedReturn, endedLater] := by decide
  have layout : FunctionBody endedGraph endedFunction endedBody :=
    ⟨[endedLater], statements, rfl, [], rfl, rfl, rfl⟩
  obtain ⟨reads, kinded, nodup⟩ := layout.reading wellFormed
  obtain ⟨cfg, built, _⟩ := build_represents endedFunction endedGraph endedBody (by decide) reads kinded nodup
  refine ⟨by decide, cfg, built, (unreachable_sound_iff wellFormed rfl (by decide) layout built).mpr ⟨?_, ?_⟩⟩
  · have plain : ∀ node ∈ endedGraph.nodes, isCaseLabel node = false := by decide
    intro block _ _ statement behind
    exact plain statement (AstGraph.mem_children behind.mem).1
  · have plain : ∀ node ∈ endedGraph.nodes, node.nodeKind ≠ .labelStmt := by decide
    intro block _ _ statement behind node under kind
    exact absurd kind (plain node (under.present (AstGraph.mem_children behind.mem).1))

/-! ### A case label behind a break -/

/-- These are the nodes of `f() { switch (c) { case 1: break; case 2: x(); } }`. -/
def breakingFunction : AstNode := { nodeId := "f", nodeKind := .functionDecl, childrenIds := ["b"] }

def breakingSwitch : AstNode :=
  { nodeId := "s", nodeKind := .switchStmt, parentId := "b", childrenIds := ["c", "g"] }

def breakingFirst : AstNode := { nodeId := "one", nodeKind := .caseStmt, parentId := "g" }

def breakingBreak : AstNode := { nodeId := "k", nodeKind := .breakStmt, parentId := "g" }

def breakingSecond : AstNode := { nodeId := "two", nodeKind := .caseStmt, parentId := "g" }

def breakingCall : AstNode := { nodeId := "x", nodeKind := .callExpr, parentId := "g" }

def breakingGraph : AstGraph where
  nodes :=
    [breakingFunction, { nodeId := "b", nodeKind := .compoundStmt, parentId := "f", childrenIds := ["s"] },
      breakingSwitch, { nodeId := "c", nodeKind := .declRefExpr, parentId := "s" },
      { nodeId := "g", nodeKind := .compoundStmt, parentId := "s", childrenIds := ["one", "k", "two", "x"] },
      breakingFirst, breakingBreak, breakingSecond, breakingCall]

def breakingBody : Code :=
  .switch breakingSwitch (.cons breakingFirst (.simple breakingBreak .nil)
    (.cons breakingSecond (.simple breakingCall .nil) .nil)) .nil

theorem breaking_layout : FunctionBody breakingGraph breakingFunction breakingBody := by
  have statements : bodyStatements breakingFunction breakingGraph = [breakingSwitch] := by decide
  refine ⟨[], [breakingGraph.nodes[3]], breakingGraph.nodes[4], statements, rfl, by decide, by decide, rfl, ?_, rfl⟩
  refine ⟨[breakingBreak], [breakingSecond, breakingCall], by decide, rfl, by decide, ⟨[], rfl, rfl, rfl⟩, ?_⟩
  exact ⟨[breakingCall], [], rfl, rfl, by decide, ⟨[], rfl, rfl, rfl⟩, rfl⟩

theorem breaking_executable : Executable breakingBody breakingSecond := by
  have dispatched : LeadsTo breakingBody (.start breakingBody) _ :=
    .single (.dispatch (.later breakingFirst (.simple breakingBreak .nil) (.here _)))
  obtain ⟨trace, run⟩ := exists_executes_iff.mpr dispatched
  exact ⟨trace, _, run, rfl⟩

/-- The switch can select the label, and the query reports it. -/
theorem breaking_unsound : FunctionBody breakingGraph breakingFunction breakingBody ∧
    breakingSecond ∈ unreachableStatements breakingFunction breakingGraph ∧ Executable breakingBody breakingSecond ∧
      ∀ cfg, ¬ UnreachableSound breakingFunction breakingGraph breakingBody cfg := by
  have reported : breakingSecond ∈ unreachableStatements breakingFunction breakingGraph := by decide
  refine ⟨breaking_layout, reported, breaking_executable, fun cfg sound => ?_⟩
  exact (sound.dead breakingSecond reported breakingSecond .refl).1 breaking_executable

end MisraPlatform

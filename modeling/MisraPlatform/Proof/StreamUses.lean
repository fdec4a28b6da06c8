import MisraPlatform.Proof.Descendants
import MisraPlatform.Proof.StreamAliases

/-
This file shows when exactly the reads of closed streams are reported.
-/

namespace MisraPlatform
open DataFlowEngineV2

namespace AliasAnalyzer

variable {functionNode : AstNode} {graph : AstGraph} {program : List (AstNode × StreamStmt)}

/-! ### Closing calls -/

theorem ClosesOnly.closedNames {statement : AstNode} {name : String} (closes : ClosesOnly graph statement name) :
    ∃ call, graph.Under statement call ∧ closesFile call = true ∧ closedNames call graph = [name] ∧
      ∀ other, graph.Under statement other → closesFile other = true → other = call := by
  obtain ⟨call, arg, under, closing, children, leaf, kind, rfl, named, only⟩ := closes
  have below : graph.descendants arg.nodeId = [] := by simp [AstGraph.descendants, leaf, AstGraph.collect]
  refine ⟨call, under, closing, ?_, fun other inside => (only other inside).1⟩
  simp [AliasAnalyzer.closedNames, closing, children, declRefNamesIn, below, kind, named]

/-- A child has no other parent. -/
theorem get_parent_eq (wellFormed : graph.WellFormed) {parent node : AstNode} (present : parent ∈ graph.nodes)
    (child : node ∈ graph.children parent.nodeId) : graph.get node.parentId = some parent := by
  rw [wellFormed.parent child, wellFormed.get present]

section Body

variable (body : StreamBody functionNode graph program) (wellFormed : graph.WellFormed)
  (present : functionNode ∈ graph.nodes) (kind : functionNode.nodeKind = .functionDecl)

include kind in
theorem mem_ordered {node : AstNode} (other : node.nodeKind ≠ .functionDecl) :
    node ∈ linearize (functionNodes functionNode graph) ↔ node ∈ graph.descendants functionNode.nodeId := by
  rw [linearize, List.mem_insertionSort, functionNodes, List.mem_cons]
  exact or_iff_right fun same => other (same ▸ kind)

include body

/-- Every closing call belongs to a statement that closes the same name. -/
theorem closes_of_call {call : AstNode} (inside : call ∈ graph.descendants functionNode.nodeId)
    (closing : closesFile call = true) : ∃ entry ∈ program, graph.Under entry.1 call ∧
      ∃ name, entry.2.closes = some name ∧ closedNames call graph = [name] := by
  obtain ⟨entry, listed, under⟩ := body.inside call inside (.inr (.inl closing))
  have reads := body.reads entry listed
  cases effect : entry.2.closes with
  | none => exact absurd closing (by simp [reads.unclosed effect call under])
  | some name =>
      obtain ⟨only, _, _, names, unique⟩ := (reads.closed name effect).closedNames
      obtain rfl := unique call under closing
      exact ⟨entry, listed, under, name, effect, names⟩

include wellFormed kind

/-- Before a reference, the scan has seen the closing calls of the earlier statements. -/
theorem closedIn_iff {before after : List (AstNode × StreamStmt)} {entry : AstNode × StreamStmt}
    (place : program = before ++ entry :: after) {ref : AstNode} (under : graph.Under entry.1 ref)
    (refKind : ref.nodeKind = .declRefExpr)
    (apart : ∀ call, graph.Under entry.1 call → closesFile call = true → ¬ precedes call ref)
    {earlier later : List AstNode}
    (split : linearize (functionNodes functionNode graph) = earlier ++ ref :: later) (name : String) :
    ClosedIn (analyze functionNode graph) graph earlier name ↔
      ClosedBefore (IsParameter functionNode graph) (effects program) (effects before) name := by
  have sorted : (earlier ++ ref :: later).Pairwise precedes :=
    split ▸ List.pairwise_insertionSort precedes (functionNodes functionNode graph)
  have ordered := List.pairwise_append.mp (place ▸ body.ordered)
  have callKind : ∀ {call}, closesFile call = true → call.nodeKind = .callExpr := by
    intro call closing
    simp only [closesFile, Bool.and_eq_true, decide_eq_true_eq] at closing
    exact closing.1
  constructor
  · rintro ⟨call, here, stream, named, aliased⟩
    have closing : closesFile call = true := by
      by_contra open_
      simp [closedNames, open_] at named
    have inside : call ∈ graph.descendants functionNode.nodeId := by
      refine (mem_ordered kind (by simp [callKind closing])).mp ?_
      exact split ▸ List.mem_append_left _ here
    obtain ⟨owner, listed, above, pointer, closes, names⟩ := closes_of_call body inside closing
    rw [names, List.mem_singleton] at named
    subst named
    have first := (List.pairwise_append.mp sorted).2.2 call here ref List.mem_cons_self
    rw [place] at listed
    rcases List.mem_append.mp listed with early | rest
    · have related := (mem_aliases_iff body wellFormed stream name).mp aliased
      exact ⟨owner.2, List.mem_map_of_mem early, stream, closes, related⟩
    rcases List.mem_cons.mp rest with rfl | late
    · exact absurd first (apart call above closing)
    · exact absurd first ((List.pairwise_cons.mp ordered.2.1).1 owner late ref call under above)
  · rintro ⟨effect, early, pointer, closes, related⟩
    obtain ⟨owner, there, rfl⟩ := List.mem_map.mp early
    have listed : owner ∈ program := place ▸ List.mem_append_left _ there
    obtain ⟨call, above, closing, names, _⟩ := ((body.reads owner listed).closed pointer closes).closedNames
    refine ⟨call, ?_, pointer, names ▸ List.mem_cons_self, (mem_aliases_iff body wellFormed _ _).mpr related⟩
    have inside := (mem_ordered kind (by simp [callKind closing])).mpr
      (body.mem_descendants wellFormed listed above)
    rw [split] at inside
    rcases List.mem_append.mp inside with before | rest
    · exact before
    rcases List.mem_cons.mp rest with rfl | late
    · exact absurd refKind (by simp [callKind closing])
    · have last := (List.pairwise_cons.mp (List.pairwise_append.mp sorted).2.1).1 call late
      exact absurd last (ordered.2.2 owner there entry List.mem_cons_self call ref above under)

omit wellFormed in
/-- A reported reference is named and stands under a statement but not right under a closing call. -/
theorem reported_located {ref : AstNode}
    (reported : ref ∈ useAfterFileCloseReads (analyze functionNode graph) functionNode graph) :
    isStreamUse graph ref ∧ NamedRef ref ∧ ∃ entry ∈ program, graph.Under entry.1 ref := by
  rw [useAfterFileCloseReads, scanUses_eq] at reported
  obtain ⟨earlier, later, split, kept⟩ := mem_statefulFilter.mp reported
  obtain ⟨use, marked⟩ := (usesClosed_iff graph _ ref).mp kept
  have inside : ref ∈ graph.descendants functionNode.nodeId := by
    refine (mem_ordered kind (by simp [use.1])).mp ?_
    exact split ▸ List.mem_append_right _ List.mem_cons_self
  have named := marked.resolve_left (by simp [body.unmarked ref inside])
  exact ⟨use, ⟨use.1, named.1⟩, body.inside ref inside (.inl use.1)⟩

/-- A reference that no call of its statement closes before is reported after the `fclose` of a related name. -/
theorem reported_iff {before after : List (AstNode × StreamStmt)} {entry : AstNode × StreamStmt}
    (place : program = before ++ entry :: after) {ref : AstNode} (under : graph.Under entry.1 ref)
    (named : NamedRef ref) (use : isStreamUse graph ref)
    (apart : ∀ call, graph.Under entry.1 call → closesFile call = true → ¬ precedes call ref) :
    ref ∈ useAfterFileCloseReads (analyze functionNode graph) functionNode graph ↔
      ClosedBefore (IsParameter functionNode graph) (effects program) (effects before) (declRefName ref) := by
  have inside := body.mem_descendants wellFormed (place ▸ List.mem_append_right _ List.mem_cons_self) under
  have kept : ∀ {earlier later}, linearize (functionNodes functionNode graph) = earlier ++ ref :: later →
      (usesClosed graph (earlier.foldl (closeStep (analyze functionNode graph) graph) ∅) ref = true ↔
        ClosedBefore (IsParameter functionNode graph) (effects program) (effects before) (declRefName ref)) := by
    intro earlier later split
    rw [usesClosed_iff, mem_closeStep_foldl, closedIn_iff body wellFormed kind place under named.1 apart split]
    simp [use, named.2, body.unmarked ref inside]
  rw [useAfterFileCloseReads, scanUses_eq, mem_statefulFilter]
  constructor
  · rintro ⟨earlier, later, split, passes⟩
    exact (kept split).mp passes
  · intro closed
    obtain ⟨earlier, later, split⟩ := List.append_of_mem ((mem_ordered kind (by simp [named.1])).mpr inside)
    exact ⟨earlier, later, split, (kept split).mpr closed⟩

include present

/-- A reference is a use of the stream when its statement closes nothing. -/
theorem isStreamUse_of_unclosed {entry : AstNode × StreamStmt} (listed : entry ∈ program)
    (unclosed : entry.2.closes = none) {ref : AstNode} (under : graph.Under entry.1 ref)
    (refKind : ref.nodeKind = .declRefExpr) : isStreamUse graph ref := by
  have open_ : ∀ parent ∈ graph.nodes, ref ∈ graph.children parent.nodeId → closesFile parent = false →
      isStreamUse graph ref := by
    intro parent above child clear
    exact ⟨refKind, by rw [get_parent_eq wellFormed above child, Option.any_some, clear]⟩
  rcases Relation.ReflTransGen.cases_tail under with rfl | ⟨parent, further, step⟩
  · -- The statement itself is a child of the body or of the function.
    have top := body.listed listed
    unfold CFGEngine.bodyStatements at top
    dsimp only at top
    split at top
    · rename_i block found
      have compound : block.nodeKind = .compoundStmt := by simpa using List.find?_some found
      have child := List.mem_of_find?_eq_some found
      exact open_ block (AstGraph.mem_children child).1 top (by simp [closesFile, compound])
    · exact open_ functionNode present (List.mem_filter.mp top).1 (by simp [closesFile, kind])
  · exact open_ parent step.1 step.2 ((body.reads entry listed).unclosed unclosed parent further)

omit body kind present in
/-- The target of an assignment does not stand right under a call. -/
theorem IsTarget.parent {ref : AstNode} (target : IsTarget graph ref) :
    ∃ parent, graph.get ref.parentId = some parent ∧ closesFile parent = false := by
  obtain ⟨parent, above, binary, _, first⟩ := target
  exact ⟨parent, get_parent_eq wellFormed above (List.mem_of_mem_head? first), by simp [closesFile, binary]⟩

omit body kind present in
/-- The argument of a closing call is read, but the scan does not count it as a use. The other references are
targets that stand before the call. -/
theorem ClosesOnly.argument {statement : AstNode} (known : statement ∈ graph.nodes) {name : String}
    (closes : ClosesOnly graph statement name) :
    ∃ arg, graph.Under statement arg ∧ NamedRef arg ∧ declRefName arg = name ∧ ¬ IsTarget graph arg ∧
      ¬ isStreamUse graph arg ∧ ∀ other, graph.Under statement other → other.nodeKind = .declRefExpr →
        other = arg ∨ IsTarget graph other ∧
          ∀ call, graph.Under statement call → closesFile call = true → ¬ precedes call other := by
  obtain ⟨call, arg, under, closing, children, _, kind, rfl, named, only⟩ := closes
  have child : arg ∈ graph.children call.nodeId := children ▸ List.mem_cons_self
  have above := under.present known
  have parent := get_parent_eq wellFormed above child
  refine ⟨arg, under.tail ⟨above, child⟩, ⟨kind, named⟩, rfl, ?_, ?_, ?_⟩
  · intro target
    obtain ⟨other, found, open_⟩ := target.parent wellFormed
    obtain rfl := Option.some.inj (parent.symm.trans found)
    exact Bool.noConfusion (closing.symm.trans open_)
  · intro use
    have open_ := use.2
    rw [parent, Option.any_some, closing] at open_
    exact Bool.noConfusion open_
  · intro other inside refKind
    by_cases same : other = arg
    · exact .inl same
    · obtain ⟨target, before⟩ := (only other inside).2 refKind same
      refine .inr ⟨target, fun second there closed => ?_⟩
      rw [(only second there).1 closed]
      exact before

/-- A target is reported after the `fclose` of a related name. So is any other reference of a statement that
closes nothing. -/
theorem reported_open {before after : List (AstNode × StreamStmt)} {entry : AstNode × StreamStmt}
    (place : program = before ++ entry :: after) {ref : AstNode} (under : graph.Under entry.1 ref)
    (named : NamedRef ref) (free : IsTarget graph ref ∨ entry.2.closes = none) :
    ref ∈ useAfterFileCloseReads (analyze functionNode graph) functionNode graph ↔
      ClosedBefore (IsParameter functionNode graph) (effects program) (effects before) (declRefName ref) := by
  have listed : entry ∈ program := place ▸ List.mem_append_right _ List.mem_cons_self
  have reads := body.reads entry listed
  have use : isStreamUse graph ref := by
    rcases free with target | unclosed
    · obtain ⟨parent, found, open_⟩ := target.parent wellFormed
      exact ⟨named.1, by rw [found, Option.any_some, open_]⟩
    · exact isStreamUse_of_unclosed body wellFormed present kind listed unclosed under named.1
  refine reported_iff body wellFormed kind place under named use ?_
  cases effect : entry.2.closes with
  | none =>
      intro call inside closing
      exact absurd closing (by simp [reads.unclosed effect call inside])
  | some name =>
      have known := body.known wellFormed listed
      obtain ⟨arg, _, _, _, untargeted, _, others⟩ := (reads.closed name effect).argument wellFormed known
      rcases others ref under named.1 with rfl | ⟨_, apart⟩
      · exact absurd (free.resolve_right (by simp [effect])) untargeted
      · exact apart

/-- Exactly the reads of closed streams are reported if and only if no closed stream is closed again, no assignment
comes after an `fclose` of a name that is related to its target, and any other name is read with a closed stream
exactly after an `fclose` of a related name. -/
theorem streamUses_exact_iff (given : String → Option Nat) :
    StreamUsesExact functionNode graph given program ↔ StreamsTidy functionNode graph given program := by
  constructor
  · intro exact_
    constructor
    · intro before entry after place name closes holds
      have listed : entry ∈ program := place ▸ List.mem_append_right _ List.mem_cons_self
      obtain ⟨arg, under, named, rfl, untargeted, unused, _⟩ :=
        ((body.reads entry listed).closed name closes).argument wellFormed (body.known wellFormed listed)
      have reported := (exact_.agrees before entry after place arg under named).mpr ⟨untargeted, holds⟩
      exact unused (reported_located body kind reported).1
    · intro before entry after place ref under named target closed
      have reported := (reported_open body wellFormed present kind place under named (.inl target)).mpr closed
      exact ((exact_.agrees before entry after place ref under named).mp reported).1 target
    · intro before entry after place unclosed ref under named untargeted
      rw [← reported_open body wellFormed present kind place under named (.inr unclosed),
        exact_.agrees before entry after place ref under named]
      exact and_iff_right untargeted
  · intro tidy
    refine ⟨fun ref reported => (reported_located body kind reported).2, ?_⟩
    intro before entry after place ref under named
    have listed : entry ∈ program := place ▸ List.mem_append_right _ List.mem_cons_self
    by_cases target : IsTarget graph ref
    · rw [reported_open body wellFormed present kind place under named (.inl target)]
      have clear := tidy.targets before entry after place ref under named target
      exact iff_of_false clear fun both => both.1 target
    cases effect : entry.2.closes with
    | none =>
        rw [reported_open body wellFormed present kind place under named (.inr effect),
          tidy.reads before entry after place effect ref under named target]
        exact (and_iff_right target).symm
    | some name =>
        obtain ⟨arg, _, _, rfl, _, unused, others⟩ := ((body.reads entry listed).closed name effect).argument
          wellFormed (body.known wellFormed listed)
        obtain rfl := (others ref under named.1).resolve_right fun both => target both.1
        have open_ := tidy.closes before entry after place _ effect
        exact iff_of_false (fun reported => unused (reported_located body kind reported).1)
          fun both => open_ both.2

end Body

/-! ### Bodies from lists of nodes -/

def subtree (graph : AstGraph) (node : AstNode) : List AstNode := node :: graph.descendants node.nodeId

section Lists

variable (wellFormed : graph.WellFormed) {statement : AstNode} (known : statement ∈ graph.nodes)

theorem not_assigning {node : AstNode} (irrelevant : isRelevant node = false) : ¬ Assigning graph node := by
  rintro ⟨name, rhs, assigns⟩
  exact Bool.noConfusion (irrelevant.symm.trans assigns.assignmentOf.1)

include wellFormed known

theorem StreamStmt.reads_use
    (quiet : ∀ node ∈ subtree graph statement, isRelevant node = false ∧ closesFile node = false) :
    ({} : StreamStmt).Reads graph statement where
  assigned _ _ assigns := nomatch assigns
  unassigned _ node under := not_assigning (quiet node ((wellFormed.mem_subtree known).mpr under)).1
  closed _ closes := nomatch closes
  unclosed _ node under := (quiet node ((wellFormed.mem_subtree known).mpr under)).2

theorem StreamStmt.reads_assign {name : String} (rhs : AstNode) {value : StreamValue}
    (assigns : AssignsTo graph statement name rhs) (valued : value.Reads graph rhs)
    (quiet : ∀ node ∈ subtree graph statement,
      closesFile node = false ∧ (isRelevant node = true → node = statement)) :
    ({ assigns := some (name, value) } : StreamStmt).Reads graph statement where
  assigned other right same := by
    obtain ⟨rfl, rfl⟩ := Prod.mk.inj (Option.some.inj same)
    refine ⟨statement, rhs, .refl, assigns, valued, fun node under assigning => ?_⟩
    obtain ⟨_, _, assigning⟩ := assigning
    exact (quiet node ((wellFormed.mem_subtree known).mpr under)).2 assigning.assignmentOf.1
  unassigned absent := nomatch absent
  closed _ closes := nomatch closes
  unclosed _ node under := (quiet node ((wellFormed.mem_subtree known).mpr under)).1

theorem StreamStmt.reads_close (arg : AstNode) (closing : closesFile statement = true)
    (children : graph.children statement.nodeId = [arg]) (leaf : graph.children arg.nodeId = [])
    (named : NamedRef arg)
    (quiet : ∀ node ∈ subtree graph statement, isRelevant node = false ∧ (node = statement ∨ node = arg)) :
    ({ closes := some (declRefName arg) } : StreamStmt).Reads graph statement where
  assigned _ _ assigns := nomatch assigns
  unassigned _ node under := not_assigning (quiet node ((wellFormed.mem_subtree known).mpr under)).1
  closed name same := by
    obtain rfl := Option.some.inj same
    refine ⟨statement, arg, .refl, closing, children, leaf, named.1, rfl, named.2, fun node under => ?_⟩
    rcases (quiet node ((wellFormed.mem_subtree known).mpr under)).2 with rfl | rfl
    · have call : node.nodeKind = .callExpr := by
        simp only [closesFile, Bool.and_eq_true, decide_eq_true_eq] at closing
        exact closing.1
      exact ⟨fun _ => rfl, fun kind => absurd kind (by simp [call])⟩
    · exact ⟨fun closes => absurd closes (by simp [closesFile, named.1]), fun _ other => absurd rfl other⟩
  unclosed absent := nomatch absent

omit known in
/-- The nodes under the statements are listed. -/
theorem StreamBody.of_lists (known : ∀ entry ∈ program, entry.1 ∈ graph.nodes)
    (statements : program.map Prod.fst = CFGEngine.bodyStatements functionNode graph)
    (reads : ∀ entry ∈ program, entry.2.Reads graph entry.1)
    (straight : ∀ entry ∈ program, ∀ node ∈ subtree graph entry.1, isStraight node = true)
    (inside : ∀ node ∈ graph.descendants functionNode.nodeId, node.nodeKind = .compoundStmt ∨
      ∃ entry ∈ program, node ∈ subtree graph entry.1)
    (ordered : program.Pairwise fun early late =>
      ∀ first ∈ subtree graph early.1, ∀ second ∈ subtree graph late.1, ¬ precedes second first)
    (unmarked : ∀ node ∈ graph.descendants functionNode.nodeId, node.truthy "use_after_file_close" = false) :
    StreamBody functionNode graph program where
  statements := statements
  reads := reads
  straight before entry after place node under := by
    have listed : entry ∈ program := place ▸ List.mem_append_right _ List.mem_cons_self
    exact .inl (straight entry listed node ((wellFormed.mem_subtree (known entry listed)).mpr under))
  inside node there touches := by
    rcases inside node there with compound | ⟨entry, listed, under⟩
    · rcases touches with kind | closing | ⟨name, rhs, assigns⟩
      · exact absurd kind (by simp [compound])
      · exact absurd closing (by simp [closesFile, compound])
      · exact absurd assigns.assignmentOf.1 (by simp [isRelevant, compound])
    · exact ⟨entry, listed, (wellFormed.mem_subtree (known entry listed)).mp under⟩
  ordered := by
    refine ordered.imp_of_mem fun {early late} here there apart first second left right => ?_
    exact apart first ((wellFormed.mem_subtree (known early here)).mpr left) second
      ((wellFormed.mem_subtree (known late there)).mpr right)
  unmarked := unmarked

end Lists

/-! ### A use after the only close and a stream that is opened again -/

def streamFunction : AstNode := { nodeId := "f", nodeKind := .functionDecl, childrenIds := ["b"] }

def openStmt : AstNode :=
  { nodeId := "d", nodeKind := .varDecl, parentId := "b", childrenIds := ["o"], sourceRange := { lineStart := 1 },
    semanticProperties := [("name", "p")], isPointer := true }

def openCall : AstNode :=
  { nodeId := "o", nodeKind := .callExpr, parentId := "d", sourceRange := { lineStart := 1 },
    semanticProperties := [("callee", "fopen")] }

def closeStmt : AstNode :=
  { nodeId := "c", nodeKind := .callExpr, parentId := "b", childrenIds := ["a"], sourceRange := { lineStart := 2 },
    semanticProperties := [("callee", "fclose")] }

def closeArg : AstNode :=
  { nodeId := "a", nodeKind := .declRefExpr, parentId := "c", sourceRange := { lineStart := 2 },
    semanticProperties := [("name", "p")] }

def reopenStmt : AstNode :=
  { nodeId := "r", nodeKind := .binaryOperator, parentId := "b", childrenIds := ["t", "n"],
    sourceRange := { lineStart := 3 }, semanticProperties := [("opcode", "=")] }

def reopenTarget : AstNode :=
  { nodeId := "t", nodeKind := .declRefExpr, parentId := "r", sourceRange := { lineStart := 3 },
    semanticProperties := [("name", "p")] }

def reopenCall : AstNode :=
  { nodeId := "n", nodeKind := .callExpr, parentId := "r", sourceRange := { lineStart := 3 },
    semanticProperties := [("callee", "fopen")] }

def useStmt : AstNode :=
  { nodeId := "u", nodeKind := .callExpr, parentId := "b", childrenIds := ["v"], sourceRange := { lineStart := 4 },
    semanticProperties := [("callee", "fputs")] }

def useRef : AstNode :=
  { nodeId := "v", nodeKind := .declRefExpr, parentId := "u", sourceRange := { lineStart := 4 },
    semanticProperties := [("name", "p")] }

/-- These are the nodes of `FILE *p = fopen(); fclose(p); fputs(p);`. -/
def closedGraph : AstGraph where
  nodes :=
    [streamFunction, { nodeId := "b", nodeKind := .compoundStmt, parentId := "f", childrenIds := ["d", "c", "u"] },
      openStmt, openCall, closeStmt, closeArg, useStmt, useRef]

/-- These are the nodes of `FILE *p = fopen(); fclose(p); p = fopen(); fputs(p);`. -/
def reopenedGraph : AstGraph where
  nodes :=
    [streamFunction,
      { nodeId := "b", nodeKind := .compoundStmt, parentId := "f", childrenIds := ["d", "c", "r", "u"] },
      openStmt, openCall, closeStmt, closeArg, reopenStmt, reopenTarget, reopenCall, useStmt, useRef]

def openEntry : AstNode × StreamStmt := (openStmt, { assigns := some ("p", .result "fopen") })

def closeEntry : AstNode × StreamStmt := (closeStmt, { closes := some "p" })

def reopenEntry : AstNode × StreamStmt := (reopenStmt, { assigns := some ("p", .result "fopen") })

def useEntry : AstNode × StreamStmt := (useStmt, {})

def closedProgram : List (AstNode × StreamStmt) := [openEntry, closeEntry, useEntry]

def reopenedProgram : List (AstNode × StreamStmt) := [openEntry, closeEntry, reopenEntry, useEntry]

section Entries

variable {graph : AstGraph} (either : graph = closedGraph ∨ graph = reopenedGraph)

include either

theorem either_wellFormed : graph.WellFormed := by
  rcases either with rfl | rfl
  · apply AstGraph.WellFormed.of_order <;> decide
  · apply AstGraph.WellFormed.of_order <;> decide

theorem openEntry_reads : openEntry.2.Reads graph openEntry.1 := by
  have known : openStmt ∈ graph.nodes := by rcases either with rfl | rfl <;> decide
  refine StreamStmt.reads_assign (either_wellFormed either) known openCall
    ⟨by decide, .inl ⟨rfl, rfl, rfl, ?_⟩⟩ ⟨rfl, rfl⟩ ?_
  · rcases either with rfl | rfl <;> decide
  · rcases either with rfl | rfl <;> decide

theorem closeEntry_reads : closeEntry.2.Reads graph closeEntry.1 := by
  have known : closeStmt ∈ graph.nodes := by rcases either with rfl | rfl <;> decide
  refine StreamStmt.reads_close (either_wellFormed either) known closeArg rfl ?_ ?_ (by decide) ?_
  · rcases either with rfl | rfl <;> decide
  · rcases either with rfl | rfl <;> decide
  · rcases either with rfl | rfl <;> decide

theorem useEntry_reads : useEntry.2.Reads graph useEntry.1 := by
  have known : useStmt ∈ graph.nodes := by rcases either with rfl | rfl <;> decide
  refine StreamStmt.reads_use (either_wellFormed either) known ?_
  rcases either with rfl | rfl <;> decide

end Entries

theorem reopenEntry_reads : reopenEntry.2.Reads reopenedGraph reopenEntry.1 :=
  StreamStmt.reads_assign (either_wellFormed (.inr rfl)) (by decide) reopenCall
    ⟨by decide, .inr ⟨rfl, rfl, reopenTarget, [], by decide, rfl, rfl⟩⟩ ⟨rfl, rfl⟩ (by decide)

theorem closed_body : StreamBody streamFunction closedGraph closedProgram := by
  refine StreamBody.of_lists (either_wellFormed (.inl rfl)) (by decide) (by decide) ?_ (by decide) (by decide)
    (by decide) (by decide)
  intro entry listed
  simp only [closedProgram, List.mem_cons, List.not_mem_nil, or_false] at listed
  rcases listed with rfl | rfl | rfl
  · exact openEntry_reads (.inl rfl)
  · exact closeEntry_reads (.inl rfl)
  · exact useEntry_reads (.inl rfl)

theorem reopened_body : StreamBody streamFunction reopenedGraph reopenedProgram := by
  refine StreamBody.of_lists (either_wellFormed (.inr rfl)) (by decide) (by decide) ?_ (by decide) (by decide)
    (by decide) (by decide)
  intro entry listed
  simp only [reopenedProgram, List.mem_cons, List.not_mem_nil, or_false] at listed
  rcases listed with rfl | rfl | rfl | rfl
  · exact openEntry_reads (.inr rfl)
  · exact closeEntry_reads (.inr rfl)
  · exact reopenEntry_reads
  · exact useEntry_reads (.inr rfl)

/-- Only the last statement names the pointer after the `fclose`. -/
theorem closed_tidy : StreamsTidy streamFunction closedGraph (fun _ => none) closedProgram := by
  have places : ∀ before entry after, closedProgram = before ++ entry :: after →
      before = [] ∧ entry = openEntry ∨
      before = [openEntry] ∧ entry = closeEntry ∨ before = [openEntry, closeEntry] ∧ entry = useEntry := by
    intro before entry after place
    rcases before with _ | ⟨first, _ | ⟨second, _ | ⟨third, rest⟩⟩⟩
    · cases place
      exact .inl ⟨rfl, rfl⟩
    · cases place
      exact .inr (.inl ⟨rfl, rfl⟩)
    · cases place
      exact .inr (.inr ⟨rfl, rfl⟩)
    · simp [closedProgram] at place
  have listed : ∀ {entry ref}, entry ∈ closedProgram → closedGraph.Under entry.1 ref →
      ref ∈ subtree closedGraph entry.1 := by
    intro entry ref inside under
    have known : ∀ entry ∈ closedProgram, entry.1 ∈ closedGraph.nodes := by decide
    exact ((either_wellFormed (.inl rfl)).mem_subtree (known entry inside)).mpr under
  constructor
  · intro before entry after place name closes
    rcases places before entry after place with ⟨rfl, rfl⟩ | ⟨rfl, rfl⟩ | ⟨rfl, rfl⟩
    · cases closes
    · cases closes
      decide
    · cases closes
  · intro before entry after place ref under _ target
    have untargeted : ∀ entry ∈ closedProgram, ∀ ref ∈ subtree closedGraph entry.1,
        ¬ IsTarget closedGraph ref := by decide
    have inside : entry ∈ closedProgram := place ▸ List.mem_append_right _ List.mem_cons_self
    exact absurd target (untargeted entry inside ref (listed inside under))
  · intro before entry after place unclosed ref under named _
    have inside : entry ∈ closedProgram := place ▸ List.mem_append_right _ List.mem_cons_self
    have member := listed inside under
    rcases places before entry after place with ⟨rfl, rfl⟩ | ⟨rfl, rfl⟩ | ⟨rfl, rfl⟩
    · have unnamed : ∀ ref ∈ subtree closedGraph openStmt, ¬ NamedRef ref := by decide
      exact absurd named (unnamed ref member)
    · cases unclosed
    · have only : ∀ ref ∈ subtree closedGraph useStmt, NamedRef ref → declRefName ref = "p" := by decide
      rw [only ref member named]
      refine iff_of_true ⟨closeEntry.2, by decide, "p", rfl, .inl rfl⟩ ?_
      decide

/-- The use after the close is the only report. -/
theorem closed_exact : StreamUsesExact streamFunction closedGraph (fun _ => none) closedProgram :=
  (streamUses_exact_iff closed_body (either_wellFormed (.inl rfl)) (by decide) rfl _).mpr closed_tidy

/-- The target of the second `fopen` and the use of the open stream are reported. -/
theorem reopened_inexact : StreamBody streamFunction reopenedGraph reopenedProgram ∧
    useAfterFileCloseReads (analyze streamFunction reopenedGraph) streamFunction reopenedGraph =
      [reopenTarget, useRef] ∧
    ∀ given, ¬ HoldsClosed (streamsAfter given (effects [openEntry, closeEntry, reopenEntry])) "p" ∧
      ¬ StreamUsesExact streamFunction reopenedGraph given reopenedProgram := by
  have reported : useAfterFileCloseReads (analyze streamFunction reopenedGraph) streamFunction reopenedGraph =
      [reopenTarget, useRef] := by decide
  have open_ : ∀ given, ¬ HoldsClosed (streamsAfter given (effects [openEntry, closeEntry, reopenEntry])) "p" := by
    rintro given ⟨stream, held, closed⟩
    have new : stream = .opened 1 := (Option.some.inj held).symm
    have old : stream ∈ ({.opened 0} : Finset Stream) := closed
    rw [new] at old
    exact absurd old (by decide)
  refine ⟨reopened_body, reported, fun given => ⟨open_ given, fun exact_ => ?_⟩⟩
  have under : reopenedGraph.Under useEntry.1 useRef :=
    ((either_wellFormed (.inr rfl)).mem_subtree (by decide)).mp (by decide)
  have place : reopenedProgram = [openEntry, closeEntry, reopenEntry] ++ useEntry :: [] := rfl
  have agrees := exact_.agrees _ useEntry [] place useRef under (by decide)
  rw [reported] at agrees
  exact open_ given (agrees.mp (by decide)).2

end AliasAnalyzer
end MisraPlatform

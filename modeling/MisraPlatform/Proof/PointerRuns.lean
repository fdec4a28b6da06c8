import MisraPlatform.Proof.StreamAliases
import MisraPlatform.Semantics.PointerRuns

/-
This file shows that the aliases cover the addresses of every run without hidden values, and which
copies between overlapping objects are reported.
-/

namespace MisraPlatform
open DataFlowEngineV2

namespace AliasAnalyzer

variable {functionNode : AstNode} {graph : AstGraph} {resolution : Resolution}

/-! ### Covered addresses -/

/-- The pointee tells the address. -/
def Describes (functionNode : AstNode) (graph : AstGraph) (resolution : Resolution) (fact : Pointee) :
    Address → Prop
  | .object declaration => ∃ ref ∈ graph.descendants functionNode.nodeId, ref.nodeKind = .declRefExpr ∧
      resolution.denotes ref = declaration ∧ fact.target = declRefName ref
  | .heap callee _ => fact.target = (heapPair callee).1 ∧ fact.confidence ≠ .definite

/-- A pointee of the set tells the address or leaves it open. -/
def Covers (functionNode : AstNode) (graph : AstGraph) (resolution : Resolution) (set : Finset Pointee)
    (address : Address) : Prop :=
  ∃ fact ∈ set, fact.kind = .unknownKind ∨ Describes functionNode graph resolution fact address

/-- The sets cover the addresses of all pointers. -/
def Covered (functionNode : AstNode) (graph : AstGraph) (resolution : Resolution) (pointers : Pointers) : Prop :=
  ∀ variable_ address, pointers variable_ = some address →
    Covers functionNode graph resolution (pointees (analyze functionNode graph) (resolution.nameOf variable_))
      address

theorem Covers.subset {set other : Finset Pointee} {address : Address}
    (covers : Covers functionNode graph resolution set address) (grows : set ⊆ other) :
    Covers functionNode graph resolution other address := by
  obtain ⟨fact, inside, told⟩ := covers
  exact ⟨fact, grows inside, told⟩

theorem Covers.copiedSet {set : Finset Pointee} {address : Address}
    (covers : Covers functionNode graph resolution set address) :
    Covers functionNode graph resolution (copiedSet set) address := by
  obtain ⟨fact, inside, told⟩ := covers
  refine ⟨downgrade (1 < set.card) fact, mem_copiedSet inside, ?_⟩
  have pair := pair_downgrade (1 < set.card) fact
  have target : (downgrade (1 < set.card) fact).target = fact.target := congrArg Prod.fst pair
  have kind : (downgrade (1 < set.card) fact).kind = fact.kind := congrArg Prod.snd pair
  rw [kind]
  refine told.imp_right fun describes => ?_
  cases address with
  | object declaration =>
      obtain ⟨ref, there, isRef, same, named⟩ := describes
      exact ⟨ref, there, isRef, same, target.trans named⟩
  | heap callee number =>
      refine ⟨target.trans describes.1, fun definite => ?_⟩
      exact describes.2 ((downgrade_definite definite).2 ▸ definite)

section Steps

variable (wellFormed : graph.WellFormed)

include wellFormed

theorem child_descendants {node child : AstNode} (inside : node ∈ graph.descendants functionNode.nodeId)
    (listed : child ∈ graph.children node.nodeId) : child ∈ graph.descendants functionNode.nodeId := by
  rw [wellFormed.mem_descendants] at inside ⊢
  obtain ⟨top, there, under⟩ := inside
  exact ⟨top, there, under.tail ⟨under.present (AstGraph.mem_children there).1, listed⟩⟩

/-- The value of a right side is covered by what the right side adds. -/
theorem Evaluates.covers {pointers : Pointers} (covered : Covered functionNode graph resolution pointers)
    {rhs : AstNode} (there : rhs ∈ graph.descendants functionNode.nodeId) {address : Address}
    (evaluates : Evaluates graph resolution pointers rhs (some address)) (told : Told rhs (some address)) :
    Covers functionNode graph resolution
      ((originOf rhs graph).value (pointees (analyze functionNode graph))) address := by
  obtain ⟨uncast, plain, called⟩ := told address rfl
  generalize held : some address = value at evaluates
  cases evaluates with
  | designator kind named decays =>
      obtain rfl := Option.some.inj held
      have origin : ∃ pointeeKind, originOf rhs graph = .found (namedPointee rhs pointeeKind) := by
        by_cases function : rhs.truthy "is_function" = true
        · exact ⟨.functionKind, by simp [originOf, kind, function]⟩
        · exact ⟨.arrayKind, by simp [originOf, kind, function, decays.resolve_left function]⟩
      obtain ⟨pointeeKind, same⟩ := origin
      rw [same, Origin.value, namedPointee, if_neg named]
      exact ⟨_, Finset.mem_singleton_self _, .inr ⟨rhs, there, kind, rfl, rfl⟩⟩
  | pointer kind named function array =>
      have same : originOf rhs graph = .copy (declRefName rhs) := by simp [originOf, kind, function, array]
      have source := covered (resolution.denotes rhs) address held.symm
      rw [resolution.named] at source
      rw [same]
      exact source.copiedSet
  | @addressOf _ operand kind ampersand child ref named =>
      obtain rfl := Option.some.inj held
      have inside := child_descendants wellFormed there (List.mem_of_mem_head? child)
      rw [originOf, if_pos ⟨kind, ampersand⟩, child, Origin.value]
      refine ⟨_, Finset.mem_singleton_self _, .inr ⟨operand, inside, ref, rfl, ?_⟩⟩
      simp [AliasAnalyzer.addressOf, ref, named]
  | addressInside kind ampersand child other =>
      rw [originOf, if_pos ⟨kind, ampersand⟩, child, Origin.value]
      refine ⟨_, Finset.mem_singleton_self _, .inl ?_⟩
      simp [AliasAnalyzer.addressOf, other, unknownPointee]
  | call kind =>
      obtain ⟨number, rfl⟩ := called kind
      have same : originOf rhs graph = .found {⟨(heapPair (callee rhs)).1, .heapKind, .possible⟩} := by
        simp [originOf, kind, heapPair]
      rw [same, Origin.value]
      exact ⟨_, Finset.mem_singleton_self _, .inr ⟨rfl, by simp⟩⟩
  | cast kind => exact absurd kind uncast
  | conditional kind => exact absurd kind plain
  | null => cases held

omit wellFormed in
/-- The names of the target and of the assignment agree. -/
theorem AssignsTo.targetOf {node rhs : AstNode} {name : String} (assigns : AssignsTo graph node name rhs) :
    declRefName (targetOf graph node) = name ∧ rhs ∈ graph.children node.nodeId := by
  obtain ⟨_, form⟩ := assigns
  rcases form with ⟨kind, _, same, found⟩ | ⟨kind, _, lhs, rest, children, _, same⟩
  · exact ⟨by simp [AliasAnalyzer.targetOf, kind, same], List.mem_of_find?_eq_some found⟩
  · exact ⟨by simp [AliasAnalyzer.targetOf, kind, children, same], by simp [children]⟩

theorem Covered.step {pointers next : Pointers} (covered : Covered functionNode graph resolution pointers)
    (step : ToldStep functionNode graph resolution pointers next) : Covered functionNode graph resolution next := by
  obtain ⟨rhs, value, assigned, told⟩ := step
  obtain ⟨inside, assigns, evaluates⟩ := assigned
  rename_i node name
  obtain ⟨target, child⟩ := assigns.targetOf
  have there : node ∈ graph.descendants functionNode.nodeId := by
    rw [relevant, linearize, List.mem_insertionSort] at inside
    exact (List.mem_filter.mp inside).1
  intro variable_ address held
  by_cases same : variable_ = resolution.denotes (AliasAnalyzer.targetOf graph node)
  · subst same
    rw [Function.update_self] at held
    subst held
    rw [resolution.named, target]
    have covers := evaluates.covers wellFormed covered (child_descendants wellFormed there child) told
    exact covers.subset (origin_subset inside assigns.assignmentOf.2)
  · rw [Function.update_of_ne same] at held
    exact covered variable_ address held

omit wellFormed in
theorem Initial.covered {start : Pointers} (initial : Initial functionNode graph resolution start) :
    Covered functionNode graph resolution start :=
  fun variable_ address held => ⟨unknownPointee, parameter_unknown (initial variable_ address held), .inl rfl⟩

/-- A run without hidden values keeps every address covered. -/
theorem covered_run {start pointers : Pointers} (initial : Initial functionNode graph resolution start)
    (run : Relation.ReflTransGen (ToldStep functionNode graph resolution) start pointers) :
    Covered functionNode graph resolution pointers := by
  induction run with
  | refl => exact initial.covered
  | tail _ step ih => exact ih.step wellFormed step

end Steps

/-! ### Verdicts -/

/-- Sets that cover one address may alias. -/
theorem Covers.mayAlias {pointsTo : PointsTo} {first second : String} {address : Address}
    (left : Covers functionNode graph resolution (pointees pointsTo first) address)
    (right : Covers functionNode graph resolution (pointees pointsTo second) address) :
    (mayAlias pointsTo first second).1 = true := by
  obtain ⟨fact, here, told⟩ := left
  obtain ⟨other, there, told'⟩ := right
  rw [mayAlias_iff]
  refine ⟨⟨Finset.ne_empty_of_mem here, Finset.ne_empty_of_mem there⟩, ?_⟩
  rcases told with unknown | describes
  · exact .inl (.inl ⟨fact, here, unknown⟩)
  rcases told' with unknown | describes'
  · exact .inl (.inr ⟨other, there, unknown⟩)
  have same : other.target = fact.target := by
    cases address with
    | object declaration =>
        obtain ⟨ref, _, _, denoted, named⟩ := describes
        obtain ⟨ref', _, _, denoted', named'⟩ := describes'
        rw [named, named', ← resolution.named, ← resolution.named, denoted, denoted']
    | heap callee number => exact describes'.1.trans describes.1.symm
  exact .inr ⟨fact.target, Finset.mem_inter.mpr
    ⟨Finset.mem_image_of_mem _ here, same ▸ Finset.mem_image_of_mem _ there⟩⟩

/-- A definite verdict needs one known and definite pointee for both names. -/
theorem mayAlias_definite {pointsTo : PointsTo} {first second : String}
    (verdict : mayAlias pointsTo first second = (true, .definite)) :
    ∃ fact other, pointees pointsTo first = {fact} ∧ pointees pointsTo second = {other} ∧
      fact.target = other.target ∧ (fact.kind ≠ .unknownKind ∧ fact.confidence = .definite) ∧
        other.kind ≠ .unknownKind ∧ other.confidence = .definite := by
  have related := (mayAlias_iff pointsTo first second).mp (congrArg Prod.fst verdict)
  have confident := congrArg Prod.snd verdict
  unfold mayAlias at confident
  dsimp only at confident
  rw [if_neg (not_or.mpr related.1)] at confident
  by_cases unknown : hasUnknown (pointees pointsTo first) ∨ hasUnknown (pointees pointsTo second)
  · rw [if_pos unknown] at confident
    exact absurd confident (by decide)
  have shared := related.2.resolve_left unknown
  rw [if_neg unknown, if_neg (Finset.nonempty_iff_ne_empty.mp shared)] at confident
  by_cases definite : areDefinite (pointees pointsTo first) (pointees pointsTo second)
  · obtain ⟨one, another, all⟩ := definite
    obtain ⟨fact, left⟩ := Finset.card_eq_one.mp one
    obtain ⟨other, right⟩ := Finset.card_eq_one.mp another
    rw [left, right] at all shared unknown
    obtain ⟨target, both⟩ := shared
    have targets : target = fact.target ∧ target = other.target := by simpa [targetsOf] using both
    have known : fact.kind ≠ .unknownKind ∧ other.kind ≠ .unknownKind := by simpa [hasUnknown] using unknown
    have same : fact.target = other.target := targets.1.symm.trans targets.2
    refine ⟨fact, other, left, right, same, ⟨known.1, all fact ?_⟩, known.2, all other ?_⟩
    · simp
    · simp
  · rw [if_neg definite] at confident
    exact absurd confident (by decide)

/-- A known and definite pointee tells the object. -/
theorem Covers.object {fact : Pointee} {address : Address}
    (covers : Covers functionNode graph resolution {fact} address)
    (known : fact.kind ≠ .unknownKind ∧ fact.confidence = .definite) :
    ∃ ref ∈ graph.descendants functionNode.nodeId, ref.nodeKind = .declRefExpr ∧
      address = .object (resolution.denotes ref) ∧ fact.target = declRefName ref := by
  obtain ⟨only, inside, told⟩ := covers
  obtain rfl := Finset.mem_singleton.mp inside
  have describes := told.resolve_left known.1
  cases address with
  | object declaration =>
      obtain ⟨ref, there, kind, denoted, named⟩ := describes
      exact ⟨ref, there, kind, congrArg Address.object denoted.symm, named⟩
  | heap callee number => exact absurd known.2 describes.2

/-- In every run without hidden values, the pointers that hold one address may alias, and with one object for
each name the pointers that alias definitely hold one address. -/
theorem verdicts_sound (wellFormed : graph.WellFormed) {start pointers : Pointers}
    (initial : Initial functionNode graph resolution start)
    (run : Relation.ReflTransGen (ToldStep functionNode graph resolution) start pointers) :
    AliasesFound functionNode graph resolution pointers ∧
      (OneObjectPerName functionNode graph resolution →
        DefiniteAliasesEqual functionNode graph resolution pointers) := by
  have covered := covered_run wellFormed initial run
  constructor
  · intro first second address held also
    exact (covered first address held).mayAlias (covered second address also)
  · intro single first second verdict address other held also
    obtain ⟨fact, fact', left, right, targets, known, known'⟩ := mayAlias_definite verdict
    have here := covered first address held
    have there := covered second other also
    rw [left] at here
    rw [right] at there
    obtain ⟨ref, inside, kind, rfl, named⟩ := here.object known
    obtain ⟨ref', inside', kind', rfl, named'⟩ := there.object known'
    have names : declRefName ref = declRefName ref' := named.symm.trans (targets.trans named')
    rw [single ref inside ref' inside' kind kind' names]

/-! ### An address that comes back from a call and one behind a cast -/

/-- The function is `int x; int *p = id(&x); int *q = &x; int *r = (int *)&x;`. -/
def hiddenFunction : AstNode := { nodeId := "f", nodeKind := .functionDecl, childrenIds := ["b"] }

def hiddenCall : AstNode :=
  { nodeId := "c", nodeKind := .callExpr, parentId := "p", childrenIds := ["ca"],
    semanticProperties := [("callee", "id")] }

def hiddenAddress : AstNode :=
  { nodeId := "a", nodeKind := .unaryOperator, parentId := "q", childrenIds := ["ax"],
    semanticProperties := [("opcode", "&")] }

def hiddenCast : AstNode :=
  { nodeId := "k", nodeKind := .other "CStyleCastExpr", parentId := "r", childrenIds := ["ra"] }

def hiddenInner : AstNode :=
  { nodeId := "ra", nodeKind := .unaryOperator, parentId := "k", childrenIds := ["rx"],
    semanticProperties := [("opcode", "&")] }

def hiddenP : AstNode :=
  { nodeId := "p", nodeKind := .varDecl, parentId := "b", childrenIds := ["c"], sourceRange := { lineStart := 2 },
    semanticProperties := [("name", "p")], isPointer := true }

def hiddenQ : AstNode :=
  { nodeId := "q", nodeKind := .varDecl, parentId := "b", childrenIds := ["a"], sourceRange := { lineStart := 3 },
    semanticProperties := [("name", "q")], isPointer := true }

def hiddenR : AstNode :=
  { nodeId := "r", nodeKind := .varDecl, parentId := "b", childrenIds := ["k"], sourceRange := { lineStart := 4 },
    semanticProperties := [("name", "r")], isPointer := true }

def xRef (nodeId parentId : String) : AstNode :=
  { nodeId := nodeId, nodeKind := .declRefExpr, parentId := parentId, semanticProperties := [("name", "x")] }

def hiddenGraph : AstGraph where
  nodes :=
    [hiddenFunction,
      { nodeId := "b", nodeKind := .compoundStmt, parentId := "f", childrenIds := ["x", "p", "q", "r"] },
      { nodeId := "x", nodeKind := .varDecl, parentId := "b", semanticProperties := [("name", "x")] },
      hiddenP, hiddenCall,
      { nodeId := "ca", nodeKind := .unaryOperator, parentId := "c", childrenIds := ["cx"],
        semanticProperties := [("opcode", "&")] },
      xRef "cx" "ca", hiddenQ, hiddenAddress, xRef "ax" "a", hiddenR, hiddenCast, hiddenInner, xRef "rx" "ra"]

/-- A name denotes the only declaration of it. -/
def byName : Resolution := ⟨declRefName, id, fun _ => rfl⟩

theorem hiddenGraph_wellFormed : hiddenGraph.WellFormed := by
  apply AstGraph.WellFormed.of_order <;> decide

section Runs

variable (pointers : Pointers)

theorem hidden_call (value : Option Address) :
    Assigned hiddenFunction hiddenGraph byName pointers hiddenCall value (Function.update pointers "p" value) :=
  .intro (show hiddenP ∈ relevant hiddenFunction hiddenGraph by decide)
    ⟨by decide, .inl ⟨rfl, rfl, rfl, by decide⟩⟩ (.call rfl)

theorem hidden_address : Assigned hiddenFunction hiddenGraph byName pointers hiddenAddress (some (.object "x"))
    (Function.update pointers "q" (some (.object "x"))) :=
  .intro (show hiddenQ ∈ relevant hiddenFunction hiddenGraph by decide)
    ⟨by decide, .inl ⟨rfl, rfl, rfl, by decide⟩⟩
    (.addressOf rfl rfl (show _ = some (xRef "ax" "a") by decide) rfl (by decide))

theorem hidden_cast : Assigned hiddenFunction hiddenGraph byName pointers hiddenCast (some (.object "x"))
    (Function.update pointers "r" (some (.object "x"))) := by
  have inner : Evaluates hiddenGraph byName pointers hiddenInner (some (.object "x")) :=
    .addressOf rfl rfl (show _ = some (xRef "rx" "ra") by decide) rfl (by decide)
  exact .intro (show hiddenR ∈ relevant hiddenFunction hiddenGraph by decide)
    ⟨by decide, .inl ⟨rfl, rfl, rfl, by decide⟩⟩ (.cast (by decide) (by decide) inner)

end Runs

/-- When the call returns null, the run up to the cast hides nothing. -/
theorem hidden_prefix :
    AliasesFound hiddenFunction hiddenGraph byName
        (Function.update (Function.update (fun _ => none) "p" none) "q" (some (.object "x"))) ∧
      DefiniteAliasesEqual hiddenFunction hiddenGraph byName
        (Function.update (Function.update (fun _ => none) "p" none) "q" (some (.object "x"))) := by
  have initial : Initial hiddenFunction hiddenGraph byName fun _ => none := fun _ _ held => nomatch held
  have null : ∀ pointers, ToldStep hiddenFunction hiddenGraph byName pointers (Function.update pointers "p" none) :=
    fun pointers => ⟨_, _, hidden_call pointers none, fun _ held => nomatch held⟩
  have address : ∀ pointers, ToldStep hiddenFunction hiddenGraph byName pointers
      (Function.update pointers "q" (some (.object "x"))) :=
    fun pointers => ⟨_, _, hidden_address pointers,
      fun _ _ => ⟨by decide, by decide, fun kind => absurd kind (by decide)⟩⟩
  have single : OneObjectPerName hiddenFunction hiddenGraph byName := fun _ _ _ _ _ _ same => same
  have sound := verdicts_sound hiddenGraph_wellFormed initial (.tail (.single (null _)) (address _))
  exact ⟨sound.1, sound.2 single⟩

/-- The call returns the address of `x`, and the verdicts miss that three pointers hold it. -/
theorem hidden_missed : hiddenGraph.WellFormed ∧ ∃ pointers,
    Relation.ReflTransGen (PointerStep hiddenFunction hiddenGraph byName) (fun _ => none) pointers ∧
      (∀ name ∈ ["p", "q", "r"], pointers name = some (.object "x")) ∧
        mayAlias (analyze hiddenFunction hiddenGraph) "p" "q" = (false, .definite) ∧
          mayAlias (analyze hiddenFunction hiddenGraph) "r" "q" = (false, .unknown) ∧
            ¬ AliasesFound hiddenFunction hiddenGraph byName pointers := by
  have missed : mayAlias (analyze hiddenFunction hiddenGraph) "p" "q" = (false, .definite) := by decide
  refine ⟨hiddenGraph_wellFormed, _, .tail (.tail (.single ⟨_, _, hidden_call _ (some (.object "x"))⟩)
    ⟨_, _, hidden_address _⟩) ⟨_, _, hidden_cast _⟩, ?_, missed, by decide, fun found => ?_⟩
  · decide
  · have verdict := found "p" "q" (.object "x") rfl rfl
    rw [show byName.nameOf "p" = "p" from rfl, show byName.nameOf "q" = "q" from rfl, missed] at verdict
    exact Bool.false_ne_true verdict

end AliasAnalyzer
end MisraPlatform

namespace MisraPlatform
open DataFlowEngineV2 AliasAnalyzer BaseRulePlugin

namespace Rule19_1

variable {context : RuleContext} {functionNode call dest source : AstNode} {resolution : Resolution}

theorem overlapArguments_eq (copies : CopyCall (graph context) call dest source)
    (names : declRefName dest ≠ declRefName source) :
    overlapArguments (graph context) call = some (declRefName dest, declRefName source) := by
  obtain ⟨rest, children⟩ := copies.arguments
  rw [overlapArguments, if_pos ⟨copies.kind, copies.callee⟩, children]
  simp [copies.dest, copies.source, names]

/-- A call that the aliases connect is reported. -/
theorem detect_reports (function : functionNode ∈ (graph context).nodesByKind .functionDecl)
    (body : hasBody (graph context) functionNode = true)
    (inside : call ∈ (graph context).descendants functionNode.nodeId)
    (copies : CopyCall (graph context) call dest source) (names : declRefName dest ≠ declRefName source)
    (aliased : (mayAlias (analyze functionNode (graph context)) (declRefName dest) (declRefName source)).1 = true) :
    ∃ result ∈ detect context, result.ruleId = ruleId ∧ result.astNodeId = call.nodeId := by
  let confidence := (mayAlias (analyze functionNode (graph context)) (declRefName dest) (declRefName source)).2
  refine ⟨report context call (declRefName dest) (declRefName source) confidence, ?_, rfl, rfl⟩
  have reported : detectCall context (analyze functionNode (graph context)) call =
      some (report context call (declRefName dest) (declRefName source) confidence) := by
    rw [detectCall, overlapArguments_eq copies names, Option.bind_some]
    exact if_pos aliased
  exact List.mem_flatMap.mpr
    ⟨functionNode, List.mem_filter.mpr ⟨function, body⟩, List.mem_filterMap.mpr ⟨call, inside, reported⟩⟩

/-- In every run without hidden values, a copy between two pointers with different names and one address is
reported. -/
theorem overlap_reported (wellFormed : (graph context).WellFormed)
    (function : functionNode ∈ (graph context).nodesByKind .functionDecl)
    (body : hasBody (graph context) functionNode = true)
    (inside : call ∈ (graph context).descendants functionNode.nodeId)
    (copies : CopyCall (graph context) call dest source) (names : declRefName dest ≠ declRefName source)
    (plain : dest.isArray = false ∧ source.isArray = false) {start pointers : Pointers}
    (initial : Initial functionNode (graph context) resolution start)
    (run : Relation.ReflTransGen (ToldStep functionNode (graph context) resolution) start pointers)
    (overlaps : Overlaps resolution pointers dest source) :
    ∃ result ∈ detect context, result.ruleId = ruleId ∧ result.astNodeId = call.nodeId := by
  obtain ⟨address, left, right⟩ := overlaps
  simp only [argumentAddress, plain.1, plain.2, Bool.false_eq_true, if_false] at left right
  have covered := covered_run wellFormed initial run
  have aliased := (covered _ address left).mayAlias (covered _ address right)
  rw [resolution.named, resolution.named] at aliased
  exact detect_reports function body inside copies names aliased

/-! ### A pointer copied to itself and to its array -/

/-- The function is `int t[4]; int *p = t; int *q = p; memcpy(q, p); memcpy(p, p); memcpy(t, p);`. -/
def copyFunction : AstNode := { nodeId := "f", nodeKind := .functionDecl, childrenIds := ["b"] }

def copyP : AstNode :=
  { nodeId := "p", nodeKind := .varDecl, parentId := "b", childrenIds := ["pt"], sourceRange := { lineStart := 2 },
    semanticProperties := [("name", "p")], isPointer := true }

def copyQ : AstNode :=
  { nodeId := "q", nodeKind := .varDecl, parentId := "b", childrenIds := ["qp"], sourceRange := { lineStart := 3 },
    semanticProperties := [("name", "q")], isPointer := true }

def pointerRef (nodeId parentId name : String) : AstNode :=
  { nodeId := nodeId, nodeKind := .declRefExpr, parentId := parentId, semanticProperties := [("name", name)] }

def arrayRef (nodeId parentId : String) : AstNode :=
  { pointerRef nodeId parentId "t" with isArray := true }

def copyCall (nodeId : String) : AstNode :=
  { nodeId := nodeId, nodeKind := .callExpr, parentId := "b", childrenIds := [nodeId ++ "d", nodeId ++ "s"],
    semanticProperties := [("callee", "memcpy")] }

def copyContext : RuleContext where
  filePath := "copy.c"
  astNodes :=
    [copyFunction,
      { nodeId := "b", nodeKind := .compoundStmt, parentId := "f", childrenIds := ["t", "p", "q", "k", "l", "m"] },
      { nodeId := "t", nodeKind := .varDecl, parentId := "b", semanticProperties := [("name", "t")] },
      copyP, arrayRef "pt" "p", copyQ, pointerRef "qp" "q" "p", copyCall "k", pointerRef "kd" "k" "q",
      pointerRef "ks" "k" "p", copyCall "l", pointerRef "ld" "l" "p", pointerRef "ls" "l" "p", copyCall "m",
      arrayRef "md" "m", pointerRef "ms" "m" "p"]

theorem copyContext_wellFormed : (graph copyContext).WellFormed := by
  apply AstGraph.WellFormed.of_order <;> decide

/-- Both pointers hold the address of the array. -/
def copyPointers : Pointers :=
  Function.update (Function.update (fun _ => none) "p" (some (.object "t"))) "q" (some (.object "t"))

theorem copy_run : Relation.ReflTransGen (ToldStep copyFunction (graph copyContext) byName) (fun _ => none)
    copyPointers := by
  have first : ToldStep copyFunction (graph copyContext) byName (fun _ => none)
      (Function.update (fun _ => none) "p" (some (.object "t"))) :=
    ⟨arrayRef "pt" "p", some (.object "t"),
      .intro (show copyP ∈ relevant copyFunction (graph copyContext) by decide)
        ⟨by decide, .inl ⟨rfl, rfl, rfl, by decide⟩⟩ (.designator rfl (by decide) (.inr rfl)),
      fun _ _ => ⟨by decide, by decide, fun kind => absurd kind (by decide)⟩⟩
  have second : ToldStep copyFunction (graph copyContext) byName
      (Function.update (fun _ => none) "p" (some (.object "t"))) copyPointers :=
    ⟨pointerRef "qp" "q" "p", some (.object "t"),
      .intro (show copyQ ∈ relevant copyFunction (graph copyContext) by decide)
        ⟨by decide, .inl ⟨rfl, rfl, rfl, by decide⟩⟩ (.pointer rfl (by decide) rfl rfl),
      fun _ _ => ⟨by decide, by decide, fun kind => absurd kind (by decide)⟩⟩
  exact .tail (.single first) second

theorem copyCall_copies {nodeId : String} {dest source : AstNode}
    (children : (graph copyContext).children nodeId = [dest, source])
    (left : dest.nodeKind = .declRefExpr ∧ declRefName dest ≠ "")
    (right : source.nodeKind = .declRefExpr ∧ declRefName source ≠ "") :
    CopyCall (graph copyContext) (copyCall nodeId) dest source where
  kind := rfl
  callee := show "memcpy" ∈ OVERLAP_SENSITIVE_CALLEES by decide
  arguments := ⟨[], children⟩
  dest := left
  source := right

theorem copy_reported : ∃ result ∈ detect copyContext, result.ruleId = ruleId ∧ result.astNodeId = "k" := by
  have copies : CopyCall (graph copyContext) (copyCall "k") (pointerRef "kd" "k" "q") (pointerRef "ks" "k" "p") :=
    copyCall_copies (by decide) (by decide) (by decide)
  have function : copyFunction ∈ (graph copyContext).nodesByKind .functionDecl := by decide
  have inside : copyCall "k" ∈ (graph copyContext).descendants copyFunction.nodeId := by decide
  have initial : Initial copyFunction (graph copyContext) byName fun _ => none := fun _ _ held => nomatch held
  exact overlap_reported copyContext_wellFormed function (by decide) inside copies (by decide) ⟨rfl, rfl⟩ initial
    copy_run ⟨.object "t", rfl, rfl⟩

/-- Neither the copy to the pointer itself nor the one to its array is reported. -/
theorem copy_missed : Overlaps byName copyPointers (pointerRef "ld" "l" "p") (pointerRef "ls" "l" "p") ∧
    Overlaps byName copyPointers (arrayRef "md" "m") (pointerRef "ms" "m" "p") ∧
      CopyCall (graph copyContext) (copyCall "l") (pointerRef "ld" "l" "p") (pointerRef "ls" "l" "p") ∧
        CopyCall (graph copyContext) (copyCall "m") (arrayRef "md" "m") (pointerRef "ms" "m" "p") ∧
          (detect copyContext).map RuleResult.astNodeId = ["k"] := by
  refine ⟨⟨.object "t", rfl, rfl⟩, ⟨.object "t", rfl, rfl⟩, ?_, ?_, by decide⟩
  · exact copyCall_copies (by decide) (by decide) (by decide)
  · exact copyCall_copies (by decide) (by decide) (by decide)

end Rule19_1
end MisraPlatform

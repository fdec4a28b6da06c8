import MisraPlatform.Construction.RuleEngine

/-
This file proves which parts of a finding its fingerprint tells apart.
-/

namespace MisraPlatform.Fingerprint

/-- These are the parts of a finding that its fingerprint is made from. -/
structure Identity where
  ruleId : String
  filePath : String
  astNodeId : String
  astNodePath : List String
  offendingExpression : String
  macroChain : List String
  deriving DecidableEq

def identity (result : RuleResult) : Identity where
  ruleId := result.ruleId
  filePath := result.filePath
  astNodeId := result.astNodeId
  astNodePath := result.astNodePath
  offendingExpression := result.offendingExpression
  macroChain := result.macroExpansionChain

/-- The sorted payload as a function of the identity. -/
def Identity.payload (identity : Identity) : Json :=
  .object [("ast_node_path", texts identity.astNodePath), ("file_path", .string identity.filePath),
    ("offending_expression", .string identity.offendingExpression), ("rule_id", .string identity.ruleId),
    ("semantic_context", .object [("ast_node_id", .string identity.astNodeId),
      ("ast_node_path", texts identity.astNodePath), ("macro_chain", texts identity.macroChain),
      ("offending_expression", .string identity.offendingExpression)])]

theorem sortKeys_texts (items : List String) : Json.sortKeys (texts items) = texts items := by
  have each : ∀ items : List String, Json.sortItems (items.map .string) = items.map .string := by
    intro items
    induction items with
    | nil => rfl
    | cons item rest ih => rw [List.map_cons, Json.sortItems, Json.sortKeys, ih]
  rw [texts, Json.sortKeys, each]

theorem sortKeys_payload (result : RuleResult) :
    Json.sortKeys (payload result) = (identity result).payload := by
  simp [payload, buildSemanticContext, Json.sortKeys, Json.sortEntries, sortKeys_texts, List.orderedInsert,
    Identity.payload, identity]

theorem texts_injective : Function.Injective texts := by
  intro first second same
  rw [texts, texts, Json.array.injEq] at same
  exact List.map_injective_iff.mpr (fun _ _ equal => Json.string.inj equal) same

theorem Identity.payload_injective : Function.Injective Identity.payload := by
  intro first second same
  simp only [Identity.payload, Json.object.injEq, List.cons.injEq, Prod.mk.injEq, Json.string.injEq,
    texts_injective.eq_iff, true_and, and_true] at same
  obtain ⟨path, file, expression, rule, node, _, chain, _⟩ := same
  cases first
  cases second
  simp_all

/-- The encoding keeps the identity and nothing else. -/
theorem encoded_eq_iff (first second : RuleResult) :
    encoded first = encoded second ↔ identity first = identity second := by
  rw [encoded, encoded, sortKeys_payload, sortKeys_payload, String.ofList_inj, Json.dumps_injective.eq_iff,
    Identity.payload_injective.eq_iff]

theorem generateFingerprint_eq_iff {sha256 : String → String} (injective : Function.Injective sha256)
    (first second : RuleResult) :
    generateFingerprint sha256 first = generateFingerprint sha256 second ↔ identity first = identity second := by
  rw [generateFingerprint, generateFingerprint, injective.eq_iff, encoded_eq_iff]

/-- The digests of the listed texts are given, and any other text keeps itself behind a letter that no digest has. -/
def tableDigest (table : List (String × String)) (text : String) : String :=
  (table.lookup text).getD ("x" ++ text)

theorem tableDigest_injective {table : List (String × String)} (distinct : (table.map Prod.snd).Nodup)
    (hexadecimal : ∀ entry ∈ table, entry.2.toList.head? ≠ some 'x') :
    Function.Injective (tableDigest table) := by
  have listed : ∀ {text digest : String}, table.lookup text = some digest → (text, digest) ∈ table := by
    intro text digest found
    obtain ⟨before, after, same, _⟩ := List.lookup_eq_some_iff.mp found
    rw [same]
    simp
  have foreign : ∀ {text other digest : String}, table.lookup text = some digest → digest ≠ "x" ++ other := by
    intro text other digest found same
    exact hexadecimal _ (listed found) (by simp [same])
  intro first second same
  rw [tableDigest, tableDigest] at same
  cases firstFound : table.lookup first with
  | none =>
      cases secondFound : table.lookup second with
      | none => simpa [firstFound, secondFound] using same
      | some digest =>
          rw [firstFound, secondFound] at same
          exact absurd same.symm (foreign secondFound)
  | some digest =>
      cases secondFound : table.lookup second with
      | none =>
          rw [firstFound, secondFound] at same
          exact absurd same (foreign firstFound)
      | some other =>
          rw [firstFound, secondFound, Option.getD_some, Option.getD_some] at same
          have entries := List.inj_on_of_nodup_map distinct (listed firstFound) (listed secondFound) same
          exact congrArg Prod.fst entries

end MisraPlatform.Fingerprint

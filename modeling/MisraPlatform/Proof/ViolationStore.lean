import Mathlib.Data.List.Nodup
import MisraPlatform.Semantics.Edits

/-
This file proves which row of the store an upsert saves a violation in.
-/

namespace MisraPlatform
namespace ViolationRepository

theorem Continues.refl (row : ViolationRecord) : Continues row row := ⟨rfl, rfl, rfl, rfl, rfl, rfl, rfl⟩

theorem Continues.trans {first second third : ViolationRecord} (later : Continues third second)
    (earlier : Continues second first) : Continues third first where
  id := later.id.trans earlier.id
  projectId := later.projectId.trans earlier.projectId
  fingerprint := later.fingerprint.trans earlier.fingerprint
  status := later.status.trans earlier.status
  assignedReviewerId := later.assignedReviewerId.trans earlier.assignedReviewerId
  assignedReviewerName := later.assignedReviewerName.trans earlier.assignedReviewerName
  firstSeenAt := later.firstSeenAt.trans earlier.firstSeenAt

theorem seenAgain_continues (call : Upsert) (payload : ViolationPayload) (record : ViolationRecord) :
    Continues (seenAgain call payload record) record := ⟨rfl, rfl, rfl, rfl, rfl, rfl, rfl⟩

theorem lt_freshId {store : List ViolationRecord} {record : ViolationRecord} (inside : record ∈ store) :
    record.id < freshId store := by
  induction store with
  | nil => cases inside
  | cons first rest ih =>
      rw [freshId, List.map_cons, List.foldr_cons]
      rw [freshId] at ih
      cases List.mem_cons.mp inside with
      | inl same =>
          rw [same]
          omega
      | inr later =>
          have bound := ih later
          omega

/-- What one upsert does to a store: the saved row has the key of the violation, and every row goes on. -/
structure Saves (call : Upsert) (payload : ViolationPayload) (store : List ViolationRecord)
    (saved : ViolationRecord) (after : List ViolationRecord) : Prop where
  keyed : Keyed after
  member : saved ∈ after
  projectId : saved.projectId = call.projectId
  fingerprint : saved.fingerprint = payload.fingerprint
  continued : ∀ row ∈ store, ∃ kept ∈ after, Continues kept row

theorem mem_matching {call : Upsert} {payload : ViolationPayload} {store : List ViolationRecord}
    {record : ViolationRecord} : record ∈ matching call payload store ↔
      record ∈ store ∧ record.projectId = call.projectId ∧ record.fingerprint = payload.fingerprint := by
  simp [matching]

/-- In a keyed store at most one row matches. -/
theorem matching_unique {call : Upsert} {payload : ViolationPayload} {store : List ViolationRecord}
    (keyed : Keyed store) {first second : ViolationRecord} {rest : List ViolationRecord}
    (found : matching call payload store = first :: second :: rest) : False := by
  have here := mem_matching.mp (found ▸ List.mem_cons_self : first ∈ matching call payload store)
  have there := mem_matching.mp
    (found ▸ List.mem_cons_of_mem _ List.mem_cons_self : second ∈ matching call payload store)
  have same : first = second := List.inj_on_of_nodup_map keyed.keys here.1 there.1
    (Prod.ext (here.2.1.trans there.2.1.symm) (here.2.2.trans there.2.2.symm))
  have once : (matching call payload store).Nodup := (List.Nodup.of_map _ keyed.ids).filter _
  rw [found, same] at once
  simp at once

theorem upsertViolation_saves (call : Upsert) (payload : ViolationPayload) {store : List ViolationRecord}
    (keyed : Keyed store) : ∃ saved after,
      upsertViolation call payload store = .ok (saved, after) ∧ Saves call payload store saved after := by
  cases found : matching call payload store with
  | nil =>
      refine ⟨newRecord call payload store, store ++ [newRecord call payload store],
        by rw [upsertViolation, found], ?_⟩
      constructor
      · constructor
        · rw [List.map_append, List.nodup_append]
          refine ⟨keyed.ids, List.nodup_singleton _, ?_⟩
          intro number known other fresh same
          obtain ⟨record, inside, rfl⟩ := List.mem_map.mp known
          have less := lt_freshId inside
          rw [List.map_singleton, List.mem_singleton] at fresh
          rw [same, fresh] at less
          exact lt_irrefl _ less
        · rw [List.map_append, List.nodup_append]
          refine ⟨keyed.keys, List.nodup_singleton _, ?_⟩
          intro key known other fresh same
          obtain ⟨record, inside, rfl⟩ := List.mem_map.mp known
          rw [List.map_singleton, List.mem_singleton] at fresh
          obtain ⟨sameProject, sameFingerprint⟩ := Prod.mk.inj (same.trans fresh)
          have listed := mem_matching.mpr ⟨inside, sameProject, sameFingerprint⟩
          rw [found] at listed
          cases listed
      · exact List.mem_append_right _ (List.mem_singleton_self _)
      · rfl
      · rfl
      · intro row inside
        exact ⟨row, List.mem_append_left _ inside, Continues.refl row⟩
  | cons record rest =>
      cases rest with
      | cons second rest => exact (matching_unique keyed found).elim
      | nil =>
          obtain ⟨inside, sameProject, sameFingerprint⟩ := mem_matching.mp
            (found ▸ List.mem_cons_self : record ∈ matching call payload store)
          have continued : ∀ other, Continues
              (if other.id = record.id ∧ other ∈ store then seenAgain call payload record else other) other := by
            intro other
            split
            · rename_i same
              rw [List.inj_on_of_nodup_map keyed.ids same.2 inside same.1]
              exact seenAgain_continues call payload record
            · exact Continues.refl other
          have rewritten : (store.map fun other =>
              if other.id = record.id then seenAgain call payload record else other) =
              store.map fun other =>
                if other.id = record.id ∧ other ∈ store then seenAgain call payload record else other := by
            apply List.map_congr_left
            intro other listed
            simp [listed]
          refine ⟨seenAgain call payload record, _, by rw [upsertViolation, found], ?_⟩
          rw [rewritten]
          constructor
          · constructor
            · rw [List.map_map]
              have same : (ViolationRecord.id ∘ fun other =>
                  if other.id = record.id ∧ other ∈ store then seenAgain call payload record else other) =
                  ViolationRecord.id := funext fun other => (continued other).id
              rw [same]
              exact keyed.ids
            · rw [List.map_map]
              have same : ((fun record => (record.projectId, record.fingerprint)) ∘ fun other =>
                  if other.id = record.id ∧ other ∈ store then seenAgain call payload record else other) =
                  fun record => (record.projectId, record.fingerprint) :=
                funext fun other => Prod.ext (continued other).projectId (continued other).fingerprint
              rw [same]
              exact keyed.keys
          · exact List.mem_map.mpr ⟨record, inside, if_pos ⟨rfl, inside⟩⟩
          · exact sameProject
          · exact sameFingerprint
          · intro row listed
            exact ⟨_, List.mem_map_of_mem listed, continued row⟩

/-- The saved row is a given row of the project when the fingerprints are the same. -/
theorem Saves.row_iff {call : Upsert} {payload : ViolationPayload} {store after : List ViolationRecord}
    {saved row : ViolationRecord} (saves : Saves call payload store saved after) (listed : row ∈ store)
    (project : row.projectId = call.projectId) :
    (saved.id = row.id ↔ payload.fingerprint = row.fingerprint) ∧
      (saved.id = row.id → Continues saved row) := by
  obtain ⟨kept, inside, continued⟩ := saves.continued row listed
  have whole : saved.id = row.id → saved = kept := fun same =>
    List.inj_on_of_nodup_map saves.keyed.ids saves.member inside (same.trans continued.id.symm)
  constructor
  · constructor
    · intro same
      rw [← saves.fingerprint, whole same, continued.fingerprint]
    · intro same
      have joined : saved = kept := List.inj_on_of_nodup_map saves.keyed.keys saves.member inside
        (Prod.ext (saves.projectId.trans (project.symm.trans continued.projectId.symm))
          (saves.fingerprint.trans (same.trans continued.fingerprint.symm)))
      rw [joined, continued.id]
  · intro same
    rw [whole same]
    exact continued

/-- Every violation of a list is saved in the row of its fingerprint. -/
theorem upsertViolations_saves (call : Upsert) (payloads : List ViolationPayload)
    {store : List ViolationRecord} (keyed : Keyed store) : ∃ saved after,
      upsertViolations call payloads store = .ok (saved, after) ∧ Keyed after ∧
      ∀ (index : Nat) (payload : ViolationPayload), payloads[index]? = some payload →
        ∃ record, saved[index]? = some record ∧ ∀ row ∈ store, row.projectId = call.projectId →
          (record.id = row.id ↔ payload.fingerprint = row.fingerprint) ∧
            (record.id = row.id → Continues record row) := by
  induction payloads generalizing store with
  | nil => exact ⟨[], store, rfl, keyed, by simp⟩
  | cons first rest ih =>
      obtain ⟨record, between, stored, saves⟩ := upsertViolation_saves call first keyed
      obtain ⟨saved, after, answered, keyedAfter, others⟩ := ih saves.keyed
      refine ⟨record :: saved, after, by rw [upsertViolations, stored]; simp [bind, Except.bind, answered]; rfl,
        keyedAfter, ?_⟩
      intro index payload chosen
      cases index with
      | zero =>
          cases chosen
          exact ⟨record, rfl, fun row listed project => saves.row_iff listed project⟩
      | succ index =>
          obtain ⟨found, position, rows⟩ := others index payload chosen
          refine ⟨found, position, ?_⟩
          intro row listed project
          obtain ⟨kept, inside, continued⟩ := saves.continued row listed
          have later := rows kept inside (continued.projectId.trans project)
          rw [continued.id, continued.fingerprint] at later
          exact ⟨later.1, fun same => (later.2 same).trans continued⟩

end ViolationRepository
end MisraPlatform

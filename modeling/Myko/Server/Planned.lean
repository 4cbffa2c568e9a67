import Myko.Server.Commit

/-!
What is known of a mutation once it has been planned: its edges validate, and no two of them take one
unique pair.
-/

namespace Myko
open StateError

variable {ctx : MykoServerContext} {s : ServerState} {pending : PendingMutation} {cascades : List Item}

/-- Edges of the type that a mutation writes have to validate. -/
def ChecksEdges (ctx : MykoServerContext) (s : ServerState) (pending : PendingMutation)
    (edgeType : String) : Prop :=
  (s.view ctx).effectiveApplyMode edgeType pending.mode = .authoritative

/-- An edge that is written has been validated, but for the pairs of edges the mutation deletes. -/
theorem validated_of_plan (plan : planPending ctx s pending = .ok (some cascades)) {item : Item}
    (member : ⟨.set, item⟩ ∈ changesOf s pending) {registration : EdgeRegistration}
    (registered : ctx.schema.registration item.entityType = some registration)
    (checked : ChecksEdges ctx s pending registration.edgeType) :
    ∃ endpoints ignored, (s.view ctx).Validated registration item ignored endpoints ∧
      ∀ id ∈ ignored, ∃ gone, ⟨.del, gone⟩ ∈ changesOf s pending ∧
        gone.entityType = item.entityType ∧ gone.id = id := by
  have told : coordinatedOf ctx pending = true :=
    told_of_registered member (by rw [registered]; rfl)
  rcases mem_changesOf member with ⟨items, kind, listed⟩ | ⟨upserts, deletes, expected, kind, listed⟩
  · obtain ⟨planned, own⟩ := planItem_of_plan kind plan listed
    rw [told] at own
    obtain ⟨endpoints, validated⟩ :=
      GraphView.preflightIgnoring_ok registered checked (planItem_ok own).2
    exact ⟨endpoints, [], validated, fun id none => absurd none (by simp)⟩
  · have upsert : item ∈ upserts := by
      rcases listed with ⟨isDel, -⟩ | ⟨-, listed⟩
      · cases isDel
      · exact listed
    unfold planPending at plan
    rw [kind, told] at plan
    dsimp only at plan
    split at plan
    · rename_i none
      cases upserts with
      | nil => simp at upsert
      | cons first rest => simp at none
    · cases plan
    · split at plan
      · cases plan
      · obtain ⟨_, plan, -⟩ := except_map_ok plan
        have each_item := (GraphView.preflightReplaceBatch_ok (planReplace_ok plan).1).2
        obtain ⟨endpoints, validated⟩ :=
          GraphView.preflightIgnoring_ok registered checked (each_item item upsert)
        refine ⟨endpoints, _, validated, fun id ignored => ?_⟩
        obtain ⟨gone, deleted, rfl⟩ := List.mem_map.mp ignored
        obtain ⟨effective, sameType⟩ := List.mem_filter.mp deleted
        refine ⟨gone, ?_, by simpa using sameType, rfl⟩
        unfold changesOf
        rw [kind]
        exact List.mem_append_left _ (List.mem_map_of_mem effective)

/-- Two writes that take one unique pair are of one edge. -/
theorem reserved_of_plan (plan : planPending ctx s pending = .ok (some cascades))
    {registration : EdgeRegistration} (unique : registration.pairPolicy = .unique)
    (registered : registration ∈ ctx.schema.registrations)
    (checked : ChecksEdges ctx s pending registration.edgeType) {item other : Item}
    (member : ⟨.set, item⟩ ∈ changesOf s pending) (member' : ⟨.set, other⟩ ∈ changesOf s pending)
    (sameType : item.entityType = registration.edgeType)
    (sameType' : other.entityType = registration.edgeType) {edge edge' : IndexedEdge}
    (indexed : registration.indexedEdge item = .ok edge)
    (indexed' : registration.indexedEdge other = .ok edge')
    (same : registration.pairKey edge.endpoints edge.scope =
      registration.pairKey edge'.endpoints edge'.scope) : item.id = other.id := by
  have found := GraphSchema.registration_of_mem registered
  have told : coordinatedOf ctx pending = true :=
    told_of_registered member (by rw [sameType, found]; rfl)
  have apart : ∀ {items : List Item}, item ∈ items → other ∈ items →
      (s.view ctx).preflightBatch items pending.mode = .ok () → item.id = other.id := by
    intro items listed listed' batch
    exact (GraphView.reserve_ok batch unique found checked _).2 item listed other listed'
      ⟨sameType, edge, indexed, rfl⟩ ⟨sameType', edge', indexed', same.symm⟩
  rcases mem_changesOf member with ⟨items, kind, listed⟩ | ⟨upserts, deletes, expected, kind, listed⟩ <;>
    rcases mem_changesOf member' with ⟨items', kind', listed'⟩ |
      ⟨upserts', deletes', expected', kind', listed'⟩ <;> rw [kind] at kind' <;> cases kind'
  · unfold planPending at plan
    rw [kind, told] at plan
    match items, listed, listed' with
    | [only], listed, listed' =>
      exact congrArg Item.id ((List.mem_singleton.mp listed).trans (List.mem_singleton.mp listed').symm)
    | first :: second :: rest, listed, listed' =>
      obtain ⟨_, plan, -⟩ := except_map_ok plan
      exact apart listed listed' ((planGrouped_ok plan).1 rfl rfl)
  · have upsert : item ∈ upserts ∧ other ∈ upserts := by
      rcases listed with ⟨isDel, -⟩ | ⟨-, listed⟩
      · cases isDel
      · rcases listed' with ⟨isDel, -⟩ | ⟨-, listed'⟩
        · cases isDel
        · exact ⟨listed, listed'⟩
    unfold planPending at plan
    rw [kind, told] at plan
    dsimp only at plan
    split at plan
    · rename_i none
      cases upserts with
      | nil => simp at upsert
      | cons first rest => simp at none
    · cases plan
    · split at plan
      · cases plan
      · obtain ⟨_, plan, -⟩ := except_map_ok plan
        exact apart upsert.1 upsert.2 (GraphView.preflightReplaceBatch_ok (planReplace_ok plan).1).1

end Myko

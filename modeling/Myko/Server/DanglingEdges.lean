import Myko.Graph.CoveredPlan
import Myko.Server.PairUniqueness
import Myko.Server.RestrictDelete

/-!
Dangling edges. Where both ends of an edge type cascade or restrict, an edge that loses an endpoint has its own
deletion queued until it is reduced, as long as every deletion of an endpoint is planned and no write or repetition
gets round the plan.
-/

namespace Myko
open StateError

variable {ctx : MykoServerContext}

/-- Neither endpoint of an edge of the type may go without the edge. -/
def EdgeRegistration.Bound (registration : EdgeRegistration) : Prop :=
  ∀ position, registration.deletePolicy position ≠ .retainDangling

def StoreRegistry.Absent (registry : StoreRegistry) (entity : EntityRef) : Prop :=
  registry.getValue entity.entityType entity.id = none

/-- A stored edge of which an endpoint is not stored. -/
def EdgeRegistration.Dangling (registration : EdgeRegistration) (registry : StoreRegistry) (id : String) : Prop :=
  ∃ edge position, registration.storedEdges registry id = some edge ∧
    registry.Absent (edge.endpoints.at position).entity

/-- The mutation deletes the entity. -/
def PendingMutation.Deletes (pending : PendingMutation) (s : ServerState) (entity : EntityRef) : Prop :=
  ∃ item, ⟨.del, item⟩ ∈ changesOf s pending ∧ entityOf item = entity

/-- The mutation deletes an endpoint of the stored edge. -/
def PendingMutation.Bereaves (pending : PendingMutation) (s : ServerState) (registration : EdgeRegistration)
    (edge : Item) : Prop :=
  s.registry.getValue registration.edgeType edge.id = some edge ∧ ∃ indexed position,
    registration.indexedEdge edge = .ok indexed ∧ pending.Deletes s (indexed.endpoints.at position).entity

/-- The mutation is a deletion of the entity, among others. -/
def PendingMutation.Asks (pending : PendingMutation) (entity : EntityRef) : Prop :=
  ∃ items, pending.kind = .uniform items .del ∧ ∃ item ∈ items, entityOf item = entity

/-- A deletion of the entity is queued. -/
def CausalState.Awaits (c : CausalState) (entity : EntityRef) : Prop := ∃ pending ∈ c.queue, pending.Asks entity

/-- A mutation that leaves no edge behind. It writes no edge onto an entity that it deletes, unless the edge stored
under that id had such an endpoint before; and of an edge that it takes an endpoint from and does not delete itself,
the root has not seen the deletion before, or still has one queued. -/
structure LeavesNoEdge (ctx : MykoServerContext) (s : ServerState) (pending : PendingMutation) : Prop where
  written : ∀ {registration item indexed position}, registration ∈ ctx.schema.registrations →
    registration.Bound → ⟨.set, item⟩ ∈ changesOf s pending → registration.indexedEdge item = .ok indexed →
      pending.Deletes s (indexed.endpoints.at position).entity →
        ∃ before, before.id = item.id ∧ pending.Bereaves s registration before
  asked : ∀ {registration edge c}, registration ∈ ctx.schema.registrations → registration.Bound →
    pending.Bereaves s registration edge → ¬pending.Deletes s ⟨registration.edgeType, edge.id⟩ →
      s.causal = some c → transitionKey ctx .del edge ∈ c.seen → c.Awaits ⟨registration.edgeType, edge.id⟩

/-- The stored edges of bound types can be read, and their endpoints are of types that are accepted. -/
def EdgesReadable (schema : GraphSchema) (registry : StoreRegistry) : Prop :=
  ∀ registration ∈ schema.registrations, registration.Bound → ∀ id item,
    registry.getValue registration.edgeType id = some item →
      ∃ edge, registration.indexedEdge item = .ok edge ∧
        ∀ position, schema.requirementAccepts (registration.endpoint position)
          (edge.endpoints.at position).entity.entityType = true

variable {s t u : ServerState} {pending : PendingMutation} {cascades : List Item}

/-! ### What a plan names -/

/-- Every entity a mutation deletes has been planned for. -/
theorem planned_of_deletes (plan : planPending ctx s pending = .ok (some cascades))
    (told : coordinatedOf ctx pending = true) {entity : EntityRef} (deletes : pending.Deletes s entity) :
    ∃ planned ⊆ cascades, (s.view ctx).endpointDeletePlan entity = .ok planned := by
  obtain ⟨item, member, rfl⟩ := deletes
  rcases mem_changesOf member with ⟨items, kind, listed⟩ | ⟨upserts, deletes, expected, kind, listed⟩
  · unfold planPending at plan
    rw [kind, told] at plan
    match items, listed with
    | [only], listed =>
      obtain rfl := List.mem_singleton.mp listed
      obtain ⟨planned, plan, same⟩ := except_map_ok plan
      cases same
      exact ⟨_, List.Subset.refl _, (planItem_ok plan).1⟩
    | first :: second :: rest, listed =>
      obtain ⟨_, plan, same⟩ := except_map_ok plan
      cases same
      obtain ⟨planned, within, plan⟩ := (planGrouped_ok plan).2 item listed
      exact ⟨planned, within, (planItem_ok plan).1⟩
  · have deleted : item ∈ effectiveDeletes s deletes := by
      rcases listed with ⟨-, listed⟩ | ⟨isSet, -⟩
      · exact listed
      · cases isSet
    unfold planPending at plan
    rw [kind, told] at plan
    dsimp only at plan
    split at plan
    · rename_i none
      have among := (List.mem_filter.mp deleted).1
      cases deletes with
      | nil => simp at among
      | cons first rest => cases upserts <;> simp at none
    · cases plan
    · split at plan
      · cases plan
      · obtain ⟨_, plan, same⟩ := except_map_ok plan
        cases same
        exact (planReplace_ok plan).2 item deleted

/-- Deleting an endpoint of a bound edge concerns the graph. -/
theorem coordinates_of_bound {schema : GraphSchema} {registration : EdgeRegistration}
    (registered : registration ∈ schema.registrations) (bound : registration.Bound) (position : EndPosition)
    {item : Item}
    (accepts : schema.requirementAccepts (registration.endpoint position) item.entityType = true) :
    schema.coordinates item .del = true := by
  have either : position ∈ [EndPosition.a, .b] := by cases position <;> simp
  unfold GraphSchema.coordinates
  rw [Bool.or_eq_true]
  refine .inr ?_
  rw [Bool.and_eq_true]
  refine ⟨decide_eq_true rfl, List.any_eq_true.mpr ⟨registration, registered, ?_⟩⟩
  refine List.any_eq_true.mpr ⟨position, either, ?_⟩
  rw [Bool.and_eq_true]
  exact ⟨decide_eq_true (bound position), accepts⟩

theorem told_of_deletes {entity : EntityRef} (deletes : pending.Deletes s entity)
    (coordinates : ∀ item, entityOf item = entity → ctx.schema.coordinates item .del = true) :
    coordinatedOf ctx pending = true := by
  obtain ⟨item, member, same⟩ := deletes
  unfold coordinatedOf
  rcases mem_changesOf member with ⟨items, kind, listed⟩ | ⟨upserts, deletes, expected, kind, listed⟩
  · rw [kind]
    exact List.any_eq_true.mpr ⟨item, listed, coordinates item same⟩
  · rw [kind]
    rcases listed with ⟨-, listed⟩ | ⟨isSet, -⟩
    · unfold replaceCoordinated
      rw [Bool.or_eq_true]
      exact .inl (List.any_eq_true.mpr ⟨item, (List.mem_filter.mp listed).1, coordinates item same⟩)
    · cases isSet

/-- Taking an endpoint from a bound edge concerns the graph. -/
theorem told_of_bereaved (readable : EdgesReadable ctx.schema s.registry) {registration : EdgeRegistration}
    (registered : registration ∈ ctx.schema.registrations) (bound : registration.Bound) {edge : Item}
    (bereaved : pending.Bereaves s registration edge) : coordinatedOf ctx pending = true := by
  obtain ⟨stored, indexed, position, read, deletes⟩ := bereaved
  obtain ⟨same, read', accepts⟩ := readable registration registered bound edge.id edge stored
  cases read.symm.trans read'
  refine told_of_deletes deletes fun item here => coordinates_of_bound registered bound position ?_
  have typed : item.entityType = (indexed.endpoints.at position).entity.entityType :=
    congrArg EntityRef.entityType here
  rw [typed]
  exact accepts position

/-- The plan names every bound edge that the mutation takes an endpoint from. -/
theorem planned_of_bereaved (covering : s.graph.Covering ctx.schema s.registry)
    (readable : EdgesReadable ctx.schema s.registry) (plan : planPending ctx s pending = .ok (some cascades))
    {registration : EdgeRegistration} (registered : registration ∈ ctx.schema.registrations)
    (bound : registration.Bound) {edge : Item} (bereaved : pending.Bereaves s registration edge) :
    edge ∈ cascades := by
  have told := told_of_bereaved readable registered bound bereaved
  obtain ⟨stored, indexed, position, read, deletes⟩ := bereaved
  obtain ⟨planned, within, plan⟩ := planned_of_deletes plan told deletes
  have covering : (s.view ctx).state.Covering (s.view ctx).schema (s.view ctx).registry := covering
  obtain ⟨free, names⟩ := endpointDeletePlan_covers covering plan
  have touches : (s.view ctx).Touches registration position (indexed.endpoints.at position).entity edge.id :=
    ⟨indexed, EdgeRegistration.storedEdges_eq_some.mpr ⟨edge, stored, read⟩, rfl⟩
  cases policy : registration.deletePolicy position with
  | retainDangling => exact absurd policy (bound position)
  | restrictEndpointDelete => exact absurd ⟨registration, registered, position, edge.id, policy, touches⟩ free
  | cascadeEdge => exact within (names ⟨registration, registered, rfl, position, policy, touches⟩ stored)

/-! ### What is stored once the mutation is written -/

theorem PendingMutation.Asks.deletes {entity : EntityRef} (asks : pending.Asks entity) : pending.Deletes s entity := by
  obtain ⟨items, kind, item, listed, same⟩ := asks
  refine ⟨item, ?_, same⟩
  unfold changesOf
  rw [kind]
  exact List.mem_map_of_mem ((groupByType_perm items).mem_iff.mpr listed)

/-- What a planned mutation puts it does not delete. -/
theorem not_deletes_of_put (plan : planPending ctx s pending = .ok (some cascades)) {item : Item}
    (put : ⟨.set, item⟩ ∈ changesOf s pending) : ¬pending.Deletes s (entityOf item) := by
  rintro ⟨gone, deleted, same⟩
  rcases mem_changesOf put with ⟨items, kind, -⟩ | ⟨upserts, deletes, expected, kind, listed⟩ <;>
    rcases mem_changesOf deleted with ⟨items', kind', -⟩ | ⟨upserts', deletes', expected', kind', listed'⟩ <;>
    rw [kind] at kind' <;> cases kind'
  have upsert : item ∈ upserts := by
    rcases listed with ⟨isDel, -⟩ | ⟨-, upsert⟩
    · cases isDel
    · exact upsert
  have deletion : gone ∈ deletes := by
    rcases listed' with ⟨-, deletion⟩ | ⟨isSet, -⟩
    · exact (List.mem_filter.mp deletion).1
    · cases isSet
  have nodup := replace_nodup kind plan
  rw [List.map_append, List.nodup_append] at nodup
  refine nodup.2.2 _ (List.mem_map_of_mem deletion) _ (List.mem_map_of_mem upsert) ?_
  exact Prod.ext (congrArg EntityRef.entityType same) (congrArg EntityRef.id same)

theorem absent_cases {entity : EntityRef} (absent : (s.registry.writeAll (changesOf s pending)).Absent entity) :
    s.registry.Absent entity ∨ pending.Deletes s entity := by
  unfold StoreRegistry.Absent at absent ⊢
  rcases StoreRegistry.getValue_writeAll_cases s.registry (changesOf s pending) entity.entityType entity.id with
    ⟨⟨kind, item⟩, member, key, value⟩ | ⟨-, value⟩
  · cases kind with
    | set =>
      rw [value] at absent
      cases absent
    | del => exact .inr ⟨item, member, congrArg (fun key => (⟨key.1, key.2⟩ : EntityRef)) key⟩
  · exact .inl (value.symm.trans absent)

/-- An edge left without an endpoint was so before, or loses it to the mutation; it is not deleted itself. -/
theorem dangling_cases (guarded : Guarded ctx s) (mode : pending.mode = .authoritative)
    (plan : planPending ctx s pending = .ok (some cascades)) (leaves : LeavesNoEdge ctx s pending)
    {registration : EdgeRegistration} (registered : registration ∈ ctx.schema.registrations)
    (bound : registration.Bound) {id : String}
    (dangling : registration.Dangling (s.registry.writeAll (changesOf s pending)) id) :
    ¬pending.Deletes s ⟨registration.edgeType, id⟩ ∧
      (registration.Dangling s.registry id ∨
        ∃ edge, edge.id = id ∧ pending.Bereaves s registration edge) := by
  obtain ⟨edge, position, stored, absent⟩ := dangling
  rcases storedEdges_writeAll stored with ⟨item, put, typed, rfl, indexed⟩ | ⟨kept, untouched⟩
  · have own : entityOf item = ⟨registration.edgeType, item.id⟩ := by
      unfold entityOf
      rw [typed]
    refine ⟨own ▸ not_deletes_of_put plan put, .inr ?_⟩
    have found : ctx.schema.registration item.entityType = some registration := by
      rw [typed]
      exact GraphSchema.registration_of_mem registered
    obtain ⟨endpoints, ignored, validated, -⟩ := validated_of_plan plan put found (guarded.checks mode _)
    obtain rfl : edge.endpoints = endpoints :=
      Except.ok.inj ((EdgeRegistration.read_of_indexed indexed).1.symm.trans validated.extracts)
    rcases absent_cases absent with before | deletes
    · have present : (s.registry.getValue _ _).isSome = true := validated.present position
      rw [before] at present
      cases present
    · exact leaves.written registered bound put indexed deletes
  · constructor
    · rintro ⟨gone, deleted, same⟩
      exact untouched _ deleted (Prod.ext (congrArg EntityRef.entityType same) (congrArg EntityRef.id same))
    · rcases absent_cases absent with before | deletes
      · exact .inl ⟨edge, position, kept, before⟩
      · obtain ⟨item, value, indexed⟩ := EdgeRegistration.storedEdges_eq_some.mp kept
        obtain ⟨-, rfl⟩ := StoreRegistry.getValue_keyed value
        exact .inr ⟨item, rfl, value, edge, position, indexed, deletes⟩

theorem edgesReadable_commit (readable : EdgesReadable ctx.schema s.registry) (guarded : Guarded ctx s)
    (mode : pending.mode = .authoritative) (plan : planPending ctx s pending = .ok (some cascades))
    (committed : Committed ctx s pending t) : EdgesReadable ctx.schema t.registry := by
  intro registration registered bound id item value
  rw [committed.registry] at value
  rcases StoreRegistry.getValue_writeAll_cases s.registry (changesOf s pending) registration.edgeType id with
    ⟨⟨kind, other⟩, member, key, written⟩ | ⟨-, kept⟩
  · rw [written] at value
    cases kind with
    | del => cases value
    | set =>
      obtain rfl : other = item := Option.some.inj value
      have found : ctx.schema.registration other.entityType = some registration := by
        have typed : other.entityType = registration.edgeType := congrArg Prod.fst key
        rw [typed]
        exact GraphSchema.registration_of_mem registered
      obtain ⟨edge, indexed⟩ := (committed.extracts _ member registration found).2 other rfl
      obtain ⟨endpoints, ignored, validated, -⟩ := validated_of_plan plan member found (guarded.checks mode _)
      obtain rfl : edge.endpoints = endpoints :=
        Except.ok.inj ((EdgeRegistration.read_of_indexed indexed).1.symm.trans validated.extracts)
      exact ⟨edge, indexed, validated.accepts⟩
  · exact readable registration registered bound id item (kept.symm.trans value)

/-! ### What the effects of a mutation queue -/

/-- A transaction in the effects of a mutation that began with `c₀`: what was queued still is, and every deletion seen
since is queued. -/
structure Queueing (c₀ c : CausalState) : Prop where
  grown : c₀.queue <+: c.queue
  seen : ∀ transition ∈ c.seen, transition.operation = 2 →
    transition ∈ c₀.seen ∨ c.Awaits ⟨transition.entityType, transition.id⟩

theorem CausalState.Awaits.mono {c c' : CausalState} {entity : EntityRef} (awaits : c.Awaits entity)
    (grown : c.queue <+: c'.queue) : c'.Awaits entity := by
  obtain ⟨pending, queued, asks⟩ := awaits
  exact ⟨pending, grown.subset queued, asks⟩

theorem Queueing.submitted {c₀ c c' : CausalState} (queueing : Queueing c₀ c) {limits : CausalLimits}
    {items : List Item} {change : MEventType} {origin : Origin} {mode : EdgeApplyMode}
    (submitted : Submitted ctx limits items change origin mode c c') : Queueing c₀ c' := by
  have grown : c.queue <+: c'.queue := by
    rw [submitted.queue]
    exact List.prefix_append _ _
  refine ⟨queueing.grown.trans grown, fun transition member deletion => ?_⟩
  rw [submitted.seen] at member
  rcases mem_seenAfter.mp member with before | ⟨item, passed, rfl⟩
  · exact (queueing.seen transition before deletion).imp_right fun awaits => awaits.mono grown
  · right
    cases change with
    | set => cases deletion
    | del =>
      refine ⟨uniformPending ctx c items .del origin mode, ?_, _, rfl, item, passed, rfl⟩
      rw [submitted.queue, if_neg (List.ne_nil_of_mem passed)]
      exact List.mem_append_right _ (List.mem_singleton_self _)

/-- Of the deletions a plan asks for, each was seen before or is queued. -/
theorem queueing_of_effects {c : CausalState} (causal : s.causal = some c) {before : ServerState}
    (run : effectsPending ctx (submitDerived ctx) pending before cascades s = .ok () t) :
    ∃ c', t.causal = some c' ∧ Queueing c c' ∧ (pending.items ≠ [] →
      ∀ edge ∈ cascades, transitionKey ctx .del edge ∈ c.seen ∨ c'.Awaits (entityOf edge)) := by
  have submits : ∀ {items change origin} {u v : ServerState}, submitDerived ctx items change origin u = .ok () v →
      (∃ c', u.causal = some c' ∧ Queueing c c') → ∃ c', v.causal = some c' ∧ Queueing c c' := by
    rintro items change origin u v run ⟨c', causal, queueing⟩
    rcases submitDerived_ok run with ⟨none, -⟩ | ⟨c₁, c₂, causal', rfl, submitted⟩
    · rw [none] at causal
      cases causal
    obtain rfl : c' = c₁ := Option.some.inj (causal.symm.trans causal')
    exact ⟨c₂, rfl, queueing.submitted submitted⟩
  have start : Queueing c c := ⟨List.prefix_refl _, fun _ member _ => .inl member⟩
  obtain ⟨c', causal', queueing⟩ : ∃ c', t.causal = some c' ∧ Queueing c c' := by
    refine effects_keep (fun aside held => ?_) (fun _ => submits) run ⟨c, causal, start⟩
    obtain ⟨c', causal, queueing⟩ := held
    exact ⟨c', aside.causal.trans causal, queueing⟩
  refine ⟨c', causal', queueing, fun named edge planned => ?_⟩
  -- the cascade comes last, so the root has seen it in the end
  unfold effectsPending at run
  rw [if_neg (by simpa using named)] at run
  obtain ⟨_, u, -, cascade⟩ := bind_ok run
  have seen : transitionKey ctx .del edge ∈ c'.seen := by
    rcases submitDerived_ok cascade with ⟨none, rfl⟩ | ⟨c₁, c₂, -, rfl, submitted⟩
    · rw [none] at causal'
      cases causal'
    obtain rfl : c₂ = c' := Option.some.inj causal'
    rw [submitted.seen]
    exact key_mem_seenAfter planned
  exact queueing.seen _ seen rfl

/-! ### Runs -/

/-- Edges can be read, and each that is left without an endpoint waits for its deletion. -/
structure Tended (ctx : MykoServerContext) (s : ServerState) : Prop where
  readable : EdgesReadable ctx.schema s.registry
  due : ∀ registration ∈ ctx.schema.registrations, registration.Bound → ∀ id,
    registration.Dangling s.registry id → ∃ c, s.causal = some c ∧ c.Awaits ⟨registration.edgeType, id⟩

theorem Tended.none_dangling (tended : Tended ctx s) (outside : s.causal = none) {registration : EdgeRegistration}
    (registered : registration ∈ ctx.schema.registrations) (bound : registration.Bound) (id : String) :
    ¬registration.Dangling s.registry id := by
  intro dangling
  obtain ⟨c, causal, -⟩ := tended.due registration registered bound id dangling
  rw [outside] at causal
  cases causal

/-- The mutation whose turn it is takes endpoints only from edges whose deletion it queues. -/
theorem tended_inside {c : CausalState} (causal : s.causal = some c) (guarded : Guarded ctx s)
    (readable : EdgesReadable ctx.schema s.registry) (mode : pending.mode = .authoritative)
    (leaves : LeavesNoEdge ctx s pending)
    (due : ∀ registration ∈ ctx.schema.registrations, registration.Bound → ∀ id,
      registration.Dangling s.registry id →
        pending.Asks ⟨registration.edgeType, id⟩ ∨ c.Awaits ⟨registration.edgeType, id⟩)
    {applied : Bool} (run : reducePending ctx (submitDerived ctx) pending s = .ok applied t) : Tended ctx t := by
  rcases reducePending_ok run with ⟨commit, idle⟩ | ⟨cascades, u, commit, effects, -⟩
  · obtain ⟨-, same⟩ := commitPending_ok commit
    obtain rfl : t = s := same
    refine ⟨readable, fun registration registered bound id dangling => ⟨c, causal, ?_⟩⟩
    rcases due registration registered bound id dangling with asks | awaits
    · obtain ⟨items, kind, -⟩ := asks
      have unconditional : ¬Conditional pending := by
        rintro ⟨_, _, _, kind'⟩
        rw [kind] at kind'
        cases kind'
      have applies := applied_of_unconditional unconditional run
      rw [idle] at applies
      cases applies
    · exact awaits
  · obtain ⟨plan, committed⟩ := commitPending_ok commit
    have same := sameCore_after_commit ctx pending s
    rw [final_of_ok commit, final_of_ok run] at same
    obtain ⟨c', causal', queueing, asked⟩ := queueing_of_effects (committed.causal.trans causal) effects
    constructor
    · rw [same.registry]
      exact edgesReadable_commit readable guarded mode plan committed
    · intro registration registered bound id dangling
      rw [same.registry, committed.registry] at dangling
      refine ⟨c', causal', ?_⟩
      obtain ⟨stays, before | ⟨edge, rfl, bereaved⟩⟩ :=
        dangling_cases guarded mode plan leaves registered bound dangling
      · rcases due registration registered bound id before with asks | awaits
        · exact absurd asks.deletes stays
        · exact awaits.mono queueing.grown
      · have planned := planned_of_bereaved guarded.covering readable plan registered bound bereaved
        have own : entityOf edge = ⟨registration.edgeType, edge.id⟩ := by
          unfold entityOf
          rw [(StoreRegistry.getValue_keyed bereaved.1).1]
        have named : pending.items ≠ [] := by
          obtain ⟨-, _, _, -, gone, deleted, -⟩ := bereaved
          exact List.ne_nil_of_mem (mem_items_of_change deleted)
        rcases asked named edge planned with seen | awaits
        · exact (leaves.asked registered bound bereaved stays causal seen).mono queueing.grown
        · rwa [own] at awaits

/-- A mutation reduced on its own takes no endpoint, as it would concern the graph. -/
theorem tended_outside (outside : s.causal = none) (guarded : Guarded ctx s) (tended : Tended ctx s)
    (mode : pending.mode = .authoritative) (leaves : LeavesNoEdge ctx s pending)
    (untold : ∀ entity, pending.Deletes s entity → coordinatedOf ctx pending = false)
    {applied : Bool} (run : reducePending ctx (submitDerived ctx) pending s = .ok applied t) : Tended ctx t := by
  rcases reduced_ok run with ⟨-, rfl⟩ | ⟨cascades, u, plan, committed, same⟩
  · exact tended
  · constructor
    · rw [same.registry]
      exact edgesReadable_commit tended.readable guarded mode plan committed
    · intro registration registered bound id dangling
      rw [same.registry, committed.registry] at dangling
      obtain ⟨-, before | ⟨edge, -, bereaved⟩⟩ := dangling_cases guarded mode plan leaves registered bound dangling
      · exact absurd before (tended.none_dangling outside registered bound id)
      · have told := told_of_bereaved tended.readable registered bound bereaved
        obtain ⟨-, _, _, -, deletes⟩ := bereaved
        rw [untold _ deletes] at told
        cases told

/-- A call that is authoritative and returns Ok, that leaves no edge behind in any mutation it reduces, and that
deletes no endpoint of another edge by id. -/
structure KeepsEnds (ctx : MykoServerContext) (s : ServerState) (call : Call) : Prop where
  ok : AuthoritativeOk ctx s call
  leaves : Allowed (LeavesNoEdge ctx) (call.reductions ctx s)
  byId : ∀ {entityType gone}, call = .delById entityType gone → ∀ {registration},
    registration ∈ ctx.schema.registrations → registration.Bound → ∀ {id edge position},
      registration.storedEdges s.registry id = some edge →
        (edge.endpoints.at position).entity = ⟨entityType, gone⟩ →
          registration.edgeType = entityType ∧ id = gone

/-- A deletion that is submitted may cascade. -/
def Enters (ctx : MykoServerContext) (submission : Submission) : Prop :=
  (submission.pending ctx).mode = .authoritative ∧
    ∀ items origin mode, submission = .uniform items .del origin mode → origin.shouldCascade = true

theorem enters_submissions {call : Call} (authoritative : call.Authoritative) (s : ServerState) :
    Entries ctx (fun _ submission => Enters ctx submission) (call.submissions ctx s) (call.start s) := by
  have single : ∀ {submission : Submission}, Enters ctx submission →
      ∀ s, Entries ctx (fun _ submission => Enters ctx submission) [submission] s :=
    fun enters _ => ⟨enters, fun _ _ => trivial⟩
  have put : ∀ items origin, Enters ctx (.uniform items .set origin .authoritative) := fun items origin =>
    ⟨pending_mode _ _ _ _, fun _ _ _ same => by cases same⟩
  have gone : ∀ items, Enters ctx (.uniform items .del .localOrigin .authoritative) := fun items =>
    ⟨pending_mode _ _ _ _, fun _ _ _ same => by cases same; rfl⟩
  cases call with
  | set item => exact single (put _ _) _
  | setDyn item => exact single (put _ _) _
  | setTransient item => exact single (put _ _) _
  | del item => exact single (gone _) _
  | batchSet items =>
    cases items with
    | nil => trivial
    | cons first rest => exact single (put _ _) _
  | batchDel items =>
    cases items with
    | nil => trivial
    | cons first rest => exact single (gone _) _
  | replaceBatchAny upserts deletes => exact single ⟨rfl, fun _ _ _ same => by cases same⟩ _
  | applyEventBatch events => exact authoritative.elim
  | flushBufferedEventsForType entityType => exact authoritative.elim
  | _ => trivial

theorem tended_calls (ctx : MykoServerContext) : CallInvariant ctx (KeepsEnds ctx)
    (fun _ submission => Enters ctx submission)
    (fun s pending => LeavesNoEdge ctx s pending ∧ Reduces ctx s pending) Drained
    (fun s => Guarded ctx s ∧ Tended ctx s)
    fun s => (Guarded ctx s ∧ Underway (fun mode => mode.getD .authoritative = .authoritative)
      (fun _ pending => pending.mode = .authoritative) (fun pending => pending.mode = .authoritative) s) ∧
        Tended ctx s where
  enter := by
    intro s t items change origin mode holds outside rooted enters queued
    refine ⟨(guarded_commits ctx).callInvariant.enter holds.1 outside rooted enters.1 queued, ?_⟩
    obtain ⟨c, rfl, -⟩ := enqueueCausal_ok rfl queued
    exact ⟨holds.2.readable, fun registration registered bound id dangling =>
      absurd dangling (holds.2.none_dangling outside registered bound id)⟩
  replace := by
    intro s t upserts deletes holds outside enters queued
    refine ⟨(guarded_commits ctx).callInvariant.replace holds.1 outside enters.1 queued, ?_⟩
    obtain ⟨c, rfl, -, -, -⟩ := enqueueCausalReplace_ok rfl queued
    exact ⟨holds.2.readable, fun registration registered bound id dangling =>
      absurd dangling (holds.2.none_dangling outside registered bound id)⟩
  reduce := by
    rintro s c pending queue ⟨held, tended⟩ causal queued ⟨leaves, reduces⟩
    refine ⟨(guarded_commits ctx).callInvariant.reduce held causal queued ⟨trivial, reduces⟩, ?_⟩
    obtain ⟨guarded, c', causal', -, head, -⟩ := held
    obtain rfl : c' = c := Option.some.inj (causal'.symm.trans causal)
    have mode : pending.mode = .authoritative := head pending (by rw [queued]; rfl)
    have popped : SameCore s { s with causal := some (c'.pop pending queue) } := ⟨rfl, rfl, rfl, rfl⟩
    obtain ⟨applied, t, run⟩ := reduces
    rw [final_of_ok run]
    refine tended_inside rfl ((guarded_commits ctx).core popped guarded) tended.readable mode leaves
      (fun registration registered bound id dangling => ?_) run
    obtain ⟨c, causal', other, member, asks⟩ := tended.due registration registered bound id dangling
    obtain rfl : c' = c := Option.some.inj (causal.symm.trans causal')
    rw [queued] at member
    rcases List.mem_cons.mp member with rfl | later
    · exact .inl asks
    · exact .inr ⟨other, later, asks⟩
  direct := by
    rintro s items change origin mode ⟨guarded, tended⟩ outside direct enters ⟨leaves, reduces⟩
    refine ⟨(guarded_commits ctx).callInvariant.direct guarded outside direct enters.1 ⟨trivial, reduces⟩, ?_⟩
    have authoritative := enters.1
    rw [Submission.pending, if_neg (by simp [direct])] at authoritative
    obtain ⟨applied, t, run⟩ := reduces
    rw [final_of_ok run]
    refine tended_outside outside guarded tended authoritative leaves (fun entity deletes => ?_) run
    -- a deletion cascades, so without a root none of its items concerns the graph
    obtain ⟨gone, deleted, -⟩ := deletes
    obtain ⟨items', kind, listed⟩ | ⟨_, _, _, kind, -⟩ := mem_changesOf deleted
    · cases kind
      have cascading := enters.2 items origin mode rfl
      unfold needsCausalRoot at direct
      rw [cascading, Bool.true_and] at direct
      refine List.any_eq_false.mpr fun item member told => ?_
      exact List.any_eq_false.mp direct item member (by rw [told, Bool.or_true])
    · cases kind
  close := by
    rintro s ⟨⟨guarded, -⟩, tended⟩ ⟨c, causal, drained⟩
    refine ⟨(guarded_commits ctx).core (s := s) ⟨rfl, rfl, rfl, rfl⟩ guarded, tended.readable, ?_⟩
    intro registration registered bound id dangling
    obtain ⟨c', causal', other, member, -⟩ := tended.due registration registered bound id dangling
    obtain rfl : c' = c := Option.some.inj (causal'.symm.trans causal)
    rw [drained] at member
    cases member
  entries keeps := enters_submissions keeps.ok.1 _
  buffers {s _} holds :=
    ⟨(guarded_commits ctx).core (s := s) ⟨rfl, rfl, rfl, rfl⟩ holds.1, holds.2.readable, holds.2.due⟩
  other {s call} holds outside other keeps := by
    refine ⟨(guarded_commits ctx).other holds.1 other keeps.ok, ?_⟩
    have closed : (final (call.run ctx) s).causal = none := other_causal other outside
    rcases final_other ctx other s with ⟨entityType, gone, _, _, rfl, same⟩ |
      ⟨edgeType, mode, applyModes, rfl, same, modes⟩ | ⟨_, same⟩ | ⟨_, same⟩
    · rw [same]
      constructor
      · intro registration registered bound id item value
        dsimp only at value
        rw [StoreRegistry.getValue_remove] at value
        split at value
        · cases value
        · exact holds.2.readable registration registered bound id item value
      · rintro registration registered bound id ⟨edge, position, stored, absent⟩
        exfalso
        have before := storedEdges_remove stored
        unfold StoreRegistry.Absent at absent
        dsimp only at stored absent
        rw [StoreRegistry.getValue_remove] at absent
        split at absent
        · rename_i named
          have own := keeps.byId rfl registered bound before
            (show (edge.endpoints.at position).entity = ⟨entityType, gone⟩ by
              rw [← named.1, ← named.2])
          unfold EdgeRegistration.storedEdges at stored
          rw [StoreRegistry.getValue_remove, if_pos own] at stored
          cases stored
        · exact holds.2.none_dangling outside registered bound id ⟨edge, position, before, absent⟩
    · rw [same]
      exact ⟨holds.2.readable, holds.2.due⟩
    · rw [same]
      exact ⟨holds.2.readable, holds.2.due⟩
    · rw [same]
      exact ⟨holds.2.readable, holds.2.due⟩

theorem tended_initial (ctx : MykoServerContext) : Tended ctx .initial where
  readable _ _ _ _ _ absent := by cases absent
  due registration _ _ id dangling := by
    obtain ⟨edge, position, stored, -⟩ := dangling
    simp [ServerState.initial, EdgeRegistration.storedEdges, EdgeRegistration.edgeOf] at stored

/-- In every run of such calls, every stored edge of a type whose ends cascade or restrict has both endpoints stored. -/
theorem endpoints_present (run : Run ctx (KeepsEnds ctx) s) {registration : EdgeRegistration}
    (registered : registration ∈ ctx.schema.registrations) (bound : registration.Bound) {id : String} {item : Item}
    (stored : s.registry.getValue registration.edgeType id = some item) :
    ∃ edge, registration.indexedEdge item = .ok edge ∧ ∀ position,
      (s.registry.getValue (edge.endpoints.at position).entity.entityType
        (edge.endpoints.at position).entity.id).isSome = true := by
  obtain ⟨⟨-, tended⟩, outside⟩ := run_keeps_ok (tended_calls ctx) ⟨guarded_initial ctx, tended_initial ctx⟩
    (fun _ _ keeps => keeps.leaves) (fun _ _ keeps submits => keeps.ok.2.succeeds submits) run
  obtain ⟨edge, indexed, -⟩ := tended.readable registration registered bound id item stored
  refine ⟨edge, indexed, fun position => ?_⟩
  cases present : s.registry.getValue (edge.endpoints.at position).entity.entityType
      (edge.endpoints.at position).entity.id with
  | some entity => rfl
  | none =>
    have known : registration.storedEdges s.registry id = some edge :=
      EdgeRegistration.storedEdges_eq_some.mpr ⟨item, stored, indexed⟩
    exact absurd ⟨edge, position, known, present⟩ (tended.none_dangling outside registered bound id)

namespace Sample

theorem links_bound : links.Bound := by
  intro position
  cases position with
  | a => decide
  | b => decide

/-- A link from one node to another, and one from that node to itself. -/
def linkAndLoop : ServerState := final (batchSet server [link "e" "x" "y", link "f" "y" "y"]) nodes

theorem links_at_nodes {item : Item} {edge : IndexedEdge} (read : links.indexedEdge item = .ok edge)
    (position : EndPosition) : (edge.endpoints.at position).entity.entityType = "node" := by
  have typed : ∀ {name : String} {value : EndpointValue}, endpoint item name = .ok value →
      value.entity.entityType = "node" := by
    intro name value h
    unfold endpoint at h
    split at h
    · cases h
      rfl
    · cases h
  have extracted : linkEndpoints item = .ok edge.endpoints := (EdgeRegistration.read_of_indexed read).1
  unfold linkEndpoints at extracted
  split at extracted
  · obtain ⟨a, first, extracted⟩ := except_bind_ok extracted
    obtain ⟨b, second, extracted⟩ := except_bind_ok extracted
    rw [← Except.ok.inj extracted]
    cases position with
    | a => exact typed first
    | b => exact typed second
  · cases extracted

/-- Puts, and deletions: of nodes only as long as none of a link has been seen. -/
def careful (reductions : List Reduction) : Bool :=
  reductions.all fun reduction =>
    match reduction.2.kind, reduction.1.causal with
    | .uniform _ .set, _ => true
    | .uniform items .del, some c =>
      items.all (·.entityType ≠ "node") || c.seen.all (·.entityType ≠ "link")
    | _, _ => false

theorem leavesNoEdge_of_put {items : List Item} (kind : pending.kind = .uniform items .set) :
    LeavesNoEdge server s pending := by
  have none : ∀ entity, ¬pending.Deletes s entity := by
    rintro entity ⟨item, deleted, -⟩
    rcases mem_changesOf deleted with ⟨_, kind', -⟩ | ⟨_, _, _, kind', -⟩
    · rw [kind] at kind'
      cases kind'
    · rw [kind] at kind'
      cases kind'
  exact ⟨fun _ _ _ _ deletes => absurd deletes (none _), fun _ _ bereaved => by
    obtain ⟨-, _, _, -, deletes⟩ := bereaved
    exact absurd deletes (none _)⟩

theorem leavesNoEdge_of_del {items : List Item} {c : CausalState} (kind : pending.kind = .uniform items .del)
    (causal : s.causal = some c)
    (clear : (∀ item ∈ items, item.entityType ≠ "node") ∨
      ∀ transition ∈ c.seen, transition.entityType ≠ "link") : LeavesNoEdge server s pending where
  written _ _ put _ _ := by
    rcases mem_changesOf put with ⟨_, kind', -⟩ | ⟨_, _, _, kind', -⟩
    · rw [kind] at kind'
      cases kind'
    · rw [kind] at kind'
      cases kind'
  asked registered _ bereaved _ causal' before := by
    obtain rfl := List.mem_singleton.mp registered
    obtain rfl := Option.some.inj (causal.symm.trans causal')
    obtain ⟨stored, indexed, position, read, gone, deleted, same⟩ := bereaved
    rcases clear with spared | unseen
    · rcases mem_changesOf deleted with ⟨_, kind', listed⟩ | ⟨_, _, _, kind', -⟩
      · rw [kind] at kind'
        cases kind'
        have node : gone.entityType = "node" :=
          (congrArg EntityRef.entityType same).trans (links_at_nodes read position)
        exact absurd node (spared gone listed)
      · rw [kind] at kind'
        cases kind'
    · exact absurd (StoreRegistry.getValue_keyed stored).1 (unseen _ before)

theorem leavesNoEdge_of_careful {reductions : List Reduction} (checked : careful reductions = true) :
    Allowed (LeavesNoEdge server) reductions := by
  rintro ⟨s, pending⟩ member
  have here := List.all_eq_true.mp checked _ member
  dsimp only at here
  split at here
  · rename_i kind
    exact leavesNoEdge_of_put kind
  · rename_i kind causal
    refine leavesNoEdge_of_del kind causal ?_
    rw [Bool.or_eq_true, List.all_eq_true, List.all_eq_true] at here
    exact here.imp (fun all item listed => of_decide_eq_true (all item listed))
      fun all transition seen => of_decide_eq_true (all transition seen)
  · cases here

theorem keepsEnds_of_careful {call : Call} (ok : AuthoritativeOk server s call)
    (checked : careful (call.reductions server s) = true) (submits : call.Submits) : KeepsEnds server s call where
  ok := ok
  leaves := leavesNoEdge_of_careful checked
  byId same := by
    rw [same] at submits
    exact submits.elim

/-- One node is deleted with its link to the other node, which keeps its link to itself. -/
theorem endpoints_present_loop : ∃ edge, links.indexedEdge (link "f" "y" "y") = .ok edge ∧ ∀ position,
    ((final (del server (node "x")) linkAndLoop).registry.getValue (edge.endpoints.at position).entity.entityType
      (edge.endpoints.at position).entity.id).isSome = true := by
  have both : Run server (KeepsEnds server) nodes := .call (.batchSet [node "x", node "y"]) .initial
    (keepsEnds_of_careful ⟨trivial, ok_of_run' (by decide +kernel)⟩ (by decide +kernel) trivial)
  have linked : Run server (KeepsEnds server) linkAndLoop :=
    .call (.batchSet [link "e" "x" "y", link "f" "y" "y"]) both
      (keepsEnds_of_careful ⟨trivial, ok_of_run' (by decide +kernel)⟩ (by decide +kernel) trivial)
  have run : Run server (KeepsEnds server) (final (del server (node "x")) linkAndLoop) :=
    .call (.del (node "x")) linked
      (keepsEnds_of_careful ⟨trivial, ok_of_run' (by decide +kernel)⟩ (by decide +kernel) trivial)
  have stored : (final (del server (node "x")) linkAndLoop).registry.getValue links.edgeType "f" =
      some (link "f" "y" "y") := by decide +kernel
  exact endpoints_present run List.mem_cons_self links_bound stored

/-- The replacement deletes the node that it links to another. -/
theorem link_left_dangling : ∃ s, Run server (AuthoritativeOk server) s ∧ links ∈ server.schema.registrations ∧
    links.Bound ∧ links.Dangling s.registry "f" := by
  have both : Run server (AuthoritativeOk server) nodes :=
    .call (.batchSet [node "x", node "y"]) .initial ⟨trivial, ok_of_run' (by decide +kernel)⟩
  have replaced := Run.call (.replaceBatchAny [link "f" "x" "y"] [node "x"]) both
    ⟨trivial, ok_of_run' (by decide +kernel)⟩
  refine ⟨_, replaced, List.mem_cons_self, links_bound, ⟨"f", xy, none⟩, .a, ?_, ?_⟩
  · decide +kernel
  · unfold StoreRegistry.Absent
    decide +kernel

end Sample

end Myko

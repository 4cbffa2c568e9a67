import Myko.Server.Invariant
import Myko.Server.Planned
import Myko.Server.Sample

/-!
Unique pairs. Edges of a type with the unique policy occupy different pairs, as long as the index
lists every stored edge and no write is exempt from validation.
-/

namespace Myko
open StateError

variable {ctx : MykoServerContext}

/-- No two edges of a unique type have one pair key. -/
def PairsUnique (schema : GraphSchema) (registry : StoreRegistry) : Prop :=
  ∀ registration ∈ schema.registrations, registration.pairPolicy = .unique →
    ∀ {id id' edge edge'}, registration.storedEdges registry id = some edge →
      registration.storedEdges registry id' = some edge' →
      registration.pairKey edge.endpoints edge.scope = registration.pairKey edge'.endpoints edge'.scope →
      id = id'

/-- The index lists a stored edge under its pair. -/
theorem holds_pair {registry : StoreRegistry} {state : GraphState}
    (covering : state.Covering ctx.schema registry) {registration : EdgeRegistration}
    (registered : registration ∈ ctx.schema.registrations) (unique : registration.pairPolicy = .unique)
    {id : String} {edge : IndexedEdge} (stored : registration.storedEdges registry id = some edge) :
    Holds (state.edgeTypes registration.edgeType).pairs
      (registration.pairKey edge.endpoints edge.scope) id := by
  refine (covering registration registered).covers
    (.pair (registration.pairKey edge.endpoints edge.scope)) id ?_
  dsimp only
  rw [stored, IndexedEdge.mem_keySet_some]
  exact ⟨rfl, by simp [projectsKey, EdgeRegistration.projectsPairs, unique]⟩

/-- A mutation whose edges all validate keeps pairs unique. -/
theorem pairsUnique_commit {s : ServerState} {pending : PendingMutation} {cascades : List Item}
    (unique : PairsUnique ctx.schema s.registry) (covering : s.graph.Covering ctx.schema s.registry)
    (checked : ∀ edgeType, ChecksEdges ctx s pending edgeType)
    (plan : planPending ctx s pending = .ok (some cascades)) :
    PairsUnique ctx.schema (s.registry.writeAll (changesOf s pending)) := by
  intro registration registered policy id id' edge edge' stored stored' same
  have found := GraphSchema.registration_of_mem registered
  -- an edge that is written takes a pair that no edge left alone occupies
  have apart : ∀ {item : Item} {edge edge' : IndexedEdge} {id : String},
      ⟨.set, item⟩ ∈ changesOf s pending → item.entityType = registration.edgeType →
      registration.indexedEdge item = .ok edge →
      registration.storedEdges s.registry id = some edge' →
      (∀ change ∈ changesOf s pending, change.key ≠ (registration.edgeType, id)) →
      registration.pairKey edge.endpoints edge.scope =
        registration.pairKey edge'.endpoints edge'.scope → item.id = id := by
    intro item edge edge' id member sameType indexed stored untouched same
    obtain ⟨endpoints, ignored, validated, deleted⟩ :=
      validated_of_plan plan member (sameType ▸ found) (checked _)
    obtain ⟨extracted, inScope⟩ := EdgeRegistration.read_of_indexed indexed
    obtain rfl : edge.endpoints = endpoints := Except.ok.inj (extracted.symm.trans validated.extracts)
    have held := holds_pair covering registered policy stored
    rw [← same] at held
    rcases validated.vacant policy edge.scope inScope id held with here | gone
    · exact here.symm
    · obtain ⟨item', removed, sameType', rfl⟩ := deleted id gone
      exact absurd (by rw [Change.key, sameType', sameType]) (untouched _ removed)
  rcases storedEdges_writeAll stored with ⟨item, member, sameType, rfl, indexed⟩ | ⟨kept, untouched⟩ <;>
    rcases storedEdges_writeAll stored' with
      ⟨item', member', sameType', rfl, indexed'⟩ | ⟨kept', untouched'⟩
  · exact reserved_of_plan plan policy registered (checked _) member member' sameType sameType' indexed
      indexed' same
  · exact apart member sameType indexed kept' untouched' same
  · exact (apart member' sameType' indexed' kept untouched same.symm).symm
  · exact unique registration registered policy kept kept' same

/-- Deleting by id leaves fewer edges, and the index lists those still. -/
theorem storedEdges_remove {registry : StoreRegistry} {entityType gone : String}
    {registration : EdgeRegistration} {id : String} {edge : IndexedEdge}
    (stored : registration.storedEdges (registry.remove entityType gone) id = some edge) :
    registration.storedEdges registry id = some edge := by
  unfold EdgeRegistration.storedEdges at stored ⊢
  rw [StoreRegistry.getValue_remove] at stored
  split at stored
  · simp [EdgeRegistration.edgeOf] at stored
  · exact stored

theorem covering_remove {registry : StoreRegistry} {state : GraphState}
    (covering : state.Covering ctx.schema registry) (entityType gone : String) :
    state.Covering ctx.schema (registry.remove entityType gone) := by
  intro registration registered
  have held := covering registration registered
  refine ⟨held.toSound, fun key id due => held.covers key id ?_⟩
  obtain ⟨edge, stored, listed⟩ := due
  exact ⟨edge, storedEdges_remove stored, listed⟩

/-- The calls that validate the edges they write. Events that arrive from elsewhere are imported as
they are, and validation can be turned off for an edge type. -/
def Call.Authoritative : Call → Prop
  | applyEventBatch _ | flushBufferedEventsForType _ => False
  | setEdgeApplyMode _ mode => mode = .authoritative
  | _ => True

/-- Pairs are unique, the index lists every edge and validation is nowhere turned off. -/
structure Guarded (ctx : MykoServerContext) (s : ServerState) : Prop where
  unique : PairsUnique ctx.schema s.registry
  covering : s.graph.Covering ctx.schema s.registry
  modes : ∀ edgeType mode, s.applyModes edgeType = some mode → mode = .authoritative

theorem Guarded.checks {s : ServerState} (guarded : Guarded ctx s) {pending : PendingMutation}
    (mode : pending.mode = .authoritative) (edgeType : String) : ChecksEdges ctx s pending edgeType := by
  unfold ChecksEdges GraphView.effectiveApplyMode
  rw [mode, if_neg (by simp)]
  cases overridden : (s.view ctx).applyModes edgeType with
  | none => rfl
  | some mode => exact guarded.modes edgeType mode overridden

theorem guarded_initial (ctx : MykoServerContext) : Guarded ctx .initial where
  unique registration _ _ id _ edge _ stored := by
    simp [ServerState.initial, EdgeRegistration.storedEdges, EdgeRegistration.edgeOf] at stored
  covering := (coherent_empty ctx.schema).covering
  modes _ _ absent := by cases absent

/-- Every call of a run is authoritative and returns Ok. -/
def AuthoritativeOk (ctx : MykoServerContext) (s : ServerState) (call : Call) : Prop :=
  call.Authoritative ∧ call.Returns ctx s

theorem authoritative_submissions {call : Call} (authoritative : call.Authoritative)
    (s : ServerState) :
    Entries ctx (fun _ submission => (submission.pending ctx).mode = .authoritative)
      (call.submissions ctx s) (call.start s) := by
  have single : ∀ {submission : Submission}, (submission.pending ctx).mode = .authoritative →
      ∀ s, Entries ctx (fun _ submission => (submission.pending ctx).mode = .authoritative)
        [submission] s := fun mode _ => ⟨mode, fun _ _ => trivial⟩
  cases call with
  | set item => exact single (pending_mode _ _ _ _) _
  | setDyn item => exact single (pending_mode _ _ _ _) _
  | setTransient item => exact single (pending_mode _ _ _ _) _
  | del item => exact single (pending_mode _ _ _ _) _
  | batchSet items =>
    cases items with
    | nil => trivial
    | cons first rest => exact single (pending_mode _ _ _ _) _
  | batchDel items =>
    cases items with
    | nil => trivial
    | cons first rest => exact single (pending_mode _ _ _ _) _
  | replaceBatchAny upserts deletes => exact single rfl _
  | applyEventBatch events => exact authoritative.elim
  | flushBufferedEventsForType entityType => exact authoritative.elim
  | _ => trivial

theorem guarded_commits (ctx : MykoServerContext) :
    CommitInvariant ctx (AuthoritativeOk ctx) (fun mode => mode.getD .authoritative = .authoritative)
      (fun _ pending => pending.mode = .authoritative) (fun pending => pending.mode = .authoritative)
      (Guarded ctx) where
  core same guarded :=
    ⟨same.registry ▸ guarded.unique, by rw [same.registry, same.graph]; exact guarded.covering,
      same.applyModes ▸ guarded.modes⟩
  first _ mode := mode
  mode mode := mode
  anywhere mode := mode
  derived mode _ := mode
  opens := rfl
  entries step := authoritative_submissions step.1 _
  commit guarded mode plan committed :=
    ⟨committed.registry ▸ pairsUnique_commit guarded.unique guarded.covering (guarded.checks mode) plan,
      by rw [committed.registry, committed.graph]; exact covering_reindexChanges guarded.covering _,
      committed.applyModes ▸ guarded.modes⟩
  other {s call} guarded other step := by
    rcases final_other ctx other s with ⟨entityType, id, _, _, -, same⟩ |
      ⟨edgeType, mode, applyModes, rfl, same, modes⟩ | ⟨_, same⟩ | ⟨_, same⟩
    · rw [same]
      refine ⟨fun registration registered policy _ _ _ _ stored stored' => ?_,
        covering_remove guarded.covering _ _, guarded.modes⟩
      exact guarded.unique registration registered policy (storedEdges_remove stored)
        (storedEdges_remove stored')
    · rw [same]
      refine ⟨guarded.unique, guarded.covering, fun other mode' overridden => ?_⟩
      dsimp only at overridden
      rcases modes with rfl | rfl
      · exact guarded.modes other mode' overridden
      · by_cases here : other = edgeType
        · subst here
          rw [Function.update_self] at overridden
          exact (Option.some.inj overridden).symm.trans step.1
        · rw [Function.update_of_ne here] at overridden
          exact guarded.modes other mode' overridden
    · rw [same]
      exact ⟨guarded.unique, guarded.covering, guarded.modes⟩
    · rw [same]
      exact ⟨guarded.unique, guarded.covering, guarded.modes⟩

/-- In every run of authoritative calls that return Ok, no two edges of a unique type have one scope
and one pair of endpoints, which an undirected type may give either way round. -/
theorem unique_pairs {s : ServerState} (run : Run ctx (AuthoritativeOk ctx) s)
    {registration : EdgeRegistration} (registered : registration ∈ ctx.schema.registrations)
    (unique : registration.pairPolicy = .unique) {id id' : String} {edge edge' : IndexedEdge}
    (stored : registration.storedEdges s.registry id = some edge)
    (stored' : registration.storedEdges s.registry id' = some edge') (distinct : id ≠ id') :
    ¬(edge.scope = edge'.scope ∧
      endpointsMatch registration edge.endpoints edge'.endpoints.a edge'.endpoints.b = true) := by
  rintro ⟨scope, pair⟩
  have guarded := (guarded_commits ctx).run (guarded_initial ctx)
    (fun _ _ step submits => step.2.succeeds submits) run
  refine distinct (guarded.unique registration registered unique stored stored' ?_)
  exact (pairKeyFromValues_eq.mpr ⟨scope.symm, pair⟩).symm

namespace Sample

/-- A link that has been turned round, and another one where it was before. -/
def turned : ServerState :=
  final (set server (link "f" "x" "y")) (final (set server (link "e" "y" "x"))
    (final (set server (link "e" "x" "y")) (final (batchSet server [node "x", node "y"]) .initial)))

def xy : EdgeEndpoints := ⟨⟨⟨"node", "x"⟩, none⟩, ⟨⟨"node", "y"⟩, none⟩⟩

def yx : EdgeEndpoints := ⟨xy.b, xy.a⟩

theorem unique_pairs_turned : ¬((none : Option IndexValue) = none ∧
    endpointsMatch links yx xy.a xy.b = true) := by
  have nodes : Run server (AuthoritativeOk server) _ :=
    .call (.batchSet [node "x", node "y"]) .initial ⟨trivial, _, rfl⟩
  have first : Run server (AuthoritativeOk server) _ :=
    .call (.set (link "e" "x" "y")) nodes ⟨trivial, _, rfl⟩
  have again : Run server (AuthoritativeOk server) _ :=
    .call (.set (link "e" "y" "x")) first ⟨trivial, _, rfl⟩
  have run : Run server (AuthoritativeOk server) turned :=
    .call (.set (link "f" "x" "y")) again ⟨trivial, _, rfl⟩
  have e : links.storedEdges turned.registry "e" = some ⟨"e", yx, none⟩ := by decide +kernel
  have f : links.storedEdges turned.registry "f" = some ⟨"f", xy, none⟩ := by decide +kernel
  exact unique_pairs run List.mem_cons_self rfl e f (by decide)

end Sample
end Myko

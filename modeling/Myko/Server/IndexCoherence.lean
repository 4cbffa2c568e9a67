import Myko.Server.Invariant
import Myko.Server.Sample

/-!
The graph index against the stores. Every reduction takes the old value of a write from the stores as
they were before all of its writes, so the index stays that of the stores as long as no key given on
the way is left behind, and no edge goes without the index hearing of it.
-/

namespace Myko
open StateError SecondaryIndex

variable {ctx : MykoServerContext}

/-! ### Batches that leave no key behind -/

theorem settled_of_distinct (schema : GraphSchema) (before : StoreRegistry) {changes : List Change}
    (distinct : (changes.map Change.key).Nodup) : SettledChanges schema before changes := by
  intro registration _
  apply settled_of_nodup
  have ids : (keyChanges schema registration (edgeChanges registration changes)).map Prod.fst =
      (changes.filter fun change => change.item.entityType = registration.edgeType).map
        fun change => change.item.id := by
    simp [keyChanges, edgeChanges, Function.comp_def]
  rw [ids]
  have keys := distinct.sublist (List.Sublist.map Change.key (List.filter_sublist
    (p := fun change : Change => decide (change.item.entityType = registration.edgeType))))
  rw [List.Nodup, List.pairwise_map] at keys ⊢
  refine List.Pairwise.imp_of_mem (fun {first second} member member' different same => ?_) keys
  have sameType := of_decide_eq_true (List.mem_filter.mp member).2
  have sameType' := of_decide_eq_true (List.mem_filter.mp member').2
  exact different (Prod.ext (sameType.trans sameType'.symm) same)

theorem settled_of_deletes (schema : GraphSchema) (before : StoreRegistry) {changes : List Change}
    (deletes : ∀ change ∈ changes, change.kind = .del) : SettledChanges schema before changes := by
  intro registration _ id given member key filed
  obtain ⟨⟨id', edge⟩, listed, same⟩ := List.mem_map.mp (mem_keysOf.mp member)
  obtain ⟨rfl, rfl⟩ := Prod.mk.inj same
  simp only [edgeChanges, List.mem_map, List.mem_filter] at listed
  obtain ⟨change, ⟨written, -⟩, same⟩ := listed
  obtain ⟨rfl, rfl⟩ := Prod.mk.inj same
  simp [Change.value, deletes change written, EdgeRegistration.edgeOf] at filed

/-- The writes of a batch of SETs, taken type by type or as they come, settle alike. -/
theorem settled_grouped {schema : GraphSchema} {before : StoreRegistry} {items : List Item}
    (settled : SettledChanges schema before (items.map (Change.mk .set))) :
    SettledChanges schema before ((groupByType items).flatten.map (Change.mk .set)) := by
  intro registration registered
  have same : edgeChanges registration ((groupByType items).flatten.map (Change.mk .set)) =
      edgeChanges registration (items.map (Change.mk .set)) := by
    have grouped := filter_groupByType items
      (fun item => decide (item.entityType = registration.edgeType))
      (fun item _ here => of_decide_eq_true here)
    simp only [edgeChanges, List.filter_map, List.map_map, Function.comp_def]
    rw [grouped]
  rw [same]
  exact settled registration registered

/-! ### Deleting by id -/

/-- Whether a type keeps any map at all. -/
def KeepsIndex (schema : GraphSchema) (registration : EdgeRegistration) : Prop :=
  schema.projectsAnyEndpoint registration.edgeType = true ∨ registration.projectsPairs = true

theorem keySet_of_unkept {schema : GraphSchema} {registration : EdgeRegistration}
    (unkept : ¬KeepsIndex schema registration) (edge : Option IndexedEdge) :
    IndexedEdge.keySet schema registration edge = ∅ := by
  obtain ⟨ends, pairs⟩ := not_or.mp unkept
  simp only [GraphSchema.projectsAnyEndpoint, Bool.or_eq_true, not_or] at ends
  refine Set.eq_empty_iff_forall_notMem.mpr fun key member => ?_
  obtain ⟨listed, -, -, kept⟩ := member
  cases key with
  | a _ => exact ends.1 kept
  | b _ => exact ends.2 kept
  | aEntity _ => exact ends.1 kept
  | bEntity _ => exact ends.2 kept
  | pair _ => exact pairs kept

/-- Coherence asks the same of stores with the same edges, as far as types keep an index. -/
theorem coherent_of_sameEdges {schema : GraphSchema} {before after : StoreRegistry} {state : GraphState}
    (coherent : state.Coherent schema before)
    (same : ∀ registration ∈ schema.registrations, KeepsIndex schema registration →
      registration.storedEdges after = registration.storedEdges before)
    (extracts : StoredExtract schema after) : state.Coherent schema after := by
  refine ⟨fun registration registered => ?_, extracts, coherent.unregistered⟩
  have indexes := coherent.indexes registration registered
  by_cases kept : KeepsIndex schema registration
  · rw [same registration registered kept]
    exact indexes
  · have unkept : ¬schema.projectsAnyEndpoint registration.edgeType = true := fun ends =>
      kept (.inl ends)
    refine ⟨indexes.toSound, fun id => ?_, fun key id => ?_⟩
    · have empty := indexes.edges id
      rw [if_neg unkept] at empty ⊢
      exact empty
    · have exact_ := indexes.incident key id
      dsimp only at exact_ ⊢
      rw [keySet_of_unkept kept] at exact_ ⊢
      exact exact_

theorem coherent_remove {schema : GraphSchema} {registry : StoreRegistry} {state : GraphState}
    (coherent : state.Coherent schema registry) {entityType id : String}
    (forgets : ∀ registration, schema.registration entityType = some registration →
      KeepsIndex schema registration → registry.getValue entityType id = none) :
    state.Coherent schema (registry.remove entityType id) := by
  refine coherent_of_sameEdges coherent (fun registration registered kept => ?_)
    fun registration registered other => ?_
  · funext other
    unfold EdgeRegistration.storedEdges
    rw [StoreRegistry.getValue_remove]
    split
    · rename_i here
      obtain ⟨rfl, rfl⟩ := here
      rw [forgets registration (GraphSchema.registration_of_mem registered) kept]
    · rfl
  · rw [StoreRegistry.getValue_remove]
    split
    · exact registration.extracts_none
    · exact coherent.extracts registration registered other

/-! ### Runs of calls that return Ok -/

/-- Every endpoint and pair that a batch of SETs gives an edge on the way is one the stored edge had
before or the last item with its id has. -/
def SetsSettle (ctx : MykoServerContext) (s : ServerState) (items : List Item) : Prop :=
  SettledChanges ctx.schema s.registry ((entered ctx items .set .localOrigin).map (Change.mk .set))

/-- A call that leaves no index entry behind: its SETs settle, and it does not delete by id an edge
that is in the index. -/
def LeavesNothing (ctx : MykoServerContext) (s : ServerState) : Call → Prop
  | .batchSet items => SetsSettle ctx s items
  | .applyEventBatch events =>
    SetsSettle ctx s (parsedItems ctx (events.filter fun event => !isBuffered ctx event) .set)
  | .flushBufferedEventsForType entityType =>
    SetsSettle ctx s (parsedItems ctx (s.ingestBuffers entityType) .set)
  | .delById entityType id => ∀ registration, ctx.schema.registration entityType = some registration →
      KeepsIndex ctx.schema registration → s.registry.getValue entityType id = none
  | _ => True

/-- A pending mutation that settles in the state it is reduced in. -/
def Settles (ctx : MykoServerContext) (s : ServerState) (pending : PendingMutation) : Prop :=
  ∀ items, pending.kind = .uniform items .set →
    SettledChanges ctx.schema s.registry ((groupByType items).flatten.map (Change.mk .set))

/-- A pending mutation that settles in any state. -/
def SettlesAnywhere (pending : PendingMutation) : Prop :=
  ∀ items, pending.kind = .uniform items .set →
    (items.map fun item => (item.entityType, item.id)).Nodup

theorem settles_anywhere {pending : PendingMutation} (settles : SettlesAnywhere pending)
    (s : ServerState) : Settles ctx s pending := by
  intro items kind
  apply settled_of_distinct
  rw [List.map_map]
  exact ((groupByType_perm items).map _).nodup_iff.mpr (settles items kind)

theorem settled_of_plan {s : ServerState} {pending : PendingMutation} {cascades : List Item}
    (plan : planPending ctx s pending = .ok (some cascades)) (settles : Settles ctx s pending) :
    SettledChanges ctx.schema s.registry (changesOf s pending) := by
  cases kind : pending.kind with
  | uniform items change =>
    have changes : changesOf s pending = (groupByType items).flatten.map (Change.mk change) := by
      unfold changesOf
      rw [kind]
    rw [changes]
    cases change with
    | set => exact settles items kind
    | del =>
      refine settled_of_deletes _ _ fun change member => ?_
      obtain ⟨item, -, rfl⟩ := List.mem_map.mp member
      rfl
  | replace upserts deletes expected =>
    have distinct := replace_nodup kind plan
    apply settled_of_distinct
    unfold changesOf
    rw [kind]
    have keys : (((effectiveDeletes s deletes).map (Change.mk .del) ++
        upserts.map (Change.mk .set)).map Change.key) =
        (effectiveDeletes s deletes ++ upserts).map fun item => (item.entityType, item.id) := by
      simp [Change.key, Function.comp_def]
    rw [keys]
    exact distinct.sublist ((List.filter_sublist.append_right upserts).map _)

theorem entries_settle {call : Call} {s : ServerState} (leaves : LeavesNothing ctx s call) :
    Entries ctx (fun s submission => Settles ctx s (submission.pending ctx)) (call.submissions ctx s)
      (call.start s) := by
  have sets : ∀ {s' : ServerState} {items : List Item} {mode : EdgeApplyMode},
      SettledChanges ctx.schema s'.registry ((entered ctx items .set .localOrigin).map (Change.mk .set)) →
      Settles ctx s' ((Submission.uniform items .set .localOrigin mode).pending ctx) := by
    intro s' items mode settled own kind
    rw [pending_kind] at kind
    cases kind
    exact settled_grouped settled
  have dels : ∀ (s' : ServerState) (items : List Item) (mode : EdgeApplyMode),
      Settles ctx s' ((Submission.uniform items .del .localOrigin mode).pending ctx) := by
    intro s' items mode own kind
    rw [pending_kind] at kind
    cases kind
  have one : ∀ (s' : ServerState) (item : Item) (origin : Origin) (mode : EdgeApplyMode),
      Settles ctx s' ((Submission.uniform [item] .set origin mode).pending ctx) := by
    intro s' item origin mode
    apply settles_anywhere
    intro own kind
    rw [pending_kind] at kind
    cases kind
    exact (List.nodup_singleton _).sublist ((entered_sublist _ _ _).map _)
  have events : ∀ {s' : ServerState} {events : List MEvent},
      SettledChanges ctx.schema s'.registry
        ((entered ctx (parsedItems ctx events .set) .set .localOrigin).map (Change.mk .set)) →
      Entries ctx (fun s submission => Settles ctx s (submission.pending ctx))
        (Call.immediate ctx events) s' := by
    intro s' events settled
    unfold Call.immediate
    split
    · trivial
    · exact ⟨sets settled, fun t _ => ⟨dels t _ _, fun _ _ => trivial⟩⟩
  cases call with
  | set item => exact ⟨one s item _ _, fun _ _ => trivial⟩
  | setDyn item => exact ⟨one s item _ _, fun _ _ => trivial⟩
  | setTransient item => exact ⟨one s item _ _, fun _ _ => trivial⟩
  | del item => exact ⟨dels s _ _, fun _ _ => trivial⟩
  | batchSet items =>
    cases items with
    | nil => trivial
    | cons first rest => exact ⟨sets leaves, fun _ _ => trivial⟩
  | batchDel items =>
    cases items with
    | nil => trivial
    | cons first rest => exact ⟨dels s _ _, fun _ _ => trivial⟩
  | replaceBatchAny upserts deletes => exact ⟨fun _ kind => (nomatch kind), fun _ _ => trivial⟩
  | applyEventBatch received => exact events leaves
  | flushBufferedEventsForType entityType =>
    have settled : SetsSettle ctx ((Call.flushBufferedEventsForType entityType).start s)
        (parsedItems ctx (s.ingestBuffers entityType) .set) := leaves
    exact events settled
  | _ => trivial

/-- A commit whose writes settle keeps the index that of the stores. -/
theorem coherent_commit {s t : ServerState} {pending : PendingMutation} {cascades : List Item}
    (coherent : s.graph.Coherent ctx.schema s.registry) (settles : Settles ctx s pending)
    (plan : planPending ctx s pending = .ok (some cascades)) (committed : Committed ctx s pending t) :
    t.graph.Coherent ctx.schema t.registry := by
  have ready := ready_of_plan plan
  rw [committed.registry, committed.graph]
  refine (coherent_reindexChanges_iff coherent (fun change member registered => ?_)
    committed.extracts).mpr (settled_of_plan plan settles)
  exact (ready change member).effective ((ready change member).told registered)

/-- The calls of a run return Ok and leave no index entry behind. -/
def TidyOk (ctx : MykoServerContext) (s : ServerState) (call : Call) : Prop :=
  call.Returns ctx s ∧ LeavesNothing ctx s call

theorem coherent_commits (ctx : MykoServerContext) :
    CommitInvariant ctx (TidyOk ctx) (fun _ => True) (Settles ctx) SettlesAnywhere
      (fun s => s.graph.Coherent ctx.schema s.registry) where
  core same coherent := by
    rw [same.registry, same.graph]
    exact coherent
  first same settles items kind := same.registry ▸ settles items kind
  mode _ := trivial
  anywhere settles := settles_anywhere settles _
  derived := by
    rintro c items change origin - derivable own kind
    cases kind
    cases derivable with
    | fixup distinct => exact distinct.sublist ((unseen_sublist _ _ _).map _)
    | ensure item => exact (List.nodup_singleton _).sublist ((unseen_sublist _ _ _).map _)
  opens := trivial
  entries step := entries_settle step.2
  commit := coherent_commit
  other {s call} coherent other step := by
    obtain ⟨-, leaves⟩ := step
    rcases final_other ctx other s with ⟨entityType, id, _, _, rfl, same⟩ | ⟨_, _, _, -, same, -⟩ |
      ⟨_, same⟩ | ⟨_, same⟩
    · rw [same]
      exact coherent_remove coherent leaves
    · rw [same]
      exact coherent
    · rw [same]
      exact coherent
    · rw [same]
      exact coherent

/-- In every run of calls that return Ok and leave no index entry behind, the index is the one rebuilt
from the stores. -/
theorem index_matches_rebuild {s : ServerState} (run : Run ctx (TidyOk ctx) s) :
    s.graph.MatchesRebuild ctx.schema s.registry := by
  rw [matchesRebuild_iff]
  exact (coherent_commits ctx).run (coherent_empty ctx.schema)
    (fun _ _ step submits => step.1.succeeds submits) run

namespace Sample

def x : EndpointValue := ⟨⟨"node", "x"⟩, none⟩

def y : EndpointValue := ⟨⟨"node", "y"⟩, none⟩

def nodes : ServerState := final (batchSet server [node "x", node "y"]) .initial

theorem nodes_tidy : Run server (TidyOk server) nodes := by
  refine .call (.batchSet [node "x", node "y"]) .initial ⟨ok_of_run' (by decide +kernel), ?_⟩
  exact settled_of_distinct _ _ (by decide)

theorem index_matches_rebuild_turned :
    (final (batchSet server [link "e" "y" "x", node "x"])
      (final (set server (link "e" "x" "y")) nodes)).graph.MatchesRebuild schema
    (final (batchSet server [link "e" "y" "x", node "x"])
      (final (set server (link "e" "x" "y")) nodes)).registry := by
  have first : Run server (TidyOk server) (final (set server (link "e" "x" "y")) nodes) :=
    .call (.set (link "e" "x" "y")) nodes_tidy ⟨ok_of_run' (by decide +kernel), trivial⟩
  have second : Run server (TidyOk server) (final (batchSet server [link "e" "y" "x", node "x"])
      (final (set server (link "e" "x" "y")) nodes)) := by
    refine .call (.batchSet [link "e" "y" "x", node "x"]) first ⟨ok_of_run' (by decide +kernel), ?_⟩
    exact settled_of_distinct _ _ (by decide)
  have rebuilt := index_matches_rebuild second
  exact rebuilt

/-- Coherent or not, what the index finds at an end can be held against one stored link. -/
theorem not_matchesRebuild {s : ServerState} (id : String) (endpoint : EndpointValue)
    (differs : ¬(id ∈ (s.view server).edgeIdsAt links .a endpoint ↔
      (links.storedEdges s.registry id).map (fun edge => edge.endpoints.a) = some endpoint)) :
    ¬s.graph.MatchesRebuild schema s.registry := by
  rw [matchesRebuild_iff]
  intro coherent
  have coherent : (s.view server).state.Coherent (s.view server).schema (s.view server).registry :=
    coherent
  apply differs
  rw [mem_edgeIdsAt coherent List.mem_cons_self]
  simp [EdgeEndpoints.at, ServerState.view]

/-- A link given twice in one batch stays listed where it was first put. -/
theorem index_differs_from_rebuild : ∃ s, Run server (fun s call => call.Returns server s) s ∧
    ¬s.graph.MatchesRebuild schema s.registry := by
  refine ⟨final (batchSet server [link "e" "x" "y", link "e" "y" "x"]) nodes, ?_, ?_⟩
  · have nodes : Run server (fun s call => call.Returns server s) nodes :=
      .call (.batchSet [node "x", node "y"]) .initial (ok_of_run' (by decide +kernel))
    exact .call (.batchSet [link "e" "x" "y", link "e" "y" "x"]) nodes (ok_of_run' (by decide +kernel))
  · exact not_matchesRebuild "e" x (by decide +kernel)

end Sample

/-! ### Runs of calls that may fail -/

/-- A mutation whose writes the index hears of, or that makes none: it is rejected before anything is
written, or its writes extract, those made known settle, and those behind the first one that a
persister rejects change no edge of a type that keeps an index. -/
def Heard (ctx : MykoServerContext) (s : ServerState) (pending : PendingMutation) : Prop :=
  (∀ cascades, planPending ctx s pending ≠ .ok (some cascades)) ∨
    let told := processed ctx pending.origin s.offered (changesOf s pending)
    (∀ change ∈ changesOf s pending, ChangeExtracts ctx.schema s.registry change) ∧
      SettledChanges ctx.schema s.registry told ∧
      ∀ registration ∈ ctx.schema.registrations, KeepsIndex ctx.schema registration →
        registration.storedEdges (s.registry.writeAll (changesOf s pending)) =
          registration.storedEdges (s.registry.writeAll told)

theorem storedExtract_writeAll {schema : GraphSchema} {before : StoreRegistry} {changes : List Change}
    (stored : StoredExtract schema before)
    (extracts : ∀ change ∈ changes, ChangeExtracts schema before change) :
    StoredExtract schema (before.writeAll changes) := by
  intro registration registered id
  rw [StoreRegistry.getValue_writeAll]
  cases last : (changes.filter fun change => change.key = (registration.edgeType, id)).getLast? with
  | none => exact stored registration registered id
  | some change =>
    obtain ⟨member, here⟩ := List.mem_filter.mp (List.mem_of_getLast? last)
    have sameType : change.item.entityType = registration.edgeType :=
      congrArg Prod.fst (of_decide_eq_true here)
    have found : schema.registration change.item.entityType = some registration := by
      rw [sameType]
      exact GraphSchema.registration_of_mem registered
    exact (extracts change member registration found).2

theorem processed_subset (ctx : MykoServerContext) (origin : Origin) (offered changes : List Change) :
    processed ctx origin offered changes ⊆ changes := by
  induction changes generalizing offered with
  | nil => exact fun _ member => member
  | cons change rest ih =>
    unfold processed
    cases offer ctx origin offered change with
    | none => exact List.cons_subset_cons _ (ih _)
    | some answer =>
      cases answer with
      | ok _ => exact List.cons_subset_cons _ (ih _)
      | error _ => exact List.cons_subset_cons _ (List.nil_subset _)

/-- A commit that the index hears of keeps it that of the stores, however it ends. -/
theorem coherent_committed {s : ServerState} {pending : PendingMutation}
    (coherent : s.graph.Coherent ctx.schema s.registry) (heard : Heard ctx s pending) :
    (final (commitPending ctx pending) s).graph.Coherent ctx.schema
      (final (commitPending ctx pending) s).registry := by
  rcases commitPending_final ctx pending s with ⟨unchanged, -⟩ | ⟨cascades, plan, applied⟩
  · rw [unchanged]
    exact coherent
  rcases heard with rejected | ⟨extracts, settled, rest⟩
  · exact absurd plan (rejected cascades)
  have ready := ready_of_plan plan
  have subset := processed_subset ctx pending.origin s.offered (changesOf s pending)
  have told : (final (commitPending ctx pending) s).graph.Coherent ctx.schema
      (s.registry.writeAll (processed ctx pending.origin s.offered (changesOf s pending))) := by
    rw [applied.graph extracts]
    refine (coherent_reindexChanges_iff coherent (fun change member registered => ?_)
      fun change member => extracts change (subset member)).mpr settled
    exact (ready change (subset member)).effective ((ready change (subset member)).told registered)
  rw [applied.registry]
  exact coherent_of_sameEdges told rest (storedExtract_writeAll coherent.extracts extracts)

theorem coherent_reduced {s : ServerState} {pending : PendingMutation}
    (coherent : s.graph.Coherent ctx.schema s.registry) (heard : Heard ctx s pending) :
    (final (reducePending ctx (submitDerived ctx) pending) s).graph.Coherent ctx.schema
      (final (reducePending ctx (submitDerived ctx) pending) s).registry := by
  have same := sameCore_after_commit ctx pending s
  rw [same.registry, same.graph]
  exact coherent_committed coherent heard

/-- The index hears of every mutation a call reduces, and of every edge it deletes by id. -/
def HeardCall (ctx : MykoServerContext) (s : ServerState) (call : Call) : Prop :=
  Allowed (Heard ctx) (call.reductions ctx s) ∧
    ∀ entityType id, call = .delById entityType id → ∀ registration,
      ctx.schema.registration entityType = some registration → KeepsIndex ctx.schema registration →
        s.registry.getValue entityType id = none

theorem heard_calls (ctx : MykoServerContext) :
    CallInvariant ctx (HeardCall ctx) (fun _ _ => True) (Heard ctx) (fun _ => True)
      (fun s => s.graph.Coherent ctx.schema s.registry)
      (fun s => s.graph.Coherent ctx.schema s.registry) where
  enter {s t _ _ _ _} coherent _ _ _ queued := by
    obtain ⟨c, rfl, -⟩ := enqueueCausal_ok rfl queued
    exact coherent
  replace {s t _ _} coherent _ _ queued := by
    obtain ⟨c, rfl, -⟩ := enqueueCausalReplace_ok rfl queued
    exact coherent
  reduce coherent _ _ heard := coherent_reduced coherent heard
  direct coherent _ _ _ heard := coherent_reduced coherent heard
  close coherent _ := coherent
  entries _ := entries_always _ _
  buffers coherent := coherent
  other {s call} coherent _ other step := by
    obtain ⟨-, forgets⟩ := step
    rcases final_other ctx other s with ⟨entityType, id, _, _, rfl, same⟩ | ⟨_, _, _, -, same, -⟩ |
      ⟨_, same⟩ | ⟨_, same⟩
    · rw [same]
      exact coherent_remove coherent (forgets entityType id rfl)
    · rw [same]
      exact coherent
    · rw [same]
      exact coherent
    · rw [same]
      exact coherent

/-- One write alone is always heard of if it extracts: its persister is asked last. -/
theorem heard_single {s : ServerState} {pending : PendingMutation} {item : Item} {change : MEventType}
    (kind : pending.kind = .uniform [item] change)
    (extracts : ChangeExtracts ctx.schema s.registry ⟨change, item⟩) : Heard ctx s pending := by
  obtain ⟨_, origin, mode, depth, chain⟩ := pending
  subst kind
  refine .inr ?_
  simp only [changesOf_single, processed_singleton, List.mem_singleton, forall_eq, implies_true, and_true]
  exact ⟨extracts, settled_of_distinct _ _ (List.nodup_singleton _)⟩

namespace Sample

/-- A server whose persister of links takes none. -/
def readOnly : MykoServerContext :=
  { server with
    persister := fun entityType =>
      if entityType = "link" then some fun _ change => .error ⟨change.item.entityType, "read-only"⟩
      else none }

def readOnlyNodes : ServerState :=
  final (set readOnly (node "y")) (final (set readOnly (node "x")) .initial)

theorem heard_node {s : ServerState} {pending : PendingMutation} {id : String}
    (kind : pending.kind = .uniform [node id] .set) : Heard readOnly s pending :=
  heard_single kind fun _ found => by cases found

theorem readOnlyNodes_heard : Run readOnly (HeardCall readOnly) readOnlyNodes := by
  have step : ∀ {s : ServerState} (id : String),
      (Call.set (node id)).reductions readOnly s =
        [(s, directPending [node id] .set .localOrigin .authoritative)] →
      HeardCall readOnly s (.set (node id)) := by
    intro s id only
    refine ⟨fun r member => ?_, fun _ _ same => by cases same⟩
    rw [only] at member
    obtain rfl := List.mem_singleton.mp member
    exact heard_node rfl
  exact .call _ (.call _ .initial (step "x" rfl)) (step "y" rfl)

end Sample

end Myko

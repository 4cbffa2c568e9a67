import Myko.Postgres.Consumer
import Myko.Server.ForeignKeys
import Myko.Server.IndexCoherence

/-!
Derived state beside a second writer. Local calls bring the graph index and the reverse indexes of
foreign keys along; the log consumer writes to the stores and tells nobody.
-/

namespace Myko.Postgres
open StateError RelationIndexes

variable {ctx : MykoServerContext} {handlers : HandlerRegistry} {lookup : BelongsToLookup}

/-! ### The reverse index as a projection -/

/-- Once loaded, the reverse index is the one a load would make of the stores. -/
def MatchesLoad (lookup : BelongsToLookup) (s : ServerState) : Prop :=
  (s.relations.parentByChild lookup.id).isSome →
    SameFor lookup (s.relations.load s.registry lookup) s.relations

/-- Once loaded, the index files the children under their foreign keys, and nothing else. -/
def Projects (registry : StoreRegistry) (indexes : RelationIndexes) (lookup : BelongsToLookup) : Prop :=
  ∀ parents, indexes.parentByChild lookup.id = some parents →
    indexes.Filed lookup (registry.foreignKeys lookup)

theorem Projects.sound {registry : StoreRegistry} {indexes : RelationIndexes}
    (projects : Projects registry indexes lookup) : indexes.Sound lookup := fun parents loaded =>
  (projects parents loaded).sound parents loaded

theorem Projects.matchesLoad {s : ServerState} (projects : Projects s.registry s.relations lookup) :
    MatchesLoad lookup s := by
  intro loaded
  obtain ⟨parents, loaded⟩ := Option.isSome_iff_exists.mp loaded
  obtain ⟨own, children, listed, mirrors⟩ := projects parents loaded
  obtain ⟨fresh, children', listed', mirrors'⟩ := filed_load s.relations s.registry lookup
  refine ⟨own.trans fresh.symm, ?_⟩
  rw [listed, listed', mirrors.unique mirrors']

theorem Projects.brought {before after : StoreRegistry} {indexes indexes' : RelationIndexes}
    {heard : Set String} (projects : Projects before indexes lookup)
    (brings : Brings after lookup heard indexes indexes')
    (unheard : (indexes.parentByChild lookup.id).isSome → ∀ id, id ∉ heard →
      after.foreignKeys lookup id = before.foreignKeys lookup id) : Projects after indexes' lookup := by
  intro parents loaded
  have filed := brings.sound projects.sound parents loaded
  have same : parents = after.foreignKeys lookup := by
    funext id
    rcases brings.entries projects.sound parents loaded id with filed | ⟨quiet, earlier, loaded', same⟩
    · exact filed
    · have own := (projects earlier loaded').parentByChild
      rw [same, unheard (Option.isSome_of_eq_some loaded') id quiet]
      exact congrFun (Option.some.inj (loaded'.symm.trans own)) id
  exact same ▸ filed

/-- The stores after a write hold the foreign keys of loaded lookups as they were. -/
def KeepsForeignKeys (ctx : MykoServerContext) (s : ServerState) (after : StoreRegistry) : Prop :=
  ∀ lookup ∈ ctx.tables.belongsTo, (s.relations.parentByChild lookup.id).isSome →
    after.foreignKeys lookup = s.registry.foreignKeys lookup

/-- A mutation that relationship work follows, or that leaves foreign keys alone. -/
def Projected (ctx : MykoServerContext) (s : ServerState) (pending : PendingMutation) : Prop :=
  pending.origin.shouldCascade = true ∨
    KeepsForeignKeys ctx s (s.registry.writeAll (changesOf s pending))

theorem projects_reduced (registered : lookup ∈ ctx.tables.belongsTo) {s : ServerState}
    {pending : PendingMutation} (projects : Projects s.registry s.relations lookup)
    (projected : Projected ctx s pending) (reduces : Reduces ctx s pending) :
    Projects (final (reducePending ctx (submitDerived ctx) pending) s).registry
      (final (reducePending ctx (submitDerived ctx) pending) s).relations lookup := by
  rcases reduced_index registered pending s with ⟨-, stores, same⟩ | ⟨-, stores, brings, told⟩
  · rw [stores]
    exact projects.brought same.brings fun _ _ _ => rfl
  · rcases projected with cascading | keeps
    · refine projects.brought (told cascading reduces) fun _ id unwritten => ?_
      rw [stores, StoreRegistry.foreignKeys, getValue_unwritten unwritten]
      rfl
    · refine projects.brought brings fun loaded id _ => ?_
      rw [stores, keeps lookup registered loaded]

/-! ### Local calls and remote events -/

/-- A local call that returns Ok and brings derived state along. -/
structure BringsDerived (ctx : MykoServerContext) (s : ServerState) (call : Call) : Prop where
  tidy : TidyOk ctx s call
  projected : Allowed (Projected ctx) (call.reductions ctx s)
  forgets : ∀ entityType id, call = .delById entityType id →
    KeepsForeignKeys ctx s (s.registry.remove entityType id)

def AllProjected (ctx : MykoServerContext) (s : ServerState) : Prop :=
  ∀ lookup ∈ ctx.tables.belongsTo, Projects s.registry s.relations lookup

theorem allProjected_calls (ctx : MykoServerContext) :
    CallInvariant ctx (BringsDerived ctx) (fun _ _ => True)
      (fun s pending => Projected ctx s pending ∧ Reduces ctx s pending) Drained (AllProjected ctx)
      (AllProjected ctx) where
  enter {s t _ _ _ _} projects _ _ _ queued := by
    obtain ⟨c, rfl, -⟩ := enqueueCausal_ok rfl queued
    exact projects
  replace {s t _ _} projects _ _ queued := by
    obtain ⟨c, rfl, -⟩ := enqueueCausalReplace_ok rfl queued
    exact projects
  reduce {s c pending queue} projects _ _ both lookup registered :=
    projects_reduced (s := { s with causal := some (c.pop pending queue) }) registered
      (projects lookup registered) both.1 both.2
  direct projects _ _ _ both lookup registered :=
    projects_reduced registered (projects lookup registered) both.1 both.2
  close projects _ := projects
  entries _ := entries_always _ _
  buffers projects := projects
  other {s call} projects _ other step := by
    rcases final_other ctx other s with ⟨entityType, id, _, _, named, same⟩ | ⟨_, _, _, -, same, -⟩ |
      ⟨_, same⟩ | ⟨_, same⟩
    · rw [same]
      intro lookup registered
      have unchanged : SameFor lookup s.relations s.relations := ⟨rfl, rfl⟩
      refine (projects lookup registered).brought unchanged.brings fun loaded other _ => ?_
      rw [step.forgets entityType id named lookup registered loaded]
    · rw [same]
      exact projects
    · rw [same]
      exact projects
    · rw [same]
      exact projects

/-- The consumer writes the event to the stores. -/
def applyRemote (ctx : MykoServerContext) (handlers : HandlerRegistry) (s : ServerState)
    (event : SourcedEvent) : ServerState :=
  { s with registry := applyRemoteEvent handlers ctx.hostId s.registry event }

/-- A remote event after which the edges of types that keep an index, and the foreign keys of loaded
lookups, are as they were. -/
structure LeavesDerived (ctx : MykoServerContext) (handlers : HandlerRegistry) (s : ServerState)
    (event : SourcedEvent) : Prop where
  edges : ∀ registration ∈ ctx.schema.registrations, KeepsIndex ctx.schema registration →
    registration.storedEdges (applyRemoteEvent handlers ctx.hostId s.registry event) =
      registration.storedEdges s.registry
  extracts : StoredExtract ctx.schema (applyRemoteEvent handlers ctx.hostId s.registry event)
  foreignKeys : KeepsForeignKeys ctx s (applyRemoteEvent handlers ctx.hostId s.registry event)

/-- A server that has started: the graph index is rebuilt from the stores, and no reverse index has been
loaded yet. -/
structure Started (ctx : MykoServerContext) (s : ServerState) : Prop where
  graph : ∃ state generation, rebuild ctx.schema s.registry state = .ok generation s.graph
  relations : s.relations = .empty
  causal : s.causal = none

/-- A run of local calls and remote events, in any order. -/
inductive Shared (ctx : MykoServerContext) (handlers : HandlerRegistry)
    (Local : ServerState → Call → Prop) (Remote : ServerState → SourcedEvent → Prop) :
    ServerState → Prop where
  | started {s : ServerState} (started : Started ctx s) : Shared ctx handlers Local Remote s
  | call {s : ServerState} (call : Call) (before : Shared ctx handlers Local Remote s)
    (step : Local s call) : Shared ctx handlers Local Remote (final (call.run ctx) s)
  | remote {s : ServerState} (event : SourcedEvent) (before : Shared ctx handlers Local Remote s)
    (step : Remote s event) : Shared ctx handlers Local Remote (applyRemote ctx handlers s event)

structure Derived (ctx : MykoServerContext) (s : ServerState) : Prop where
  coherent : s.graph.Coherent ctx.schema s.registry
  projected : AllProjected ctx s
  closed : s.causal = none

theorem derived_started {s : ServerState} (started : Started ctx s) : Derived ctx s := by
  obtain ⟨⟨state, generation, run⟩, relations, closed⟩ := started
  refine ⟨?_, fun lookup _ parents loaded => ?_, closed⟩
  · obtain ⟨_, rebuilt, run', coherent⟩ := rebuild_ok (storedExtract_of_rebuild run) state
    cases run.symm.trans run'
    exact coherent
  · rw [relations] at loaded
    cases loaded

theorem derived_call {s : ServerState} {call : Call} (derived : Derived ctx s)
    (brings : BringsDerived ctx s call) : Derived ctx (final (call.run ctx) s) := by
  have ok : call.Submits → call.Succeeds ctx s := brings.tidy.1.succeeds
  obtain ⟨coherent, closed⟩ := (coherent_commits ctx).call derived.coherent derived.closed brings.tidy ok
  exact ⟨coherent, (call_keeps_ok (allProjected_calls ctx) derived.projected derived.closed brings
    brings.projected ok).1, closed⟩

theorem derived_remote {s : ServerState} {event : SourcedEvent} (derived : Derived ctx s)
    (leaves : LeavesDerived ctx handlers s event) : Derived ctx (applyRemote ctx handlers s event) := by
  refine ⟨coherent_of_sameEdges derived.coherent leaves.edges leaves.extracts,
    fun lookup registered => ?_, derived.closed⟩
  have unchanged : SameFor lookup s.relations s.relations := ⟨rfl, rfl⟩
  refine (derived.projected lookup registered).brought unchanged.brings fun loaded id _ => ?_
  exact congrFun (leaves.foreignKeys lookup registered loaded) id

/-- An event about an entity that is neither an edge nor a child leaves derived state alone. -/
theorem leaves_others {s : ServerState} {event : SourcedEvent}
    (extracts : StoredExtract ctx.schema s.registry)
    (others : ∀ entityType, (ctx.schema.registration entityType).isSome ∨
      (∃ lookup ∈ ctx.tables.belongsTo, lookup.localType = entityType) → ∀ id,
      (applyRemoteEvent handlers ctx.hostId s.registry event).getValue entityType id =
        s.registry.getValue entityType id) : LeavesDerived ctx handlers s event where
  edges registration registered _ := by
    have found := GraphSchema.registration_of_mem registered
    funext id
    rw [EdgeRegistration.storedEdges, others registration.edgeType (.inl (by rw [found]; rfl)) id]
    rfl
  extracts registration registered id := by
    have found := GraphSchema.registration_of_mem registered
    rw [others registration.edgeType (.inl (by rw [found]; rfl)) id]
    exact extracts registration registered id
  foreignKeys lookup registered _ := by
    funext id
    rw [StoreRegistry.foreignKeys, others lookup.localType (.inr ⟨lookup, registered, rfl⟩) id]
    rfl

theorem derived_of_run {s : ServerState}
    (run : Shared ctx handlers (BringsDerived ctx) (LeavesDerived ctx handlers) s) : Derived ctx s := by
  induction run with
  | started started => exact derived_started started
  | call call before step ih => exact derived_call ih step
  | remote event before step ih => exact derived_remote ih step

/-- In every run of local calls that bring derived state along and remote events that leave it alone, the
graph index is the one rebuilt from the stores, and each loaded reverse index the one loaded from them. -/
theorem derived_state_coherent {s : ServerState}
    (run : Shared ctx handlers (BringsDerived ctx) (LeavesDerived ctx handlers) s) :
    s.graph.MatchesRebuild ctx.schema s.registry ∧
      ∀ lookup ∈ ctx.tables.belongsTo, MatchesLoad lookup s := by
  have derived := derived_of_run run
  exact ⟨matchesRebuild_iff.mpr derived.coherent, fun lookup registered =>
    (derived.projected lookup registered).matchesLoad⟩

end Myko.Postgres

namespace Myko.Sample
open StateError Postgres

/-- A log of nodes and of links from `x` to `y`, each event with the id it is about. -/
def graphHandlers : HandlerRegistry where
  parser itemType payload :=
    if itemType = "node" then some (node payload)
    else if itemType = "link" then some (link payload "x" "y") else none
  payloadId payload := some payload
  parsed itemType payload item read := by
    split at read
    · rename_i here
      cases read
      exact ⟨here.symm, rfl⟩
    · split at read
      · rename_i here
        cases read
        exact ⟨here.symm, rfl⟩
      · cases read

def elsewhere (itemType id : String) : SourcedEvent := ⟨⟨.set, itemType, id⟩, some "other host"⟩

theorem started_empty : Started tasks .initial := ⟨⟨.empty, 0, rfl⟩, rfl, rfl⟩

theorem leaves_node {s : ServerState} (id : String) (extracts : StoredExtract schema s.registry) :
    LeavesDerived tasks graphHandlers s (elsewhere "node" id) := by
  refine leaves_others extracts fun entityType kept other => ?_
  have apart : entityType ≠ "node" := by
    rintro rfl
    rcases kept with edge | ⟨lookup, registered, child⟩
    · exact absurd edge (by decide)
    · obtain rfl : lookup = tasksOfNode := List.mem_singleton.mp registered
      exact absurd child (by decide)
  change (s.registry.insert (node id)).getValue entityType other = _
  rw [StoreRegistry.getValue_insert, if_neg fun same => apart same.1]

theorem brings_set {s t : ServerState} {item : Item} {reduction : Reduction}
    (run : set tasks item s = .ok () t) (only : (Call.set item).reductions tasks s = [reduction])
    (cascading : reduction.2.origin.shouldCascade = true) : BringsDerived tasks s (.set item) := by
  refine ⟨⟨⟨t, run⟩, trivial⟩, fun r member => ?_, fun _ _ same => by cases same⟩
  rw [only] at member
  obtain rfl := List.mem_singleton.mp member
  exact .inl cascading

/-- Nodes that come from elsewhere, and a link and a task made here. -/
def nodesFromElsewhere : ServerState :=
  applyRemote tasks graphHandlers (applyRemote tasks graphHandlers .initial (elsewhere "node" "x"))
    (elsewhere "node" "y")

def linkedHere : ServerState := final (set tasks (link "e" "x" "y")) nodesFromElsewhere

theorem derived_state_linked :
    (final (set tasks (task "t" "x")) linkedHere).graph.MatchesRebuild schema
        (final (set tasks (task "t" "x")) linkedHere).registry ∧
      ∀ lookup ∈ tasks.tables.belongsTo, MatchesLoad lookup (final (set tasks (task "t" "x")) linkedHere) := by
  have started : Shared tasks graphHandlers (BringsDerived tasks) (LeavesDerived tasks graphHandlers)
      .initial := .started started_empty
  have first := Shared.remote (elsewhere "node" "x") started
    (leaves_node "x" (derived_of_run started).coherent.extracts)
  have second := Shared.remote (elsewhere "node" "y") first
    (leaves_node "y" (derived_of_run first).coherent.extracts)
  have linked := Shared.call (.set (link "e" "x" "y")) second (brings_set rfl rfl rfl)
  exact derived_state_coherent (.call (.set (task "t" "x")) linked (brings_set rfl rfl rfl))

/-- A link that comes from elsewhere is stored and not found. -/
theorem remote_link_missing : ∃ s, Shared tasks graphHandlers (fun s call => call.Returns tasks s)
    (fun _ _ => True) s ∧ ¬s.graph.MatchesRebuild schema s.registry := by
  refine ⟨applyRemote tasks graphHandlers .initial (elsewhere "link" "e"),
    .remote _ (.started started_empty) trivial, ?_⟩
  exact not_matchesRebuild "e" x (by decide +kernel)

end Myko.Sample

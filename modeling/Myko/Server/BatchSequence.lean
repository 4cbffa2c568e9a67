import Myko.Server.Invariant
import Myko.Server.Sample

/-!
A batch of SETs beside the same SETs emitted one at a time. The batch takes every old value from before its
first write, and inside a root it comes without the transitions the root has seen.
-/

namespace Myko
open StateError SecondaryIndex

variable {ctx : MykoServerContext}

/-- The items emitted one at a time, in order, whatever becomes of each. -/
def emitSequence (ctx : MykoServerContext) (origin : Origin) (mode : EdgeApplyMode) :
    List Item → ServerState → ServerState
  | [], s => s
  | item :: rest, s =>
    emitSequence ctx origin mode rest (final (emitOne ctx (submitDerived ctx) item .set origin mode) s)

/-- Every item of the sequence passes its checks and can be indexed when its turn comes. -/
def Goes (ctx : MykoServerContext) (origin : Origin) (mode : EdgeApplyMode) :
    List Item → ServerState → Prop
  | [], _ => True
  | item :: rest, s =>
    ((∃ cascades, planItem ctx s (ctx.schema.coordinates item .set) .set mode item = .ok cascades) ∧
      ChangeExtracts ctx.schema s.registry ⟨.set, item⟩) ∧
    Goes ctx origin mode rest (final (emitOne ctx (submitDerived ctx) item .set origin mode) s)

/-- The items of a batch that are reduced: inside a root, those whose transition it has not seen. -/
def passing (ctx : MykoServerContext) (within : Option (List TransitionKey)) (items : List Item) : List Item :=
  match within with
  | none => items
  | some seen => unseen ctx .set seen items

/-- The last item about an entity. -/
def lastOf (items : List Item) (key : String × String) : Option Item :=
  (items.filter fun item => (item.entityType, item.id) = key).getLast?

/-- The last item about an entity is not among those left out, or is what the others leave. -/
def KeepsLast (ctx : MykoServerContext) (within : Option (List TransitionKey)) (items : List Item)
    (s : ServerState) : Prop :=
  ∀ (key : String × String) (last : Item), lastOf items key = some last →
    (lastOf (passing ctx within items) key).or (s.registry.getValue key.1 key.2) = some last

/-- The keys that items give to one edge, in order. -/
def keysGiven (schema : GraphSchema) (registration : EdgeRegistration) (items : List Item) (id : String) :
    List (Set IndexKey) :=
  keysOf (keyChanges schema registration (edgeChanges registration (items.map (Change.mk .set)))) id

/-- The keys of an edge in the stores. -/
def storedKeys (schema : GraphSchema) (registration : EdgeRegistration) (registry : StoreRegistry)
    (id : String) : Set IndexKey :=
  IndexedEdge.keySet schema registration (registration.storedEdges registry id)

/-- No edge is given a key on the way that it had neither before nor has in the end, by an item that is
reduced or where the index lists it already; an edge that no reduced item is about is listed as stored. -/
def Balanced (ctx : MykoServerContext) (within : Option (List TransitionKey)) (items : List Item)
    (s : ServerState) : Prop :=
  ∀ registration ∈ ctx.schema.registrations, ∀ id : String,
    keysGiven ctx.schema registration items id ≠ [] →
    let reduced := keysGiven ctx.schema registration (passing ctx within items) id
    let after := s.registry.writeAll (items.map (Change.mk .set))
    (∀ key ∉ storedKeys ctx.schema registration s.registry id,
      key ∉ storedKeys ctx.schema registration after id →
      (∃ given ∈ keysGiven ctx.schema registration items id, key ∈ given) →
      (∀ given ∈ reduced, key ∉ given) ∧ ¬(s.graph.edgeTypes registration.edgeType).Incident key id) ∧
    (reduced = [] →
      (∀ key ∈ storedKeys ctx.schema registration s.registry id,
        (s.graph.edgeTypes registration.edgeType).Incident key id) ∧
      (ctx.schema.projectsAnyEndpoint registration.edgeType = true →
        (s.graph.edgeTypes registration.edgeType).edges id = registration.storedEdges s.registry id))

/-- An index that keeps only the maps and the edges its type has, in canonical buckets. -/
structure GraphState.WellKept (schema : GraphSchema) (state : GraphState) : Prop where
  sound : ∀ registration ∈ schema.registrations,
    (state.edgeTypes registration.edgeType).Sound schema registration
  unkept : ∀ registration ∈ schema.registrations,
    schema.projectsAnyEndpoint registration.edgeType = false →
      ∀ id, (state.edgeTypes registration.edgeType).edges id = none

/-! ### The stores -/

theorem getValue_sets (registry : StoreRegistry) (items : List Item) (entityType id : String) :
    (registry.writeAll (items.map (Change.mk .set))).getValue entityType id =
      (lastOf items (entityType, id)).or (registry.getValue entityType id) := by
  have listed : (items.map (Change.mk .set)).filter (fun change => change.key = (entityType, id)) =
      (items.filter fun item => (item.entityType, item.id) = (entityType, id)).map (Change.mk .set) := by
    rw [List.filter_map]
    rfl
  rw [StoreRegistry.getValue_writeAll, listed, List.getLast?_map]
  unfold lastOf
  cases (items.filter fun item => (item.entityType, item.id) = (entityType, id)).getLast? <;> rfl

/-- Grouping by type does not change what a batch of SETs writes. -/
theorem writeAll_grouped (registry : StoreRegistry) (items : List Item) :
    registry.writeAll ((groupByType items).flatten.map (Change.mk .set)) =
      registry.writeAll (items.map (Change.mk .set)) := by
  refine StoreRegistry.ext fun entityType id => ?_
  rw [getValue_sets, getValue_sets]
  have listed := filter_groupByType items (fun item => (item.entityType, item.id) = (entityType, id))
    fun item _ here => congrArg Prod.fst (of_decide_eq_true here)
  unfold lastOf
  rw [listed]

theorem lastOf_passing {within : Option (List TransitionKey)} {items : List Item} {key : String × String}
    (none : lastOf items key = none) : lastOf (passing ctx within items) key = Option.none := by
  unfold lastOf at none ⊢
  rw [List.getLast?_eq_none_iff, List.filter_eq_nil_iff] at none ⊢
  refine fun item listed => none item ?_
  unfold passing at listed
  split at listed
  · exact listed
  · exact (unseen_sublist _ _ _).subset listed

/-- The stores come out alike just when no last item is lost. -/
theorem writeAll_passing_iff (within : Option (List TransitionKey)) (items : List Item) (s : ServerState) :
    s.registry.writeAll ((passing ctx within items).map (Change.mk .set)) =
      s.registry.writeAll (items.map (Change.mk .set)) ↔ KeepsLast ctx within items s := by
  constructor
  · intro same key last about
    have value : (s.registry.writeAll ((passing ctx within items).map (Change.mk .set))).getValue key.1 key.2 =
        (s.registry.writeAll (items.map (Change.mk .set))).getValue key.1 key.2 := by rw [same]
    rw [getValue_sets, getValue_sets, Prod.mk.eta, about, Option.some_or] at value
    exact value
  · intro keeps
    refine StoreRegistry.ext fun entityType id => ?_
    rw [getValue_sets, getValue_sets]
    cases about : lastOf items (entityType, id) with
    | none => rw [lastOf_passing about]
    | some last => exact keeps (entityType, id) last about

/-! ### The index -/

section
variable {schema : GraphSchema} {registration : EdgeRegistration}

theorem edgeChanges_grouped (registration : EdgeRegistration) (items : List Item) :
    edgeChanges registration ((groupByType items).flatten.map (Change.mk .set)) =
      edgeChanges registration (items.map (Change.mk .set)) := by
  unfold edgeChanges
  rw [List.filter_map, List.filter_map]
  have listed := filter_groupByType items (fun item => item.entityType = registration.edgeType)
    fun item _ here => of_decide_eq_true here
  exact congrArg (fun kept : List Item => (kept.map (Change.mk .set)).map fun change =>
    (change.item.id, registration.edgeOf change.value)) listed

theorem keysOf_eq_nil {changes : List (String × Option IndexedEdge)} {id : String} :
    keysOf (keyChanges schema registration changes) id = [] ↔ id ∉ changes.map Prod.fst := by
  unfold keysOf keyChanges
  rw [List.map_eq_nil_iff, List.filter_eq_nil_iff, List.forall_mem_map, List.mem_map]
  constructor
  · rintro none ⟨change, listed, rfl⟩
    exact none change listed (decide_eq_true rfl)
  · intro none change listed same
    exact none ⟨change, listed, of_decide_eq_true same⟩

/-- Two kept indexes agree when they list the same edges under the same keys. -/
theorem projections_iff {state other : EdgeTypeState} (sound : state.Sound schema registration)
    (sound' : other.Sound schema registration) : state.projections = other.projections ↔
      (∀ id, state.edges id = other.edges id) ∧ ∀ key id, state.Incident key id ↔ other.Incident key id := by
  constructor
  · intro same
    have edges : state.projections.edges = other.projections.edges := by rw [same]
    have incident : state.projections.Incident = other.projections.Incident := by rw [same]
    exact ⟨congrFun edges, fun key id => Iff.of_eq (congrFun (congrFun incident key) id)⟩
  · rintro ⟨edges, incident⟩
    exact EdgeTypeState.projections_eq (funext edges) (sound.canonical.ext sound'.canonical incident)

end

section
variable {schema : GraphSchema} {registration : EdgeRegistration} {state : EdgeTypeState}
  {stored after : String → Option IndexedEdge} {reduced given : List (String × Option IndexedEdge)}
  (sound : state.Sound schema registration)
  (unkept : schema.projectsAnyEndpoint registration.edgeType = false → ∀ id, state.edges id = none)
  (own : OwnId stored) (ownReduced : OwnIds reduced) (ownGiven : OwnIds given)
  (putsReduced : ∀ change ∈ reduced, change.2 ≠ none) (putsGiven : ∀ change ∈ given, change.2 ≠ none)
  (within : ∀ change ∈ reduced, change ∈ given)
  (ends : edgesAfter stored given = after) (endsReduced : edgesAfter stored reduced = after)

theorem edgesAfter_of_untouched {changes : List (String × Option IndexedEdge)} {id : String}
    (untouched : id ∉ changes.map Prod.fst) : edgesAfter stored changes id = stored id := by
  unfold edgesAfter
  have none : changes.filter (fun change => decide (change.1 = id)) = [] := by
    refine List.filter_eq_nil_iff.mpr fun change listed here => untouched ?_
    exact List.mem_map.mpr ⟨change, listed, of_decide_eq_true here⟩
  rw [none]
  rfl

include unkept own ownReduced ownGiven putsReduced putsGiven within ends endsReduced in
/-- The edge is kept alike unless nothing about it is reduced and the index keeps another. -/
theorem edges_agree_iff (id : String) :
    (reindexAll schema registration stored reduced state).edges id =
        (reindexEach schema registration stored given state).edges id ↔
      (id ∈ given.map Prod.fst → id ∉ reduced.map Prod.fst →
        schema.projectsAnyEndpoint registration.edgeType = true → state.edges id = stored id) := by
  rw [edges_reindexAll_puts own ownReduced putsReduced unkept id, edges_reindexEach own ownGiven putsGiven unkept id,
    ends, endsReduced]
  by_cases listed : id ∈ reduced.map Prod.fst
  · have among : id ∈ given.map Prod.fst := List.map_subset _ within listed
    rw [if_pos listed, if_pos among]
    exact iff_of_true rfl fun _ unlisted => absurd listed unlisted
  by_cases among : id ∈ given.map Prod.fst
  · have same : after id = stored id := endsReduced ▸ edgesAfter_of_untouched listed
    rw [if_neg listed, if_pos among, same]
    cases kept : schema.projectsAnyEndpoint registration.edgeType with
    | true => simp [among, listed]
    | false => simpa [among, listed] using unkept kept id
  · rw [if_neg listed, if_neg among]
    exact iff_of_true rfl fun changed => absurd changed among

include sound own ownReduced ownGiven within ends endsReduced in
/-- The keys it is listed under, by the rule for any index that is kept by old and new keys. -/
theorem incident_agree_iff (id : String) :
    (∀ key, (reindexAll schema registration stored reduced state).Incident key id ↔
        (reindexEach schema registration stored given state).Incident key id) ↔
    (keysOf (keyChanges schema registration given) id ≠ [] →
      (∀ key ∉ IndexedEdge.keySet schema registration (stored id),
        key ∉ IndexedEdge.keySet schema registration (after id) →
        (∃ keys ∈ keysOf (keyChanges schema registration given) id, key ∈ keys) →
        (∀ keys ∈ keysOf (keyChanges schema registration reduced) id, key ∉ keys) ∧ ¬state.Incident key id) ∧
      (keysOf (keyChanges schema registration reduced) id = [] →
        ∀ key ∈ IndexedEdge.keySet schema registration (stored id), state.Incident key id)) := by
  have subset : ∀ keys ∈ keysOf (keyChanges schema registration reduced) id,
      keys ∈ keysOf (keyChanges schema registration given) id := by
    intro keys listed
    rw [mem_keysOf] at listed ⊢
    obtain ⟨change, among, same⟩ := List.mem_map.mp listed
    exact List.mem_map.mpr ⟨change, within change among, same⟩
  have keysGiven : keysAfter (fun id => IndexedEdge.keySet schema registration (stored id))
      (keyChanges schema registration given) id = IndexedEdge.keySet schema registration (after id) := by
    rw [keysAfter_keyChanges, ends]
  have keysReduced : keysAfter (fun id => IndexedEdge.keySet schema registration (stored id))
      (keyChanges schema registration reduced) id = IndexedEdge.keySet schema registration (after id) := by
    rw [keysAfter_keyChanges, endsReduced]
  have agree : (∀ key, refileAll _ state.Incident _ key id ↔ refileEach _ state.Incident _ key id) ↔ _ :=
    refileAll_refileEach_iff subset (keysReduced.trans keysGiven.symm)
  rw [keysGiven] at agree
  simp only [incident_reindexAll sound own ownReduced, incident_reindexEach sound own ownGiven]
  exact agree

include sound unkept own ownReduced ownGiven putsReduced putsGiven within ends endsReduced in
/-- One edge comes out alike just when its part of the condition holds. -/
theorem edge_agrees_iff (id : String) :
    ((reindexAll schema registration stored reduced state).edges id =
        (reindexEach schema registration stored given state).edges id ∧
      ∀ key, (reindexAll schema registration stored reduced state).Incident key id ↔
        (reindexEach schema registration stored given state).Incident key id) ↔
    (keysOf (keyChanges schema registration given) id ≠ [] →
      (∀ key ∉ IndexedEdge.keySet schema registration (stored id),
        key ∉ IndexedEdge.keySet schema registration (after id) →
        (∃ keys ∈ keysOf (keyChanges schema registration given) id, key ∈ keys) →
        (∀ keys ∈ keysOf (keyChanges schema registration reduced) id, key ∉ keys) ∧ ¬state.Incident key id) ∧
      (keysOf (keyChanges schema registration reduced) id = [] →
        (∀ key ∈ IndexedEdge.keySet schema registration (stored id), state.Incident key id) ∧
        (schema.projectsAnyEndpoint registration.edgeType = true → state.edges id = stored id))) := by
  rw [edges_agree_iff unkept own ownReduced ownGiven putsReduced putsGiven within ends endsReduced,
    incident_agree_iff sound own ownReduced ownGiven within ends endsReduced]
  have listed : ∀ changes : List (String × Option IndexedEdge),
      keysOf (keyChanges schema registration changes) id = [] ↔ id ∉ changes.map Prod.fst := fun _ => keysOf_eq_nil
  simp only [ne_eq, listed, not_not]
  constructor
  · rintro ⟨edges, incident⟩ changed
    obtain ⟨balanced, filed⟩ := incident changed
    exact ⟨balanced, fun untouched => ⟨filed untouched, edges changed untouched⟩⟩
  · intro alike
    exact ⟨fun changed untouched => ((alike changed).2 untouched).2,
      fun changed => ⟨(alike changed).1, fun untouched => ((alike changed).2 untouched).1⟩⟩

end

/-! ### Every run keeps the index in order -/

section
variable {schema : GraphSchema}

theorem wellKept_updateType {state : GraphState} {registration : EdgeRegistration}
    {f : EdgeTypeState → EdgeTypeState} (kept : state.WellKept schema)
    (registered : registration ∈ schema.registrations)
    (sound : ∀ edges : EdgeTypeState, edges.Sound schema registration → (f edges).Sound schema registration)
    (unkept : ∀ edges : EdgeTypeState, schema.projectsAnyEndpoint registration.edgeType = false →
      (∀ id, edges.edges id = none) → ∀ id, (f edges).edges id = none) :
    (state.updateType registration.edgeType f).WellKept schema := by
  have other : ∀ other ∈ schema.registrations, other ≠ registration →
      (state.updateType registration.edgeType f).edgeTypes other.edgeType = state.edgeTypes other.edgeType := by
    intro other among apart
    refine Function.update_of_ne (fun same => apart ?_) _ _
    exact List.inj_on_of_nodup_map schema.distinct among registered same
  have self : (state.updateType registration.edgeType f).edgeTypes registration.edgeType =
      f (state.edgeTypes registration.edgeType) := Function.update_self _ _ _
  constructor
  · intro here among
    by_cases same : here = registration
    · subst same
      rw [self]
      exact sound _ (kept.sound here among)
    · rw [other here among same]
      exact kept.sound here among
  · intro here among projects id
    by_cases same : here = registration
    · subst same
      rw [self]
      exact unkept _ projects (kept.unkept here among projects) id
    · rw [other here among same]
      exact kept.unkept here among projects id

/-- However an application of a change ends, the index is kept in order. -/
theorem keeps_applyEdge (old new : Option Item) :
    Keeps (GraphState.WellKept schema) (applyEdge schema old new) fun _ => True := by
  have drop : ∀ {registration : EdgeRegistration}, registration ∈ schema.registrations →
      ∀ (edge : IndexedEdge) (state : GraphState), state.WellKept schema →
        (state.updateType registration.edgeType (dropEdge registration edge)).WellKept schema := by
    intro registration registered edge state kept
    refine wellKept_updateType kept registered (fun _ sound => sound_reindex sound (some edge) none) ?_
    intro edges _ none id
    have cleared : (dropEdge registration edge edges).edges = Function.update edges.edges edge.id Option.none := by
      unfold dropEdge removeIndexed
      dsimp only
      split_ifs <;> rfl
    rw [cleared, Function.update_apply]
    split
    · rfl
    · exact none id
  have insert : ∀ {registration : EdgeRegistration}, registration ∈ schema.registrations →
      ∀ (edge : IndexedEdge) (state : GraphState), state.WellKept schema →
        (state.updateType registration.edgeType fun edges =>
          insertIndexed schema registration edges edge).WellKept schema := by
    intro registration registered edge state kept
    refine wellKept_updateType kept registered (fun _ sound => sound_reindex sound none (some edge)) ?_
    intro edges projects none id
    have same : (insertIndexed schema registration edges edge).edges = edges.edges := by
      unfold insertIndexed
      simp only [projects, Bool.false_eq_true, if_false]
      split_ifs <;> rfl
    rw [same]
    exact none id
  have bump : ∀ {registration : EdgeRegistration}, registration ∈ schema.registrations →
      ∀ state : GraphState, state.WellKept schema → (state.bump registration.edgeType).WellKept schema := by
    intro registration registered state kept
    have updated := wellKept_updateType (f := fun edges => { edges with
      generation := saturatingSucc edges.generation }) kept registered
      (fun _ sound => ⟨sound.projected, sound.canonical⟩) fun _ _ none => none
    exact ⟨updated.sound, updated.unkept⟩
  have last : ∀ {registration : EdgeRegistration}, registration ∈ schema.registrations →
      Keeps (GraphState.WellKept schema) (do
        modify fun state => state.bump registration.edgeType
        return (← get).generation : GraphM Nat) fun _ => True := fun registered =>
    Keeps.bind (Keeps.modify (bump registered)) fun _ _ => Keeps.bind Keeps.get fun _ _ => Keeps.pure trivial
  have read : ∀ (registration : EdgeRegistration) (item : Item), Keeps (GraphState.WellKept schema)
      (passOn (registration.indexedEdge item) : GraphM IndexedEdge) fun _ => True :=
    fun _ _ => Keeps.passOn fun _ _ => trivial
  have put : ∀ {registration : EdgeRegistration}, registration ∈ schema.registrations → ∀ item : Item,
      Keeps (GraphState.WellKept schema) (do
        let indexed ← passOn (registration.indexedEdge item)
        modify fun state => state.updateType registration.edgeType fun edges =>
          insertIndexed schema registration edges indexed
        modify fun state => state.bump registration.edgeType
        return (← get).generation : GraphM Nat) fun _ => True := fun {registration} registered item =>
    Keeps.bind (read registration item) fun edge _ =>
      Keeps.bind (Keeps.modify (insert registered edge)) fun _ _ => last registered
  unfold applyEdge
  cases new.or old with
  | none => exact Keeps.throw _
  | some item =>
    dsimp only
    cases found : schema.registration item.entityType with
    | none => exact Keeps.bind Keeps.get fun _ _ => Keeps.pure trivial
    | some registration =>
      obtain ⟨registered, -⟩ := GraphSchema.registration_mem found
      cases old with
      | none =>
        cases new with
        | none => exact last registered
        | some new => exact put registered new
      | some old =>
        refine Keeps.bind (read registration old) fun edge _ =>
          Keeps.bind (Keeps.modify (drop registered edge)) fun _ _ => ?_
        cases new with
        | none => exact last registered
        | some new => exact put registered new

end

/-- The index of the server is in order. -/
def InOrder (ctx : MykoServerContext) (s : ServerState) : Prop := s.graph.WellKept ctx.schema

theorem keeps_sameGraph {α : Type} {m : ServerM α} (same : ∀ s, (final m s).graph = s.graph) :
    Keeps (InOrder ctx) m fun _ => True := by
  unfold InOrder
  refine Keeps.intro (fun s a t kept run => ⟨?_, trivial⟩) fun s e t kept run => ?_
  · have unchanged := same s
    rw [final_of_ok run] at unchanged
    rwa [unchanged]
  · have unchanged := same s
    rw [final_of_error run] at unchanged
    rwa [unchanged]

theorem inOrder_indexItem (before : StoreRegistry) (coordinated : Bool) (change : Change) :
    Keeps (InOrder ctx) (indexItem ctx before coordinated change) fun _ => True := by
  refine Keeps.ite (fun _ => Keeps.bind (G := fun _ => True) ?_ fun _ _ => Keeps.pure trivial)
    fun _ => Keeps.pure trivial
  intro s kept
  unfold liftGraph
  cases applied : applyEdge ctx.schema (before.canonicalItem change.item) change.value s.graph with
  | ok _ _ => exact ⟨((keeps_applyEdge _ _).ok kept applied).1, trivial⟩
  | error _ _ => exact (keeps_applyEdge _ _).error kept applied

theorem inOrder_persistItem (origin : Origin) (change : Change) :
    Keeps (InOrder ctx) (persistItem ctx origin change) fun _ => True := by
  refine keeps_sameGraph fun s => ?_
  have persist := moves_persistItem ctx origin change
  cases run : persistItem ctx origin change s with
  | ok _ t =>
    rw [final_of_ok run]
    exact (persist.ok run).2
  | error _ t =>
    rw [final_of_error run]
    exact (persist.error run).2

theorem inOrder_watches {p : Prop} [Decidable p] (item : Item)
    (publish : List GraphWatch → Except String (List GraphWatch)) :
    Keeps (InOrder ctx) (if p then liftWatches item publish else pure ()) fun _ => True :=
  keeps_sameGraph fun s => ((moves_watchIf item publish).final s).graph

theorem inOrder_indexAndPersist (before : StoreRegistry) (coordinated : Bool) (origin : Origin)
    (changes : List Change) :
    Keeps (InOrder ctx) (each (indexAndPersist ctx before coordinated origin) changes) fun _ => True :=
  Keeps.each fun change _ => Keeps.bind (inOrder_indexItem before coordinated change) fun _ _ =>
    inOrder_persistItem origin change

/-- However a mutation is applied, the index is kept in order. -/
theorem inOrder_applyPending (pending : PendingMutation) (s : ServerState) :
    Keeps (InOrder ctx) (applyPending ctx s pending) fun _ => True := by
  have write : ∀ f : ServerState → StoreRegistry, Keeps (InOrder ctx)
      (modify fun t : ServerState => { t with registry := f t } : ServerM Unit) fun _ => True := fun _ =>
    Keeps.modify fun _ kept => kept
  obtain ⟨kind, origin, mode, depth, chain⟩ := pending
  cases kind with
  | uniform items change =>
    match items with
    | [] => exact Keeps.pure trivial
    | [item] =>
      have reduce : Keeps (InOrder ctx) (reduceOne ctx ⟨change, item⟩) fun _ => True := by
        refine keeps_sameGraph fun s => ?_
        obtain ⟨t, run, -, -, graph, -⟩ := reduceOne_run ctx ⟨change, item⟩ s
        rw [final_of_ok run, graph]
      refine Keeps.bind reduce fun _ _ => Keeps.bind (inOrder_indexItem _ _ _) fun _ _ => ?_
      refine Keeps.bind (Keeps.attempt (inOrder_persistItem origin _)) fun persisted _ => ?_
      refine Keeps.bind (Keeps.attempt (inOrder_watches _ _)) fun watched _ => ?_
      exact Keeps.bind (Keeps.passOn (G := fun _ => True) fun _ _ => trivial) fun _ _ =>
        Keeps.passOn fun _ _ => trivial
    | first :: second :: rest =>
      refine Keeps.bind (write _) fun _ _ => ?_
      refine Keeps.bind (Keeps.attempt (inOrder_indexAndPersist _ _ _ _)) fun mutated _ => ?_
      refine Keeps.bind (Keeps.attempt (G := fun _ => True) ?_) fun watched _ => ?_
      · exact Keeps.ite (fun _ => Keeps.pure trivial) fun _ =>
          keeps_sameGraph fun s => ((moves_liftWatches _ _).final s).graph
      · exact Keeps.bind (Keeps.passOn (G := fun _ => True) fun _ _ => trivial) fun _ _ =>
          Keeps.passOn fun _ _ => trivial
  | replace upserts deletes expected =>
    unfold applyPending
    dsimp only
    cases upserts.head?.or deletes.head? with
    | none => exact Keeps.pure trivial
    | some first =>
      exact Keeps.bind (write _) fun _ _ => Keeps.bind (inOrder_indexAndPersist _ _ _ _) fun _ _ =>
        inOrder_watches _ _

/-- However a mutation is reduced, the index is kept in order. -/
theorem inOrder_reduced {s : ServerState} (kept : InOrder ctx s) (pending : PendingMutation) :
    InOrder ctx (final (reducePending ctx (submitDerived ctx) pending) s) := by
  have same := sameCore_after_commit ctx pending s
  have committed : InOrder ctx (final (commitPending ctx pending) s) := by
    unfold final
    rw [commitPending_eq]
    cases planPending ctx s pending with
    | error _ => exact kept
    | ok planned =>
      cases planned with
      | none => exact kept
      | some cascades =>
        exact (Keeps.bind (inOrder_applyPending pending s) fun _ _ =>
          Keeps.pure (G := fun _ => True) trivial).final kept
  unfold InOrder at committed ⊢
  rwa [same.graph]

theorem inOrder_calls (ctx : MykoServerContext) :
    CallInvariant ctx (fun _ _ => True) (fun _ _ => True) (fun _ _ => True) (fun _ => True) (InOrder ctx)
      (InOrder ctx) where
  enter kept _ _ _ queued := by
    obtain ⟨c, rfl, -⟩ := enqueueCausal_ok rfl queued
    exact kept
  replace kept _ _ queued := by
    obtain ⟨c, rfl, -⟩ := enqueueCausalReplace_ok rfl queued
    exact kept
  reduce {s c pending queue} kept _ _ _ :=
    inOrder_reduced (s := { s with causal := some (c.pop pending queue) }) kept pending
  direct kept _ _ _ _ := inOrder_reduced kept _
  close kept _ := kept
  entries _ := entries_always _ _
  buffers kept := kept
  other {s call} kept _ other _ := by
    rcases final_other ctx other s with ⟨_, _, _, _, -, same⟩ | ⟨_, _, _, -, same, -⟩ | ⟨_, same⟩ | ⟨_, same⟩ <;>
      · rw [same]
        exact kept

/-- Whatever calls are made and however they end, the index is in order. -/
theorem inOrder_run {s : ServerState} (run : Run ctx (fun _ _ => True) s) : InOrder ctx s := by
  refine (run_keeps (inOrder_calls ctx) ?_ (fun _ _ _ _ _ => trivial) run).1
  exact ⟨fun registration registered => (coherent_empty ctx.schema).indexes registration registered |>.toSound,
    fun _ _ _ _ => rfl⟩

/-! ### One item after the other -/

section
variable {origin : Origin} {mode : EdgeApplyMode} {s t : ServerState}

/-- An item that passes its checks is written and indexed. -/
theorem emitOne_final (origin : Origin) {item : Item}
    (planned : ∃ cascades, planItem ctx s (ctx.schema.coordinates item .set) .set mode item = .ok cascades)
    (extracts : ChangeExtracts ctx.schema s.registry ⟨.set, item⟩) :
    let next := final (emitOne ctx (submitDerived ctx) item .set origin mode) s
    next.registry = s.registry.write ⟨.set, item⟩ ∧
      next.graph = reindexChange ctx.schema s.registry s.graph ⟨.set, item⟩ := by
  obtain ⟨cascades, planned⟩ := planned
  have plan : planPending ctx s (directPending [item] .set origin mode) = .ok (some cascades) := by
    show some <$> planItem ctx s (coordinatedOf ctx (directPending [item] .set origin mode)) .set mode item = _
    have coordinated : coordinatedOf ctx (directPending [item] .set origin mode) =
        ctx.schema.coordinates item .set := Bool.or_false _
    rw [coordinated, planned]
    rfl
  have same := sameCore_after_commit ctx (directPending [item] .set origin mode) s
  have alone : final (reducePending ctx (submitDerived ctx) (directPending [item] .set origin mode)) s =
      final (emitOne ctx (submitDerived ctx) item .set origin mode) s := by
    show final (emitOne ctx (submitDerived ctx) item .set origin mode >>= fun _ => pure true) s = _
    rw [final_bind]
    unfold final
    cases emitOne ctx (submitDerived ctx) item .set origin mode s <;> rfl
  rw [alone] at same
  rcases commitPending_final ctx (directPending [item] .set origin mode) s with ⟨-, refused⟩ | ⟨_, _, applied⟩
  · exact absurd plan (refused cascades)
  have changes : changesOf s (directPending [item] .set origin mode) = [⟨.set, item⟩] :=
    changesOf_single s item .set origin mode 0 []
  have registry := applied.registry
  have graph := applied.graph
  rw [changes] at registry graph
  rw [processed_singleton] at graph
  refine ⟨same.registry.trans registry, same.graph.trans (graph fun change listed => ?_)⟩
  rw [List.mem_singleton.mp listed]
  exact extracts

theorem storedEdges_set (registration : EdgeRegistration) (registry : StoreRegistry) (item : Item) :
    registration.storedEdges (registry.write ⟨.set, item⟩) =
      if item.entityType = registration.edgeType then
        Function.update (registration.storedEdges registry) item.id (registration.edgeOf (some item))
      else registration.storedEdges registry := by
  funext id
  unfold EdgeRegistration.storedEdges
  rw [StoreRegistry.getValue_write]
  by_cases typed : item.entityType = registration.edgeType
  · rw [if_pos typed]
    by_cases here : id = item.id
    · subst here
      rw [Function.update_self, if_pos (by simp [Change.key, typed])]
      rfl
    · rw [Function.update_of_ne here, if_neg (by simp [Change.key, here])]
  · rw [if_neg typed, if_neg (by simp [Change.key, Ne.symm typed])]

/-- What a sequence that goes through leaves in the stores and in the index of each type. -/
theorem emitSequence_spec {items : List Item} (goes : Goes ctx origin mode items s) :
    (emitSequence ctx origin mode items s).registry = s.registry.writeAll (items.map (Change.mk .set)) ∧
      (∀ registration ∈ ctx.schema.registrations,
        ((emitSequence ctx origin mode items s).graph.edgeTypes registration.edgeType).projections =
          reindexEach ctx.schema registration (registration.storedEdges s.registry)
            (edgeChanges registration (items.map (Change.mk .set)))
            (s.graph.edgeTypes registration.edgeType).projections) ∧
      ∀ edgeType, ctx.schema.registration edgeType = none →
        (emitSequence ctx origin mode items s).graph.edgeTypes edgeType = s.graph.edgeTypes edgeType := by
  induction items generalizing s with
  | nil => exact ⟨rfl, fun _ _ => rfl, fun _ _ => rfl⟩
  | cons item rest ih =>
    obtain ⟨⟨planned, extracts⟩, goes⟩ := goes
    obtain ⟨registry, graph⟩ := emitOne_final origin planned extracts
    obtain ⟨registries, indexes, others⟩ := ih goes
    refine ⟨?_, fun registration registered => ?_, fun edgeType unregistered => ?_⟩
    · rw [emitSequence, registries, registry]
      rfl
    · rw [emitSequence, indexes registration registered, registry, graph]
      have one := reindexChanges_edgeTypes registered s.registry [⟨.set, item⟩] s.graph
      rw [List.map_cons, edgeChanges_cons]
      by_cases typed : item.entityType = registration.edgeType
      · rw [edgeChanges_cons, if_pos typed] at one
        rw [if_pos typed, storedEdges_set, if_pos typed]
        exact congrArg _ one
      · rw [edgeChanges_cons, if_neg typed] at one
        rw [if_neg typed, storedEdges_set, if_neg typed]
        exact congrArg _ one
    · rw [emitSequence, others edgeType unregistered, graph]
      exact reindexChanges_unregistered unregistered s.registry [⟨.set, item⟩] s.graph

theorem extracts_of_goes {items : List Item} (goes : Goes ctx origin mode items s) {item : Item}
    (listed : item ∈ items) {registration : EdgeRegistration}
    (found : ctx.schema.registration item.entityType = some registration) :
    registration.Extracts (some item) := by
  induction items generalizing s with
  | nil => cases listed
  | cons first rest ih =>
    obtain ⟨⟨-, extracts⟩, goes⟩ := goes
    rcases List.mem_cons.mp listed with rfl | listed
    · exact (extracts registration found).2
    · exact ih goes listed

/-- What a batch that goes through leaves in the stores and in the index of each type. -/
theorem batch_spec {items : List Item} {depth : Nat} {chain : List String} {applied : Bool}
    (run : reducePending ctx (submitDerived ctx) ⟨.uniform items .set, origin, mode, depth, chain⟩ s =
      .ok applied t) :
    t.registry = s.registry.writeAll (items.map (Change.mk .set)) ∧
      (∀ registration ∈ ctx.schema.registrations,
        (t.graph.edgeTypes registration.edgeType).projections =
          reindexAll ctx.schema registration (registration.storedEdges s.registry)
            (edgeChanges registration (items.map (Change.mk .set)))
            (s.graph.edgeTypes registration.edgeType).projections) ∧
      ∀ edgeType, ctx.schema.registration edgeType = none →
        t.graph.edgeTypes edgeType = s.graph.edgeTypes edgeType := by
  rcases reduced_ok run with ⟨plan, -⟩ | ⟨cascades, u, -, committed, same⟩
  · -- A batch is never given up for the state of the graph.
    exfalso
    unfold planPending at plan
    dsimp only at plan
    split at plan
    · cases plan
    · obtain ⟨_, _, other⟩ := except_map_ok plan
      cases other
    · obtain ⟨_, _, other⟩ := except_map_ok plan
      cases other
    · rename_i kind
      cases kind
  have registry := committed.registry
  have graph := committed.graph
  change u.registry = s.registry.writeAll ((groupByType items).flatten.map (Change.mk .set)) at registry
  change u.graph = reindexChanges ctx.schema s.registry s.graph
    ((groupByType items).flatten.map (Change.mk .set)) at graph
  rw [writeAll_grouped] at registry
  refine ⟨same.registry.trans registry, fun registration registered => ?_, fun edgeType unregistered => ?_⟩
  · rw [same.graph, graph, reindexChanges_edgeTypes registered, edgeChanges_grouped]
  · rw [same.graph, graph, reindexChanges_unregistered unregistered]

theorem passing_subset {within : Option (List TransitionKey)} {items : List Item} :
    ∀ item ∈ passing ctx within items, item ∈ items := by
  intro item listed
  unfold passing at listed
  split at listed
  · exact listed
  · exact (unseen_sublist _ _ _).subset listed

theorem mem_edgeChanges_sets {registration : EdgeRegistration} {items : List Item}
    {change : String × Option IndexedEdge} :
    change ∈ edgeChanges registration (items.map (Change.mk .set)) ↔
      ∃ item ∈ items, item.entityType = registration.edgeType ∧
        (item.id, registration.edgeOf (some item)) = change := by
  unfold edgeChanges
  rw [List.mem_map]
  constructor
  · rintro ⟨written, listed, rfl⟩
    obtain ⟨listed, typed⟩ := List.mem_filter.mp listed
    obtain ⟨item, among, rfl⟩ := List.mem_map.mp listed
    exact ⟨item, among, of_decide_eq_true typed, rfl⟩
  · rintro ⟨item, listed, typed, rfl⟩
    exact ⟨⟨.set, item⟩, List.mem_filter.mpr ⟨List.mem_map_of_mem listed, decide_eq_true typed⟩, rfl⟩

/-- A batch of SETs that goes through leaves the stores and the index that the same SETs leave one at a time
exactly when no last item is lost and no edge is left behind or out of balance. -/
theorem batch_is_sequence_iff {items : List Item} {within : Option (List TransitionKey)} {depth : Nat}
    {chain : List String} {applied : Bool} (kept : InOrder ctx s)
    (run : reducePending ctx (submitDerived ctx)
      ⟨.uniform (passing ctx within items) .set, origin, mode, depth, chain⟩ s = .ok applied t) :
    (Goes ctx origin mode items s ∧ t.registry = (emitSequence ctx origin mode items s).registry ∧
        t.graph.SameIndex (emitSequence ctx origin mode items s).graph) ↔
      Goes ctx origin mode items s ∧ KeepsLast ctx within items s ∧ Balanced ctx within items s := by
  refine and_congr_right fun goes => ?_
  obtain ⟨registry, indexes, others⟩ := batch_spec run
  obtain ⟨registries, sequence, unregistered⟩ := emitSequence_spec goes
  rw [registry, registries, writeAll_passing_iff]
  refine and_congr_right fun keeps => ?_
  have same := (writeAll_passing_iff within items s).mpr keeps
  have part : ∀ registration ∈ ctx.schema.registrations,
      ((t.graph.edgeTypes registration.edgeType).projections =
        ((emitSequence ctx origin mode items s).graph.edgeTypes registration.edgeType).projections ↔
      ∀ id : String, keysGiven ctx.schema registration items id ≠ [] →
        (∀ key ∉ storedKeys ctx.schema registration s.registry id,
          key ∉ storedKeys ctx.schema registration (s.registry.writeAll (items.map (Change.mk .set))) id →
          (∃ given ∈ keysGiven ctx.schema registration items id, key ∈ given) →
          (∀ given ∈ keysGiven ctx.schema registration (passing ctx within items) id, key ∉ given) ∧
            ¬(s.graph.edgeTypes registration.edgeType).Incident key id) ∧
        (keysGiven ctx.schema registration (passing ctx within items) id = [] →
          (∀ key ∈ storedKeys ctx.schema registration s.registry id,
            (s.graph.edgeTypes registration.edgeType).Incident key id) ∧
          (ctx.schema.projectsAnyEndpoint registration.edgeType = true →
            (s.graph.edgeTypes registration.edgeType).edges id = registration.storedEdges s.registry id))) := by
    intro registration registered
    have sound := kept.sound registration registered
    have found := GraphSchema.registration_of_mem registered
    have puts : ∀ change ∈ edgeChanges registration (items.map (Change.mk .set)), change.2 ≠ none := by
      intro change listed
      obtain ⟨item, among, typed, rfl⟩ := mem_edgeChanges_sets.mp listed
      rcases extracts_cases (extracts_of_goes goes among (typed ▸ found)) with
        ⟨absent, -⟩ | ⟨_, edge, -, -, extracted⟩
      · cases absent
      · rw [extracted]
        exact Option.some_ne_none edge
    have subset : ∀ change ∈ edgeChanges registration ((passing ctx within items).map (Change.mk .set)),
        change ∈ edgeChanges registration (items.map (Change.mk .set)) := by
      intro change listed
      obtain ⟨item, among, typed, rfl⟩ := mem_edgeChanges_sets.mp listed
      exact mem_edgeChanges_sets.mpr ⟨item, passing_subset item among, typed, rfl⟩
    have ends := edgesAfter_edgeChanges registration s.registry (items.map (Change.mk .set))
    have endsReduced := edgesAfter_edgeChanges registration s.registry
      ((passing ctx within items).map (Change.mk .set))
    rw [same] at endsReduced
    have bare : (s.graph.edgeTypes registration.edgeType).projections.Sound ctx.schema registration :=
      ⟨sound.projected, sound.canonical⟩
    have agree := edge_agrees_iff bare (kept.unkept registration registered)
      (EdgeRegistration.ownId_storedEdges registration s.registry) (ownIds_edgeChanges registration _)
      (ownIds_edgeChanges registration _) (fun change listed => puts change (subset change listed)) puts subset
      ends endsReduced
    have reduced := sound_reindexAll bare (registration.storedEdges s.registry)
      (edgeChanges registration ((passing ctx within items).map (Change.mk .set)))
    have each : (reindexEach ctx.schema registration (registration.storedEdges s.registry)
        (edgeChanges registration (items.map (Change.mk .set))) _).Sound ctx.schema registration :=
      sound_reindexEach bare
    rw [← indexes registration registered] at reduced
    rw [← sequence registration registered] at each
    have compare := projections_iff reduced each
    change (t.graph.edgeTypes registration.edgeType).projections =
      ((emitSequence ctx origin mode items s).graph.edgeTypes registration.edgeType).projections ↔ _ at compare
    rw [compare, indexes registration registered, sequence registration registered, forall_comm (α := IndexKey),
      ← forall_and]
    exact forall_congr' agree
  constructor
  · intro agree registration registered
    exact (part registration registered).mp (agree registration.edgeType)
  · intro balanced edgeType
    cases found : ctx.schema.registration edgeType with
    | none => rw [others edgeType found, unregistered edgeType found]
    | some registration =>
      obtain ⟨registered, rfl⟩ := GraphSchema.registration_mem found
      exact (part registration registered).mpr (balanced registration registered)

end

namespace Sample

def ends : ServerState := final (batchSet server [node "x", node "y"]) .initial

/-- A link and a node sent together are a link and a node sent one after the other. -/
theorem batch_is_sequence_of_two :
    let items := [link "e" "x" "y", node "z"]
    let after := final (reducePending server (submitDerived server)
      ⟨.uniform items .set, .localOrigin, .authoritative, 0, []⟩) ends
    (Goes server .localOrigin .authoritative items ends ∧
      after.registry = (emitSequence server .localOrigin .authoritative items ends).registry ∧
      after.graph.SameIndex (emitSequence server .localOrigin .authoritative items ends).graph) ↔
    Goes server .localOrigin .authoritative items ends ∧ KeepsLast server none items ends ∧
      Balanced server none items ends := by
  have run : Run server (fun _ _ => True) ends := .call (.batchSet [node "x", node "y"]) .initial trivial
  have reduced : reducePending server (submitDerived server)
      ⟨.uniform (passing server none [link "e" "x" "y", node "z"]) .set, .localOrigin, .authoritative, 0, []⟩
      ends = .ok true _ := rfl
  exact batch_is_sequence_iff (inOrder_run run) reduced

/-- A link that is turned and turned back in one batch stays turned. -/
theorem turned_back_is_lost : ∃ s, Run server (fun s call => call.Returns server s) s ∧
    ∃ t, batchSet server [link "e" "x" "y", link "e" "y" "x", link "e" "x" "y"] s = .ok () t ∧
      t.registry ≠ (emitSequence server .localOrigin .authoritative
        [link "e" "x" "y", link "e" "y" "x", link "e" "x" "y"] s).registry := by
  refine ⟨ends, .call (.batchSet [node "x", node "y"]) .initial (ok_of_run' (by decide +kernel)), _,
    ok_final_of_run' (by decide +kernel), fun same => ?_⟩
  have link := congrArg (fun registry => (registry.getValue "link" "e").map fun item => item.field "source") same
  revert link
  decide +kernel

end Sample
end Myko

import Myko.Graph.Reindex

/-!
Coherence of the graph state with the stores, and what a batch of canonical writes makes of it.
-/

namespace Myko
open StateError SecondaryIndex

variable {schema : GraphSchema} {registration : EdgeRegistration}

/-- The same edges, adjacency and pairs; the generation counters may differ. -/
def GraphState.SameIndex (state other : GraphState) : Prop :=
  ∀ edgeType, (state.edgeTypes edgeType).projections = (other.edgeTypes edgeType).projections

/-- The index of every edge type is that of the stored edges, which all extract. -/
structure GraphState.Coherent (schema : GraphSchema) (registry : StoreRegistry)
    (state : GraphState) : Prop where
  indexes : ∀ registration ∈ schema.registrations,
    (state.edgeTypes registration.edgeType).Indexes schema registration
      (registration.storedEdges registry)
  extracts : ∀ registration ∈ schema.registrations, ∀ id,
    registration.Extracts (registry.getValue registration.edgeType id)
  unregistered : ∀ edgeType, schema.registration edgeType = none →
    (state.edgeTypes edgeType).projections = EdgeTypeState.empty

/-- The state equals the one `rebuild` computes from the stores. -/
def GraphState.MatchesRebuild (schema : GraphSchema) (registry : StoreRegistry)
    (state : GraphState) : Prop :=
  ∃ generation rebuilt, rebuild schema registry state = .ok generation rebuilt ∧
    state.SameIndex rebuilt

/-! ### Batches of writes -/

/-- The writes of one edge type, as changes of its index. -/
def edgeChanges (registration : EdgeRegistration) (changes : List Change) :
    List (String × Option IndexedEdge) :=
  (changes.filter fun change => change.item.entityType = registration.edgeType).map fun change =>
    (change.item.id, registration.edgeOf change.value)

theorem edgeChanges_cons (registration : EdgeRegistration) (change : Change) (rest : List Change) :
    edgeChanges registration (change :: rest) =
      if change.item.entityType = registration.edgeType then
        (change.item.id, registration.edgeOf change.value) :: edgeChanges registration rest
      else edgeChanges registration rest := by
  by_cases here : change.item.entityType = registration.edgeType <;> simp [edgeChanges, here]

theorem edgeChanges_append (registration : EdgeRegistration) (first rest : List Change) :
    edgeChanges registration (first ++ rest) =
      edgeChanges registration first ++ edgeChanges registration rest := by
  simp [edgeChanges]

/-- Apply a write whose old value is the one the stores held at the start. -/
def reindexChange (schema : GraphSchema) (before : StoreRegistry) (state : GraphState)
    (change : Change) : GraphState :=
  match schema.registration change.item.entityType with
  | none => state
  | some registration =>
    state.reindexed schema registration (before.canonicalItem change.item) change.value

def reindexChanges (schema : GraphSchema) (before : StoreRegistry) (state : GraphState)
    (changes : List Change) : GraphState := changes.foldl (reindexChange schema before) state

theorem reindex_projections (schema : GraphSchema) (registration : EdgeRegistration)
    (old new : Option IndexedEdge) (state : EdgeTypeState) :
    (reindex schema registration old new state).projections =
      reindex schema registration old new state.projections := by
  have drop : ∀ edge (state : EdgeTypeState), (dropEdge registration edge state).projections =
      dropEdge registration edge state.projections := by
    intro edge state
    unfold dropEdge removeIndexed EdgeTypeState.projections
    dsimp only
    split_ifs <;> rfl
  have insert : ∀ edge (state : EdgeTypeState),
      (insertIndexed schema registration state edge).projections =
        insertIndexed schema registration state.projections edge := by
    intro edge state
    unfold insertIndexed EdgeTypeState.projections
    dsimp only
    split_ifs <;> rfl
  cases old <;> cases new <;> simp only [reindex, drop, insert]

theorem reindexChanges_edgeTypes (registered : registration ∈ schema.registrations)
    (before : StoreRegistry) (changes : List Change) (state : GraphState) :
    ((reindexChanges schema before state changes).edgeTypes registration.edgeType).projections =
      reindexAll schema registration (registration.storedEdges before)
        (edgeChanges registration changes) (state.edgeTypes registration.edgeType).projections := by
  induction changes generalizing state with
  | nil => rfl
  | cons change rest ih =>
    change ((reindexChanges schema before (reindexChange schema before state change) rest).edgeTypes
      _).projections = _
    rw [ih, edgeChanges_cons]
    by_cases here : change.item.entityType = registration.edgeType
    · have found : schema.registration change.item.entityType = some registration := by
        rw [here]
        exact GraphSchema.registration_of_mem registered
      have old : registration.edgeOf (before.canonicalItem change.item) =
          registration.storedEdges before change.item.id := by
        rw [EdgeRegistration.storedEdges, StoreRegistry.canonicalItem, here]
      rw [reindexChange, found]
      dsimp only
      rw [reindexed_edgeTypes_self, old, reindex_projections, if_pos here]
      rfl
    · have same : (reindexChange schema before state change).edgeTypes registration.edgeType =
          state.edgeTypes registration.edgeType := by
        unfold reindexChange
        cases found : schema.registration change.item.entityType with
        | none => rfl
        | some other =>
          refine reindexed_edgeTypes_of_ne _ _ _ _ fun same => here ?_
          exact ((GraphSchema.registration_mem found).2).symm.trans same.symm
      rw [same, if_neg here]

theorem reindexChanges_unregistered {edgeType : String}
    (unregistered : schema.registration edgeType = none) (before : StoreRegistry)
    (changes : List Change) (state : GraphState) :
    (reindexChanges schema before state changes).edgeTypes edgeType = state.edgeTypes edgeType := by
  induction changes generalizing state with
  | nil => rfl
  | cons change rest ih =>
    change (reindexChanges schema before (reindexChange schema before state change) rest).edgeTypes
      edgeType = _
    rw [ih, reindexChange]
    cases found : schema.registration change.item.entityType with
    | none => rfl
    | some other =>
      refine reindexed_edgeTypes_of_ne _ _ _ _ ?_
      rintro rfl
      rw [GraphSchema.registration_of_mem (GraphSchema.registration_mem found).1] at unregistered
      cases unregistered

/-- All values a write touches extract. -/
def ChangeExtracts (schema : GraphSchema) (before : StoreRegistry) (change : Change) : Prop :=
  ∀ registration, schema.registration change.item.entityType = some registration →
    registration.Extracts (before.canonicalItem change.item) ∧ registration.Extracts change.value

/-- A write the index can act on: something is put, or something was there to take. -/
def Effective (before : StoreRegistry) (change : Change) : Prop :=
  change.value.or (before.canonicalItem change.item) ≠ none

theorem effective_item {before : StoreRegistry} {change : Change} (h : Effective before change) :
    ∃ item, change.value.or (before.canonicalItem change.item) = some item ∧
      item.entityType = change.item.entityType := by
  obtain ⟨kind, written⟩ := change
  cases kind with
  | set => exact ⟨written, rfl, rfl⟩
  | del =>
    obtain ⟨item, present⟩ := Option.ne_none_iff_exists'.mp h
    exact ⟨item, present, (StoreRegistry.getValue_keyed present).1⟩

theorem applyEdge_change {before : StoreRegistry} {change : Change}
    (effective : Effective before change) (extracts : ChangeExtracts schema before change)
    (state : GraphState) :
    applyEdge schema (before.canonicalItem change.item) change.value state =
      .ok (reindexChange schema before state change).generation
        (reindexChange schema before state change) := by
  obtain ⟨item, present, sameType⟩ := effective_item effective
  unfold reindexChange
  cases found : schema.registration change.item.entityType with
  | none => exact applyEdge_unregistered present (sameType ▸ found) state
  | some registration =>
    obtain ⟨old, new⟩ := extracts registration found
    exact applyEdge_registered present (sameType ▸ found) old new state

theorem applyEdge_change_extracts {before : StoreRegistry} {change : Change}
    (effective : Effective before change) {state after : GraphState} {generation : Nat}
    (h : applyEdge schema (before.canonicalItem change.item) change.value state =
      .ok generation after) : ChangeExtracts schema before change := by
  obtain ⟨item, present, sameType⟩ := effective_item effective
  exact fun registration found => applyEdge_ok_extracts present (sameType ▸ found) h

/-- The edge of one id after a list of writes. -/
theorem edgesAfter_edgeChanges (registration : EdgeRegistration) (before : StoreRegistry)
    (changes : List Change) :
    edgesAfter (registration.storedEdges before) (edgeChanges registration changes) =
      registration.storedEdges (before.writeAll changes) := by
  funext id
  induction changes using List.reverseRecOn with
  | nil => rfl
  | append_singleton changes change ih =>
    have value : (before.writeAll (changes ++ [change])).getValue registration.edgeType id =
        if (registration.edgeType, id) = change.key then change.value
        else (before.writeAll changes).getValue registration.edgeType id := by
      rw [StoreRegistry.writeAll_append]
      exact StoreRegistry.getValue_write _ change _ _
    rw [EdgeRegistration.storedEdges, value]
    by_cases here : change.item.entityType = registration.edgeType
    · rw [edgeChanges_append, edgeChanges_cons, if_pos here]
      change edgesAfter _ (_ ++ [(change.item.id, registration.edgeOf change.value)]) id = _
      rw [edgesAfter_concat, ih]
      by_cases same : change.item.id = id
      · simp [Change.key, here, same]
      · simp [Change.key, here, same, Ne.symm same, EdgeRegistration.storedEdges]
    · have listed : edgeChanges registration (changes ++ [change]) =
          edgeChanges registration changes := by
        rw [edgeChanges_append, edgeChanges_cons, if_neg here]
        exact List.append_nil _
      rw [listed, ih]
      simp [Change.key, Ne.symm here, EdgeRegistration.storedEdges]

/-- A stored edge has been written last or has been left alone. -/
theorem storedEdges_writeAll {registration : EdgeRegistration} {before : StoreRegistry}
    {changes : List Change} {id : String} {edge : IndexedEdge}
    (stored : registration.storedEdges (before.writeAll changes) id = some edge) :
    (∃ item, ⟨.set, item⟩ ∈ changes ∧ item.entityType = registration.edgeType ∧ item.id = id ∧
      registration.indexedEdge item = .ok edge) ∨
    (registration.storedEdges before id = some edge ∧
      ∀ change ∈ changes, change.key ≠ (registration.edgeType, id)) := by
  unfold EdgeRegistration.storedEdges at stored ⊢
  rw [StoreRegistry.getValue_writeAll] at stored
  cases last : (changes.filter fun change => change.key = (registration.edgeType, id)).getLast? with
  | none =>
    rw [last] at stored
    rw [List.getLast?_eq_none_iff, List.filter_eq_nil_iff] at last
    exact .inr ⟨stored, fun change member => by simpa using last change member⟩
  | some change =>
    rw [last] at stored
    obtain ⟨member, here⟩ := List.mem_filter.mp (List.mem_of_getLast? last)
    have here := Prod.mk.inj (of_decide_eq_true here)
    obtain ⟨kind, item⟩ := change
    cases kind with
    | del => simp [Change.value, EdgeRegistration.edgeOf] at stored
    | set =>
      refine .inl ⟨item, member, here.1, here.2, ?_⟩
      simp only [Change.value, EdgeRegistration.edgeOf, Option.bind_some] at stored
      cases indexed : registration.indexedEdge item with
      | ok found =>
        rw [indexed] at stored
        exact congrArg Except.ok (Option.some.inj stored)
      | error error =>
        rw [indexed] at stored
        cases stored

theorem ownIds_edgeChanges (registration : EdgeRegistration) (changes : List Change) :
    OwnIds (edgeChanges registration changes) := by
  intro id edge member
  simp only [edgeChanges, List.mem_map, List.mem_filter] at member
  obtain ⟨change, -, same⟩ := member
  obtain ⟨rfl, extracted⟩ := Prod.mk.injEq .. ▸ same
  obtain ⟨kind, written⟩ := change
  cases kind with
  | set => exact EdgeRegistration.edgeOf_id extracted
  | del => simp [Change.value, EdgeRegistration.edgeOf] at extracted

/-- Every key a batch gives an edge on the way is one it had before or has in the end. -/
def SettledChanges (schema : GraphSchema) (before : StoreRegistry) (changes : List Change) : Prop :=
  ∀ registration ∈ schema.registrations,
    Settled (fun id => IndexedEdge.keySet schema registration (registration.storedEdges before id))
      (keyChanges schema registration (edgeChanges registration changes))

theorem storedEdges_eq_none {registry : StoreRegistry} {id : String}
    (extracts : registration.Extracts (registry.getValue registration.edgeType id))
    (none : registration.storedEdges registry id = none) :
    registry.getValue registration.edgeType id = Option.none := by
  rcases extracts_cases extracts with ⟨absent, -⟩ | ⟨_, edge, -, -, found⟩
  · exact absent
  · rw [EdgeRegistration.storedEdges, found] at none
    cases none

/-- A batch keeps stores and index coherent exactly when it is settled. -/
theorem coherent_reindexChanges_iff {before : StoreRegistry} {state : GraphState}
    (coherent : state.Coherent schema before) {changes : List Change}
    (effective : ∀ change ∈ changes, (schema.registration change.item.entityType).isSome →
      Effective before change)
    (extracts : ∀ change ∈ changes, ChangeExtracts schema before change) :
    (reindexChanges schema before state changes).Coherent schema (before.writeAll changes) ↔
      SettledChanges schema before changes := by
  have deleted : ∀ registration ∈ schema.registrations,
      ∀ change ∈ edgeChanges registration changes, change.2 = none →
        registration.storedEdges before change.1 ≠ none := by
    intro registration registered change member gone had
    simp only [edgeChanges, List.mem_map, List.mem_filter, decide_eq_true_eq] at member
    obtain ⟨written, ⟨listed, sameType⟩, rfl⟩ := member
    have found : schema.registration written.item.entityType = some registration := by
      rw [sameType]
      exact GraphSchema.registration_of_mem registered
    have absent := storedEdges_eq_none (coherent.extracts registration registered written.item.id) had
    have nothing : written.value = none := by
      rcases extracts_cases (extracts written listed registration found).2 with ⟨h, -⟩ | ⟨_, _, -, -, h⟩
      · exact h
      · rw [h] at gone
        cases gone
    apply effective written listed (by rw [found]; rfl)
    rw [nothing, StoreRegistry.canonicalItem, sameType, absent]
    rfl
  have each_type : ∀ registration ∈ schema.registrations,
      (((reindexChanges schema before state changes).edgeTypes registration.edgeType).Indexes
          schema registration (registration.storedEdges (before.writeAll changes)) ↔
        Settled (fun id => IndexedEdge.keySet schema registration (registration.storedEdges before id))
          (keyChanges schema registration (edgeChanges registration changes))) := by
    intro registration registered
    rw [← indexes_projections, reindexChanges_edgeTypes registered, ← edgesAfter_edgeChanges]
    exact indexes_reindexAll_iff (indexes_projections.mpr (coherent.indexes registration registered))
      (registration.ownId_storedEdges before) (ownIds_edgeChanges registration changes)
      (deleted registration registered)
  constructor
  · intro after registration registered
    exact (each_type registration registered).mp (after.indexes registration registered)
  · intro settled
    refine ⟨fun registration registered =>
      (each_type registration registered).mpr (settled registration registered), ?_, ?_⟩
    · intro registration registered id
      rw [StoreRegistry.getValue_writeAll]
      cases last : (changes.filter fun change =>
          change.key = (registration.edgeType, id)).getLast? with
      | none => exact coherent.extracts registration registered id
      | some change =>
        have member := List.mem_filter.mp (List.mem_of_getLast? last)
        have sameType : change.item.entityType = registration.edgeType := by
          simpa [Change.key] using congrArg Prod.fst (of_decide_eq_true member.2)
        have found : schema.registration change.item.entityType = some registration := by
          rw [sameType]
          exact GraphSchema.registration_of_mem registered
        exact (extracts change member.1 registration found).2
    · intro edgeType unregistered
      rw [reindexChanges_unregistered unregistered]
      exact coherent.unregistered edgeType unregistered

/-! ### Rebuilding -/

/-- The index of every edge type lists at least what it has to. -/
structure EdgeTypeState.Covering (schema : GraphSchema) (registration : EdgeRegistration)
    (registry : StoreRegistry) (state : EdgeTypeState) : Prop extends
    state.Sound schema registration where
  covers : Covers state.Incident fun id =>
    IndexedEdge.keySet schema registration (registration.storedEdges registry id)

def GraphState.Covering (schema : GraphSchema) (registry : StoreRegistry) (state : GraphState) :
    Prop :=
  ∀ registration ∈ schema.registrations,
    (state.edgeTypes registration.edgeType).Covering schema registration registry

theorem GraphState.Coherent.covering {registry : StoreRegistry} {state : GraphState}
    (coherent : state.Coherent schema registry) : state.Covering schema registry :=
  fun registration registered =>
    have indexes := coherent.indexes registration registered
    ⟨indexes.toSound, indexes.incident.covers⟩

/-- No batch loses an entry, whether or not it leaves entries behind. -/
theorem covering_reindexChanges {before : StoreRegistry} {state : GraphState}
    (covering : state.Covering schema before) (changes : List Change) :
    (reindexChanges schema before state changes).Covering schema (before.writeAll changes) := by
  intro registration registered
  have held := covering registration registered
  have sound : (state.edgeTypes registration.edgeType).projections.Sound schema registration :=
    ⟨held.projected, held.canonical⟩
  have after := sound_reindexAll sound (registration.storedEdges before) (edgeChanges registration changes)
  let old := fun id => IndexedEdge.keySet schema registration (registration.storedEdges before id)
  have covers := @Covers.refileAll _ _ _ _ _ old held.covers
    (keyChanges schema registration (edgeChanges registration changes))
  rw [← reindexChanges_edgeTypes registered] at after
  refine ⟨⟨after.projected, after.canonical⟩, fun key id due => ?_⟩
  change ((reindexChanges schema before state changes).edgeTypes
    registration.edgeType).projections.Incident key id
  rw [reindexChanges_edgeTypes registered, incident_reindexAll sound
    (registration.ownId_storedEdges before) (ownIds_edgeChanges registration changes)]
  apply covers
  rw [keysAfter_keyChanges, edgesAfter_edgeChanges]
  exact due

/-- The stored edges as writes over empty stores. -/
def storedChanges (schema : GraphSchema) (registry : StoreRegistry) : List Change :=
  schema.registrations.flatMap fun registration =>
    (registry.snapshot registration.edgeType).map (Change.mk .set)

theorem mem_storedChanges {registry : StoreRegistry} {change : Change} :
    change ∈ storedChanges schema registry ↔
      change.kind = .set ∧ (schema.registration change.item.entityType).isSome ∧
        registry.canonicalItem change.item = some change.item := by
  obtain ⟨kind, item⟩ := change
  simp only [storedChanges, List.mem_flatMap, List.mem_map, StoreRegistry.mem_snapshot]
  constructor
  · rintro ⟨registration, registered, _, ⟨sameType, stored⟩, same⟩
    cases same
    refine ⟨rfl, ?_, stored⟩
    rw [sameType, GraphSchema.registration_of_mem registered]
    rfl
  · rintro ⟨rfl, registered, stored⟩
    obtain ⟨registration, found⟩ := Option.isSome_iff_exists.mp registered
    obtain ⟨member, sameType⟩ := GraphSchema.registration_mem found
    exact ⟨registration, member, item, ⟨sameType.symm, stored⟩, rfl⟩

theorem edgeChanges_storedChanges (registered : registration ∈ schema.registrations)
    (registry : StoreRegistry) :
    edgeChanges registration (storedChanges schema registry) =
      (registry.snapshot registration.edgeType).map fun item =>
        (item.id, registration.edgeOf (some item)) := by
  have only : (storedChanges schema registry).filter
      (fun change => change.item.entityType = registration.edgeType) =
      (registry.snapshot registration.edgeType).map (Change.mk .set) := by
    have kept : ∀ other : EdgeRegistration,
        ((registry.snapshot other.edgeType).map (Change.mk .set)).filter
          (fun change => change.item.entityType = registration.edgeType) =
        if other.edgeType = registration.edgeType then
          (registry.snapshot registration.edgeType).map (Change.mk .set) else [] := by
      intro other
      split
      · rename_i same
        rw [same, List.filter_eq_self]
        intro change member
        obtain ⟨item, stored, rfl⟩ := List.mem_map.mp member
        simpa using (StoreRegistry.mem_snapshot.mp stored).1
      · rename_i different
        rw [List.filter_eq_nil_iff]
        intro change member
        obtain ⟨item, stored, rfl⟩ := List.mem_map.mp member
        simpa [(StoreRegistry.mem_snapshot.mp stored).1] using different
    rw [storedChanges, List.filter_flatMap]
    simp only [kept]
    obtain ⟨first, rest, split⟩ := List.append_of_mem registered
    have distinct := schema.distinct
    rw [split, List.map_append, List.map_cons, List.nodup_append, List.nodup_cons] at distinct
    have none : ∀ part : List EdgeRegistration,
        (∀ other ∈ part, other.edgeType ≠ registration.edgeType) →
        part.flatMap (fun other => if other.edgeType = registration.edgeType then
          (registry.snapshot registration.edgeType).map (Change.mk .set) else []) = [] := by
      intro part different
      rw [List.flatMap_eq_nil_iff]
      exact fun other member => if_neg (different other member)
    rw [split, List.flatMap_append, List.flatMap_cons, if_pos rfl,
      none first fun other member => distinct.2.2 _ (List.mem_map_of_mem member) _ List.mem_cons_self,
      none rest fun other member same => distinct.2.1.1 (same ▸ List.mem_map_of_mem member)]
    simp
  rw [edgeChanges, only, List.map_map]
  rfl

theorem coherent_empty (schema : GraphSchema) : GraphState.empty.Coherent schema .empty := by
  refine ⟨fun registration _ => ⟨⟨?_, ?_⟩, fun id => ?_, fun key id => ?_⟩, fun registration _ id => ?_,
    fun _ _ => rfl⟩
  · rintro key id ⟨ids, lookup, -⟩
    cases key <;> cases lookup
  · intro key ids lookup
    cases key <;> cases lookup
  · simp [GraphState.empty, EdgeTypeState.empty, EdgeRegistration.storedEdges,
      EdgeRegistration.edgeOf]
  · constructor
    · rintro ⟨ids, lookup, -⟩
      cases key <;> cases lookup
    · simp [EdgeRegistration.storedEdges, EdgeRegistration.edgeOf]
  · rw [StoreRegistry.getValue_empty]
    exact registration.extracts_none

theorem settled_storedChanges (schema : GraphSchema) (registry : StoreRegistry) :
    SettledChanges schema .empty (storedChanges schema registry) := by
  intro registration registered
  apply settled_of_nodup
  rw [edgeChanges_storedChanges registered]
  simpa [keyChanges, Function.comp_def] using registry.snapshot_nodup_ids registration.edgeType

theorem storedEdges_storedChanges (registered : registration ∈ schema.registrations)
    (registry : StoreRegistry) (id : String) :
    (StoreRegistry.empty.writeAll (storedChanges schema registry)).getValue registration.edgeType id =
      registry.getValue registration.edgeType id := by
  have found := GraphSchema.registration_of_mem registered
  rw [StoreRegistry.getValue_writeAll]
  cases last : ((storedChanges schema registry).filter fun change =>
      change.key = (registration.edgeType, id)).getLast? with
  | some change =>
    obtain ⟨member, here⟩ := List.mem_filter.mp (List.mem_of_getLast? last)
    obtain ⟨kind, -, stored⟩ := mem_storedChanges.mp member
    have here : change.item.entityType = registration.edgeType ∧ change.item.id = id := by
      simpa [Change.key] using here
    obtain ⟨sameType, rfl⟩ := here
    rw [← sameType]
    simpa [Change.value, kind, StoreRegistry.canonicalItem] using stored.symm
  | none =>
    rw [StoreRegistry.getValue_empty]
    cases stored : registry.getValue registration.edgeType id with
    | none => rfl
    | some item =>
      obtain ⟨sameType, sameId⟩ := StoreRegistry.getValue_keyed stored
      have member : Change.mk .set item ∈ storedChanges schema registry :=
        mem_storedChanges.mpr ⟨rfl, by rw [sameType, found]; rfl,
          StoreRegistry.canonicalItem_of_getValue stored⟩
      rw [List.getLast?_eq_none_iff, List.filter_eq_nil_iff] at last
      exact absurd (by simp [Change.key, sameType, sameId]) (last _ member)

/-- All stored edges extract. -/
def StoredExtract (schema : GraphSchema) (registry : StoreRegistry) : Prop :=
  ∀ registration ∈ schema.registrations, ∀ id,
    registration.Extracts (registry.getValue registration.edgeType id)

theorem changeExtracts_stored {registry : StoreRegistry} :
    StoredExtract schema registry ↔
      ∀ change ∈ storedChanges schema registry, ChangeExtracts schema .empty change := by
  constructor
  · intro extracts change member other found
    obtain ⟨registered, sameType⟩ := GraphSchema.registration_mem found
    obtain ⟨kind, -, stored⟩ := mem_storedChanges.mp member
    refine ⟨by simpa [StoreRegistry.canonicalItem] using other.extracts_none, ?_⟩
    have stored_extracts := extracts other registered change.item.id
    rw [sameType] at stored_extracts
    rw [StoreRegistry.canonicalItem] at stored
    simpa [Change.value, kind, stored] using stored_extracts
  · intro extracts registration registered id
    cases stored : registry.getValue registration.edgeType id with
    | none => exact registration.extracts_none
    | some item =>
      have sameType := (StoreRegistry.getValue_keyed stored).1
      have found : schema.registration item.entityType = some registration := by
        rw [sameType]
        exact GraphSchema.registration_of_mem registered
      have member : Change.mk .set item ∈ storedChanges schema registry :=
        mem_storedChanges.mpr ⟨rfl, by rw [found]; rfl, StoreRegistry.canonicalItem_of_getValue stored⟩
      exact (extracts _ member registration found).2

theorem rebuild_eq (schema : GraphSchema) (registry : StoreRegistry) (state : GraphState) :
    rebuild schema registry state =
      (each (fun change : Change => discard (applyEdge schema none change.value))
        (storedChanges schema registry) >>= fun _ => do return (← get).generation) GraphState.empty := by
  have loop : each (fun registration : EdgeRegistration =>
      each (fun item => discard (applyEdge schema none (some item)))
        (registry.snapshot registration.edgeType)) schema.registrations =
      each (fun change : Change => discard (applyEdge schema none change.value))
        (storedChanges schema registry) := by
    rw [storedChanges, ← each_flatMap]
    congr 1
    funext registration
    induction registry.snapshot registration.edgeType with
    | nil => rfl
    | cons item rest ih =>
      rw [each, ih]
      rfl
  unfold rebuild
  rw [loop]
  rfl

/-- Rebuilding goes through when the stored edges extract, and yields their index. -/
theorem rebuild_ok {registry : StoreRegistry} (extracts : StoredExtract schema registry)
    (state : GraphState) : ∃ generation rebuilt,
      rebuild schema registry state = .ok generation rebuilt ∧ rebuilt.Coherent schema registry := by
  have effective : ∀ change ∈ storedChanges schema registry, Effective .empty change := by
    intro change member
    simp [Effective, Change.value, (mem_storedChanges.mp member).1]
  have reads := changeExtracts_stored.mp extracts
  let rebuilt := reindexChanges schema .empty .empty (storedChanges schema registry)
  refine ⟨rebuilt.generation, rebuilt, ?_, ?_⟩
  · have loop : each (fun change : Change => discard (applyEdge schema none change.value))
        (storedChanges schema registry) GraphState.empty = .ok () rebuilt := by
      refine each_ok (fun change member current => ?_) GraphState.empty
      have run := applyEdge_change (effective change member) (reads change member) current
      have absent : StoreRegistry.empty.canonicalItem change.item = none :=
        StoreRegistry.getValue_empty _ _
      rw [absent] at run
      change (applyEdge schema none change.value >>= fun _ => pure ()) current = _
      rw [bind_of_ok run]
      rfl
    rw [rebuild_eq, bind_of_ok loop]
    rfl
  · have coherent := (coherent_reindexChanges_iff (coherent_empty schema)
      (fun change member _ => effective change member) reads).mpr
      (settled_storedChanges schema registry)
    refine ⟨fun registration registered => ?_, extracts, coherent.unregistered⟩
    have same : registration.storedEdges (StoreRegistry.empty.writeAll (storedChanges schema registry)) =
        registration.storedEdges registry := by
      funext id
      rw [EdgeRegistration.storedEdges, storedEdges_storedChanges registered,
        EdgeRegistration.storedEdges]
    exact same ▸ coherent.indexes registration registered

/-- Rebuilding stops at the first stored edge that does not extract. -/
theorem storedExtract_of_rebuild {registry : StoreRegistry} {state rebuilt : GraphState}
    {generation : Nat} (h : rebuild schema registry state = .ok generation rebuilt) :
    StoredExtract schema registry := by
  rw [rebuild_eq] at h
  obtain ⟨_, _, loop, _⟩ := bind_ok h
  rw [changeExtracts_stored]
  have reads : ∀ (changes : List Change) (s t : GraphState),
      (∀ change ∈ changes, change.kind = .set) →
      each (fun change : Change => discard (applyEdge schema none change.value)) changes s = .ok () t →
      ∀ change ∈ changes, ChangeExtracts schema .empty change := by
    intro changes
    induction changes with
    | nil => intro _ _ _ _ change member; cases member
    | cons first rest ih =>
      intro s t sets run
      rw [each_cons] at run
      obtain ⟨_, u, run, later⟩ := bind_ok run
      change (applyEdge schema none first.value >>= fun _ => pure ()) s = _ at run
      obtain ⟨_, _, applied, _⟩ := bind_ok run
      intro change member
      rcases List.mem_cons.mp member with rfl | member
      · have effective : Effective .empty change := by
          simp [Effective, Change.value, sets change List.mem_cons_self]
        have absent : StoreRegistry.empty.canonicalItem change.item = none :=
          StoreRegistry.getValue_empty _ _
        rw [← absent] at applied
        exact applyEdge_change_extracts effective applied
      · exact ih u t (fun change h => sets change (List.mem_cons_of_mem _ h)) later change member
  exact reads _ _ _ (fun change member => (mem_storedChanges.mp member).1) loop

theorem sameIndex_of_coherent {registry : StoreRegistry} {state other : GraphState}
    (h : state.Coherent schema registry) (h' : other.Coherent schema registry) :
    state.SameIndex other := by
  intro edgeType
  cases found : schema.registration edgeType with
  | none => rw [h.unregistered edgeType found, h'.unregistered edgeType found]
  | some registration =>
    obtain ⟨registered, rfl⟩ := GraphSchema.registration_mem found
    exact (h.indexes registration registered).unique (h'.indexes registration registered)

theorem matchesRebuild_iff {registry : StoreRegistry} {state : GraphState} :
    state.MatchesRebuild schema registry ↔ state.Coherent schema registry := by
  constructor
  · rintro ⟨generation, rebuilt, run, same⟩
    have extracts := storedExtract_of_rebuild run
    obtain ⟨_, rebuilt', run', coherent⟩ := rebuild_ok extracts state
    cases run.symm.trans run'
    refine ⟨fun registration registered => ?_, extracts, fun edgeType unregistered => ?_⟩
    · rw [← indexes_projections, same]
      exact indexes_projections.mpr (coherent.indexes registration registered)
    · exact (same edgeType).trans (coherent.unregistered edgeType unregistered)
  · intro coherent
    obtain ⟨generation, rebuilt, run, coherent'⟩ := rebuild_ok coherent.extracts state
    exact ⟨generation, rebuilt, run, sameIndex_of_coherent coherent coherent'⟩

end Myko

import Myko.Graph.Sample
import Myko.Graph.UniqueEdge

/-!
Every lookup beside the scan of the stored edges: the ids are those of the edges that the scan keeps, each once,
and the counts and tests agree with them.
-/

namespace Myko

namespace GraphView

variable (view : GraphView)

def hasEdgeAt (registration : EdgeRegistration) (position : EndPosition) (endpoint : EndpointValue) : Bool :=
  if !view.schema.projectsEndpoint registration.edgeType position then
    (view.registry.snapshot registration.edgeType).any
      (itemMatches registration fun endpoints => endpoints.at position = endpoint)
  else
    match bucketAt (view.state.edgeTypes registration.edgeType) position endpoint with
    | some ids => !ids.isEmpty
    | none => false

/-- Whether the bucket of a pair is there and has an id. -/
def hasPair (registration : EdgeRegistration) (key : EdgePairKey) : Bool :=
  match (view.state.edgeTypes registration.edgeType).pairs key with
  | some ids => !ids.isEmpty
  | none => false

def hasEdgeBetween (registration : EdgeRegistration) (a b : EndpointValue) : Bool :=
  if usesUnscopedPairFastPath registration then
    view.hasPair registration (registration.pairKeyFromValues a b none)
  else !(view.edgeIdsBetween registration a b).isEmpty

def edgeCountBetweenInScope (registration : EdgeRegistration) (a b : EndpointValue) (scope : IndexValue) : Nat :=
  if registration.projectsPairs then
    match (view.state.edgeTypes registration.edgeType).pairs
        (registration.pairKeyFromValues a b (some scope)) with
    | some ids => ids.len
    | none => 0
  else (view.edgeIdsBetweenInScope registration a b scope).length

def hasEdgeBetweenInScope (registration : EdgeRegistration) (a b : EndpointValue) (scope : IndexValue) : Bool :=
  if registration.projectsPairs then
    view.hasPair registration (registration.pairKeyFromValues a b (some scope))
  else !(view.edgeIdsBetweenInScope registration a b scope).isEmpty

/-- The edges asked for, in one scope or whatever their scope. -/
structure Lookup where
  selection : GraphSelection
  scope : Option IndexValue

/-- The edge is one of those asked for. -/
def Lookup.accepts (lookup : Lookup) (registration : EdgeRegistration) (edge : IndexedEdge) : Bool :=
  lookup.selection.matchesEndpoints registration edge.endpoints &&
    lookup.scope.all fun scope => edge.scope = some scope

/-- The ids of the stored edges that a lookup asks for. -/
def filterStore (registration : EdgeRegistration) (lookup : Lookup) : List String :=
  ((view.registry.snapshot registration.edgeType).filter fun item =>
    (registration.edgeOf (some item)).any (lookup.accepts registration)).map Item.id

end GraphView

theorem nodup_filterStore (view : GraphView) (registration : EdgeRegistration) (lookup : GraphView.Lookup) :
    (view.filterStore registration lookup).Nodup :=
  (view.registry.snapshot_nodup_ids registration.edgeType).sublist (List.filter_sublist.map Item.id)

theorem mem_searched {registry : StoreRegistry} {entityType id : String} {p : Item → Bool} :
    id ∈ ((registry.snapshot entityType).filter p).map Item.id ↔
      ∃ item, registry.getValue entityType id = some item ∧ p item = true := by
  rw [List.mem_map]
  constructor
  · rintro ⟨item, among, rfl⟩
    obtain ⟨listed, hit⟩ := List.mem_filter.mp among
    obtain ⟨typed, stored⟩ := StoreRegistry.mem_snapshot.mp listed
    exact ⟨item, typed ▸ stored, hit⟩
  · rintro ⟨item, value, hit⟩
    exact ⟨item, List.mem_filter.mpr ⟨StoreRegistry.snapshot_of_getValue value, hit⟩,
      (StoreRegistry.getValue_keyed value).2⟩

theorem mem_filterStore {view : GraphView} {registration : EdgeRegistration} {lookup : GraphView.Lookup}
    {id : String} :
    id ∈ view.filterStore registration lookup ↔
      ∃ edge, registration.storedEdges view.registry id = some edge ∧ lookup.accepts registration edge = true := by
  unfold GraphView.filterStore
  rw [mem_searched]
  constructor
  · rintro ⟨item, value, hit⟩
    unfold EdgeRegistration.storedEdges
    rw [value]
    exact (Option.any_eq_true _ _).mp hit
  · rintro ⟨edge, stored, hit⟩
    obtain ⟨item, value, extracted⟩ := EdgeRegistration.value_of_stored stored
    exact ⟨item, value, (Option.any_eq_true _ _).mpr ⟨edge, extracted, hit⟩⟩

/-- A bucket is empty just when it has no ids. -/
theorem isEmpty_bucketIds (bucket : Option EdgeIds) :
    (bucketIds bucket).isEmpty = !(match bucket with
      | some ids => !ids.isEmpty
      | none => false) := by
  have length := length_bucketIds bucket
  rw [Bool.eq_iff_iff, List.isEmpty_iff_length_eq_zero, length]
  cases bucket with
  | none => simp
  | some ids => simp [EdgeIds.isEmpty]

section
variable {view : GraphView} {registration : EdgeRegistration}

theorem hasEdgeAt_eq (position : EndPosition) (endpoint : EndpointValue) :
    view.hasEdgeAt registration position endpoint = !(view.edgeIdsAt registration position endpoint).isEmpty := by
  unfold GraphView.hasEdgeAt GraphView.edgeIdsAt
  split
  · unfold GraphView.scan
    rw [Bool.eq_iff_iff]
    simp
  · rw [isEmpty_bucketIds, Bool.not_not]

theorem hasPair_eq (key : EdgePairKey) :
    view.hasPair registration key = !(bucketIds ((view.state.edgeTypes registration.edgeType).pairs key)).isEmpty := by
  rw [isEmpty_bucketIds, Bool.not_not]
  rfl

theorem hasEdgeBetween_eq (a b : EndpointValue) :
    view.hasEdgeBetween registration a b = !(view.edgeIdsBetween registration a b).isEmpty := by
  unfold GraphView.hasEdgeBetween
  split
  · rename_i fast
    rw [hasPair_eq, GraphView.edgeIdsBetween, if_pos fast]
  · rfl

theorem edgeCountBetweenInScope_eq (a b : EndpointValue) (scope : IndexValue) :
    view.edgeCountBetweenInScope registration a b scope =
      (view.edgeIdsBetweenInScope registration a b scope).length := by
  unfold GraphView.edgeCountBetweenInScope
  split
  · rename_i kept
    rw [GraphView.edgeIdsBetweenInScope, if_pos kept]
    exact (length_bucketIds _).symm
  · rfl

theorem hasEdgeBetweenInScope_eq (a b : EndpointValue) (scope : IndexValue) :
    view.hasEdgeBetweenInScope registration a b scope =
      !(view.edgeIdsBetweenInScope registration a b scope).isEmpty := by
  unfold GraphView.hasEdgeBetweenInScope
  split
  · rename_i kept
    rw [hasPair_eq, GraphView.edgeIdsBetweenInScope, if_pos kept]
  · rfl

section
variable (coherent : view.state.Coherent view.schema view.registry)
  (registered : registration ∈ view.schema.registrations)
include coherent registered

/-- The edge that the index keeps under an id is the stored one. -/
theorem edges_eq_stored (kept : view.schema.projectsAnyEndpoint registration.edgeType = true) (id : String) :
    (view.state.edgeTypes registration.edgeType).edges id = registration.storedEdges view.registry id := by
  rw [(coherent.indexes registration registered).edges, if_pos kept]

/-- A stored item is read as the edge stored under its id. -/
theorem read_of_stored {id : String} {item : Item}
    (value : view.registry.getValue registration.edgeType id = some item) :
    ∃ edge, registration.storedEdges view.registry id = some edge ∧
      registration.extract item = .ok edge.endpoints ∧ registration.extractScope item = .ok edge.scope := by
  have extracts := coherent.extracts registration registered id
  rw [value] at extracts
  rcases extracts_cases extracts with ⟨absent, -⟩ | ⟨_, edge, same, indexed, edgeOf⟩
  · cases absent
  cases same
  refine ⟨edge, ?_, EdgeRegistration.read_of_indexed indexed⟩
  unfold EdgeRegistration.storedEdges
  rw [value, edgeOf]

theorem mem_edgeIdsBetweenInScope {a b : EndpointValue} {scope : IndexValue} {id : String} :
    id ∈ view.edgeIdsBetweenInScope registration a b scope ↔
      ∃ edge, registration.storedEdges view.registry id = some edge ∧
        endpointsMatch registration edge.endpoints a b = true ∧ edge.scope = some scope := by
  unfold GraphView.edgeIdsBetweenInScope
  dsimp only
  split
  · rename_i kept
    rw [mem_pairs coherent registered kept]
    unfold Occupies
    refine exists_congr fun edge => and_congr_right fun _ => ?_
    rw [eq_comm, pairKeyFromValues_eq, and_comm, eq_comm (a := some scope)]
  split
  · -- No end is kept: the store is searched for endpoints and scope alike.
    rw [mem_searched]
    constructor
    · rintro ⟨item, value, hit⟩
      obtain ⟨edge, stored, extracted, inScope⟩ := read_of_stored coherent registered value
      simp only [itemMatches, extracted, inScope, Bool.and_eq_true, decide_eq_true_eq] at hit
      exact ⟨edge, stored, hit⟩
    · rintro ⟨edge, stored, hit⟩
      obtain ⟨item, value, -⟩ := EdgeRegistration.value_of_stored stored
      obtain ⟨other, stored', extracted, inScope⟩ := read_of_stored coherent registered value
      obtain rfl := Option.some.inj (stored.symm.trans stored')
      refine ⟨item, value, ?_⟩
      simp only [itemMatches, extracted, inScope, Bool.and_eq_true, decide_eq_true_eq]
      exact hit
  · rename_i kept
    unfold GraphView.indexedIdsBetweenInScope
    have projects : view.schema.projectsAnyEndpoint registration.edgeType = true := by simpa using kept
    rw [List.mem_filter, mem_indexedIdsBetween coherent registered projects,
      edges_eq_stored coherent registered projects]
    constructor
    · rintro ⟨⟨edge, stored, matched⟩, sameScope⟩
      rw [stored] at sameScope
      exact ⟨edge, stored, matched, of_decide_eq_true sameScope⟩
    · rintro ⟨edge, stored, matched, sameScope⟩
      refine ⟨⟨edge, stored, matched⟩, ?_⟩
      rw [stored]
      exact decide_eq_true sameScope

omit coherent registered in
theorem nodup_edgeIdsBetweenInScope (a b : EndpointValue) (scope : IndexValue) :
    (view.edgeIdsBetweenInScope registration a b scope).Nodup := by
  unfold GraphView.edgeIdsBetweenInScope
  dsimp only
  split
  · exact nodup_bucketIds _
  split
  · exact (view.registry.snapshot_nodup_ids registration.edgeType).sublist (List.filter_sublist.map Item.id)
  · exact (nodup_indexedIdsBetween _ _ _ _ _).filter _

/-- Over a coherent index a lookup of any selection finds the ids that the scan finds. -/
theorem edgeIds_perm (selection : GraphSelection) :
    (view.edgeIds registration selection).Perm (view.filterStore registration ⟨selection, none⟩) := by
  refine (List.perm_ext_iff_of_nodup (nodup_edgeIds view registration selection)
    (nodup_filterStore view registration _)).mpr fun id => ?_
  rw [mem_filterStore, mem_edgeIds coherent registered, matches_iff coherent registered]
  refine exists_congr fun edge => and_congr_right fun _ => ?_
  simp [GraphView.Lookup.accepts]

theorem edgeIdsBetweenInScope_perm (a b : EndpointValue) (scope : IndexValue) :
    (view.edgeIdsBetweenInScope registration a b scope).Perm
      (view.filterStore registration ⟨.between a b, some scope⟩) := by
  refine (List.perm_ext_iff_of_nodup (nodup_edgeIdsBetweenInScope a b scope)
    (nodup_filterStore view registration _)).mpr fun id => ?_
  rw [mem_filterStore, mem_edgeIdsBetweenInScope coherent registered]
  refine exists_congr fun edge => and_congr_right fun _ => ?_
  simp [GraphView.Lookup.accepts, GraphSelection.matchesEndpoints]

end

end

/-- The lookups of a coherent index are the scan of the stored edges: the same ids, each once, as many as are
counted, and some just when one is said to exist. -/
theorem lookups_equal_scan {view : GraphView} {registration : EdgeRegistration}
    (coherent : view.state.Coherent view.schema view.registry)
    (registered : registration ∈ view.schema.registrations) :
    (∀ position endpoint,
      let expected := view.filterStore registration ⟨.at position endpoint, none⟩
      (view.edgeIdsAt registration position endpoint).Perm expected ∧
        view.edgeCountAt registration position endpoint = expected.length ∧
          view.hasEdgeAt registration position endpoint = !expected.isEmpty) ∧
    (∀ position endpoints, (view.edgeIdsManyAt registration position endpoints).Perm
      (view.filterStore registration ⟨.manyAt position endpoints, none⟩)) ∧
    (∀ endpoint, (view.edgeIdsIncident registration endpoint).Perm
      (view.filterStore registration ⟨.incident endpoint, none⟩)) ∧
    (∀ a b,
      let expected := view.filterStore registration ⟨.between a b, none⟩
      (view.edgeIdsBetween registration a b).Perm expected ∧
        view.edgeCountBetween registration a b = expected.length ∧
          view.hasEdgeBetween registration a b = !expected.isEmpty) ∧
    ∀ a b scope,
      let expected := view.filterStore registration ⟨.between a b, some scope⟩
      (view.edgeIdsBetweenInScope registration a b scope).Perm expected ∧
        view.edgeCountBetweenInScope registration a b scope = expected.length ∧
          view.hasEdgeBetweenInScope registration a b scope = !expected.isEmpty := by
  have found := fun selection => edgeIds_perm coherent registered selection
  refine ⟨fun position endpoint => ?_, fun position endpoints => found (.manyAt position endpoints),
    fun endpoint => found (.incident endpoint), fun a b => ?_, fun a b scope => ?_⟩
  · have same := found (.at position endpoint)
    refine ⟨same, ?_, ?_⟩
    · rw [edgeCountAt_eq, same.length_eq]
    · rw [hasEdgeAt_eq, ← same.isEmpty_eq]
      rfl
  · have same := found (.between a b)
    refine ⟨same, ?_, ?_⟩
    · rw [edgeCountBetween_eq, same.length_eq]
    · rw [hasEdgeBetween_eq, ← same.isEmpty_eq]
      rfl
  · have same := edgeIdsBetweenInScope_perm coherent registered a b scope
    refine ⟨same, ?_, ?_⟩
    · rw [edgeCountBetweenInScope_eq, same.length_eq]
    · rw [hasEdgeBetweenInScope_eq, same.isEmpty_eq]

namespace GraphSample

theorem lookups_of_ties :
    ((view .eager .demandDriven).edgeIdsBetween ties (node "x") (node "y")).Perm
      ((view .eager .demandDriven).filterStore ties ⟨.between (node "x") (node "y"), none⟩) := by
  obtain ⟨-, -, -, between, -⟩ := lookups_equal_scan (coherent .eager .demandDriven) List.mem_cons_self
  exact (between (node "x") (node "y")).1

end GraphSample
end Myko

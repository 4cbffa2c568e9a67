import Myko.Graph.Lookup

/-!
The edge of a unique pair, looked up for an edge that is to be there.
-/

namespace Myko

namespace GraphView

variable (view : GraphView)

def indexedIdsBetweenInScope (registration : EdgeRegistration) (edges : EdgeTypeState)
    (a b : EndpointValue) (scope : IndexValue) : List String :=
  (view.indexedIdsBetween registration edges a b).filter fun id =>
    (edges.edges id).any fun edge => edge.scope = some scope

def edgeIdsBetweenInScope (registration : EdgeRegistration) (a b : EndpointValue) (scope : IndexValue) :
    List String :=
  let edges := view.state.edgeTypes registration.edgeType
  if registration.projectsPairs then
    bucketIds (edges.pairs (registration.pairKeyFromValues a b (some scope)))
  else if !view.schema.projectsAnyEndpoint registration.edgeType then
    ((view.registry.snapshot registration.edgeType).filter fun item =>
      itemMatches registration (fun endpoints => endpointsMatch registration endpoints a b) item &&
        (match registration.extractScope item with
          | .ok itemScope => itemScope = some scope
          | .error _ => false)).map Item.id
  else view.indexedIdsBetweenInScope registration edges a b scope

/-- The ids of the pair and scope of an edge. -/
def uniqueIds (registration : EdgeRegistration) (edge : Item) : Except String (List String) :=
  if registration.pairPolicy ≠ .unique then
    .error s!"{registration.edgeType} does not declare unique pairs"
  else do
    let endpoints ← registration.extract edge
    match ← registration.extractScope edge with
    | none => return view.edgeIdsBetween registration endpoints.a endpoints.b
    | some scope => return view.edgeIdsBetweenInScope registration endpoints.a endpoints.b scope

end GraphView

/-- The key of the pair and scope of an edge, when both can be extracted. -/
def EdgeRegistration.keyOf (registration : EdgeRegistration) (edge : Item) : Option EdgePairKey :=
  (registration.edgeOf (some edge)).map fun indexed => registration.pairKey indexed.endpoints indexed.scope

/-- The edge stored under the id has the pair and scope of the key. -/
def Occupies (registration : EdgeRegistration) (registry : StoreRegistry) (key : EdgePairKey)
    (id : String) : Prop :=
  ∃ edge, registration.storedEdges registry id = some edge ∧
    registration.pairKey edge.endpoints edge.scope = key

section
variable {view : GraphView} {registration : EdgeRegistration}
  (coherent : view.state.Coherent view.schema view.registry)
  (registered : registration ∈ view.schema.registrations)
include coherent registered

theorem mem_pairs (kept : registration.projectsPairs = true) {key : EdgePairKey} {id : String} :
    id ∈ bucketIds ((view.state.edgeTypes registration.edgeType).pairs key) ↔
      Occupies registration view.registry key id := by
  refine mem_bucketIds.trans (((coherent.indexes registration registered).incident (.pair key) id).trans ?_)
  constructor
  · rintro ⟨edge, stored, here, -⟩
    exact ⟨edge, stored, here.symm⟩
  · rintro ⟨edge, stored, rfl⟩
    exact ⟨edge, stored, rfl, kept⟩

/-- Where a type with scopes always has one, the lookup finds who occupies the pair. -/
theorem mem_uniqueIds {edge : Item} {ids : List String}
    (hasScope : registration.scopeType ≠ none → registration.extractScope edge ≠ .ok none)
    (found : view.uniqueIds registration edge = .ok ids) :
    ∃ key, registration.keyOf edge = some key ∧
      ∀ id, id ∈ ids ↔ Occupies registration view.registry key id := by
  unfold GraphView.uniqueIds at found
  split at found
  · cases found
  rename_i unique
  have kept : registration.projectsPairs = true := by
    simp [EdgeRegistration.projectsPairs, not_not.mp unique]
  obtain ⟨endpoints, extracted, found⟩ := StateError.except_bind_ok found
  obtain ⟨scope, inScope, found⟩ := StateError.except_bind_ok found
  have keyed : registration.keyOf edge = some (registration.pairKey endpoints scope) := by
    simp [EdgeRegistration.keyOf, EdgeRegistration.edgeOf, EdgeRegistration.indexedEdge, extracted, inScope,
      Except.toOption, Bind.bind, Except.bind, Pure.pure, Except.pure]
  refine ⟨_, keyed, fun id => ?_⟩
  have sameKey : registration.pairKeyFromValues endpoints.a endpoints.b scope =
      registration.pairKey endpoints scope := rfl
  cases scope with
  | none =>
    cases found
    have unscoped : registration.scopeType = none := by
      by_contra named
      exact hasScope named inScope
    rw [mem_edgeIdsBetween coherent registered]
    refine exists_congr fun other => and_congr_right fun stored => ?_
    have noScope := scope_of_stored coherent registered unscoped stored
    have matched : registration.pairKeyFromValues endpoints.a endpoints.b none =
        registration.pairKey other.endpoints other.scope ↔ _ := pairKeyFromValues_eq
    rw [← sameKey, eq_comm (a := registration.pairKey _ _), matched, noScope]
    exact ⟨fun hit => ⟨rfl, hit⟩, fun hit => hit.2⟩
  | some scope =>
    cases found
    rw [GraphView.edgeIdsBetweenInScope]
    simp only [kept, ↓reduceIte]
    rw [mem_pairs coherent registered kept, sameKey]

end

end Myko

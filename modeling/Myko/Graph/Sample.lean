import Myko.Graph.Preflight

/-!
A small graph to look at single results with: ties from node to node, at most one for each pair, that go with
their first node and hold their second one back.
-/

namespace Myko.GraphSample
open StateError

def tie (id source target : String) : Item where
  entityType := "tie"
  id := id
  fields := [("source", .text source), ("target", .text target)]

def node (id : String) : EndpointValue := ⟨⟨"node", id⟩, none⟩

def tieEndpoints (item : Item) : Except String EdgeEndpoints :=
  if item.entityType = "tie" then
    match item.field "source", item.field "target" with
    | some (.text source), some (.text target) => .ok ⟨node source, node target⟩
    | _, _ => .error "tie without an endpoint"
  else .error "not a tie"

theorem scopeless (_ : (none : Option String) = none) (_ : Item) (scope : Option IndexValue)
    (h : (.ok none : Except String (Option IndexValue)) = .ok scope) : scope = none := by
  cases h
  rfl

def ties : EdgeRegistration where
  edgeType := "tie"
  shape := .directed
  pairPolicy := .unique
  pairProjection := .intersectAdjacency
  endpointA := .anyRegisteredItem
  endpointB := .anyRegisteredItem
  scopeType := none
  adjacency := .eager
  selfLoops := .allow
  aDelete := .cascadeEdge
  bDelete := .restrictEndpointDelete
  extract := tieEndpoints
  extractScope _ := .ok none
  validate := none
  typed item endpoints h := by
    unfold tieEndpoints at h
    split at h
    · assumption
    · cases h
  unscoped := scopeless

/-- Ties with the given ends kept in the index. -/
def schema (a b : AdjacencyPolicy) : GraphSchema where
  registrations := [ties]
  distinct := by decide
  overrides _ := some (a, b)
  categories _ := []
  itemTypes := ["node", "tie"]

def stored : StoreRegistry :=
  StoreRegistry.empty.writeAll [⟨.set, ⟨"node", "x", []⟩⟩, ⟨.set, ⟨"node", "y", []⟩⟩, ⟨.set, ⟨"node", "z", []⟩⟩,
    ⟨.set, tie "e" "x" "y"⟩, ⟨.set, tie "f" "y" "z"⟩]

/-- The index of a store, with the given ends kept. -/
def viewOf (registry : StoreRegistry) (a b : AdjacencyPolicy) : GraphView where
  schema := schema a b
  registry := registry
  applyModes _ := none
  state := final (rebuild (schema a b) registry) .empty

def view (a b : AdjacencyPolicy) : GraphView := viewOf stored a b

theorem coherent_viewOf {registry : StoreRegistry} {a b : AdjacencyPolicy} {generation : Nat}
    (run : rebuild (schema a b) registry .empty =
      .ok generation (final (rebuild (schema a b) registry) .empty)) :
    (viewOf registry a b).state.Coherent (viewOf registry a b).schema (viewOf registry a b).registry := by
  obtain ⟨_, rebuilt, rebuild, coherent⟩ := rebuild_ok (storedExtract_of_rebuild run) .empty
  have same : (viewOf registry a b).state = rebuilt := final_of_ok rebuild
  rw [same]
  exact coherent

theorem coherent (a b : AdjacencyPolicy) :
    (view a b).state.Coherent (view a b).schema (view a b).registry := by
  have run : rebuild (schema a b) stored .empty = .ok 2 (final (rebuild (schema a b) stored) .empty) := by
    cases a <;> cases b <;> rfl
  exact coherent_viewOf run

end Myko.GraphSample

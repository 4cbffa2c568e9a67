import Mathlib.Data.List.Lex
import Mathlib.Data.Prod.Lex
import Mathlib.Data.String.Basic
import Mathlib.Data.UInt
import Mathlib.Order.WithBot
import Myko.Item

/-!
Edge types: what an edge item points at and the policies it was registered with.
-/

namespace Myko

structure EntityRef where
  entityType : String
  id : String
  deriving DecidableEq

/-- Canonical bytes of an indexed qualifier or scope. -/
structure IndexValue where
  bytes : List UInt8
  deriving DecidableEq

structure EndpointValue where
  entity : EntityRef
  qualifier : Option IndexValue
  deriving DecidableEq

namespace EndpointValue

/-- The key by which endpoints are compared, field by field. -/
def ordered (endpoint : EndpointValue) : String ×ₗ String ×ₗ WithBot (List Nat) :=
  toLex (endpoint.entity.entityType, toLex (endpoint.entity.id,
    endpoint.qualifier.map fun value => value.bytes.map UInt8.toNat))

theorem ordered_injective : Function.Injective ordered := by
  rintro ⟨⟨entityType, id⟩, qualifier⟩ ⟨⟨otherType, otherId⟩, otherQualifier⟩ h
  have type_eq := congrArg (fun key => (ofLex key).1) h
  have id_eq := congrArg (fun key => (ofLex (ofLex key).2).1) h
  have qualifier_eq := congrArg (fun key => (ofLex (ofLex key).2).2) h
  have qualifiers : qualifier = otherQualifier := by
    refine Option.map_injective (fun value other bytes => ?_) qualifier_eq
    have same := List.map_injective_iff.mpr (fun _ _ => UInt8.toNat_inj.mp) bytes
    exact congrArg IndexValue.mk same
  exact congr (congrArg _ (congr (congrArg _ type_eq) id_eq)) qualifiers

instance : LinearOrder EndpointValue := LinearOrder.lift' ordered ordered_injective

end EndpointValue

structure EdgeEndpoints where
  a : EndpointValue
  b : EndpointValue
  deriving DecidableEq

inductive EdgeShapeKind where
  | directed
  | undirected
  deriving DecidableEq

inductive EndPosition where
  | a
  | b
  deriving DecidableEq

def EdgeEndpoints.at (endpoints : EdgeEndpoints) : EndPosition → EndpointValue
  | .a => endpoints.a
  | .b => endpoints.b

inductive PairPolicy where
  | parallel
  | unique
  deriving DecidableEq

inductive PairProjectionPolicy where
  | intersectAdjacency
  | eager
  deriving DecidableEq

inductive AdjacencyPolicy where
  | demandDriven
  | eager
  deriving DecidableEq

inductive SelfLoopPolicy where
  | allow
  | reject
  deriving DecidableEq

inductive EndpointDeletePolicy where
  | cascadeEdge
  | restrictEndpointDelete
  | retainDangling
  deriving DecidableEq

inductive EndpointRequirement where
  | concrete (expected : String)
  | oneOf (expected : List String)
  | category (category : String)
  | anyRegisteredItem
  deriving DecidableEq

/-- One registered edge type. The extractors see the typed value behind an item, so they fail on an
item of another type; a type without a scope type has no scope to extract. -/
structure EdgeRegistration where
  edgeType : String
  shape : EdgeShapeKind
  pairPolicy : PairPolicy
  pairProjection : PairProjectionPolicy
  endpointA : EndpointRequirement
  endpointB : EndpointRequirement
  scopeType : Option String
  adjacency : AdjacencyPolicy
  selfLoops : SelfLoopPolicy
  aDelete : EndpointDeletePolicy
  bDelete : EndpointDeletePolicy
  extract : Item → Except String EdgeEndpoints
  extractScope : Item → Except String (Option IndexValue)
  validate : Option ((EntityRef → Bool) → Item → Except String Unit)
  typed : ∀ item endpoints, extract item = .ok endpoints → item.entityType = edgeType
  unscoped : scopeType = none → ∀ item scope, extractScope item = .ok scope → scope = none

namespace EdgeRegistration

def endpoint (registration : EdgeRegistration) : EndPosition → EndpointRequirement
  | .a => registration.endpointA
  | .b => registration.endpointB

def deletePolicy (registration : EdgeRegistration) : EndPosition → EndpointDeletePolicy
  | .a => registration.aDelete
  | .b => registration.bDelete

end EdgeRegistration

/-- How graph validation treats a canonical item mutation. -/
inductive EdgeApplyMode where
  | authoritative
  | replay
  | import
  | federated
  | observe
  deriving DecidableEq

/-- What the linked registrations say: the edge types, the projection policies that override those of
single edge types, the members of the entity categories, and the registered item types. -/
structure GraphSchema where
  registrations : List EdgeRegistration
  distinct : (registrations.map EdgeRegistration.edgeType).Nodup
  overrides : String → Option (AdjacencyPolicy × AdjacencyPolicy)
  categories : String → List String
  itemTypes : List String

namespace GraphSchema

def registration (schema : GraphSchema) (edgeType : String) : Option EdgeRegistration :=
  schema.registrations.find? fun registration => registration.edgeType = edgeType

def endpointAdjacency (schema : GraphSchema) (edgeType : String) :
    Option (AdjacencyPolicy × AdjacencyPolicy) :=
  (schema.registration edgeType).map fun registration =>
    (schema.overrides edgeType).getD (registration.adjacency, registration.adjacency)

def projectsEndpoint (schema : GraphSchema) (edgeType : String) (position : EndPosition) : Bool :=
  match schema.endpointAdjacency edgeType with
  | none => false
  | some (a, b) =>
    match position with
    | .a => a = .eager
    | .b => b = .eager

def projectsAnyEndpoint (schema : GraphSchema) (edgeType : String) : Bool :=
  schema.projectsEndpoint edgeType .a || schema.projectsEndpoint edgeType .b

def requirementAccepts (schema : GraphSchema) (requirement : EndpointRequirement)
    (entityType : String) : Bool :=
  match requirement with
  | .concrete expected => expected = entityType
  | .oneOf expected => entityType ∈ expected
  | .category category => entityType ∈ schema.categories category
  | .anyRegisteredItem => entityType ∈ schema.itemTypes

/-- Whether a change takes part in the graph: a change of an edge, or the deletion of an entity that
some edge type may have to follow. -/
def coordinates (schema : GraphSchema) (item : Item) (change : MEventType) : Bool :=
  (schema.registration item.entityType).isSome ||
    (change = .del && schema.registrations.any fun registration =>
      [EndPosition.a, .b].any fun position =>
        registration.deletePolicy position ≠ .retainDangling &&
          schema.requirementAccepts (registration.endpoint position) item.entityType)

theorem registration_mem {schema : GraphSchema} {edgeType : String} {registration : EdgeRegistration}
    (h : schema.registration edgeType = some registration) :
    registration ∈ schema.registrations ∧ registration.edgeType = edgeType :=
  ⟨List.mem_of_find?_eq_some h, by simpa using List.find?_some h⟩

theorem registration_of_mem {schema : GraphSchema} {registration : EdgeRegistration}
    (h : registration ∈ schema.registrations) :
    schema.registration registration.edgeType = some registration := by
  obtain ⟨found, lookup⟩ : ∃ found, schema.registration registration.edgeType = some found :=
    Option.isSome_iff_exists.mp (List.find?_isSome.mpr ⟨registration, h, by simp⟩)
  obtain ⟨member, same⟩ := registration_mem lookup
  rw [lookup, List.inj_on_of_nodup_map schema.distinct member h same]

theorem coordinates_of_registered {schema : GraphSchema} {item : Item} {change : MEventType}
    (h : (schema.registration item.entityType).isSome) : schema.coordinates item change := by
  simp [coordinates, h]

end GraphSchema
end Myko

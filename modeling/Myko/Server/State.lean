import Myko.Graph.Lookup
import Myko.Relation.Tables

/-!
The state of one server: its stores, the indexes derived from them, the causal transaction under way
and what it has handed to persisters and sagas.
-/

namespace Myko

structure PersistError where
  entityType : String
  message : String
  deriving DecidableEq

/-- Where a mutation comes from, which decides whether it cascades and whether it is produced. -/
inductive Origin where
  | localOrigin
  | cascade
  | relationshipFixup
  | transient
  deriving DecidableEq

namespace Origin

def shouldCascade : Origin → Bool
  | localOrigin | cascade => true
  | relationshipFixup | transient => false

def shouldProduce : Origin → Bool
  | relationshipFixup | transient => false
  | localOrigin | cascade => true

def debug : Origin → String
  | localOrigin => "Local"
  | cascade => "Cascade"
  | relationshipFixup => "RelationshipFixup"
  | transient => "Transient"

end Origin

def MEventType.debug : MEventType → String
  | .set => "SET"
  | .del => "DEL"

/-- Per-root bounds for synchronously derived work. -/
structure CausalLimits where
  maxDepth : Nat
  maxDerivedMutations : Nat

def CausalLimits.default : CausalLimits where
  maxDepth := 64
  maxDerivedMutations := 100000

structure TransitionKey where
  entityType : String
  id : String
  operation : Nat
  contentHash : Nat
  deriving DecidableEq

inductive PendingMutationKind where
  | uniform (items : List Item) (change : MEventType)
  | replace (upserts deletes : List Item) (expectedGraphGeneration : Option Nat)

structure PendingMutation where
  kind : PendingMutationKind
  origin : Origin
  mode : EdgeApplyMode
  depth : Nat
  chain : List String

structure CausalState where
  rootTx : String
  queue : List PendingMutation
  seen : List TransitionKey
  derivedCount : Nat
  currentDepth : Option Nat
  currentMode : Option EdgeApplyMode
  currentChain : List String

/-- The indexes the relationship manager keeps, by the id of a lookup once it has been loaded. -/
structure RelationIndexes where
  parentByChild : Nat → Option (String → Option String)
  childrenByParent : Nat → Option (String → Option (OrdSet String))
  ensureForInFlight : List (String × List String)

def RelationIndexes.empty : RelationIndexes where
  parentByChild _ := none
  childrenByParent _ := none
  ensureForInFlight := []

inductive IngestBufferPolicy where
  | none
  | timeWindow (windowMs : Nat)
  deriving DecidableEq

/-- An event as it arrives on the wire. -/
structure MEvent where
  changeType : MEventType
  itemType : String
  item : String
  deriving DecidableEq

/-- What a server was built with. The persister of a type answers for an event after the ones offered
to persisters before it; ids of ensured entities are drawn from `uuid`. -/
structure MykoServerContext where
  schema : GraphSchema
  relations : List Relation
  hostId : String
  serverOwnedField : String → Option String
  uuid : Nat → String
  contentHash : Item → Nat
  persister : String → Option (List Change → Change → Except PersistError Unit)
  parser : String → String → Option Item
  parser_type : ∀ itemType payload item, parser itemType payload = some item →
    item.entityType = itemType
  bufferPolicy : String → IngestBufferPolicy

def MykoServerContext.tables (ctx : MykoServerContext) : RelationshipTables :=
  .ofRelations ctx.relations

structure ServerState where
  registry : StoreRegistry
  graph : GraphState
  applyModes : String → Option EdgeApplyMode
  watches : List GraphWatch
  relations : RelationIndexes
  searchIndex : String → String → Option Item
  offered : List Change
  sink : List Change
  uuids : Nat
  causal : Option CausalState
  causalLimits : CausalLimits
  ingestBuffers : String → List MEvent

def ServerState.initial : ServerState where
  registry := .empty
  graph := .empty
  applyModes _ := none
  watches := []
  relations := .empty
  searchIndex _ _ := none
  offered := []
  sink := []
  uuids := 0
  causal := none
  causalLimits := .default
  ingestBuffers _ := []

abbrev ServerM := EStateM PersistError ServerState

def graphError (item : Item) (error : String) : PersistError where
  entityType := item.entityType
  message := s!"graph mutation rejected: {error}"

/-- What the checks of the graph index read in a state. -/
def ServerState.view (s : ServerState) (ctx : MykoServerContext) : GraphView where
  schema := ctx.schema
  registry := s.registry
  applyModes := s.applyModes
  state := s.graph

end Myko

import Myko.Server.Relationships

/-!
The emission pipeline. A mutation is first planned against the state it finds, then committed to the
stores, the graph index, the persisters and the watches, and last has its effects: search,
relationship work and the deletions its plan asked for.
-/

namespace Myko
open StateError

variable (ctx : MykoServerContext)

def checkGraph {α : Type} (item : Item) (result : Except String α) : Except PersistError α :=
  result.mapError (graphError item)

def liftGraph {α : Type} (item : Item) (step : GraphM α) : ServerM α := fun s =>
  match step s.graph with
  | .ok value graph => .ok value { s with graph }
  | .error error graph => .error (graphError item error) { s with graph }

/-- What a change leaves of an item. -/
def newValue (change : MEventType) (item : Item) : Option Item := (Change.mk change item).value

/-- The items of each entity type, the types in order. -/
def entityTypes (items : List Item) : List String :=
  (items.map Item.entityType).dedup.insertionSort (· ≤ ·)

def ofType (entityType : String) (items : List Item) : List Item :=
  items.filter fun item => item.entityType = entityType

def groupByType (items : List Item) : List (List Item) :=
  (entityTypes items).map fun entityType => ofType entityType items

/-! ### Planning -/

/-- The edges to delete with an item, and the check of the edge it is. -/
def planItem (s : ServerState) (coordinated : Bool) (change : MEventType) (mode : EdgeApplyMode)
    (item : Item) : Except PersistError (List Item) := do
  if !coordinated then return []
  let cascades ←
    if change = .del then
      checkGraph item ((s.view ctx).endpointDeletePlan ⟨item.entityType, item.id⟩)
    else pure []
  checkGraph item
    ((s.view ctx).preflight (s.registry.canonicalItem item) (newValue change item) mode)
  return cascades

def planGrouped (s : ServerState) (coordinated : Bool) (items : List Item) (first : Item)
    (change : MEventType) (mode : EdgeApplyMode) : Except PersistError (List Item) := do
  if change = .set ∧ coordinated then
    checkGraph first ((s.view ctx).preflightBatch items mode)
  let cascades ← (groupByType items).flatten.mapM (planItem ctx s coordinated change mode)
  return cascades.flatten

/-- The first item that names an entity named before it. -/
def firstRepeated : List Item → List (String × String) → Option Item
  | [], _ => none
  | item :: rest, seen =>
    if (item.entityType, item.id) ∈ seen then some item
    else firstRepeated rest ((item.entityType, item.id) :: seen)

/-- The deletes of a replacement that find something to delete. -/
def effectiveDeletes (s : ServerState) (deletes : List Item) : List Item :=
  deletes.filter fun item => (s.registry.canonicalItem item).isSome

def planReplace (s : ServerState) (coordinated : Bool) (upserts deletes : List Item) (first : Item)
    (mode : EdgeApplyMode) : Except PersistError (List Item) := do
  let cascades ← (effectiveDeletes s deletes).mapM fun item =>
    if coordinated then
      checkGraph item ((s.view ctx).endpointDeletePlan ⟨item.entityType, item.id⟩)
    else pure []
  if coordinated then
    checkGraph first ((s.view ctx).preflightReplaceBatch upserts (effectiveDeletes s deletes) mode)
  return cascades.flatten

/-! ### Committing -/

def reduceOne (change : Change) : ServerM Unit := do
  modify fun s => { s with registry := s.registry.write change }
  if change.kind = .set then releaseEnsureReservationForItem ctx change.item

/-- Offer an event to the persister of its type. -/
def persistDyn (change : Change) : ServerM Unit :=
  match ctx.persister change.item.entityType with
  | none => pure ()
  | some persist => do
    let s ← get
    modify fun s => { s with offered := s.offered ++ [change] }
    passOn (persist s.offered change)

/-- Bring the index from the value an item had before the commit to the one it has now. -/
def indexItem (before : StoreRegistry) (coordinated : Bool) (change : Change) : ServerM Unit := do
  if coordinated then
    discard (liftGraph change.item
      (applyEdge ctx.schema (before.canonicalItem change.item) change.value))

def persistItem (origin : Origin) (change : Change) : ServerM Unit := do
  if origin.shouldProduce then persistDyn ctx change

def indexAndPersist (before : StoreRegistry) (coordinated : Bool) (origin : Origin)
    (change : Change) : ServerM Unit := do
  indexItem ctx before coordinated change
  persistItem ctx origin change

def liftWatches (item : Item)
    (publish : List GraphWatch → Except String (List GraphWatch)) : ServerM Unit := do
  let s ← get
  let watches ← passOn (checkGraph item (publish s.watches))
  modify fun s => { s with watches }

/-- The changes of registered edges, as the watches are told of them. -/
def watchChanges (before : StoreRegistry) (changes : List Change) : List (Option Item × Option Item) :=
  (changes.filter fun change => (ctx.schema.registration change.item.entityType).isSome).map
    fun change => (before.canonicalItem change.item, change.value)

def commitOne (item : Item) (change : MEventType) (origin : Origin) (mode : EdgeApplyMode) :
    ServerM (List Item) := do
  let s ← get
  let coordinated := ctx.schema.coordinates item change
  let cascades ← passOn (planItem ctx s coordinated change mode item)
  reduceOne ctx ⟨change, item⟩
  indexItem ctx s.registry coordinated ⟨change, item⟩
  let persisted ← attempt (persistItem ctx origin ⟨change, item⟩)
  let watched ← attempt (
    if coordinated && hasWatchSubscribers s.watches &&
        (ctx.schema.registration item.entityType).isSome then
      liftWatches item
        (publishWatchChange ctx.schema (s.registry.canonicalItem item) (newValue change item))
    else pure ())
  passOn persisted
  passOn watched
  return cascades

def commitGrouped (items : List Item) (first : Item) (change : MEventType) (origin : Origin)
    (mode : EdgeApplyMode) : ServerM (List Item) := do
  let s ← get
  let coordinated := items.any fun item => ctx.schema.coordinates item change
  let cascades ← passOn (planGrouped ctx s coordinated items first change mode)
  let changes := (groupByType items).flatten.map (Change.mk change)
  let watch := if coordinated && hasWatchSubscribers s.watches then
    watchChanges ctx s.registry changes else []
  modify fun s => { s with
    registry := (groupByType items).foldl
      (fun registry group => registry.writeAll (group.map (Change.mk change))) s.registry }
  let mutated ← attempt (each (indexAndPersist ctx s.registry coordinated origin) changes)
  let watched ← attempt (
    if watch.isEmpty then pure () else liftWatches first (publishWatchChanges ctx.schema watch))
  passOn mutated
  passOn watched
  return cascades

/-- The writes of a replacement to the store of one type. -/
def replaceWrites (upserts deletes : List Item) (entityType : String) : List Change :=
  (ofType entityType deletes).map (Change.mk .del) ++ (ofType entityType upserts).map (Change.mk .set)

def replaceCoordinated (upserts deletes : List Item) : Bool :=
  (deletes.any fun item => ctx.schema.coordinates item .del) ||
    upserts.any fun item => ctx.schema.coordinates item .set

/-- Commit a replacement, unless the graph has moved on since the generation it was planned at. -/
def commitReplace (upserts deletes : List Item) (first : Item) (origin : Origin) (mode : EdgeApplyMode)
    (expected : Option Nat) : ServerM (Option (List Item)) := do
  match firstRepeated (deletes ++ upserts) [] with
  | some item =>
    throw (graphError item "replacement batch contains the same entity ID more than once")
  | none => pure ()
  let s ← get
  let coordinated := replaceCoordinated ctx upserts deletes
  if coordinated && expected.any (· ≠ s.graph.generation) then
    return none
  let cascades ← passOn (planReplace ctx s coordinated upserts deletes first mode)
  let effective := effectiveDeletes s deletes
  let changes := effective.map (Change.mk .del) ++ upserts.map (Change.mk .set)
  let watch := if coordinated && hasWatchSubscribers s.watches then
    watchChanges ctx s.registry changes else []
  modify fun s => { s with
    registry := (entityTypes (effective ++ upserts)).foldl
      (fun registry entityType => registry.writeAll (replaceWrites upserts effective entityType))
      s.registry }
  each (indexAndPersist ctx s.registry coordinated origin) (effective.map (Change.mk .del))
  each (indexAndPersist ctx s.registry coordinated origin) (upserts.map (Change.mk .set))
  if !watch.isEmpty then liftWatches first (publishWatchChanges ctx.schema watch)
  return some cascades

/-! ### Effects -/

def indexSearch (change : MEventType) (item : Item) : ServerM Unit :=
  modify fun s => { s with
    searchIndex := Function.update s.searchIndex item.entityType
      (Function.update (s.searchIndex item.entityType) item.id (newValue change item)) }

/-- The shared tail of the items of one type whose reduction is done. -/
def applyEffects (submit : Submit) (items : List Item) (change : MEventType) (origin : Origin) :
    ServerM Unit := do
  each (indexSearch change) items
  if origin.shouldCascade then
    match change with
    | .set => forwardSetBatch ctx submit items
    | .del => forwardDelBatch ctx submit items
  if origin.shouldProduce then
    modify fun s => { s with sink := s.sink ++ items.map (Change.mk change) }

def emitOne (submit : Submit) (item : Item) (change : MEventType) (origin : Origin)
    (mode : EdgeApplyMode) : ServerM Unit := do
  let cascades ← commitOne ctx item change origin mode
  applyEffects ctx submit [item] change origin
  submit cascades .del .cascade

def emitGrouped (submit : Submit) (items : List Item) (change : MEventType) (origin : Origin)
    (mode : EdgeApplyMode) : ServerM Unit :=
  match items with
  | [] => pure ()
  | first :: _ => do
    let cascades ← commitGrouped ctx items first change origin mode
    each (fun group => applyEffects ctx submit group change origin) (groupByType items)
    submit cascades .del .cascade

/-- Whether the replacement applied. -/
def emitReplaceGrouped (submit : Submit) (upserts deletes : List Item) (origin : Origin)
    (mode : EdgeApplyMode) (expected : Option Nat) : ServerM Bool :=
  match upserts.head?.or deletes.head? with
  | none => return true
  | some first => do
    let effective := effectiveDeletes (← get) deletes
    match ← commitReplace ctx upserts deletes first origin mode expected with
    | none => return false
    | some cascades =>
      each (fun entityType => do
        applyEffects ctx submit (ofType entityType effective) .del origin
        applyEffects ctx submit (ofType entityType upserts) .set origin)
        (entityTypes (effective ++ upserts))
      submit cascades .del .cascade
      return true

end Myko

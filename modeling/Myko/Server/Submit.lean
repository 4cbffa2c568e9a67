import Myko.Server.Emit

/-!
Submission. A mutation joins the causal root under way, opens a root of its own and drains it, or,
when nothing can follow from it, is emitted at once.
-/

namespace Myko
open StateError

variable (ctx : MykoServerContext)

/-- Reduce one pending mutation; whether it applied. -/
def reducePending (submit : Submit) (pending : PendingMutation) : ServerM Bool :=
  match pending.kind with
  | .uniform [item] change => do
    emitOne ctx submit item change pending.origin pending.mode
    return true
  | .uniform items change => do
    emitGrouped ctx submit items change pending.origin pending.mode
    return true
  | .replace upserts deletes expected =>
    emitReplaceGrouped ctx submit upserts deletes pending.origin pending.mode expected

/-- The most mutations one root can reduce: its own items and all it may derive. -/
def drainBound (limits : CausalLimits) (items : List Item) : Nat :=
  items.length + limits.maxDerivedMutations + 1

/-- Reduce the queue to its end, or to the first replacement that does not apply when `halt` is set. -/
def drain (submit : Submit) (halt : Bool) : Nat → ServerM Bool
  | 0 => return true
  | fuel + 1 => do
    match ← popPending with
    | none => return true
    | some pending =>
      let applied ← reducePending ctx submit pending
      if halt && !applied then return false
      drain submit halt fuel

/-- Run a root: enqueue its own mutation, drain, and leave no transaction behind. -/
def runRoot (submit : Submit) (halt : Bool) (items : List Item) (enqueue : ServerM Unit) :
    ServerM Bool := do
  modify fun s => { s with
    causal := some (.begin (ctx.uuid s.uuids))
    uuids := s.uuids + 1 }
  let limits := (← get).causalLimits
  let result ← attempt (do
    enqueue
    drain ctx submit halt (drainBound limits items))
  modify fun s => { s with causal := none }
  passOn result

def needsCausalRoot (items : List Item) (change : MEventType) (origin : Origin) : Bool :=
  origin.shouldCascade && items.any fun item =>
    ctx.tables.coordinates item.entityType change || ctx.schema.coordinates item change

/-- A submission made by the pipeline itself. It joins the root under way; outside a root none of
the work that could submit anything is reached. -/
def submitDerived : Submit := fun items change origin => do
  if (← get).causal.isSome then enqueueCausal ctx items change origin .authoritative

def submitMutationMode (items : List Item) (change : MEventType) (origin : Origin)
    (mode : EdgeApplyMode) : ServerM Unit := do
  if (← get).causal.isSome then enqueueCausal ctx items change origin mode
  else if needsCausalRoot ctx items change origin then
    discard (runRoot ctx (submitDerived ctx) false items (enqueueCausal ctx items change origin mode))
  else
    discard (reducePending ctx (submitDerived ctx)
      { kind := .uniform items change, origin, mode, depth := 0, chain := [] })

def submitMutation (items : List Item) (change : MEventType) (origin : Origin) : ServerM Unit :=
  submitMutationMode ctx items change origin .authoritative

def submitReplaceMutationInner (upserts deletes : List Item) (origin : Origin)
    (expected : Option Nat) : ServerM Bool :=
  if upserts.isEmpty && deletes.isEmpty then return true
  else do
    if (← get).causal.isSome then
      if expected.isSome then return false
      enqueueCausalReplace ctx upserts deletes origin .authoritative none
      return true
    runRoot ctx (submitDerived ctx) true (upserts ++ deletes)
      (enqueueCausalReplace ctx upserts deletes origin .authoritative expected)

/-! ### Public calls -/

def set (item : Item) : ServerM Unit := submitMutation ctx [item] .set .localOrigin

def setDyn (item : Item) : ServerM Unit := submitMutation ctx [item] .set .localOrigin

def setTransient (item : Item) : ServerM Unit := submitMutation ctx [item] .set .transient

def del (item : Item) : ServerM Unit := submitMutation ctx [item] .del .localOrigin

def batchSet (items : List Item) : ServerM Unit :=
  if items.isEmpty then pure () else submitMutation ctx items .set .localOrigin

def batchDel (items : List Item) : ServerM Unit :=
  if items.isEmpty then pure () else submitMutation ctx items .del .localOrigin

def replaceBatchAny (upserts deletes : List Item) : ServerM Unit :=
  discard (submitReplaceMutationInner ctx upserts deletes .localOrigin none)

/-- Delete an entity by type and id. Neither the graph nor the relationship manager hears of it. -/
def delById (entityType id : String) : ServerM Unit := do
  let s ← get
  modify fun s => { s with
    registry := s.registry.remove entityType id
    searchIndex := Function.update s.searchIndex entityType
      (Function.update (s.searchIndex entityType) id none) }
  match s.registry.getValue entityType id with
  | some item =>
    persistDyn ctx ⟨.del, item⟩
    modify fun s => { s with sink := s.sink ++ [⟨.del, item⟩] }
  | none => pure ()

/-- The items of the events of one kind, those that parse. -/
def parsedItems (events : List MEvent) (change : MEventType) : List Item :=
  (events.filter fun event => event.changeType = change).filterMap fun event =>
    ctx.parser event.itemType event.item

/-- Apply wire events, the SETs among them before the DELs. -/
def applyEventBatchImmediate (events : List MEvent) : ServerM Nat := do
  let setItems := parsedItems ctx events .set
  let delItems := parsedItems ctx events .del
  let applied := setItems.length + delItems.length
  if applied = 0 then return 0
  submitMutationMode ctx setItems .set .localOrigin .import
  submitMutationMode ctx delItems .del .localOrigin .import
  return applied

def isBuffered (event : MEvent) : Bool := ctx.bufferPolicy event.itemType ≠ .none

def enqueueBufferedEvents (entityType : String) (events : List MEvent) : ServerM Unit :=
  modify fun s => { s with
    ingestBuffers := Function.update s.ingestBuffers entityType (s.ingestBuffers entityType ++ events) }

/-- Apply a batch of wire events, but for those of types whose events are held back for a while. -/
def applyEventBatch (events : List MEvent) : ServerM Nat := do
  let buffered := events.filter (isBuffered ctx)
  let immediate := events.filter fun event => !isBuffered ctx event
  let accepted ← if immediate.isEmpty then pure 0 else applyEventBatchImmediate ctx immediate
  each (fun entityType =>
    enqueueBufferedEvents entityType (buffered.filter fun event => event.itemType = entityType))
    (buffered.map MEvent.itemType).dedup
  return accepted + buffered.length

/-- The held-back events of one type come due. Their failure is only logged. -/
def flushBufferedEventsForType (entityType : String) : ServerM Nat := do
  let events := (← get).ingestBuffers entityType
  if events.isEmpty then return 0
  modify fun s => { s with ingestBuffers := Function.update s.ingestBuffers entityType [] }
  match ← attempt (applyEventBatchImmediate ctx events) with
  | .ok count => return count
  | .error _ => return 0

/-- Override the validation of one registered edge type. -/
def setEdgeApplyMode (edgeType : String) (mode : EdgeApplyMode) : ServerM (Except String Unit) :=
  if (ctx.schema.registration edgeType).isNone then
    return .error s!"graph edge {edgeType} is not registered"
  else do
    modify fun s => { s with applyModes := Function.update s.applyModes edgeType (some mode) }
    return .ok ()

/-- Replace the bounds of the roots started from now on. -/
def setCausalLimits (limits : CausalLimits) : ServerM Unit :=
  modify fun s => { s with causalLimits := limits }

/-- Open a watch of the edges of a registered type. -/
def openWatch (edgeType : String) (watch : GraphView → EdgeRegistration → GraphWatch) :
    ServerM (Except String Unit) := do
  match ctx.schema.registration edgeType with
  | none => return .error "edge type is not registered"
  | some registration =>
    modify fun s => { s with watches := s.watches ++ [watch (s.view ctx) registration] }
    return .ok ()

def watch (edgeType : String) (selection : GraphSelection) : ServerM (Except String Unit) :=
  openWatch ctx edgeType fun view registration => view.watchMatching registration selection

def watchCountAt (edgeType : String) (position : EndPosition) (endpoint : EndpointValue) :
    ServerM (Except String Unit) :=
  openWatch ctx edgeType fun view registration => view.watchCountAt registration position endpoint

def watchCountBetween (edgeType : String) (a b : EndpointValue) : ServerM (Except String Unit) :=
  openWatch ctx edgeType fun view registration => view.watchCountBetween registration a b

end Myko

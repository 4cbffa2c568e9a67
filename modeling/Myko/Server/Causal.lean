import Myko.Server.State

/-!
The queue of a causal root: mutations derived while a root is under way are accepted once each and
wait for their turn.
-/

namespace Myko
open StateError

abbrev CausalM := EStateM PersistError CausalState

def causalError (item : Item) (message : String) : PersistError where
  entityType := item.entityType
  message := s!"causal loop protection: {message}"

def transitionKey (ctx : MykoServerContext) (change : MEventType) (item : Item) : TransitionKey where
  entityType := item.entityType
  id := item.id
  operation := match change with
    | .set => 1
    | .del => 2
  contentHash := ctx.contentHash item

/-- Take note of an accepted transition. A derived one counts against the budget of the root. -/
def CausalState.accepting (state : CausalState) (key : TransitionKey) (depth : Nat) : CausalState :=
  { state with
    seen := key :: state.seen
    derivedCount := if depth > 0 then state.derivedCount + 1 else state.derivedCount }

def checkBudget (limits : CausalLimits) (item : Item) (depth : Nat) (chain : List String) :
    CausalM Unit := do
  let state ← get
  if depth > 0 ∧ state.derivedCount > limits.maxDerivedMutations then
    let path := " -> ".intercalate chain
    throw (causalError item
      s!"root={state.rootTx} exceeded derived mutation budget {limits.maxDerivedMutations}: {path}")

/-- The items of a submission whose transition the root has not seen. -/
def acceptTransitions (ctx : MykoServerContext) (limits : CausalLimits) (change : MEventType)
    (depth : Nat) (chain : List String) : List Item → CausalM (List Item)
  | [] => pure []
  | item :: rest => do
    let state ← get
    let key := transitionKey ctx change item
    if key ∈ state.seen then acceptTransitions ctx limits change depth chain rest
    else
      set (state.accepting key depth)
      checkBudget limits item depth chain
      let accepted ← acceptTransitions ctx limits change depth chain rest
      return item :: accepted

def nextDepth (state : CausalState) : Nat :=
  match state.currentDepth with
  | some depth => depth + 1
  | none => 0

def checkDepth (limits : CausalLimits) (first : Item) (depth : Nat) (chain : List String) :
    CausalM Unit := do
  let state ← get
  if depth > limits.maxDepth then
    let path := " -> ".intercalate chain
    throw (causalError first s!"root={state.rootTx} exceeded max depth {limits.maxDepth}: {path}")

def pushPending (pending : PendingMutation) : CausalM Unit :=
  modify fun state => { state with queue := state.queue ++ [pending] }

def enqueueUniform (ctx : MykoServerContext) (limits : CausalLimits) (first : Item)
    (items : List Item) (change : MEventType) (origin : Origin) (requestedMode : EdgeApplyMode) :
    CausalM Unit := do
  let state ← get
  let mode := state.currentMode.getD requestedMode
  let depth := nextDepth state
  let chain := state.currentChain ++ [s!"{origin.debug}:{change.debug}@{depth}"]
  checkDepth limits first depth chain
  let accepted ← acceptTransitions ctx limits change depth chain items
  if !accepted.isEmpty then
    pushPending { kind := .uniform accepted change, origin, mode, depth, chain }

def enqueueReplace (ctx : MykoServerContext) (limits : CausalLimits) (first : Item)
    (upserts deletes : List Item) (origin : Origin) (requestedMode : EdgeApplyMode)
    (expectedGraphGeneration : Option Nat) : CausalM Unit := do
  let state ← get
  let mode := state.currentMode.getD requestedMode
  let depth := nextDepth state
  let chain := state.currentChain ++ [s!"{origin.debug}:REPLACE@{depth}"]
  checkDepth limits first depth chain
  let deletes ← acceptTransitions ctx limits .del depth chain deletes
  let upserts ← acceptTransitions ctx limits .set depth chain upserts
  if !upserts.isEmpty || !deletes.isEmpty then
    pushPending { kind := .replace upserts deletes expectedGraphGeneration, origin, mode, depth, chain }

/-- Run a step of the causal transaction under way. -/
def withCausal {α : Type} (first : Item) (step : CausalM α) : ServerM α := fun s =>
  match s.causal with
  | none => .error (causalError first "internal causal state was not initialized") s
  | some causal =>
    match step causal with
    | .ok value causal => .ok value { s with causal := some causal }
    | .error error causal => .error error { s with causal := some causal }

def enqueueCausal (ctx : MykoServerContext) (items : List Item) (change : MEventType)
    (origin : Origin) (requestedMode : EdgeApplyMode) : ServerM Unit :=
  match items with
  | [] => pure ()
  | first :: _ => do
    let limits := (← get).causalLimits
    withCausal first (enqueueUniform ctx limits first items change origin requestedMode)

def enqueueCausalReplace (ctx : MykoServerContext) (upserts deletes : List Item) (origin : Origin)
    (requestedMode : EdgeApplyMode) (expectedGraphGeneration : Option Nat) : ServerM Unit :=
  match upserts.head?.or deletes.head? with
  | none => pure ()
  | some first => do
    let limits := (← get).causalLimits
    withCausal first
      (enqueueReplace ctx limits first upserts deletes origin requestedMode expectedGraphGeneration)

/-- Take the next pending mutation, whose place in the transaction what follows derives from. -/
def popPending : ServerM (Option PendingMutation) := fun s =>
  match s.causal with
  | none => .ok none s
  | some causal =>
    match causal.queue with
    | [] => .ok none s
    | pending :: queue =>
      .ok (some pending) { s with
        causal := some { causal with
          queue
          currentDepth := some pending.depth
          currentMode := some pending.mode
          currentChain := pending.chain } }

def CausalState.begin (rootTx : String) : CausalState where
  rootTx
  queue := []
  seen := []
  derivedCount := 0
  currentDepth := none
  currentMode := none
  currentChain := []

end Myko

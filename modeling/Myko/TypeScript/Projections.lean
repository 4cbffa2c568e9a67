import Myko.Lib.MapDiff
import Myko.Lib.Runs

/-!
The projections of one query identity in a client: array, diff, keyed state, selection, item, membership and
size all read one shared wire stream, which replays its last response to a projection that joins it. The code
for the identity of a view is the same under its own names.
-/

namespace Myko.TypeScript.Projections

/-- A response of the server, as a diff of the result. -/
structure Response (V : Type) where
  sequence : Nat
  deletes : List String
  upserts : List (String × V)

abbrev Rows (V : Type) := OrdMap String V

variable {V : Type}

def applyCollectionDiff (target : Rows V) (diff : Response V) : Rows V :=
  ((if diff.sequence = 0 then ∅ else target).removeMany diff.deletes).insertMany diff.upserts

/-- The accumulator of the array projection. It passes over rows without an id. -/
def scan (acc : Rows V) (update : Response V) : Rows V :=
  ((if update.sequence = 0 then ∅ else acc).removeMany update.deletes).insertMany
    (update.upserts.filter fun row => row.1 ≠ "")

theorem scan_eq {acc : Rows V} {update : Response V} (named : ∀ row ∈ update.upserts, row.1 ≠ "") :
    scan acc update = applyCollectionDiff acc update := by
  unfold scan applyCollectionDiff
  rw [List.filter_eq_self.mpr fun row among => decide_eq_true (named row among)]

/-- A reset leaves nothing of what was there. -/
theorem applyCollectionDiff_reset {diff : Response V} (reset : diff.sequence = 0) (rows others : Rows V) :
    applyCollectionDiff rows diff = applyCollectionDiff others diff := by
  unfold applyCollectionDiff
  rw [if_pos reset, if_pos reset]

theorem get_applyCollectionDiff {rows : Rows V} {diff : Response V} {id : String} (kept : diff.sequence ≠ 0)
    (stays : id ∉ diff.deletes) (others : ∀ row ∈ diff.upserts, row.1 ≠ id) :
    (applyCollectionDiff rows diff)[id]? = rows[id]? := by
  have inserted : ∀ (entries : List (String × V)) (m : Rows V), (∀ row ∈ entries, row.1 ≠ id) →
      (m.insertMany entries)[id]? = m[id]? := by
    intro entries
    induction entries with
    | nil => exact fun _ _ => rfl
    | cons entry rest ih =>
      intro m others
      rw [OrdMap.insertMany, List.foldl_cons, ← OrdMap.insertMany,
        ih _ fun row among => others row (List.mem_cons_of_mem _ among), OrdMap.get_insert,
        if_neg (Ne.symm (others entry List.mem_cons_self))]
  unfold applyCollectionDiff
  rw [inserted _ _ others, if_neg kept, OrdMap.get_removeMany, if_neg stays]

/-! ### Listeners -/

/-- What a listener of a collection looks at. -/
inductive Shape where
  | item (id : String)
  | has (id : String)
  | size

inductive Selected (V : Type) where
  | item (value : Option V)
  | has (present : Bool)
  | size (count : Nat)

namespace Shape

def select (shape : Shape) (rows : Rows V) : Selected V :=
  match shape with
  | item id => .item rows[id]?
  | has id => .has rows[id]?.isSome
  | size => .size rows.size

/-- Whether an update that leaves `after` calls the listener. -/
def hears (shape : Shape) (wasResolved : Bool) (before after : Rows V) (diff : Response V) : Bool :=
  match shape with
  | item id | has id => diff.sequence = 0 || diff.deletes.contains id || diff.upserts.any fun row => row.1 = id
  | size => !wasResolved || before.size ≠ after.size

/-- A listener that is not called sees no difference. -/
theorem select_unheard {shape : Shape} {rows : Rows V} {diff : Response V}
    (unheard : shape.hears true rows (applyCollectionDiff rows diff) diff = false) :
    shape.select (applyCollectionDiff rows diff) = shape.select rows := by
  cases shape with
  | size =>
    have same : rows.size = (applyCollectionDiff rows diff).size := by simpa [hears] using unheard
    simp only [select, same]
  | item id =>
    have calm : (diff.sequence ≠ 0 ∧ id ∉ diff.deletes) ∧ ∀ row ∈ diff.upserts, row.1 ≠ id := by
      simpa [hears] using unheard
    simp only [select, get_applyCollectionDiff calm.1.1 calm.1.2 calm.2]
  | has id =>
    have calm : (diff.sequence ≠ 0 ∧ id ∉ diff.deletes) ∧ ∀ row ∈ diff.upserts, row.1 ≠ id := by
      simpa [hears] using unheard
    simp only [select, get_applyCollectionDiff calm.1.1 calm.1.2 calm.2]

end Shape

/-- A subscriber of a selection hub, and the value it was last given. -/
structure Registration (V : Type) where
  number : Nat
  shape : Shape
  shown : Option (Selected V)

def Registration.tell (registration : Registration V) (rows : Rows V) : Registration V :=
  { registration with shown := some (registration.shape.select rows) }

/-! ### The shared streams -/

/-- The wire stream of the identity, with the last response it replays and, for reference, what the
responses so far fold to. -/
structure Wire (V : Type) where
  id : Nat
  last : Option (Response V)
  whole : Option (Rows V)

structure ArrayProjection (V : Type) where
  wire : Nat
  acc : Rows V
  shown : Option (Rows V)
  subscribers : Nat

structure DiffProjection (V : Type) where
  wire : Nat
  buffer : Option (Response V)
  subscribers : Nat

/-- A collection and the stream that hands it out once it has applied a diff. -/
structure StateProjection (V : Type) where
  diff : Nat
  items : Rows V
  resolved : Bool
  emitted : Bool
  subscribers : Nat

/-- A selection hub: the state it subscribes to while it has registrations, and whether it has been handed
the collection. -/
structure Hub (V : Type) where
  state : Option Nat
  attached : Bool
  registrations : List (Registration V)

def ArrayProjection.receive (array : ArrayProjection V) (update : Response V) : ArrayProjection V :=
  { array with acc := scan array.acc update, shown := some (scan array.acc update) }

def StateProjection.receive (state : StateProjection V) (diff : Response V) : StateProjection V :=
  { state with items := applyCollectionDiff state.items diff, resolved := true, emitted := true }

/-- The collection calls its listeners as it applies a diff, and hands itself to a hub that does not have it. -/
def Hub.hear (hub : Hub V) (state : StateProjection V) (diff : Response V) : Hub V :=
  let after := applyCollectionDiff state.items diff
  if hub.attached then
    { hub with registrations := hub.registrations.map fun registration =>
        if registration.shape.hears state.resolved state.items after diff then registration.tell after
        else registration }
  else { hub with attached := true, registrations := hub.registrations.map fun registration => registration.tell after }

theorem hear_state (hub : Hub V) (state : StateProjection V) (diff : Response V) :
    (hub.hear state diff).state = hub.state ∧ (hub.hear state diff).attached = true := by
  unfold Hub.hear
  cases attached : hub.attached with
  | true => simp
  | false => simp

/-- Listeners that showed the collection before show it after, and so do the ones of a hub that gets it. -/
theorem hear_listened {hub : Hub V} {state : StateProjection V} {diff : Response V}
    (resolved : hub.attached = true → state.resolved = true)
    (listened : hub.attached = true → ∀ registration ∈ hub.registrations,
      registration.shown = some (registration.shape.select state.items)) :
    ∀ registration ∈ (hub.hear state diff).registrations,
      registration.shown = some (registration.shape.select (applyCollectionDiff state.items diff)) := by
  intro registration among
  unfold Hub.hear at among
  dsimp only at among
  cases attached : hub.attached with
  | true =>
    rw [attached, if_pos rfl] at among
    obtain ⟨before, present, rfl⟩ := List.mem_map.mp among
    split
    · rfl
    · rename_i unheard
      rw [resolved attached] at unheard
      rw [listened attached before present, Shape.select_unheard (Bool.eq_false_iff.mpr unheard)]
  | false =>
    rw [attached, if_neg Bool.false_ne_true] at among
    obtain ⟨before, present, rfl⟩ := List.mem_map.mp among
    rfl

/-- The streams of one identity: the ones in the caches and the ones that callers still hold. -/
structure Identity (V : Type) where
  wire : Option (Wire V)
  wires : Nat
  arrays : Nat → ArrayProjection V
  arraysMade : Nat
  diffs : Nat → DiffProjection V
  diffsMade : Nat
  states : Nat → StateProjection V
  statesMade : Nat
  hubs : Nat → Hub V
  hubsMade : Nat
  sharedArray : Option Nat
  sharedDiff : Option Nat
  sharedState : Option Nat
  sharedHub : Option Nat
  registered : Nat

namespace Identity

def start : Identity V where
  wire := none
  wires := 0
  arrays _ := ⟨0, ∅, none, 0⟩
  arraysMade := 0
  diffs _ := ⟨0, none, 0⟩
  diffsMade := 0
  states _ := ⟨0, ∅, false, false, 0⟩
  statesMade := 0
  hubs _ := ⟨none, false, []⟩
  hubsMade := 0
  sharedArray := none
  sharedDiff := none
  sharedState := none
  sharedHub := none
  registered := 0

/-! Which streams have a subscriber. -/

def liveArray (s : Identity V) (i : Nat) : Bool := (s.arrays i).subscribers ≠ 0

def liveState (s : Identity V) (j : Nat) : Bool :=
  (s.states j).subscribers ≠ 0 || (List.range s.hubsMade).any fun h => (s.hubs h).state = some j

def liveDiff (s : Identity V) (d : Nat) : Bool :=
  (s.diffs d).subscribers ≠ 0 || (List.range s.statesMade).any fun j => (s.states j).diff = d && s.liveState j

def connected (s : Identity V) (wire : Nat) : Bool :=
  ((List.range s.arraysMade).any fun i => (s.arrays i).wire = wire && s.liveArray i) ||
    (List.range s.diffsMade).any fun d => (s.diffs d).wire = wire && s.liveDiff d

def stateWire (s : Identity V) (j : Nat) : Nat := (s.diffs (s.states j).diff).wire

/-! ### Watch calls -/

/-- The shared wire stream; the query starts with the call that makes it. -/
def sharedResponses (s : Identity V) : Identity V × Nat :=
  match s.wire with
  | some wire => (s, wire.id)
  | none => ({ s with wire := some ⟨s.wires, none, none⟩, wires := s.wires + 1 }, s.wires)

def watchQuery (s : Identity V) : Identity V × Nat :=
  match s.sharedArray with
  | some i => (s, i)
  | none =>
    let (s, wire) := s.sharedResponses
    ({ s with
      arrays := Function.update s.arrays s.arraysMade ⟨wire, ∅, none, 0⟩
      arraysMade := s.arraysMade + 1
      sharedArray := some s.arraysMade }, s.arraysMade)

def watchQueryDiff (s : Identity V) : Identity V × Nat :=
  match s.sharedDiff with
  | some d => (s, d)
  | none =>
    let (s, wire) := s.sharedResponses
    ({ s with
      diffs := Function.update s.diffs s.diffsMade ⟨wire, none, 0⟩
      diffsMade := s.diffsMade + 1
      sharedDiff := some s.diffsMade }, s.diffsMade)

def watchQueryState (s : Identity V) : Identity V × Nat :=
  match s.sharedState with
  | some j => (s, j)
  | none =>
    let (s, diff) := s.watchQueryDiff
    ({ s with
      states := Function.update s.states s.statesMade ⟨diff, ∅, false, false, 0⟩
      statesMade := s.statesMade + 1
      sharedState := some s.statesMade }, s.statesMade)

def querySelectionHub (s : Identity V) : Identity V × Nat :=
  match s.sharedHub with
  | some h => (s, h)
  | none =>
    ({ s with
      hubs := Function.update s.hubs s.hubsMade ⟨none, false, []⟩
      hubsMade := s.hubsMade + 1
      sharedHub := some s.hubsMade }, s.hubsMade)

/-! ### Subscribing -/

/-- What a stream on this wire is given when it connects: the last response, while the wire is up. -/
def replay (s : Identity V) (wire : Nat) : Option (Response V) :=
  match s.wire with
  | some current => if current.id = wire then current.last else none
  | none => none

def updateArray (s : Identity V) (i : Nat) (array : ArrayProjection V) : Identity V :=
  { s with arrays := Function.update s.arrays i array }

def updateDiff (s : Identity V) (d : Nat) (diff : DiffProjection V) : Identity V :=
  { s with diffs := Function.update s.diffs d diff }

def updateState (s : Identity V) (j : Nat) (state : StateProjection V) : Identity V :=
  { s with states := Function.update s.states j state }

def updateHub (s : Identity V) (h : Nat) (hub : Hub V) : Identity V :=
  { s with hubs := Function.update s.hubs h hub }

def subscribeArray (s : Identity V) (i : Nat) : Identity V :=
  let array := s.arrays i
  let array := if array.subscribers = 0 then (s.replay array.wire).elim array array.receive else array
  s.updateArray i { array with subscribers := array.subscribers + 1 }

/-- Connect a diff stream that gets its first subscriber. -/
def connectDiff (s : Identity V) (d : Nat) : Identity V :=
  if s.liveDiff d then s
  else s.updateDiff d { s.diffs d with buffer := s.replay (s.diffs d).wire }

def subscribeDiff (s : Identity V) (d : Nat) : Identity V :=
  let s := s.connectDiff d
  s.updateDiff d { s.diffs d with subscribers := (s.diffs d).subscribers + 1 }

/-- Connect a collection that gets its first subscriber to its diff stream. -/
def connectState (s : Identity V) (j : Nat) : Identity V :=
  if s.liveState j then s
  else
    let s := s.connectDiff (s.states j).diff
    s.updateState j ((s.diffs (s.states j).diff).buffer.elim (s.states j) (s.states j).receive)

def subscribeState (s : Identity V) (j : Nat) : Identity V :=
  let s := s.connectState j
  s.updateState j { s.states j with subscribers := (s.states j).subscribers + 1 }

/-- Subscribe a hub without a source, which has these registrations, to the state of the identity. -/
def startHub (s : Identity V) (h : Nat) (registrations : List (Registration V)) : Identity V :=
  let (s, j) := s.watchQueryState
  let s := s.connectState j
  s.updateHub h ⟨some j, (s.states j).emitted,
    if (s.states j).emitted then registrations.map fun registration => registration.tell (s.states j).items
    else registrations⟩

def subscribeSelection (s : Identity V) (h : Nat) (shape : Shape) : Identity V :=
  let hub := s.hubs h
  let shown := if hub.attached then hub.state.map fun j => shape.select (s.states j).items else none
  let registrations := hub.registrations ++ [⟨s.registered, shape, shown⟩]
  let s := if hub.state.isNone then s.startHub h registrations else s.updateHub h { hub with registrations }
  { s with registered := s.registered + 1 }

/-! ### Unsubscribing -/

/-- The wire goes down with its last subscriber, and the query is cancelled. -/
def dropWire (s : Identity V) (wire : Nat) : Identity V :=
  match s.wire with
  | some current => if current.id = wire && !s.connected wire then { s with wire := none } else s
  | none => s

def dropDiff (s : Identity V) (d : Nat) : Identity V :=
  if s.liveDiff d then s
  else ({ s with sharedDiff := none }.updateDiff d { s.diffs d with buffer := none }).dropWire (s.diffs d).wire

def dropState (s : Identity V) (j : Nat) : Identity V :=
  if s.liveState j then s
  else ({ s with sharedState := none }.updateState j { s.states j with emitted := false }).dropDiff (s.states j).diff

def unsubscribeArray (s : Identity V) (i : Nat) : Identity V :=
  let left := (s.arrays i).subscribers - 1
  if left = 0 then
    ({ s with sharedArray := none }.updateArray i { s.arrays i with subscribers := 0, shown := none }).dropWire
      (s.arrays i).wire
  else s.updateArray i { s.arrays i with subscribers := left }

def unsubscribeDiff (s : Identity V) (d : Nat) : Identity V :=
  (s.updateDiff d { s.diffs d with subscribers := (s.diffs d).subscribers - 1 }).dropDiff d

def unsubscribeState (s : Identity V) (j : Nat) : Identity V :=
  (s.updateState j { s.states j with subscribers := (s.states j).subscribers - 1 }).dropState j

def unsubscribeSelection (s : Identity V) (h number : Nat) : Identity V :=
  let hub := s.hubs h
  let left := hub.registrations.filter fun registration => registration.number ≠ number
  if left.isEmpty then
    let s := { s with sharedHub := if s.sharedHub = some h then none else s.sharedHub }.updateHub h ⟨none, false, []⟩
    hub.state.elim s s.dropState
  else s.updateHub h { hub with registrations := left }

/-! ### Responses -/

def receive (s : Identity V) (current : Wire V) (update : Response V) : Identity V :=
  { s with
    wire := some { current with last := some update, whole := some (applyCollectionDiff (current.whole.getD ∅) update) }
    arrays := fun i =>
      if (s.arrays i).wire = current.id ∧ s.liveArray i then (s.arrays i).receive update else s.arrays i
    diffs := fun d =>
      if (s.diffs d).wire = current.id ∧ s.liveDiff d then { s.diffs d with buffer := some update } else s.diffs d
    states := fun j =>
      if s.stateWire j = current.id ∧ s.liveState j then (s.states j).receive update else s.states j
    hubs := fun h =>
      match (s.hubs h).state with
      | some j => if s.stateWire j = current.id then (s.hubs h).hear (s.states j) update else s.hubs h
      | none => s.hubs h }

/-- A response to the running query. Without a subscriber of the wire it reaches nothing. -/
def respond (s : Identity V) (current : Wire V) (update : Response V) : Identity V :=
  if s.connected current.id then s.receive current update
  else { s with
    wire := some { current with whole := some (applyCollectionDiff (current.whole.getD ∅) update) } }

/-! ### Runs -/

inductive Event (V : Type) where
  | watchQuery
  | watchQueryDiff
  | watchQueryState
  | watchSelection
  | subscribeArray (i : Nat)
  | unsubscribeArray (i : Nat)
  | subscribeDiff (d : Nat)
  | unsubscribeDiff (d : Nat)
  | subscribeState (j : Nat)
  | unsubscribeState (j : Nat)
  | subscribeSelection (h : Nat) (shape : Shape)
  | unsubscribeSelection (h number : Nat)
  | response (update : Response V)

/-- The first response to a query has sequence zero. -/
def step (s : Identity V) : Event V → Option (Identity V)
  | .watchQuery => some s.watchQuery.1
  | .watchQueryDiff => some s.watchQueryDiff.1
  | .watchQueryState => some s.watchQueryState.1
  | .watchSelection => some s.querySelectionHub.1
  | .subscribeArray i => if i < s.arraysMade then some (s.subscribeArray i) else none
  | .unsubscribeArray i => if i < s.arraysMade ∧ s.liveArray i then some (s.unsubscribeArray i) else none
  | .subscribeDiff d => if d < s.diffsMade then some (s.subscribeDiff d) else none
  | .unsubscribeDiff d =>
    if d < s.diffsMade ∧ (s.diffs d).subscribers ≠ 0 then some (s.unsubscribeDiff d) else none
  | .subscribeState j => if j < s.statesMade then some (s.subscribeState j) else none
  | .unsubscribeState j =>
    if j < s.statesMade ∧ (s.states j).subscribers ≠ 0 then some (s.unsubscribeState j) else none
  | .subscribeSelection h shape => if h < s.hubsMade then some (s.subscribeSelection h shape) else none
  | .unsubscribeSelection h number =>
    if h < s.hubsMade ∧ ((s.hubs h).registrations.any fun registration => registration.number = number) then
      some (s.unsubscribeSelection h number)
    else none
  | .response update =>
    match s.wire with
    | some current => if current.whole.isSome || update.sequence = 0 then some (s.respond current update) else none
    | none => none

/-- Once the query has been answered, all that its subscribers see is the result. -/
structure Shown (s : Identity V) : Prop where
  arrays : ∀ current whole, s.wire = some current → current.whole = some whole →
    ∀ i < s.arraysMade, s.liveArray i = true → (s.arrays i).shown = some whole
  states : ∀ current whole, s.wire = some current → current.whole = some whole →
    ∀ j < s.statesMade, s.liveState j = true → (s.states j).emitted = true ∧ (s.states j).items = whole
  selections : ∀ current whole, s.wire = some current → current.whole = some whole →
    ∀ h < s.hubsMade, ∀ registration ∈ (s.hubs h).registrations,
      registration.shown = some (registration.shape.select whole)

variable {s t : Identity V} {current : Wire V} {whole : Rows V} {i d j h : Nat}

theorem liveArray_iff : s.liveArray i = true ↔ (s.arrays i).subscribers ≠ 0 := by
  simp [liveArray]

theorem liveState_iff : s.liveState j = true ↔
    (s.states j).subscribers ≠ 0 ∨ ∃ h < s.hubsMade, (s.hubs h).state = some j := by
  simp [liveState]

theorem liveDiff_iff : s.liveDiff d = true ↔
    (s.diffs d).subscribers ≠ 0 ∨ ∃ j < s.statesMade, (s.states j).diff = d ∧ s.liveState j = true := by
  simp [liveDiff]

theorem connected_iff {wire : Nat} : s.connected wire = true ↔
    (∃ i < s.arraysMade, (s.arrays i).wire = wire ∧ s.liveArray i = true) ∨
      ∃ d < s.diffsMade, (s.diffs d).wire = wire ∧ s.liveDiff d = true := by
  simp [connected]

/-- Nothing but what the streams carry may differ. -/
structure SameLinks (s t : Identity V) : Prop where
  arraysMade : t.arraysMade = s.arraysMade
  diffsMade : t.diffsMade = s.diffsMade
  statesMade : t.statesMade = s.statesMade
  hubsMade : t.hubsMade = s.hubsMade
  arrays : ∀ i, (t.arrays i).wire = (s.arrays i).wire ∧ (t.arrays i).subscribers = (s.arrays i).subscribers
  diffs : ∀ d, (t.diffs d).wire = (s.diffs d).wire ∧ (t.diffs d).subscribers = (s.diffs d).subscribers
  states : ∀ j, (t.states j).diff = (s.states j).diff ∧ (t.states j).subscribers = (s.states j).subscribers
  hubs : ∀ h, (t.hubs h).state = (s.hubs h).state

namespace SameLinks

variable (same : SameLinks s t)
include same

theorem liveState (j : Nat) : t.liveState j = s.liveState j := by
  unfold Identity.liveState
  simp only [same.hubsMade, (same.states j).2, same.hubs]

theorem liveDiff (d : Nat) : t.liveDiff d = s.liveDiff d := by
  unfold Identity.liveDiff
  simp only [same.statesMade, (same.diffs d).2, (same.states _).1, same.liveState]

theorem liveArray (i : Nat) : t.liveArray i = s.liveArray i := by
  unfold Identity.liveArray
  rw [(same.arrays i).2]

end SameLinks

/-- What the streams of an identity know of each other, whatever the responses were. -/
structure Inv (s : Identity V) : Prop where
  stateDiff : ∀ j < s.statesMade, (s.states j).diff < s.diffsMade
  hubState : ∀ h < s.hubsMade, ∀ j, (s.hubs h).state = some j → j < s.statesMade
  sharedDiff : ∀ d, s.sharedDiff = some d → d < s.diffsMade
  sharedState : ∀ j, s.sharedState = some j → j < s.statesMade
  accumulated : ∀ i rows, (s.arrays i).shown = some rows → (s.arrays i).acc = rows
  buffered : ∀ d < s.diffsMade, s.liveDiff d = true → (s.diffs d).buffer = s.replay (s.diffs d).wire
  resolved : ∀ j, (s.states j).emitted = true → (s.states j).resolved = true
  attached : ∀ h < s.hubsMade, ∀ j, (s.hubs h).state = some j → (s.hubs h).attached = (s.states j).emitted
  detached : ∀ h < s.hubsMade, (s.hubs h).state = none →
    (s.hubs h).attached = false ∧ (s.hubs h).registrations = []
  listened : ∀ h < s.hubsMade, ∀ j, (s.hubs h).state = some j → (s.hubs h).attached = true →
    ∀ registration ∈ (s.hubs h).registrations,
      registration.shown = some (registration.shape.select (s.states j).items)

/-- The part of `Shown` that the rest follows from. -/
structure Streams (s : Identity V) : Prop where
  arrays : ∀ current whole, s.wire = some current → current.whole = some whole →
    ∀ i < s.arraysMade, s.liveArray i = true → (s.arrays i).shown = some whole
  states : ∀ current whole, s.wire = some current → current.whole = some whole →
    ∀ j < s.statesMade, s.liveState j = true → (s.states j).emitted = true ∧ (s.states j).items = whole

theorem Inv.shown (inv : Inv s) (streams : Streams s) : Shown s where
  arrays := streams.arrays
  states := streams.states
  selections current whole up answered h made registration among := by
    cases subscribed : (s.hubs h).state with
    | none =>
      rw [(inv.detached h made subscribed).2] at among
      cases among
    | some j =>
      have live : s.liveState j = true := liveState_iff.mpr (.inr ⟨h, made, subscribed⟩)
      obtain ⟨emitted, items⟩ := streams.states current whole up answered j (inv.hubState h made j subscribed) live
      rw [inv.listened h made j subscribed ((inv.attached h made j subscribed).trans emitted) registration among,
        items]

structure Good (s : Identity V) : Prop where
  inv : Inv s
  streams : Streams s

theorem good_start : Good (start : Identity V) where
  inv := {
    stateDiff := fun _ made => (nomatch made)
    hubState := fun _ made => (nomatch made)
    sharedDiff := fun _ none => (nomatch none)
    sharedState := fun _ none => (nomatch none)
    accumulated := fun _ _ none => (nomatch none)
    buffered := fun _ made => (nomatch made)
    resolved := fun _ none => (nomatch none)
    attached := fun _ made => (nomatch made)
    detached := fun _ made => (nomatch made)
    listened := fun _ made => (nomatch made) }
  streams := ⟨fun _ _ none => (nomatch none), fun _ _ none => (nomatch none)⟩

/-! ### Watch calls -/

theorem sharedResponses_up (up : s.wire = some current) : s.sharedResponses = (s, current.id) := by
  simp only [sharedResponses, up]

theorem sharedResponses_down (down : s.wire = none) : s.sharedResponses =
    ({ s with wire := some ⟨s.wires, none, none⟩, wires := s.wires + 1 }, s.wires) := by
  simp only [sharedResponses, down]

theorem replay_down (down : s.wire = none) (wire : Nat) : s.replay wire = none := by
  simp only [replay, down]

theorem replay_up (up : s.wire = some current) (wire : Nat) :
    s.replay wire = if current.id = wire then current.last else none := by
  simp only [replay, up]

theorem good_sharedResponses (good : Good s) : Good s.sharedResponses.1 := by
  cases up : s.wire with
  | some current =>
    rw [sharedResponses_up up]
    exact good
  | none =>
    rw [sharedResponses_down up]
    obtain ⟨inv, streams⟩ := good
    refine ⟨⟨inv.stateDiff, inv.hubState, inv.sharedDiff, inv.sharedState, inv.accumulated, fun d made live => ?_,
      inv.resolved, inv.attached, inv.detached, inv.listened⟩, ⟨?_, ?_⟩⟩
    · rw [inv.buffered d made live, replay_down up, replay_up rfl]
      exact (ite_self none).symm
    · intro current whole same answered
      cases same
      cases answered
    · intro current whole same answered
      cases same
      cases answered

theorem good_makeArray (good : Good s) (wire : Nat) (shared : Option Nat) : Good { s with
    arrays := Function.update s.arrays s.arraysMade ⟨wire, ∅, none, 0⟩
    arraysMade := s.arraysMade + 1
    sharedArray := shared } := by
  obtain ⟨inv, streams⟩ := good
  refine ⟨⟨inv.stateDiff, inv.hubState, inv.sharedDiff, inv.sharedState, fun i rows shown => ?_, inv.buffered,
    inv.resolved, inv.attached, inv.detached, inv.listened⟩, ⟨fun current whole up answered i made live => ?_,
    streams.states⟩⟩
  · dsimp only at shown ⊢
    by_cases here : i = s.arraysMade
    · rw [here, Function.update_self] at shown
      cases shown
    · rw [Function.update_of_ne here] at shown ⊢
      exact inv.accumulated i rows shown
  · rw [liveArray_iff] at live
    dsimp only at live made ⊢
    by_cases here : i = s.arraysMade
    · rw [here, Function.update_self] at live
      exact absurd rfl live
    · rw [Function.update_of_ne here] at live ⊢
      exact streams.arrays current whole up answered i (by omega) (liveArray_iff.mpr live)

theorem good_watchQuery (good : Good s) : Good s.watchQuery.1 := by
  unfold watchQuery
  split
  · exact good
  · exact good_makeArray (good_sharedResponses good) _ _

theorem good_makeDiff (good : Good s) (wire : Nat) : Good { s with
    diffs := Function.update s.diffs s.diffsMade ⟨wire, none, 0⟩
    diffsMade := s.diffsMade + 1
    sharedDiff := some s.diffsMade } := by
  obtain ⟨inv, streams⟩ := good
  refine ⟨⟨fun j made => Nat.lt_succ_of_lt (inv.stateDiff j made), inv.hubState, fun d shared => ?_,
    inv.sharedState, inv.accumulated, fun d made live => ?_, inv.resolved, inv.attached, inv.detached,
    inv.listened⟩, ⟨streams.arrays, streams.states⟩⟩
  · cases shared
    exact Nat.lt_succ_self _
  · rw [liveDiff_iff] at live
    dsimp only at live made ⊢
    by_cases here : d = s.diffsMade
    · subst here
      rw [Function.update_self] at live
      rcases live with subscribed | ⟨j, bound, same, -⟩
      · exact absurd rfl subscribed
      · exact absurd same (Nat.ne_of_lt (inv.stateDiff j bound))
    · rw [Function.update_of_ne here] at live ⊢
      exact inv.buffered d (by omega) (liveDiff_iff.mpr live)

theorem good_watchQueryDiff (good : Good s) : Good s.watchQueryDiff.1 := by
  unfold watchQueryDiff
  split
  · exact good
  · exact good_makeDiff (good_sharedResponses good) _

theorem watchQueryDiff_made (good : Good s) : s.watchQueryDiff.2 < s.watchQueryDiff.1.diffsMade := by
  unfold watchQueryDiff
  split
  · rename_i d shared
    exact good.inv.sharedDiff d shared
  · exact Nat.lt_succ_self _

theorem good_makeState (good : Good s) {diff : Nat} (known : diff < s.diffsMade) : Good { s with
    states := Function.update s.states s.statesMade ⟨diff, ∅, false, false, 0⟩
    statesMade := s.statesMade + 1
    sharedState := some s.statesMade } := by
  obtain ⟨inv, streams⟩ := good
  have others : ∀ j, j ≠ s.statesMade →
      Function.update s.states s.statesMade ⟨diff, ∅, false, false, 0⟩ j = s.states j :=
    fun j other => Function.update_of_ne other _ _
  have lives : ∀ j, liveState { s with
      states := Function.update s.states s.statesMade ⟨diff, ∅, false, false, 0⟩
      statesMade := s.statesMade + 1
      sharedState := some s.statesMade } j = true → j ≠ s.statesMade ∧ s.liveState j = true := by
    intro j live
    rw [liveState_iff] at live
    dsimp only at live
    have old : j ≠ s.statesMade := by
      rintro rfl
      rw [Function.update_self] at live
      rcases live with subscribed | ⟨h, made, state⟩
      · exact subscribed rfl
      · exact Nat.lt_irrefl _ (inv.hubState h made _ state)
    rw [others j old] at live
    exact ⟨old, liveState_iff.mpr live⟩
  refine ⟨⟨fun j made => ?_, fun h made j state => Nat.lt_succ_of_lt (inv.hubState h made j state), inv.sharedDiff,
    fun j shared => ?_, inv.accumulated, fun d made live => ?_, fun j emitted => ?_, fun h made j state => ?_,
    inv.detached, fun h made j state => ?_⟩, ⟨streams.arrays, fun current whole up answered j made live => ?_⟩⟩
  · dsimp only at made ⊢
    by_cases here : j = s.statesMade
    · rw [here, Function.update_self]
      exact known
    · rw [others j here]
      exact inv.stateDiff j (by omega)
  · cases shared
    exact Nat.lt_succ_self _
  · refine inv.buffered d made (liveDiff_iff.mpr ((liveDiff_iff.mp live).imp_right fun found => ?_))
    obtain ⟨j, bound, same, stateLive⟩ := found
    obtain ⟨old, stateLive⟩ := lives j stateLive
    dsimp only at bound same
    rw [others j old] at same
    exact ⟨j, by omega, same, stateLive⟩
  · dsimp only at emitted ⊢
    by_cases here : j = s.statesMade
    · rw [here, Function.update_self] at emitted
      cases emitted
    · rw [others j here] at emitted ⊢
      exact inv.resolved j emitted
  · dsimp only
    rw [others j (Nat.ne_of_lt (inv.hubState h made j state))]
    exact inv.attached h made j state
  · dsimp only
    rw [others j (Nat.ne_of_lt (inv.hubState h made j state))]
    exact inv.listened h made j state
  · obtain ⟨old, live⟩ := lives j live
    dsimp only at made ⊢
    rw [others j old]
    exact streams.states current whole up answered j (by omega) live

theorem good_watchQueryState (good : Good s) : Good s.watchQueryState.1 := by
  unfold watchQueryState
  split
  · exact good
  · exact good_makeState (good_watchQueryDiff good) (watchQueryDiff_made good)

theorem watchQueryState_made (good : Good s) : s.watchQueryState.2 < s.watchQueryState.1.statesMade := by
  unfold watchQueryState
  split
  · rename_i j shared
    exact good.inv.sharedState j shared
  · exact Nat.lt_succ_self _

theorem good_querySelectionHub (good : Good s) : Good s.querySelectionHub.1 := by
  unfold querySelectionHub
  split
  · exact good
  · obtain ⟨inv, streams⟩ := good
    have lives : ∀ j, liveState { s with
        hubs := Function.update s.hubs s.hubsMade ⟨none, false, []⟩
        hubsMade := s.hubsMade + 1
        sharedHub := some s.hubsMade } j = true → s.liveState j = true := by
      intro j live
      refine liveState_iff.mpr ((liveState_iff.mp live).imp_right fun found => ?_)
      obtain ⟨h, made, state⟩ := found
      dsimp only at made state
      by_cases here : h = s.hubsMade
      · rw [here, Function.update_self] at state
        cases state
      · rw [Function.update_of_ne here] at state
        exact ⟨h, by omega, state⟩
    have old : ∀ h < s.hubsMade + 1, Function.update s.hubs s.hubsMade ⟨none, false, []⟩ h =
        if h = s.hubsMade then ⟨none, false, []⟩ else s.hubs h := fun h _ => by
      by_cases here : h = s.hubsMade
      · rw [here, Function.update_self, if_pos rfl]
      · rw [Function.update_of_ne here, if_neg here]
    refine ⟨⟨inv.stateDiff, fun h made j state => ?_, inv.sharedDiff, inv.sharedState, inv.accumulated,
      fun d made live => ?_, inv.resolved, fun h made j state => ?_, fun h made state => ?_,
      fun h made j state => ?_⟩,
      ⟨streams.arrays, fun current whole up answered j made live => streams.states current whole up answered j made
        (lives j live)⟩⟩
    · dsimp only at made state
      rw [old h made] at state
      split at state
      · cases state
      · exact inv.hubState h (by omega) j state
    · refine inv.buffered d made (liveDiff_iff.mpr ((liveDiff_iff.mp live).imp_right fun found => ?_))
      obtain ⟨j, bound, same, stateLive⟩ := found
      exact ⟨j, bound, same, lives j stateLive⟩
    · dsimp only at made state ⊢
      rw [old h made] at state ⊢
      split at state
      · cases state
      · rw [if_neg (by assumption)]
        exact inv.attached h (by omega) j state
    · dsimp only at made state ⊢
      rw [old h made] at state ⊢
      split
      · exact ⟨rfl, rfl⟩
      · rw [if_neg (by assumption)] at state
        exact inv.detached h (by omega) state
    · dsimp only at made state ⊢
      rw [old h made] at state ⊢
      split at state
      · cases state
      · rw [if_neg (by assumption)]
        exact inv.listened h (by omega) j state

/-! ### Subscribing -/

/-- A stream on this wire that connects now, and makes `after` of a response replayed to it, has the result. -/
def Joins (s : Identity V) (wire : Nat) (after : Response V → Rows V) : Prop :=
  ∀ current whole, s.wire = some current → current.whole = some whole →
    current.id = wire ∧ ∃ last, current.last = some last ∧ after last = whole

theorem Joins.replayed {wire : Nat} {after : Response V → Rows V} (joins : Joins s wire after)
    (up : s.wire = some current) (answered : current.whole = some whole) :
    ∃ last, s.replay wire = some last ∧ after last = whole := by
  obtain ⟨same, last, replays, result⟩ := joins current whole up answered
  exact ⟨last, by rw [replay_up up, if_pos same, replays], result⟩

theorem good_updateArray (good : Good s) {array : ArrayProjection V}
    (accumulated : ∀ rows, array.shown = some rows → array.acc = rows)
    (shown : array.subscribers ≠ 0 → i < s.arraysMade → ∀ current whole, s.wire = some current →
      current.whole = some whole → array.shown = some whole) : Good (s.updateArray i array) := by
  obtain ⟨inv, streams⟩ := good
  refine ⟨⟨inv.stateDiff, inv.hubState, inv.sharedDiff, inv.sharedState, fun k rows held => ?_, inv.buffered,
    inv.resolved, inv.attached, inv.detached, inv.listened⟩, ⟨fun current whole up answered k made live => ?_,
    streams.states⟩⟩
  · unfold updateArray at held ⊢
    dsimp only at held ⊢
    by_cases here : k = i
    · rw [here, Function.update_self] at held ⊢
      exact accumulated rows held
    · rw [Function.update_of_ne here] at held ⊢
      exact inv.accumulated k rows held
  · rw [liveArray_iff] at live
    unfold updateArray at live up made ⊢
    dsimp only at live up made ⊢
    by_cases here : k = i
    · subst here
      rw [Function.update_self] at live ⊢
      exact shown live made current whole up answered
    · rw [Function.update_of_ne here] at live ⊢
      exact streams.arrays current whole up answered k made (liveArray_iff.mpr live)

theorem good_subscribeArray (good : Good s)
    (joins : (s.arrays i).subscribers = 0 → Joins s (s.arrays i).wire (scan (s.arrays i).acc)) :
    Good (s.subscribeArray i) := by
  unfold subscribeArray
  refine good_updateArray good (fun rows held => ?_) fun _ made current whole up answered => ?_
  · dsimp only at held ⊢
    split at held
    · rename_i first
      rw [if_pos first]
      cases replays : s.replay (s.arrays i).wire with
      | none =>
        rw [replays] at held
        exact good.inv.accumulated i rows held
      | some last =>
        rw [replays] at held
        exact Option.some.inj held
    · rename_i later
      rw [if_neg later]
      exact good.inv.accumulated i rows held
  · dsimp only
    split
    · rename_i first
      obtain ⟨last, replays, result⟩ := (joins first).replayed up answered
      rw [replays, ← result]
      rfl
    · rename_i later
      exact good.streams.arrays current whole up answered i made (liveArray_iff.mpr later)

theorem good_updateDiff (good : Good s) {diff : DiffProjection V} (wire : diff.wire = (s.diffs d).wire)
    (buffered : (s.updateDiff d diff).liveDiff d = true → d < s.diffsMade → diff.buffer = s.replay diff.wire) :
    Good (s.updateDiff d diff) := by
  obtain ⟨inv, streams⟩ := good
  refine ⟨⟨inv.stateDiff, inv.hubState, inv.sharedDiff, inv.sharedState, inv.accumulated,
    fun k made live => ?_, inv.resolved, inv.attached, inv.detached, inv.listened⟩,
    ⟨streams.arrays, streams.states⟩⟩
  by_cases here : k = d
  · subst here
    have held := buffered live made
    unfold updateDiff
    dsimp only
    rw [Function.update_self]
    exact held
  · have kept : (s.updateDiff d diff).diffs k = s.diffs k := Function.update_of_ne here _ _
    rw [liveDiff_iff, kept] at live
    rw [kept]
    exact inv.buffered k made (liveDiff_iff.mpr live)

theorem connectDiff_eq (inv : Inv s) (made : d < s.diffsMade) :
    s.connectDiff d = s.updateDiff d { s.diffs d with buffer := s.replay (s.diffs d).wire } := by
  unfold connectDiff
  split
  · rename_i live
    rw [← inv.buffered d made live]
    unfold updateDiff
    rw [Function.update_eq_self]
  · rfl

theorem good_connectDiff (good : Good s) (made : d < s.diffsMade) : Good (s.connectDiff d) := by
  rw [connectDiff_eq good.inv made]
  exact good_updateDiff good rfl fun _ _ => rfl

theorem good_subscribeDiff (good : Good s) (made : d < s.diffsMade) : Good (s.subscribeDiff d) := by
  unfold subscribeDiff
  have connected := good_connectDiff good made
  rw [connectDiff_eq good.inv made] at connected ⊢
  refine good_updateDiff connected rfl fun _ _ => ?_
  show ((s.updateDiff d _).diffs d).buffer = s.replay ((s.updateDiff d _).diffs d).wire
  unfold updateDiff
  dsimp only
  rw [Function.update_self]

theorem good_updateState (good : Good s) {state : StateProjection V} (same : state.diff = (s.states j).diff)
    (resolved : state.emitted = true → state.resolved = true)
    (heard : ∀ h < s.hubsMade, (s.hubs h).state = some j →
      state.emitted = (s.states j).emitted ∧ state.items = (s.states j).items)
    (joined : (s.updateState j state).liveState j = true → j < s.statesMade →
      (s.diffs state.diff).buffer = s.replay (s.diffs state.diff).wire ∧
      ∀ current whole, s.wire = some current → current.whole = some whole →
        state.emitted = true ∧ state.items = whole) : Good (s.updateState j state) := by
  obtain ⟨inv, streams⟩ := good
  have here : (s.updateState j state).states j = state := Function.update_self ..
  have others : ∀ k, k ≠ j → (s.updateState j state).states k = s.states k :=
    fun k other => Function.update_of_ne other _ _
  have lives : ∀ k, k ≠ j → (s.updateState j state).liveState k = true → s.liveState k = true := by
    intro k other live
    rw [liveState_iff, others k other] at live
    exact liveState_iff.mpr live
  have diffs : ∀ k, ((s.updateState j state).states k).diff = (s.states k).diff := by
    intro k
    by_cases own : k = j
    · rw [own, here, same]
    · rw [others k own]
  refine ⟨⟨fun k made => ?_, inv.hubState, inv.sharedDiff, inv.sharedState, inv.accumulated, fun d made live => ?_,
    fun k emitted => ?_, fun h made k subscribed => ?_, inv.detached, fun h made k subscribed attached => ?_⟩,
    ⟨streams.arrays, fun current whole up answered k made live => ?_⟩⟩
  · rw [diffs k]
    exact inv.stateDiff k made
  · rcases liveDiff_iff.mp live with subscribed | ⟨k, bound, own, stateLive⟩
    · exact inv.buffered d made (liveDiff_iff.mpr (.inl subscribed))
    · rw [diffs k] at own
      by_cases this : k = j
      · subst this
        rw [← own, ← same]
        exact (joined stateLive bound).1
      · exact inv.buffered d made (liveDiff_iff.mpr (.inr ⟨k, bound, own, lives k this stateLive⟩))
  · by_cases own : k = j
    · rw [own, here] at emitted ⊢
      exact resolved emitted
    · rw [others k own] at emitted ⊢
      exact inv.resolved k emitted
  · refine (inv.attached h made k subscribed).trans ?_
    by_cases own : k = j
    · subst own
      rw [here]
      exact (heard h made subscribed).1.symm
    · rw [others k own]
  · have told := inv.listened h made k subscribed attached
    by_cases own : k = j
    · subst own
      rw [here, (heard h made subscribed).2]
      exact told
    · rw [others k own]
      exact told
  · by_cases own : k = j
    · subst own
      rw [here]
      exact (joined live made).2 current whole up answered
    · rw [others k own]
      exact streams.states current whole up answered k made (lives k own live)

/-- After it is connected, a state that had no subscriber has what its diff stream replays. -/
structure Ready (s : Identity V) (j : Nat) : Prop where
  buffered : (s.diffs (s.states j).diff).buffer = s.replay (s.stateWire j)
  shown : ∀ current whole, s.wire = some current → current.whole = some whole →
    (s.states j).emitted = true ∧ (s.states j).items = whole

theorem ready_of_live (good : Good s) (made : j < s.statesMade) (live : s.liveState j = true) : Ready s j where
  buffered := good.inv.buffered _ (good.inv.stateDiff j made) (liveDiff_iff.mpr (.inr ⟨j, made, rfl, live⟩))
  shown current whole up answered := good.streams.states current whole up answered j made live

theorem elim_receive (state : StateProjection V) (replayed : Option (Response V)) :
    (replayed.elim state state.receive).diff = state.diff ∧
      (replayed.elim state state.receive).subscribers = state.subscribers := by
  cases replayed with
  | none => exact ⟨rfl, rfl⟩
  | some last => exact ⟨rfl, rfl⟩

theorem connectState_live (live : s.liveState j = true) : s.connectState j = s := by
  unfold connectState
  rw [if_pos live]

/-- Connecting a state renews its diff stream and gives it the response replayed to that. -/
theorem connectState_eq (inv : Inv s) (made : j < s.statesMade) (alone : s.liveState j = false) :
    s.connectState j = (s.updateDiff (s.states j).diff { s.diffs (s.states j).diff with
      buffer := s.replay (s.stateWire j) }).updateState j
        ((s.replay (s.stateWire j)).elim (s.states j) (s.states j).receive) := by
  unfold connectState
  rw [alone, if_neg Bool.false_ne_true, connectDiff_eq inv (inv.stateDiff j made)]
  unfold stateWire updateDiff
  dsimp only
  rw [Function.update_self]

theorem connectState_good (good : Good s) (made : j < s.statesMade)
    (joins : s.liveState j = false → Joins s (s.stateWire j) (applyCollectionDiff (s.states j).items)) :
    Good (s.connectState j) ∧ Ready (s.connectState j) j := by
  cases live : s.liveState j with
  | true =>
    rw [connectState_live live]
    exact ⟨good, ready_of_live good made live⟩
  | false =>
    have known := good.inv.stateDiff j made
    have connected : Good (s.updateDiff (s.states j).diff { s.diffs (s.states j).diff with
        buffer := s.replay (s.stateWire j) }) := good_updateDiff good rfl fun _ _ => rfl
    rw [connectState_eq good.inv made live]
    have received := elim_receive (s.states j) (s.replay (s.stateWire j))
    have unheard : ∀ h < s.hubsMade, (s.hubs h).state ≠ some j := by
      intro h bound subscribed
      rw [liveState_iff.mpr (.inr ⟨h, bound, subscribed⟩)] at live
      cases live
    refine ⟨good_updateState connected received.1 ?_ (fun h bound subscribed => absurd subscribed (unheard h bound)) ?_,
      ?_, ?_⟩
    · cases s.replay (s.stateWire j) with
      | none => exact good.inv.resolved j
      | some last => exact fun _ => rfl
    · intro rises
      rcases liveState_iff.mp rises with subscribed | ⟨h, bound, subscribed⟩
      · unfold updateState at subscribed
        dsimp only at subscribed
        rw [Function.update_self, received.2] at subscribed
        rw [liveState_iff.mpr (.inl subscribed)] at live
        cases live
      · exact absurd subscribed (unheard h bound)
    · unfold stateWire at received ⊢
      unfold updateState updateDiff
      dsimp only
      rw [Function.update_self, received.1, Function.update_self]
      rfl
    · intro current whole up answered
      obtain ⟨last, replays, result⟩ := (joins live).replayed up answered
      unfold updateState
      dsimp only
      rw [Function.update_self, replays]
      exact ⟨rfl, result⟩

theorem connectState_statesMade (j : Nat) : (s.connectState j).statesMade = s.statesMade := by
  unfold connectState connectDiff
  split
  · rfl
  · dsimp only
    split <;> rfl

theorem good_subscribeState (good : Good s) (made : j < s.statesMade)
    (joins : s.liveState j = false → Joins s (s.stateWire j) (applyCollectionDiff (s.states j).items)) :
    Good (s.subscribeState j) := by
  obtain ⟨connected, ready⟩ := connectState_good good made joins
  unfold subscribeState
  exact good_updateState connected rfl (connected.inv.resolved j) (fun _ _ _ => ⟨rfl, rfl⟩)
    fun _ _ => ⟨ready.buffered, ready.shown⟩

theorem good_updateHub (good : Good s) {hub : Hub V}
    (idle : hub.state = none → hub.attached = false ∧ hub.registrations = [])
    (subscribed : ∀ j, hub.state = some j → j < s.statesMade ∧ Ready s j ∧
      hub.attached = (s.states j).emitted ∧ (hub.attached = true → ∀ registration ∈ hub.registrations,
        registration.shown = some (registration.shape.select (s.states j).items))) :
    Good (s.updateHub h hub) := by
  obtain ⟨inv, streams⟩ := good
  have here : (s.updateHub h hub).hubs h = hub := Function.update_self ..
  have others : ∀ k, k ≠ h → (s.updateHub h hub).hubs k = s.hubs k := fun k other => Function.update_of_ne other _ _
  have lives : ∀ j, (s.updateHub h hub).liveState j = true → s.liveState j = true ∨ hub.state = some j := by
    intro j live
    rcases liveState_iff.mp live with held | ⟨k, bound, state⟩
    · exact .inl (liveState_iff.mpr (.inl held))
    · by_cases own : k = h
      · rw [own, here] at state
        exact .inr state
      · rw [others k own] at state
        exact .inl (liveState_iff.mpr (.inr ⟨k, bound, state⟩))
  refine ⟨⟨inv.stateDiff, fun k bound j state => ?_, inv.sharedDiff, inv.sharedState, inv.accumulated,
    fun d bound live => ?_, inv.resolved, fun k bound j state => ?_, fun k bound state => ?_,
    fun k bound j state attached => ?_⟩, ⟨streams.arrays, fun current whole up answered j bound live => ?_⟩⟩
  · by_cases own : k = h
    · rw [own, here] at state
      exact (subscribed j state).1
    · rw [others k own] at state
      exact inv.hubState k bound j state
  · rcases liveDiff_iff.mp live with held | ⟨j, known, same, stateLive⟩
    · exact inv.buffered d bound (liveDiff_iff.mpr (.inl held))
    · rcases lives j stateLive with stateLive | state
      · exact inv.buffered d bound (liveDiff_iff.mpr (.inr ⟨j, known, same, stateLive⟩))
      · have own : (s.states j).diff = d := same
        have buffered := (subscribed j state).2.1.buffered
        unfold stateWire at buffered
        rw [own] at buffered
        exact buffered
  · by_cases own : k = h
    · rw [own, here] at state ⊢
      exact (subscribed j state).2.2.1
    · rw [others k own] at state ⊢
      exact inv.attached k bound j state
  · by_cases own : k = h
    · rw [own, here] at state ⊢
      exact idle state
    · rw [others k own] at state ⊢
      exact inv.detached k bound state
  · by_cases own : k = h
    · rw [own, here] at state attached ⊢
      exact (subscribed j state).2.2.2 attached
    · rw [others k own] at state attached ⊢
      exact inv.listened k bound j state attached
  · rcases lives j live with live | state
    · exact streams.states current whole up answered j bound live
    · exact (subscribed j state).2.1.shown current whole up answered

theorem good_startHub (good : Good s) (registrations : List (Registration V))
    (joins : s.watchQueryState.1.liveState s.watchQueryState.2 = false →
      Joins s.watchQueryState.1 (s.watchQueryState.1.stateWire s.watchQueryState.2)
        (applyCollectionDiff (s.watchQueryState.1.states s.watchQueryState.2).items)) :
    Good (s.startHub h registrations) := by
  have known := watchQueryState_made good
  obtain ⟨connected, ready⟩ := connectState_good (good_watchQueryState good) known joins
  unfold startHub
  refine good_updateHub connected (fun none => (nomatch none)) fun j same => ?_
  obtain rfl := Option.some.inj same
  refine ⟨?_, ready, rfl, fun attached registration among => ?_⟩
  · rw [connectState_statesMade]
    exact known
  · dsimp only at attached among
    rw [if_pos attached] at among
    obtain ⟨before, -, rfl⟩ := List.mem_map.mp among
    rfl

theorem good_caches (good : Good s) {array diff state hub : Option Nat} {registered : Nat}
    (knownDiff : ∀ d, diff = some d → d < s.diffsMade) (knownState : ∀ j, state = some j → j < s.statesMade) :
    Good { s with
      sharedArray := array, sharedDiff := diff, sharedState := state, sharedHub := hub, registered := registered } := by
  obtain ⟨inv, streams⟩ := good
  exact ⟨⟨inv.stateDiff, inv.hubState, knownDiff, knownState, inv.accumulated, inv.buffered, inv.resolved,
    inv.attached, inv.detached, inv.listened⟩, ⟨streams.arrays, streams.states⟩⟩

theorem good_subscribeSelection (good : Good s) (made : h < s.hubsMade) (shape : Shape)
    (joins : (s.hubs h).state = none → s.watchQueryState.1.liveState s.watchQueryState.2 = false →
      Joins s.watchQueryState.1 (s.watchQueryState.1.stateWire s.watchQueryState.2)
        (applyCollectionDiff (s.watchQueryState.1.states s.watchQueryState.2).items)) :
    Good (s.subscribeSelection h shape) := by
  have registered : ∀ {t : Identity V}, Good t → Good { t with registered := t.registered + 1 } :=
    fun good => good_caches good good.inv.sharedDiff good.inv.sharedState
  unfold subscribeSelection
  cases subscribed : (s.hubs h).state with
  | none =>
    refine registered ?_
    rw [if_pos (by rw [subscribed]; rfl)]
    exact good_startHub good _ (joins subscribed)
  | some j =>
    have bound := good.inv.hubState h made j subscribed
    have live : s.liveState j = true := liveState_iff.mpr (.inr ⟨h, made, subscribed⟩)
    refine registered ?_
    rw [if_neg (by rw [subscribed]; exact Bool.false_ne_true)]
    refine good_updateHub good (fun none => ?_) fun k same => ?_
    · rw [subscribed] at none
      cases none
    · obtain rfl := Option.some.inj (subscribed.symm.trans same)
      refine ⟨bound, ready_of_live good bound live, good.inv.attached h made j subscribed,
        fun attached registration among => ?_⟩
      rcases List.mem_append.mp among with among | among
      · exact good.inv.listened h made j subscribed attached registration among
      · rw [List.mem_singleton.mp among]
        dsimp only at attached ⊢
        rw [if_pos attached, subscribed]
        rfl

/-! ### Unsubscribing -/

theorem good_dropWire (good : Good s) (wire : Nat) : Good (s.dropWire wire) := by
  unfold dropWire
  split
  · rename_i current up
    split
    · rename_i last
      obtain ⟨inv, streams⟩ := good
      refine ⟨⟨inv.stateDiff, inv.hubState, inv.sharedDiff, inv.sharedState, inv.accumulated,
        fun d made live => ?_, inv.resolved, inv.attached, inv.detached, inv.listened⟩,
        ⟨fun _ _ up => (nomatch up), fun _ _ up => (nomatch up)⟩⟩
      have before := inv.buffered d made live
      have elsewhere : current.id ≠ (s.diffs d).wire := by
        intro same
        have held : s.connected wire = true := by
          refine connected_iff.mpr (.inr ⟨d, made, ?_, live⟩)
          rw [← same]
          exact (by simpa using last : current.id = wire ∧ s.connected wire = false).1
        simp [held] at last
      rw [replay_up up, if_neg elsewhere] at before
      exact before
    · exact good
  · exact good

theorem good_dropDiff (good : Good s) (d : Nat) : Good (s.dropDiff d) := by
  unfold dropDiff
  split
  · exact good
  · rename_i idle
    have cached : Good { s with sharedDiff := none } :=
      good_caches good (fun _ none => (nomatch none)) good.inv.sharedState
    have dropped : Good ({ s with sharedDiff := none }.updateDiff d { s.diffs d with buffer := none }) := by
      refine good_updateDiff cached rfl fun live => ?_
      rw [liveDiff_iff] at live
      unfold updateDiff at live
      dsimp only at live
      rw [Function.update_self] at live
      exact absurd (liveDiff_iff.mpr live) idle
    exact good_dropWire dropped _

theorem good_dropState (good : Good s) (j : Nat) : Good (s.dropState j) := by
  unfold dropState
  split
  · exact good
  · rename_i idle
    have cached : Good { s with sharedState := none } :=
      good_caches good good.inv.sharedDiff fun _ none => (nomatch none)
    have dropped : Good ({ s with sharedState := none }.updateState j { s.states j with emitted := false }) := by
      refine good_updateState cached rfl (fun emitted => ?_) (fun h made subscribed => ?_) fun live => ?_
      · cases emitted
      · exact absurd (liveState_iff.mpr (.inr ⟨h, made, subscribed⟩)) idle
      · rw [liveState_iff] at live
        unfold updateState at live
        dsimp only at live
        rw [Function.update_self] at live
        exact absurd (liveState_iff.mpr live) idle
    exact good_dropDiff dropped _

theorem good_unsubscribeArray (good : Good s) (live : s.liveArray i = true) : Good (s.unsubscribeArray i) := by
  unfold unsubscribeArray
  dsimp only
  split
  · have cached : Good { s with sharedArray := none } :=
      good_caches good good.inv.sharedDiff good.inv.sharedState
    have dropped : Good ({ s with sharedArray := none }.updateArray i
        { s.arrays i with subscribers := 0, shown := none }) := by
      refine good_updateArray cached (fun rows held => ?_) fun held => ?_
      · cases held
      · exact absurd rfl held
    exact good_dropWire dropped _
  · refine good_updateArray good (good.inv.accumulated i) fun _ made current whole up answered => ?_
    exact good.streams.arrays current whole up answered i made live

theorem good_unsubscribeDiff (good : Good s) (subscribed : (s.diffs d).subscribers ≠ 0) :
    Good (s.unsubscribeDiff d) := by
  have left : Good (s.updateDiff d { s.diffs d with subscribers := (s.diffs d).subscribers - 1 }) := by
    refine good_updateDiff good rfl fun _ made => ?_
    exact good.inv.buffered d made (liveDiff_iff.mpr (.inl subscribed))
  exact good_dropDiff left d

theorem good_unsubscribeState (good : Good s) (subscribed : (s.states j).subscribers ≠ 0) :
    Good (s.unsubscribeState j) := by
  have left : Good (s.updateState j { s.states j with subscribers := (s.states j).subscribers - 1 }) := by
    refine good_updateState good rfl (good.inv.resolved j) (fun _ _ _ => ⟨rfl, rfl⟩) fun _ made => ?_
    have ready := ready_of_live good made (liveState_iff.mpr (.inl subscribed))
    exact ⟨ready.buffered, ready.shown⟩
  exact good_dropState left j

theorem good_unsubscribeSelection (good : Good s) (made : h < s.hubsMade) (number : Nat) :
    Good (s.unsubscribeSelection h number) := by
  unfold unsubscribeSelection
  dsimp only
  split
  · have left : Good ({ s with sharedHub := if s.sharedHub = some h then none else s.sharedHub }.updateHub h
        ⟨none, false, []⟩) :=
      good_updateHub (good_caches good good.inv.sharedDiff good.inv.sharedState) (fun _ => ⟨rfl, rfl⟩)
        fun _ none => (nomatch none)
    cases (s.hubs h).state with
    | none => exact left
    | some j => exact good_dropState left j
  · refine good_updateHub good (fun idle => ?_) fun j subscribed => ?_
    · obtain ⟨detached, none⟩ := good.inv.detached h made idle
      rw [none]
      exact ⟨detached, rfl⟩
    · have bound := good.inv.hubState h made j subscribed
      refine ⟨bound, ready_of_live good bound (liveState_iff.mpr (.inr ⟨h, made, subscribed⟩)),
        good.inv.attached h made j subscribed, fun attached registration among => ?_⟩
      exact good.inv.listened h made j subscribed attached registration (List.mem_filter.mp among).1

/-! ### Responses -/

/-- Every array and state with a subscriber is on the wire of the query that runs. -/
structure Within (s : Identity V) (wire : Nat) : Prop where
  arrays : ∀ i < s.arraysMade, s.liveArray i = true → (s.arrays i).wire = wire
  states : ∀ j < s.statesMade, s.liveState j = true → s.stateWire j = wire

theorem receive_array (current : Wire V) (update : Response V) : (s.receive current update).arrays i =
    if (s.arrays i).wire = current.id ∧ s.liveArray i then (s.arrays i).receive update else s.arrays i := rfl

theorem receive_diff (current : Wire V) (update : Response V) : (s.receive current update).diffs d =
    if (s.diffs d).wire = current.id ∧ s.liveDiff d then { s.diffs d with buffer := some update }
    else s.diffs d := rfl

theorem receive_state (current : Wire V) (update : Response V) : (s.receive current update).states j =
    if s.stateWire j = current.id ∧ s.liveState j then (s.states j).receive update else s.states j := rfl

theorem receive_hub (current : Wire V) (update : Response V) (subscribed : (s.hubs h).state = some j) :
    (s.receive current update).hubs h =
      if s.stateWire j = current.id then (s.hubs h).hear (s.states j) update else s.hubs h := by
  simp only [receive, subscribed]

theorem receive_hub_none (current : Wire V) (update : Response V) (idle : (s.hubs h).state = none) :
    (s.receive current update).hubs h = s.hubs h := by
  simp only [receive, idle]

theorem sameLinks_receive (current : Wire V) (update : Response V) : SameLinks s (s.receive current update) where
  arraysMade := rfl
  diffsMade := rfl
  statesMade := rfl
  hubsMade := rfl
  arrays i := by
    rw [receive_array]
    split <;> exact ⟨rfl, rfl⟩
  diffs d := by
    rw [receive_diff]
    split <;> exact ⟨rfl, rfl⟩
  states j := by
    rw [receive_state]
    split <;> exact ⟨rfl, rfl⟩
  hubs h := by
    cases subscribed : (s.hubs h).state with
    | none => rw [receive_hub_none current update subscribed, subscribed]
    | some j =>
      rw [receive_hub current update subscribed]
      split
      · rw [(hear_state _ _ _).1, subscribed]
      · exact subscribed

/-- What the streams make of a response is what the result becomes. -/
theorem folded {rows : Rows V} {update : Response V} (first : current.whole.isSome = true ∨ update.sequence = 0)
    (had : ∀ whole, current.whole = some whole → rows = whole) :
    applyCollectionDiff rows update = applyCollectionDiff (current.whole.getD ∅) update := by
  cases answered : current.whole with
  | some whole => rw [had whole answered, Option.getD_some]
  | none =>
    rw [answered] at first
    exact applyCollectionDiff_reset (first.resolve_left Bool.false_ne_true) _ _

theorem good_receive (good : Good s) (up : s.wire = some current) {update : Response V}
    (first : current.whole.isSome = true ∨ update.sequence = 0) (named : ∀ row ∈ update.upserts, row.1 ≠ "")
    (within : Within s current.id) : Good (s.receive current update) := by
  have same := sameLinks_receive (s := s) current update
  obtain ⟨inv, streams⟩ := good
  have subscribes : ∀ h < s.hubsMade, ∀ j, ((s.receive current update).hubs h).state = some j →
      (s.hubs h).state = some j ∧ s.liveState j = true := by
    intro h made j state
    rw [same.hubs h] at state
    exact ⟨state, liveState_iff.mpr (.inr ⟨h, made, state⟩)⟩
  refine ⟨⟨fun j made => ?_, fun h made j state => ?_, inv.sharedDiff, inv.sharedState, fun i rows shown => ?_,
    fun d made live => ?_, fun j emitted => ?_, fun h made j state => ?_, fun h made state => ?_,
    fun h made j state attached => ?_⟩,
    ⟨fun wire whole risen answered i made live => ?_, fun wire whole risen answered j made live => ?_⟩⟩
  · rw [(same.states j).1]
    exact inv.stateDiff j made
  · exact inv.hubState h made j (subscribes h made j state).1
  · rw [receive_array] at shown ⊢
    split at shown
    · rename_i hears
      rw [if_pos hears]
      exact Option.some.inj shown
    · rename_i unheard
      rw [if_neg unheard]
      exact inv.accumulated i rows shown
  · rw [same.liveDiff] at live
    have replays : (s.receive current update).replay ((s.receive current update).diffs d).wire =
        if current.id = (s.diffs d).wire then some update else none := by
      rw [(same.diffs d).1]
      rfl
    rw [replays, receive_diff]
    by_cases here : (s.diffs d).wire = current.id
    · rw [if_pos ⟨here, live⟩, if_pos here.symm]
    · rw [if_neg fun both => here both.1, if_neg (Ne.symm here), inv.buffered d made live, replay_up up,
        if_neg (Ne.symm here)]
  · rw [receive_state] at emitted ⊢
    split at emitted
    · rename_i hears
      rw [if_pos hears]
      rfl
    · rename_i unheard
      rw [if_neg unheard]
      exact inv.resolved j emitted
  · obtain ⟨state, live⟩ := subscribes h made j state
    rw [receive_hub current update state, receive_state]
    by_cases here : s.stateWire j = current.id
    · rw [if_pos here, if_pos ⟨here, live⟩, (hear_state _ _ _).2]
      rfl
    · rw [if_neg here, if_neg fun both => here both.1]
      exact inv.attached h made j state
  · rw [same.hubs h] at state
    rw [receive_hub_none current update state]
    exact inv.detached h made state
  · obtain ⟨state, live⟩ := subscribes h made j state
    rw [receive_hub current update state] at attached ⊢
    rw [receive_state]
    by_cases here : s.stateWire j = current.id
    · rw [if_pos here, if_pos ⟨here, live⟩]
      refine hear_listened (fun had => ?_) (inv.listened h made j state)
      exact inv.resolved j ((inv.attached h made j state).symm.trans had)
    · rw [if_neg here] at attached ⊢
      rw [if_neg fun both => here both.1]
      exact inv.listened h made j state attached
  · cases risen
    cases answered
    rw [same.liveArray] at live
    rw [receive_array, if_pos ⟨within.arrays i made live, live⟩]
    refine congrArg some ((scan_eq named).trans (folded first fun whole answered => ?_))
    exact inv.accumulated i whole (streams.arrays current whole up answered i made live)
  · cases risen
    cases answered
    rw [same.liveState] at live
    rw [receive_state, if_pos ⟨within.states j made live, live⟩]
    refine ⟨rfl, folded first fun whole answered => ?_⟩
    exact (streams.states current whole up answered j made live).2

theorem good_respond (good : Good s) (up : s.wire = some current) {update : Response V}
    (first : current.whole.isSome = true ∨ update.sequence = 0) (named : ∀ row ∈ update.upserts, row.1 ≠ "")
    (within : Within s current.id) : Good (s.respond current update) := by
  unfold respond
  split
  · exact good_receive good up first named within
  · rename_i idle
    obtain ⟨inv, streams⟩ := good
    refine ⟨⟨inv.stateDiff, inv.hubState, inv.sharedDiff, inv.sharedState, inv.accumulated, fun d made live => ?_,
      inv.resolved, inv.attached, inv.detached, inv.listened⟩,
      ⟨fun _ _ _ _ i made live => ?_, fun _ _ _ _ j made live => ?_⟩⟩
    · rw [inv.buffered d made live, replay_up up]
      rfl
    · exact absurd (connected_iff.mpr (.inl ⟨i, made, within.arrays i made live, live⟩)) idle
    · exact absurd (connected_iff.mpr (.inr ⟨_, inv.stateDiff j made, within.states j made live,
        liveDiff_iff.mpr (.inr ⟨j, made, rfl, live⟩)⟩)) idle

/-! ### Runs -/

/-- A stream that gets its first subscriber makes the result of what is replayed to it, once the query has
been answered; a response finds all subscribers on its wire, and its rows have ids. -/
def Allowed (s : Identity V) : Event V → Prop
  | .subscribeArray i => (s.arrays i).subscribers = 0 → Joins s (s.arrays i).wire (scan (s.arrays i).acc)
  | .subscribeState j => s.liveState j = false → Joins s (s.stateWire j) (applyCollectionDiff (s.states j).items)
  | .subscribeSelection h _ => (s.hubs h).state = none → s.watchQueryState.1.liveState s.watchQueryState.2 = false →
    Joins s.watchQueryState.1 (s.watchQueryState.1.stateWire s.watchQueryState.2)
      (applyCollectionDiff (s.watchQueryState.1.states s.watchQueryState.2).items)
  | .response update =>
    (∀ row ∈ update.upserts, row.1 ≠ "") ∧ ∀ current, s.wire = some current → Within s current.id
  | _ => True

theorem good_step {event : Event V} (good : Good s) (allowed : Allowed s event) (stepped : step s event = some t) :
    Good t := by
  cases event with
  | watchQuery =>
    cases stepped
    exact good_watchQuery good
  | watchQueryDiff =>
    cases stepped
    exact good_watchQueryDiff good
  | watchQueryState =>
    cases stepped
    exact good_watchQueryState good
  | watchSelection =>
    cases stepped
    exact good_querySelectionHub good
  | subscribeArray i =>
    obtain ⟨-, stepped⟩ := Option.ite_none_right_eq_some.mp stepped
    cases stepped
    exact good_subscribeArray good allowed
  | unsubscribeArray i =>
    obtain ⟨⟨-, live⟩, stepped⟩ := Option.ite_none_right_eq_some.mp stepped
    cases stepped
    exact good_unsubscribeArray good live
  | subscribeDiff d =>
    obtain ⟨made, stepped⟩ := Option.ite_none_right_eq_some.mp stepped
    cases stepped
    exact good_subscribeDiff good made
  | unsubscribeDiff d =>
    obtain ⟨⟨-, subscribed⟩, stepped⟩ := Option.ite_none_right_eq_some.mp stepped
    cases stepped
    exact good_unsubscribeDiff good subscribed
  | subscribeState j =>
    obtain ⟨made, stepped⟩ := Option.ite_none_right_eq_some.mp stepped
    cases stepped
    exact good_subscribeState good made allowed
  | unsubscribeState j =>
    obtain ⟨⟨-, subscribed⟩, stepped⟩ := Option.ite_none_right_eq_some.mp stepped
    cases stepped
    exact good_unsubscribeState good subscribed
  | subscribeSelection h shape =>
    obtain ⟨made, stepped⟩ := Option.ite_none_right_eq_some.mp stepped
    cases stepped
    exact good_subscribeSelection good made shape allowed
  | unsubscribeSelection h number =>
    obtain ⟨⟨made, -⟩, stepped⟩ := Option.ite_none_right_eq_some.mp stepped
    cases stepped
    exact good_unsubscribeSelection good made number
  | response update =>
    unfold step at stepped
    dsimp only at stepped
    split at stepped
    · rename_i current up
      obtain ⟨first, stepped⟩ := Option.ite_none_right_eq_some.mp stepped
      cases stepped
      exact good_respond good up (by simpa using first) allowed.1 (allowed.2 current up)
    · cases stepped

theorem projections_show_result {events : List (Event V)} (ran : Runs.run step start events = some t)
    (each : Runs.Each step Allowed start events) : Runs.Always step Shown (start : Identity V) events :=
  each.always ran good_start good_step fun good => good.inv.shown good.streams

namespace Sample

/-- A state joins while the replayed response is a whole result, and sees what comes later. -/
def earlyJoin : List (Event Nat) :=
  [.watchQuery, .subscribeArray 0, .response ⟨0, [], [("a", 1)]⟩, .watchQueryState, .subscribeState 0,
    .response ⟨1, [], [("b", 2)]⟩, .watchSelection, .subscribeSelection 0 (.item "a"), .response ⟨2, ["a"], []⟩]

theorem earlyJoin_shown : Runs.Always step Shown (start : Identity Nat) earlyJoin := by
  obtain ⟨last, ran⟩ : ∃ last, Runs.run step (start : Identity Nat) earlyJoin = some last := ⟨_, rfl⟩
  refine projections_show_result ran ?_
  refine (Runs.each_cons rfl).mpr ⟨trivial, ?_⟩
  refine (Runs.each_cons rfl).mpr ⟨fun _ _ _ up answered => (by cases up; cases answered), ?_⟩
  refine (Runs.each_cons rfl).mpr ⟨⟨by decide, fun _ up => ?_⟩, ?_⟩
  · cases up
    exact ⟨by decide, by decide⟩
  refine (Runs.each_cons rfl).mpr ⟨trivial, ?_⟩
  refine (Runs.each_cons rfl).mpr ⟨fun _ _ _ up answered => ?_, ?_⟩
  · cases up
    cases answered
    exact ⟨rfl, _, rfl, rfl⟩
  refine (Runs.each_cons rfl).mpr ⟨⟨by decide, fun _ up => ?_⟩, ?_⟩
  · cases up
    exact ⟨by decide, by decide⟩
  refine (Runs.each_cons rfl).mpr ⟨trivial, ?_⟩
  refine (Runs.each_cons rfl).mpr ⟨fun _ idle => absurd idle (by decide), ?_⟩
  refine (Runs.each_cons rfl).mpr ⟨⟨by decide, fun _ up => ?_⟩, trivial⟩
  cases up
  exact ⟨by decide, by decide⟩

/-- An array is watched when a diff subscriber has already had two responses. -/
def lateJoin : List (Event Nat) :=
  [.watchQueryDiff, .subscribeDiff 0, .response ⟨0, [], [("a", 1)]⟩, .response ⟨1, [], [("b", 2)]⟩, .watchQuery,
    .subscribeArray 0, .response ⟨2, [], [("c", 3)]⟩]

theorem lateJoin_misses_row : ∃ last, Runs.run step (start : Identity Nat) lateJoin = some last ∧
    (last.arrays 0).shown.map (fun rows => rows["a"]?) = some none ∧
    (last.wire.bind Wire.whole).map (fun rows => rows["a"]?) = some (some 1) ∧
    ¬Runs.Always step Shown (start : Identity Nat) lateJoin := by
  obtain ⟨last, ran, up, missing, whole, bound, live⟩ : ∃ last,
      Runs.run step (start : Identity Nat) lateJoin = some last ∧
      last.wire.isSome = true ∧
      (last.arrays 0).shown.map (fun rows => rows["a"]?) = some none ∧
      (last.wire.bind Wire.whole).map (fun rows => rows["a"]?) = some (some 1) ∧ 0 < last.arraysMade ∧
      last.liveArray 0 = true :=
    ⟨_, rfl, rfl, rfl, rfl, by decide, rfl⟩
  refine ⟨last, ran, missing, whole, fun always => ?_⟩
  obtain ⟨rows, answered, row⟩ := Option.map_eq_some_iff.mp whole
  obtain ⟨current, up, result⟩ := Option.bind_eq_some_iff.mp answered
  rw [(always.at_end ran).arrays current rows up result 0 bound live, Option.map_some, row] at missing
  cases missing

end Sample
end Identity
end Myko.TypeScript.Projections

import Mathlib.Data.UInt
import Mathlib.Logic.Function.Basic
import Myko.Lib.KeyedLog
import Myko.Lib.Runs
import Myko.Postgres.Convergence
import Myko.Wire.Event

/-!
The loop of the producer thread of one host and the handles that feed it. A batch whose insert reports an
error is kept, filled up from the channel and inserted again, so its rows may stand in the log twice.
-/

namespace Myko.Postgres
open KeyedLog Runs

/-! ### Rows -/

/-- The columns of an event row. -/
structure EventRow where
  itemType : String
  itemId : String
  changeType : MEventType
  createdAt : String
  tx : String
  sourceId : Option String
  event : WireEvent

/-- The id column of an event's row. -/
def rowItemId (event : WireEvent) : String := ((event.item.get "id").bind Value.asStr).getD "unknown"

def eventRow (event : WireEvent) : EventRow where
  itemType := event.itemType
  itemId := rowItemId event
  changeType := event.changeType
  createdAt := event.createdAt
  tx := event.tx
  sourceId := event.sourceId
  event := event

/-- The rows an insert writes when it commits. -/
def insertEventBatch : List WireEvent → List EventRow
  | [] => []
  -- A single event needs no transaction.
  | [event] => [eventRow event]
  | events => events.map eventRow

@[simp] theorem insertEventBatch_eq (batch : List WireEvent) :
    insertEventBatch batch = batch.map eventRow := by
  unfold insertEventBatch
  split <;> rfl

/-- The entities after a log, each with its item. -/
abbrev Entities : Type := String × String → Option Value

def changedItem (kind : MEventType) (item : Value) : Option Value :=
  match kind with
  | .set => some item
  | .del => none

def Entities.applyRow (entities : Entities) (row : EventRow) : Entities :=
  Function.update entities (row.itemType, row.itemId) (changedItem row.changeType row.event.item)

def Entities.applyProduced (entities : Entities) (event : WireEvent) : Entities :=
  Function.update entities (event.itemType, rowItemId event) (changedItem event.changeType event.item)

/-- What the rows of a log leave, in the order in which they were inserted. -/
def foldRows (rows : List EventRow) : Entities := rows.foldl Entities.applyRow fun _ => none

def foldEvents (events : List WireEvent) : Entities := events.foldl Entities.applyProduced fun _ => none

def producedEffect (event : WireEvent) : Option ((String × String) × Option Value) :=
  some ((event.itemType, rowItemId event), changedItem event.changeType event.item)

theorem replays_applyProduced :
    Replays producedEffect (fun entities key => entities key) Entities.applyProduced := by
  intro entities event key
  by_cases here : (event.itemType, rowItemId event) = key
  · subst here
    simp [Entities.applyProduced, effectOn, producedEffect]
  · simp [Entities.applyProduced, effectOn, producedEffect, here, Function.update_of_ne (Ne.symm here)]

theorem foldRows_map (events : List WireEvent) : foldRows (events.map eventRow) = foldEvents events :=
  List.foldl_map

/-- Events with the same last change of each entity leave the same entities. -/
theorem foldEvents_congr {events others : List WireEvent}
    (same : ∀ key, lastEffect producedEffect key events = lastEffect producedEffect key others) :
    foldEvents events = foldEvents others := by
  funext key
  have leaves : ∀ events, foldEvents events key = (lastEffect producedEffect key events).getD none :=
    fun events => get_foldl replays_applyProduced events fun _ => none
  rw [leaves, leaves, same]

/-! ### The health of a persister -/

structure PersistHealth where
  queued : UInt64
  totalPersisted : UInt64
  totalErrors : UInt64
  consecutiveErrors : UInt64

namespace PersistHealth

def default : PersistHealth := ⟨0, 0, 0, 0⟩

def recordEnqueue (health : PersistHealth) : PersistHealth :=
  { health with queued := health.queued + 1 }

def recordSuccessBatch (health : PersistHealth) (count : UInt64) : PersistHealth :=
  { health with
    queued := health.queued - count
    totalPersisted := health.totalPersisted + count
    consecutiveErrors := 0 }

def recordErrorNoDequeue (health : PersistHealth) : PersistHealth :=
  { health with
    totalErrors := health.totalErrors + 1
    consecutiveErrors := health.consecutiveErrors + 1 }

end PersistHealth

/-! ### The loop -/

/-- What became of an insert: the loop sees an error after a commit whose acknowledgement was lost, too. -/
inductive InsertOutcome where
  | committed
  | failed
  | committedUnacknowledged

/-- Where the thread is in the body of its loop. -/
inductive LoopPhase where
  | collecting
  | draining
  | connecting
  | inserting
  | recordingSuccess (batchLen : Nat)

/-- The channel, the thread's variables and the gauge; `calls` counts the calls of `produce` that have sent
their event and not recorded it. The last fields are what has happened so far: the events produced, those
whose insert was reported successful, the batches committed, the rows of this host in the log, and how many
events were recorded as enqueued and as persisted. -/
structure ProducerLoop where
  channel : List WireEvent
  calls : Nat
  phase : LoopPhase
  client : Bool
  retryBatch : List WireEvent
  batch : List WireEvent
  health : PersistHealth
  produced : List WireEvent
  persisted : List WireEvent
  commits : List (List WireEvent)
  log : List EventRow
  enqueued : Nat
  recorded : Nat

/-- `send` and `recordEnqueue` are the two halves of a call of `produce`, of any thread; the others are
steps of the loop. -/
inductive ProducerStep where
  | send (event : WireEvent)
  | recordEnqueue
  | collect
  | drain
  | connect (up : Bool)
  | insert (outcome : InsertOutcome)
  | recordSuccess

namespace ProducerLoop

def start : ProducerLoop where
  channel := []
  calls := 0
  phase := .collecting
  client := false
  retryBatch := []
  batch := []
  health := .default
  produced := []
  persisted := []
  commits := []
  log := []
  enqueued := 0
  recorded := 0

/-- The event a handle sends: it names its host where the event names none. -/
def withSource (hostId : String) (event : WireEvent) : WireEvent :=
  { event with sourceId := some (event.sourceId.getD hostId) }

def sent (hostId : String) (p : ProducerLoop) (event : WireEvent) : ProducerLoop :=
  { p with
    channel := p.channel ++ [withSource hostId event]
    produced := p.produced ++ [withSource hostId event]
    calls := p.calls + 1 }

def recordEnqueue (p : ProducerLoop) : ProducerLoop :=
  { p with health := p.health.recordEnqueue, calls := p.calls - 1, enqueued := p.enqueued + 1 }

/-- Start with the events to retry, or wait for one. -/
def collect (p : ProducerLoop) : Option ProducerLoop :=
  if p.retryBatch = [] then
    match p.channel with
    | [] => none
    | event :: rest => some { p with channel := rest, batch := [event], phase := .draining }
  else some { p with batch := p.retryBatch, retryBatch := [], phase := .draining }

/-- Take one more event that is ready, up to the batch limit. -/
def drain (p : ProducerLoop) : ProducerLoop :=
  if p.batch.length < producerMaxBatch then
    match p.channel with
    | [] => { p with phase := .connecting }
    | event :: rest => { p with channel := rest, batch := p.batch ++ [event] }
  else { p with phase := .connecting }

def connect (p : ProducerLoop) (up : Bool) : ProducerLoop :=
  { p with client := p.client || up, phase := .inserting }

/-- Keep the batch for the next round. -/
def keepBatch (p : ProducerLoop) : ProducerLoop :=
  { p with
    health := p.health.recordErrorNoDequeue
    client := false
    retryBatch := p.batch
    batch := []
    phase := .collecting }

def commit (p : ProducerLoop) : ProducerLoop :=
  { p with log := p.log ++ insertEventBatch p.batch, commits := p.commits ++ [p.batch] }

def acknowledged (p : ProducerLoop) : ProducerLoop :=
  { p with
    persisted := p.persisted ++ p.batch
    batch := []
    phase := .recordingSuccess p.batch.length }

def insert (p : ProducerLoop) (outcome : InsertOutcome) : ProducerLoop :=
  if p.client then
    match outcome with
    | .committed => p.commit.acknowledged
    | .failed => p.keepBatch
    | .committedUnacknowledged => p.commit.keepBatch
  else p.keepBatch

def recordSuccess (p : ProducerLoop) (batchLen : Nat) : ProducerLoop :=
  { p with
    health := p.health.recordSuccessBatch (UInt64.ofNat batchLen)
    recorded := p.recorded + batchLen
    phase := .collecting }

def step (hostId : String) (p : ProducerLoop) : ProducerStep → Option ProducerLoop
  | .send event => some (p.sent hostId event)
  | .recordEnqueue => if p.calls = 0 then none else some p.recordEnqueue
  | .collect =>
    match p.phase with
    | .collecting => p.collect
    | _ => none
  | .drain =>
    match p.phase with
    | .draining => some p.drain
    | _ => none
  | .connect up =>
    match p.phase with
    | .connecting => some (p.connect up)
    | _ => none
  | .insert outcome =>
    match p.phase with
    | .inserting => some (p.insert outcome)
    | _ => none
  | .recordSuccess =>
    match p.phase with
    | .recordingSuccess batchLen => some (p.recordSuccess batchLen)
    | _ => none

/-- The retry batch or the batch in hand; one of the two is empty. -/
def inHand (p : ProducerLoop) : List WireEvent := p.retryBatch ++ p.batch

/-- The retry batch is what an earlier round left, the batch what this one has taken; the two are never
there together. -/
structure Settled (p : ProducerLoop) : Prop where
  between : p.phase = .collecting → p.batch = []
  within : p.phase ≠ .collecting → p.retryBatch = []
  through : ∀ batchLen, p.phase = .recordingSuccess batchLen → p.batch = []

/-- Every event is where it can still be inserted, and the log leaves what the first produced events leave,
at least all those reported as persisted. -/
structure Durable (p : ProducerLoop) : Prop where
  produced : p.produced = p.persisted ++ p.inHand ++ p.channel
  oneInHand : p.retryBatch = [] ∨ p.batch = []
  whole : p.log = (p.commits.map insertEventBatch).flatten
  consecutive : ∀ batch ∈ p.commits, batch <:+: p.produced
  folded : ∃ n, p.persisted.length ≤ n ∧ n ≤ (p.persisted ++ p.inHand).length ∧
    foldRows p.log = foldEvents (p.produced.take n)

/-- The invariant of the loop. `part` are the events in hand that a commit has written and not reported. -/
structure Accounted (p : ProducerLoop) : Prop extends Settled p where
  produced : p.produced = p.persisted ++ p.inHand ++ p.channel
  log : p.log = p.commits.flatten.map eventRow
  consecutive : ∀ batch ∈ p.commits, batch <:+: p.produced
  part : ∃ part, part <+: p.inHand ∧ ∀ key,
    lastEffect producedEffect key p.commits.flatten = lastEffect producedEffect key (p.persisted ++ part)

variable {hostId : String} {p q : ProducerLoop}

theorem accounted_start : Accounted start where
  between _ := rfl
  within _ := rfl
  through _ _ := rfl
  produced := rfl
  log := rfl
  consecutive _ among := nomatch among
  part := ⟨[], List.nil_prefix, fun _ => rfl⟩

theorem Accounted.sent (accounted : Accounted p) (event : WireEvent) :
    Accounted (p.sent hostId event) := by
  obtain ⟨settled, produced, log, consecutive, part⟩ := accounted
  refine ⟨⟨settled.between, settled.within, settled.through⟩, ?_, log, fun batch among => ?_, part⟩
  · show p.produced ++ _ = _ ++ (p.channel ++ _)
    rw [produced, List.append_assoc]
    rfl
  · exact (consecutive batch among).trans (List.prefix_append _ _).isInfix

theorem Accounted.collect (accounted : Accounted p) (idle : p.phase = .collecting)
    (stepped : p.collect = some q) : Accounted q := by
  obtain ⟨settled, produced, log, consecutive, ⟨part, first, same⟩⟩ := accounted
  have empty := settled.between idle
  rw [inHand, empty, List.append_nil] at produced first
  unfold ProducerLoop.collect at stepped
  split at stepped
  · next fresh =>
    split at stepped
    · cases stepped
    · next event rest channel =>
      obtain rfl := Option.some.inj stepped
      rw [fresh] at produced first
      obtain rfl := List.prefix_nil.mp first
      refine ⟨⟨nofun, fun _ => fresh, nofun⟩, ?_, log, consecutive, ⟨[], List.nil_prefix, same⟩⟩
      simp [inHand, fresh, produced, channel]
  · obtain rfl := Option.some.inj stepped
    exact ⟨⟨nofun, fun _ => rfl, nofun⟩, produced, log, consecutive, ⟨part, first, same⟩⟩

theorem Accounted.drain (accounted : Accounted p) (draining : p.phase = .draining) : Accounted p.drain := by
  obtain ⟨settled, produced, log, consecutive, ⟨part, first, same⟩⟩ := accounted
  have fresh : p.retryBatch = [] := settled.within (by simp [draining])
  unfold ProducerLoop.drain
  split
  · split
    · exact ⟨⟨nofun, fun _ => fresh, nofun⟩, produced, log, consecutive, ⟨part, first, same⟩⟩
    · next event rest channel =>
      have more : p.inHand <+: p.retryBatch ++ (p.batch ++ [event]) := by
        rw [← List.append_assoc]
        exact List.prefix_append _ _
      refine ⟨⟨fun other => ?_, fun _ => fresh, fun n other => ?_⟩, ?_, log, consecutive,
        ⟨part, first.trans more, same⟩⟩
      · cases draining.symm.trans other
      · cases draining.symm.trans other
      · simp [inHand, produced, channel]
  · exact ⟨⟨nofun, fun _ => fresh, nofun⟩, produced, log, consecutive, ⟨part, first, same⟩⟩

theorem Accounted.connect (accounted : Accounted p) (connecting : p.phase = .connecting) (up : Bool) :
    Accounted (p.connect up) := by
  obtain ⟨settled, produced, log, consecutive, part⟩ := accounted
  exact ⟨⟨nofun, fun _ => settled.within (by simp [connecting]), nofun⟩, produced, log, consecutive, part⟩

theorem Accounted.inHand_of_inserting (accounted : Accounted p) (inserting : p.phase = .inserting) :
    p.inHand = p.batch := by
  rw [inHand, accounted.within (by simp [inserting]), List.nil_append]

theorem Accounted.commit (accounted : Accounted p) (inserting : p.phase = .inserting) :
    Accounted p.commit := by
  have fresh := accounted.inHand_of_inserting inserting
  obtain ⟨settled, produced, log, consecutive, ⟨part, first, same⟩⟩ := accounted
  refine ⟨⟨settled.between, settled.within, settled.through⟩, produced, ?_, ?_,
    ⟨p.inHand, List.prefix_rfl, fun key => ?_⟩⟩
  · simp [ProducerLoop.commit, log]
  · intro batch among
    rcases List.mem_append.mp among with before | now
    · exact consecutive batch before
    · obtain rfl := List.mem_singleton.mp now
      exact ⟨p.persisted, p.channel, (fresh ▸ produced).symm⟩
  · have once := lastEffect_again (same key) first
    simpa [ProducerLoop.commit, fresh] using once

theorem Accounted.keepBatch (accounted : Accounted p) (inserting : p.phase = .inserting) :
    Accounted p.keepBatch := by
  have fresh := accounted.inHand_of_inserting inserting
  have kept : p.keepBatch.inHand = p.inHand := by
    rw [fresh]
    exact List.append_nil _
  obtain ⟨settled, produced, log, consecutive, part⟩ := accounted
  refine ⟨⟨fun _ => rfl, fun other => absurd rfl other, nofun⟩, ?_, log, consecutive, ?_⟩
  · rw [kept]
    exact produced
  · rw [kept]
    exact part

/-- With its batch written last, the log says what the events persisted with the batch say. -/
theorem Accounted.acknowledged (accounted : Accounted p) (inserting : p.phase = .inserting) :
    Accounted p.commit.acknowledged := by
  have fresh := accounted.inHand_of_inserting inserting
  have none_left : p.commit.acknowledged.inHand = [] := by
    show p.retryBatch ++ [] = []
    rw [List.append_nil, accounted.within (by simp [inserting])]
  have committed := accounted.commit inserting
  obtain ⟨settled, produced, log, consecutive, ⟨part, first, same⟩⟩ := accounted
  refine ⟨⟨nofun, fun _ => settled.within (by simp [inserting]), fun _ _ => rfl⟩, ?_, committed.log,
    committed.consecutive, ⟨[], List.nil_prefix, fun key => ?_⟩⟩
  · rw [none_left, List.append_nil]
    show p.produced = (p.persisted ++ p.batch) ++ p.channel
    rw [← fresh]
    exact produced
  · have once := lastEffect_again (same key) first
    simpa [ProducerLoop.commit, ProducerLoop.acknowledged, fresh] using once

theorem Accounted.step {event : ProducerStep} (accounted : Accounted p)
    (stepped : p.step hostId event = some q) : Accounted q := by
  cases event with
  | send event =>
    obtain rfl := Option.some.inj stepped
    exact accounted.sent event
  | recordEnqueue =>
    rcases Option.ite_none_left_eq_some.mp stepped with ⟨-, recorded⟩
    obtain rfl := Option.some.inj recorded
    obtain ⟨settled, produced, log, consecutive, part⟩ := accounted
    exact ⟨⟨settled.between, settled.within, settled.through⟩, produced, log, consecutive, part⟩
  | collect =>
    simp only [ProducerLoop.step] at stepped
    split at stepped
    · next idle => exact accounted.collect idle stepped
    · cases stepped
  | drain =>
    simp only [ProducerLoop.step] at stepped
    split at stepped
    · next draining =>
      obtain rfl := Option.some.inj stepped
      exact accounted.drain draining
    · cases stepped
  | connect up =>
    simp only [ProducerLoop.step] at stepped
    split at stepped
    · next connecting =>
      obtain rfl := Option.some.inj stepped
      exact accounted.connect connecting up
    · cases stepped
  | insert outcome =>
    simp only [ProducerLoop.step] at stepped
    split at stepped
    · next inserting =>
      obtain rfl := Option.some.inj stepped
      unfold ProducerLoop.insert
      split
      · cases outcome with
        | committed => exact accounted.acknowledged inserting
        | failed => exact accounted.keepBatch inserting
        | committedUnacknowledged => exact (accounted.commit inserting).keepBatch inserting
      · exact accounted.keepBatch inserting
    · cases stepped
  | recordSuccess =>
    simp only [ProducerLoop.step] at stepped
    split at stepped
    · next batchLen recording =>
      obtain rfl := Option.some.inj stepped
      obtain ⟨settled, produced, log, consecutive, part⟩ := accounted
      exact ⟨⟨fun _ => settled.through batchLen recording, fun other => absurd rfl other, nofun⟩, produced,
        log, consecutive, part⟩
    · cases stepped

theorem Accounted.durable (accounted : Accounted p) : Durable p := by
  obtain ⟨settled, produced, log, consecutive, ⟨part, first, same⟩⟩ := accounted
  refine ⟨produced, ?_, ?_, consecutive, (p.persisted ++ part).length, by simp, ?_, ?_⟩
  · by_cases idle : p.phase = .collecting
    · exact .inr (settled.between idle)
    · exact .inl (settled.within idle)
  · rw [log, List.map_flatten]
    exact congrArg List.flatten (List.map_congr_left fun batch _ => (insertEventBatch_eq batch).symm)
  · simpa using first.length_le
  · obtain ⟨rest, whole⟩ := first
    have taken : p.produced.take (p.persisted ++ part).length = p.persisted ++ part := by
      rw [produced, ← whole, ← List.append_assoc, List.append_assoc, List.take_left]
    rw [log, foldRows_map, taken]
    exact foldEvents_congr same

/-- At every point of the loop each produced event is persisted, in hand or in the channel, in order; and the
log leaves what the first of them leave, however often a batch stands in it. -/
theorem producer_neither_loses_nor_reorders {events : List ProducerStep}
    (ran : run (ProducerLoop.step hostId) start events = some p) : Durable p :=
  (invariant ran accounted_start Accounted.step).durable

/-- An event of one lamp. -/
def lampEvent (kind : MEventType) : WireEvent where
  changeType := kind
  itemType := "Lamp"
  createdAt := ""
  tx := ""
  sourceId := none
  item := .object [("id", .string "l1")]

/-- A set whose commit is not acknowledged, and the delete that joins it in the batch that is retried. -/
def lampRun : List ProducerStep :=
  [.send (lampEvent .set), .recordEnqueue, .collect, .drain, .connect true, .insert .committedUnacknowledged,
    .send (lampEvent .del), .collect, .drain, .drain, .connect true, .insert .committed, .recordSuccess]

theorem producer_neither_loses_nor_reorders_lamp : ∃ p,
    run (ProducerLoop.step "h1") start lampRun = some p ∧ p.log.length = 3 ∧ Durable p := by
  have ran : run (ProducerLoop.step "h1") start lampRun = some _ := rfl
  exact ⟨_, ran, rfl, producer_neither_loses_nor_reorders ran⟩

end ProducerLoop

end Myko.Postgres

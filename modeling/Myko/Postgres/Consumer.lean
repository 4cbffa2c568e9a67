import Myko.Lib.KeyedLog
import Myko.Lib.SerialTable
import Myko.Server.State

/-!
The event log in Postgres as a server reads it: a snapshot of the latest rows at start-up, then pages of
later rows in id order. A server skips the rows that carry its own host id.
-/

namespace Myko.Postgres

open KeyedLog

/-- An event with the host it was written on. -/
structure SourcedEvent extends MEvent where
  sourceId : Option String
  deriving DecidableEq

/-- The parsers of the registered entity types. An item that a parser reads has the type and the `id` of
what it was read from. -/
structure HandlerRegistry where
  parser : String → String → Option Item
  payloadId : String → Option String
  parsed : ∀ itemType payload item, parser itemType payload = some item →
    item.entityType = itemType ∧ payloadId payload = some item.id

/-- The rows of the event table; the other columns are read off the event. -/
abbrev EventRows := SerialRows SourcedEvent

namespace HandlerRegistry

variable (handlers : HandlerRegistry)

/-- The `item_type` and `item_id` columns. -/
def entity (event : SourcedEvent) : String × String :=
  (event.itemType, (handlers.payloadId event.item).getD "unknown")

/-- What an event says of its entity, unless it cannot be read. -/
def effect (event : SourcedEvent) : Option ((String × String) × Option Item) :=
  match event.changeType with
  | .set => (handlers.parser event.itemType event.item).map fun item =>
      ((item.entityType, item.id), some item)
  | .del => (handlers.payloadId event.item).map fun id => ((event.itemType, id), none)

variable {handlers}

theorem effect_entity {event : SourcedEvent} {key : String × String} {value : Option Item}
    (h : handlers.effect event = some (key, value)) : key = handlers.entity event := by
  unfold effect at h
  unfold entity
  split at h
  · obtain ⟨item, read, same⟩ := Option.map_eq_some_iff.mp h
    obtain ⟨type, id⟩ := handlers.parsed _ _ _ read
    rw [(Prod.mk.inj same).1.symm, type, id, Option.getD_some]
  · obtain ⟨id, read, same⟩ := Option.map_eq_some_iff.mp h
    rw [(Prod.mk.inj same).1.symm, read, Option.getD_some]

theorem effectOn_of_entity {event : SourcedEvent} {key : String × String}
    (other : handlers.entity event ≠ key) : effectOn handlers.effect key event = none := by
  unfold effectOn
  split
  · rename_i written value read
    rw [effect_entity read, if_neg other]
  · rfl

end HandlerRegistry

/-- Whether a row is one that the server of this host skips. -/
def isMyEvent (hostId : String) (event : SourcedEvent) : Bool := event.sourceId = some hostId

def applyEvent (handlers : HandlerRegistry) (registry : StoreRegistry) (event : SourcedEvent) :
    StoreRegistry :=
  match event.changeType with
  | .set =>
    match handlers.parser event.itemType event.item with
    | some item => registry.insert item
    | none => registry
  | .del =>
    match handlers.payloadId event.item with
    | some id => registry.remove event.itemType id
    | none => registry

def applyRemoteEvent (handlers : HandlerRegistry) (hostId : String) (registry : StoreRegistry)
    (event : SourcedEvent) : StoreRegistry :=
  if isMyEvent hostId event then registry else applyEvent handlers registry event

/-- What a server that skips its own events takes from one. -/
def othersEffect (handlers : HandlerRegistry) (hostId : String) (event : SourcedEvent) :
    Option ((String × String) × Option Item) :=
  if isMyEvent hostId event then none else handlers.effect event

/-- The value a store holds for an entity. -/
def valueOf (registry : StoreRegistry) (key : String × String) : Option Item :=
  registry.getValue key.1 key.2

theorem replays_applyEvent (handlers : HandlerRegistry) :
    Replays handlers.effect valueOf (applyEvent handlers) := by
  intro registry event key
  unfold applyEvent effectOn HandlerRegistry.effect valueOf
  cases event.changeType with
  | set =>
    cases handlers.parser event.itemType event.item with
    | none => rfl
    | some item =>
      dsimp only [Option.map_some]
      rw [StoreRegistry.getValue_insert]
      by_cases here : (item.entityType, item.id) = key
      · subst here
        simp
      · rw [if_neg here, if_neg fun both => here (by rw [← both.1, ← both.2])]
        rfl
  | del =>
    cases handlers.payloadId event.item with
    | none => rfl
    | some id =>
      dsimp only [Option.map_some]
      rw [StoreRegistry.getValue_remove]
      by_cases here : (event.itemType, id) = key
      · subst here
        simp
      · rw [if_neg here, if_neg fun both => here (by rw [← both.1, ← both.2])]
        rfl

theorem replays_applyRemoteEvent (handlers : HandlerRegistry) (hostId : String) :
    Replays (othersEffect handlers hostId) valueOf (applyRemoteEvent handlers hostId) := by
  intro registry event key
  unfold applyRemoteEvent
  by_cases mine : isMyEvent hostId event
  · simp [mine, effectOn, othersEffect]
  · have same : othersEffect handlers hostId event = handlers.effect event := if_neg mine
    rw [if_neg mine, replays_applyEvent handlers registry event key]
    simp only [effectOn, same]

/-! ### The start-up snapshot -/

/-- The rows that are the latest of their entities. -/
def latest (handlers : HandlerRegistry) (rows : List (Nat × SourcedEvent)) : List (Nat × SourcedEvent) :=
  rows.filter fun row =>
    rows.all fun other => handlers.entity other.2 = handlers.entity row.2 → other.1 ≤ row.1

/-- What the snapshot query returns: of the rows up to the high-water id the latest of each entity, when
it is a SET. -/
def snapshotRows (handlers : HandlerRegistry) (rows : EventRows) (highWater : Nat) :
    List (Nat × SourcedEvent) :=
  (latest handlers (rows.upto highWater).toList).filter fun row => row.2.changeType = .set

def snapshotStoreBatch : Nat := 512

/-- Parsed items waiting to be stored, each under its own entity type. -/
structure SnapshotEntries where
  byType : OrdMap String (List Item)
  typed : ∀ (entityType : String) (items : List Item), byType[entityType]? = some items →
    ∀ item ∈ items, item.entityType = entityType

namespace SnapshotEntries

def new : SnapshotEntries where
  byType := ∅
  typed _ _ h := by simp at h

/-- The entries of the type of an item, the item at their end. -/
def entries (pending : SnapshotEntries) (item : Item) : List Item :=
  (pending.byType[item.entityType]?).getD [] ++ [item]

theorem entries_typed (pending : SnapshotEntries) (item : Item) :
    ∀ other ∈ pending.entries item, other.entityType = item.entityType := by
  intro other member
  rcases List.mem_append.mp member with earlier | same
  · cases stored : pending.byType[item.entityType]? with
    | none => simp [stored] at earlier
    | some items =>
      rw [stored] at earlier
      exact pending.typed _ _ stored other earlier
  · rw [List.mem_singleton.mp same]

def put (pending : SnapshotEntries) (entityType : String) (items : List Item)
    (same : ∀ item ∈ items, item.entityType = entityType) : SnapshotEntries where
  byType := pending.byType.insert entityType items
  typed otherType others h := by
    rw [OrdMap.get_insert] at h
    split at h
    · rename_i here
      cases h
      rw [here]
      exact same
    · exact pending.typed _ _ h

end SnapshotEntries

def insertMany (registry : StoreRegistry) (items : List Item) : StoreRegistry :=
  items.foldl StoreRegistry.insert registry

def queueSnapshotEvent (handlers : HandlerRegistry) (hostId : String)
    (state : StoreRegistry × SnapshotEntries) (event : SourcedEvent) : StoreRegistry × SnapshotEntries :=
  if isMyEvent hostId event then state
  else
    match handlers.parser event.itemType event.item with
    | none => state
    | some item =>
      let entries := state.2.entries item
      if snapshotStoreBatch ≤ entries.length then
        (insertMany state.1 entries, state.2.put item.entityType [] (by simp))
      else (state.1, state.2.put item.entityType entries (state.2.entries_typed item))

def flushSnapshotEntries (registry : StoreRegistry) (pending : SnapshotEntries) : StoreRegistry :=
  pending.byType.toList.foldl (fun registry entry => insertMany registry entry.2) registry

def loadSnapshot (handlers : HandlerRegistry) (hostId : String) (rows : List (Nat × SourcedEvent)) :
    StoreRegistry :=
  let loaded := rows.foldl (fun state row => queueSnapshotEvent handlers hostId state row.2)
    (StoreRegistry.empty, SnapshotEntries.new)
  flushSnapshotEntries loaded.1 loaded.2

/-! ### The tail -/

def fetchLimit : Nat := 1000

/-- A consumer past its snapshot, with the rows of its last query that it has not applied yet. -/
structure Consumer where
  registry : StoreRegistry
  lastSeenId : Nat
  fetched : List (Nat × SourcedEvent)

namespace Consumer

def load (handlers : HandlerRegistry) (hostId : String) (rows : EventRows) (highWater : Nat) : Consumer where
  registry := loadSnapshot handlers hostId (snapshotRows handlers rows highWater)
  lastSeenId := highWater
  fetched := []

def fetch (rows : EventRows) (consumer : Consumer) : Consumer :=
  { consumer with fetched := rows.page consumer.lastSeenId fetchLimit }

/-- Apply the next row of the last query. -/
def applyNext (handlers : HandlerRegistry) (hostId : String) (consumer : Consumer) : Consumer :=
  match consumer.fetched with
  | [] => consumer
  | row :: rest =>
    { registry := applyRemoteEvent handlers hostId consumer.registry row.2
      lastSeenId := row.1
      fetched := rest }

/-- Where the cursor will stand when the rows of the last query have been applied. -/
def frontier (consumer : Consumer) : Nat := SerialRows.frontier consumer.lastSeenId consumer.fetched

/-- Apply what the last query returned. -/
def drain (handlers : HandlerRegistry) (hostId : String) (consumer : Consumer) : Consumer where
  registry := consumer.fetched.foldl (fun registry row => applyRemoteEvent handlers hostId registry row.2)
    consumer.registry
  lastSeenId := consumer.frontier
  fetched := []

theorem drain_applyNext (handlers : HandlerRegistry) (hostId : String) (consumer : Consumer) :
    (consumer.applyNext handlers hostId).drain handlers hostId = consumer.drain handlers hostId := by
  obtain ⟨registry, lastSeenId, fetched⟩ := consumer
  cases fetched with
  | nil => rfl
  | cons row rest =>
    have same : SerialRows.frontier row.1 rest = SerialRows.frontier lastSeenId (row :: rest) := by
      unfold SerialRows.frontier
      cases rest with
      | nil => rfl
      | cons next rest => simp [List.getLast?_eq_some_getLast]
    simp only [applyNext, drain, frontier, List.foldl_cons, same]

/-- One round of the consumer loop: query, then apply what came. -/
def poll (handlers : HandlerRegistry) (hostId : String) (rows : EventRows) (consumer : Consumer) :
    Consumer :=
  (consumer.fetch rows).drain handlers hostId

theorem frontier_page {rows : EventRows} {cursor : Nat} :
    cursor ≤ SerialRows.frontier cursor (rows.page cursor fetchLimit) :=
  SerialRows.cursor_le_frontier fun _ member => (SerialRows.above_of_page member).2

theorem lastSeenId_poll (handlers : HandlerRegistry) (hostId : String) (rows : EventRows)
    (consumer : Consumer) : consumer.lastSeenId ≤ (consumer.poll handlers hostId rows).lastSeenId :=
  frontier_page

/-- A query that returns rows moves the cursor within the table. -/
theorem lastSeenId_poll_lt (handlers : HandlerRegistry) (hostId : String) {rows : EventRows}
    {consumer : Consumer} (some : rows.page consumer.lastSeenId fetchLimit ≠ []) :
    consumer.lastSeenId < (consumer.poll handlers hostId rows).lastSeenId ∧
      (consumer.poll handlers hostId rows).lastSeenId ≤ rows.maxId := by
  have last := List.getLast?_eq_some_getLast some
  have member := List.getLast_mem some
  have top : (consumer.poll handlers hostId rows).lastSeenId =
      ((rows.page consumer.lastSeenId fetchLimit).getLast some).1 := by
    change SerialRows.frontier _ (rows.page consumer.lastSeenId fetchLimit) = _
    rw [SerialRows.frontier, last]
    rfl
  obtain ⟨stored, above⟩ := SerialRows.above_of_page member
  rw [top]
  exact ⟨above, SerialRows.le_maxId stored⟩

/-- Poll until a query comes back empty. -/
def catchUp (handlers : HandlerRegistry) (hostId : String) (rows : EventRows) (consumer : Consumer) :
    Consumer :=
  if rows.page consumer.lastSeenId fetchLimit = [] then { consumer with fetched := [] }
  else catchUp handlers hostId rows (consumer.poll handlers hostId rows)
termination_by rows.maxId - consumer.lastSeenId
decreasing_by
  have moved := lastSeenId_poll_lt handlers hostId ‹_›
  omega

end Consumer

/-! ### What loading a snapshot leaves -/

/-- An item to be stored, as an entry about its entity. -/
def stores (item : Item) : Option ((String × String) × Option Item) :=
  some ((item.entityType, item.id), some item)

theorem replays_insert : Replays stores valueOf StoreRegistry.insert := by
  intro registry item key
  unfold effectOn stores valueOf
  rw [StoreRegistry.getValue_insert]
  by_cases here : (item.entityType, item.id) = key
  · subst here
    simp
  · simp only [if_neg here]
    rw [if_neg fun both => here (by rw [← both.1, ← both.2])]
    rfl

theorem valueOf_insertMany (registry : StoreRegistry) (items : List Item) (key : String × String) :
    valueOf (insertMany registry items) key =
      (lastEffect stores key items).getD (valueOf registry key) :=
  get_foldl replays_insert items registry

theorem lastEffect_of_type {items : List Item} {entityType : String} {key : String × String}
    (typed : ∀ item ∈ items, item.entityType = entityType) (other : key.1 ≠ entityType) :
    lastEffect stores key items = none := by
  refine lastEffect_eq_none.mpr fun item member => ?_
  unfold effectOn stores
  exact if_neg fun same => other (by rw [← same, typed item member])

namespace SnapshotEntries

/-- What waits to be stored for an entity. -/
def waiting (pending : SnapshotEntries) (key : String × String) : Option (Option Item) :=
  lastEffect stores key ((pending.byType[key.1]?).getD [])

theorem waiting_put (pending : SnapshotEntries) {entityType : String} {items : List Item}
    (same : ∀ item ∈ items, item.entityType = entityType) (key : String × String) :
    (pending.put entityType items same).waiting key =
      if key.1 = entityType then lastEffect stores key items else pending.waiting key := by
  unfold waiting put
  rw [OrdMap.get_insert]
  split <;> rfl

theorem waiting_entries (pending : SnapshotEntries) (item : Item) {key : String × String}
    (here : key.1 = item.entityType) :
    lastEffect stores key (pending.entries item) =
      (effectOn stores key item).or (pending.waiting key) := by
  rw [entries, lastEffect_concat, waiting, here]

end SnapshotEntries

theorem valueOf_flush (registry : StoreRegistry) (pending : SnapshotEntries) (key : String × String) :
    valueOf (flushSnapshotEntries registry pending) key =
      (pending.waiting key).getD (valueOf registry key) := by
  have joined : ∀ (entries : List (String × List Item)) (registry : StoreRegistry),
      entries.foldl (fun registry entry => insertMany registry entry.2) registry =
        insertMany registry (entries.flatMap Prod.snd) := by
    intro entries
    induction entries with
    | nil => intro registry; rfl
    | cons entry rest ih =>
      intro registry
      rw [List.foldl_cons, ih, List.flatMap_cons]
      exact List.foldl_append.symm
  have elsewhere : ∀ entries : List (String × List Item), (∀ entry ∈ entries, entry ∈ pending.byType.toList) →
      (∀ entry ∈ entries, key.1 ≠ entry.1) →
      lastEffect stores key (entries.flatMap Prod.snd) = none := by
    intro entries inside apart
    refine lastEffect_eq_none.mpr fun item member => ?_
    obtain ⟨entry, listed, member⟩ := List.mem_flatMap.mp member
    have typed := pending.typed entry.1 entry.2 (OrdMap.mem_toList.mp (inside entry listed))
    exact lastEffect_eq_none.mp (lastEffect_of_type typed (apart entry listed)) item member
  rw [flushSnapshotEntries, joined, valueOf_insertMany]
  congr 1
  unfold SnapshotEntries.waiting
  cases stored : pending.byType[key.1]? with
  | none =>
    refine elsewhere _ (fun _ member => member) fun entry member same => ?_
    have found := OrdMap.mem_toList.mp (show (entry.1, entry.2) ∈ _ from member)
    rw [← same, stored] at found
    cases found
  | some items =>
    obtain ⟨before, after, split⟩ := List.append_of_mem (OrdMap.mem_toList.mpr stored)
    have keys := OrdMap.nodup_keys pending.byType
    rw [split, List.map_append, List.map_cons, List.nodup_middle, List.nodup_cons] at keys
    have apart : ∀ entry ∈ before ++ after, key.1 ≠ entry.1 := by
      intro entry member same
      refine keys.1 ?_
      rw [← List.map_append, show (key.1, items).1 = entry.1 from same]
      exact List.mem_map_of_mem member
    have inside : ∀ entry ∈ before ++ after, entry ∈ pending.byType.toList := by
      intro entry member
      rw [split, List.mem_append, List.mem_cons]
      rcases List.mem_append.mp member with early | late
      · exact .inl early
      · exact .inr (.inr late)
    have early := elsewhere before (fun e h => inside e (List.mem_append_left _ h))
      fun e h => apart e (List.mem_append_left _ h)
    have late := elsewhere after (fun e h => inside e (List.mem_append_right _ h))
      fun e h => apart e (List.mem_append_right _ h)
    rw [split, List.flatMap_append, List.flatMap_cons, lastEffect_append, lastEffect_append, early, late]
    simp

/-- What the stores would hold for an entity were the waiting items flushed. -/
def held (state : StoreRegistry × SnapshotEntries) (key : String × String) : Option Item :=
  (state.2.waiting key).getD (valueOf state.1 key)

/-- What a snapshot row says of its entity. -/
def snapshotEffect (handlers : HandlerRegistry) (hostId : String) (event : SourcedEvent) :
    Option ((String × String) × Option Item) :=
  if isMyEvent hostId event then none
  else (handlers.parser event.itemType event.item).map fun item => ((item.entityType, item.id), some item)

theorem replays_queueSnapshotEvent (handlers : HandlerRegistry) (hostId : String) :
    Replays (snapshotEffect handlers hostId) held (queueSnapshotEvent handlers hostId) := by
  intro state event key
  unfold queueSnapshotEvent
  by_cases mine : isMyEvent hostId event
  · simp [mine, effectOn, snapshotEffect]
  · cases read : handlers.parser event.itemType event.item with
    | none => simp [mine, effectOn, snapshotEffect, read]
    | some item =>
      have same : effectOn (snapshotEffect handlers hostId) key event = effectOn stores key item := by
        simp [effectOn, snapshotEffect, stores, mine, read]
      simp only [mine, Bool.false_eq_true, if_false, same]
      by_cases here : key.1 = item.entityType
      · have joined := state.2.waiting_entries item here
        split
        · unfold held
          rw [SnapshotEntries.waiting_put, if_pos here, valueOf_insertMany, joined]
          cases effectOn stores key item <;> rfl
        · unfold held
          rw [SnapshotEntries.waiting_put, if_pos here, joined]
          cases effectOn stores key item <;> rfl
      · have silent : effectOn stores key item = none :=
          if_neg fun eq => here (by rw [← eq])
        have typed := state.2.entries_typed item
        split
        · unfold held
          rw [SnapshotEntries.waiting_put, if_neg here, valueOf_insertMany,
            lastEffect_of_type typed here, silent]
          rfl
        · unfold held
          rw [SnapshotEntries.waiting_put, if_neg here, silent]
          rfl

theorem valueOf_loadSnapshot (handlers : HandlerRegistry) (hostId : String)
    (rows : List (Nat × SourcedEvent)) (key : String × String) :
    valueOf (loadSnapshot handlers hostId rows) key =
      (lastEffect (snapshotEffect handlers hostId) key (rows.map Prod.snd)).getD none := by
  have replayed : held ((rows.map Prod.snd).foldl (queueSnapshotEvent handlers hostId)
      (StoreRegistry.empty, SnapshotEntries.new)) key = _ :=
    get_foldl (replays_queueSnapshotEvent handlers hostId) _ _
  have start : held (StoreRegistry.empty, SnapshotEntries.new) key = none := by
    simp [held, SnapshotEntries.waiting, SnapshotEntries.new, valueOf]
  rw [loadSnapshot, valueOf_flush, ← start, ← replayed, List.foldl_map]
  rfl

end Myko.Postgres

namespace Myko.Sample

open Postgres

/-- Parsers under which an item's payload is its id. -/
def handlers : HandlerRegistry where
  parser itemType payload := some ⟨itemType, payload, []⟩
  payloadId payload := some payload
  parsed itemType payload item h := by
    cases h
    exact ⟨rfl, rfl⟩

def written : SourcedEvent where
  changeType := .set
  itemType := "Node"
  item := "x"
  sourceId := some "host"

end Myko.Sample

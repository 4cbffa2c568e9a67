import Mathlib.Data.List.Perm.Subperm
import Mathlib.Data.Set.Card
import Mathlib.Data.Prod.Lex
import Myko.Lib.Runs
import Myko.Postgres.Producer
import Myko.Server.Ingest
import Myko.Server.Sample

/-!
A client that keeps a type on a server like its own items of it: whenever the one or the other changes it sends the
server the difference.
-/

open Relation

namespace Myko.Client
open StateError

/-- What a client syncs, with which server, and what the two of them make of the type. -/
structure EntityStoreSync where
  ctx : MykoServerContext
  format : Postgres.WireFormat
  clientId : String
  entityType : String
  deleteStaleRemote : Bool
  itemsEqual : Item → Item → Bool
  /-- Which items of the type the remote query asks for. -/
  asks : Item → Bool

inductive Uplink where
  | query
  | eventBatch (events : List Change)
  deriving DecidableEq

def Uplink.batch : Uplink → Option (List Change)
  | query => none
  | eventBatch events => some events

/-- The connection to the server, and whether the server has come to the query on it. -/
inductive Link where
  | down
  | joining
  | live
  deriving DecidableEq

/-- The client, the server, and what is on its way from the one to the other, the oldest first. -/
structure SyncState where
  localItems : List Item
  remoteItems : List Item
  uplink : List Uplink
  link : Link
  responses : List (List Item)
  server : ServerState

inductive SyncEvent where
  | localChanges (items : List Item)
  | receive
  /-- The server handles a frame. What the query shows while it does is sent as well. -/
  | take (shown : List (List Item))
  | call (call : Call) (shown : List (List Item))
  /-- What is kept may go out in another order, as a frame that is sent just when the connection is up overtakes those
  that waited for it. -/
  | disconnect (kept : List (List Change))
  | connect (position : Nat)

def SyncEvent.isDelivery : SyncEvent → Bool
  | receive | take _ => true
  | _ => false

def indexItems (items : List Item) : OrdMap String Item :=
  OrdMap.insertMany ∅ (items.map fun item => (item.id, item))

/-- What the query tells its subscriber of a change, given what it shows on the way. -/
def told (before after : List Item) (shown : List (List Item)) : List (List Item) :=
  if shown.getLast?.getD before = after then shown else shown ++ [after]

namespace EntityStoreSync
variable (sync : EntityStoreSync)

def reconcile (localItems remote : OrdMap String Item) : List Change :=
  (localItems.toList.filterMap fun entry =>
    if (remote[entry.1]?).all fun item => !sync.itemsEqual entry.2 item then some ⟨.set, entry.2⟩ else none) ++
  if sync.deleteStaleRemote then
    remote.toList.filterMap fun entry => if localItems.contains entry.1 then none else some ⟨.del, entry.2⟩
  else []

def events (s : SyncState) : List Change :=
  sync.reconcile (indexItems s.localItems) (indexItems s.remoteItems)

def syncOnce (s : SyncState) : SyncState :=
  if (sync.events s).isEmpty then s else { s with uplink := s.uplink ++ [.eventBatch (sync.events s)] }

/-- What the server makes of an event of the client. -/
def received (change : Change) : MEvent :=
  sync.format.ingest sync.clientId sync.ctx.hostId (sync.format.row "" 0 change)

def result (server : ServerState) : List Item :=
  (server.registry.snapshot sync.entityType).filter sync.asks

def answer (s : SyncState) (server : ServerState) (shown : List (List Item)) : SyncState :=
  { s with
    server
    responses := if s.link = .live then s.responses ++ told (sync.result s.server) (sync.result server) shown
      else s.responses }

def start : SyncState := ⟨[], [], [], .down, [], .initial⟩

def step (s : SyncState) : SyncEvent → Option SyncState
  | .localChanges items => some (sync.syncOnce { s with localItems := items })
  | .receive =>
    match s.responses with
    | [] => none
    | items :: rest => some (sync.syncOnce { s with remoteItems := items, responses := rest })
  | .take shown =>
    match s.uplink with
    | [] => none
    | frame :: rest =>
      if s.link = .down then none
      else match frame with
        | .query => some { s with
            uplink := rest, link := .live, responses := s.responses ++ [sync.result s.server] }
        | .eventBatch events =>
          let server := final ((Call.applyEventBatch (events.map sync.received)).run sync.ctx) s.server
          some (sync.answer { s with uplink := rest } server
            (if sync.result server = sync.result s.server then [] else shown))
  | .call call shown => some (sync.answer s (final (call.run sync.ctx) s.server) shown)
  | .disconnect kept =>
    if kept.Subperm (s.uplink.filterMap Uplink.batch) then
      some { s with uplink := kept.map .eventBatch, link := .down, responses := [] }
    else none
  | .connect position =>
    if s.link = .down then
      some { s with uplink := s.uplink.insertIdx (min position s.uplink.length) .query, link := .joining }
    else none

/-- What the server reads of an event of the client. -/
def stored (change : Change) : Option Item :=
  sync.ctx.parser (sync.received change).itemType (sync.received change).item

/-- The server knows which item is meant when it is told to delete this one. -/
structure Deletable (item : Item) : Prop where
  typed : item.entityType = sync.entityType
  read : ∃ gone, sync.stored ⟨.del, item⟩ = some gone ∧ gone.id = item.id

/-- The server keeps the item as one that the remote query asks for and the client takes to be equal. -/
structure Legible (item : Item) : Prop where
  typed : item.entityType = sync.entityType
  read : ∃ kept, sync.stored ⟨.set, item⟩ = some kept ∧ kept.id = item.id ∧ sync.asks kept = true ∧
    sync.itemsEqual item kept = true ∧ sync.Deletable kept

def Fit (change : Change) : Prop :=
  match change.kind with
  | .set => sync.Legible change.item
  | .del => sync.Deletable change.item

/-- The server applies events of the type as they come, and nothing turns them away or follows from them. -/
structure Serves : Prop where
  named : hasNul sync.entityType = false
  atOnce : sync.ctx.bufferPolicy sync.entityType = .none
  simple : Simple sync.ctx sync.entityType

/-- The local items are legible, and what anyone else leaves on the server can be deleted. -/
def Allowed (s : SyncState) : SyncEvent → Prop
  | .localChanges items => ∀ item ∈ items, sync.Legible item
  | .take shown => ∀ items ∈ shown, ∀ item ∈ items, sync.Deletable item
  | .call call shown => ∀ items ∈ sync.result (final (call.run sync.ctx) s.server) :: shown,
      ∀ item ∈ items, sync.Deletable item
  | _ => True

/-- The server has an equal item for every local one, and no other where stale items are deleted. -/
structure Agrees (s : SyncState) : Prop where
  known : s.remoteItems = sync.result s.server
  equal : ∀ id item, (indexItems s.localItems)[id]? = some item →
    ∃ remote ∈ sync.result s.server, remote.id = id ∧ sync.itemsEqual item remote = true
  none_stale : sync.deleteStaleRemote = true →
    ∀ remote ∈ sync.result s.server, ∃ item ∈ s.localItems, item.id = remote.id

variable {sync} {s t : SyncState} {events : List Change} {server : ServerState}

/-! ### Items by their ids -/

theorem of_indexed {items : List Item} {id : String} {item : Item} (indexed : (indexItems items)[id]? = some item) :
    item ∈ items ∧ item.id = id := by
  induction items with
  | nil => simp [indexItems, OrdMap.insertMany] at indexed
  | cons first rest ih =>
    rw [indexItems, List.map_cons, OrdMap.get_insertMany_cons] at indexed
    split at indexed
    · exact (ih indexed).imp_left (List.mem_cons_of_mem _)
    · split at indexed
      · cases indexed
        exact ⟨List.mem_cons_self, Eq.symm ‹_›⟩
      · cases indexed

theorem none_indexed {items : List Item} {id : String} :
    (indexItems items)[id]? = none ↔ ∀ item ∈ items, item.id ≠ id := by
  constructor
  · intro none
    induction items with
    | nil => simp
    | cons first rest ih =>
      rw [indexItems, List.map_cons, OrdMap.get_insertMany_cons] at none
      split at none
      · rename_i later
        obtain ⟨entry, among, same⟩ := List.mem_map.mp later
        obtain ⟨item, listed, rfl⟩ := List.mem_map.mp among
        exact absurd same (ih none item listed)
      · rename_i absent
        split at none
        · cases none
        · rename_i apart
          refine List.forall_mem_cons.mpr ⟨Ne.symm apart, fun item listed same => absent ?_⟩
          exact List.mem_map.mpr ⟨(item.id, item), List.mem_map_of_mem listed, same⟩
  · intro absent
    cases indexed : (indexItems items)[id]? with
    | none => rfl
    | some item =>
      obtain ⟨listed, same⟩ := of_indexed indexed
      exact absurd same (absent item listed)

theorem indexed_unique {items : List Item} (unique : (items.map Item.id).Nodup) {item : Item} (listed : item ∈ items) :
    (indexItems items)[item.id]? = some item := by
  have keys : ((items.map fun item => (item.id, item)).map Prod.fst).Nodup := by
    rw [List.map_map]
    exact unique
  exact (OrdMap.get_insertMany keys item.id item).mpr (List.mem_map_of_mem listed)

theorem mem_result {item : Item} : item ∈ sync.result server ↔
    server.registry.getValue sync.entityType item.id = some item ∧ sync.asks item = true := by
  rw [result, List.mem_filter, StoreRegistry.mem_snapshot]
  refine and_congr_left fun _ => ⟨?_, fun stored => ?_⟩
  · rintro ⟨typed, stored⟩
    rw [← typed]
    exact stored
  · exact ⟨(StoreRegistry.getValue_keyed stored).1, StoreRegistry.canonicalItem_of_getValue stored⟩

theorem result_unique (sync : EntityStoreSync) (server : ServerState) : ((sync.result server).map Item.id).Nodup :=
  (StoreRegistry.snapshot_nodup_ids _ _).sublist (List.filter_sublist.map _)

theorem result_of_same {other : ServerState}
    (same : ∀ id, server.registry.getValue sync.entityType id = other.registry.getValue sync.entityType id) :
    sync.result server = sync.result other := by
  have stores : server.registry.store sync.entityType = other.registry.store sync.entityType := OrdMap.ext same
  rw [result, result, StoreRegistry.snapshot, StoreRegistry.snapshot, stores]

theorem mem_reconcile {localItems remote : OrdMap String Item} {change : Change} :
    change ∈ sync.reconcile localItems remote ↔
      (∃ (id : String) (item : Item), localItems[id]? = some item ∧ change = ⟨.set, item⟩ ∧
        (remote[id]?).all (fun other => !sync.itemsEqual item other) = true) ∨
      sync.deleteStaleRemote = true ∧ ∃ (id : String) (item : Item), remote[id]? = some item ∧ localItems[id]? = none ∧
        change = ⟨.del, item⟩ := by
  have absent : ∀ id : String, localItems.contains id = false ↔ localItems[id]? = none := by
    intro id
    simp [← Std.ExtTreeMap.isSome_getElem?_eq_contains]
  rw [reconcile, List.mem_append]
  refine or_congr ?_ ?_
  · rw [List.mem_filterMap]
    constructor
    · rintro ⟨⟨id, item⟩, listed, made⟩
      split at made
      · rename_i differs
        cases made
        exact ⟨id, item, OrdMap.mem_toList.mp listed, rfl, differs⟩
      · cases made
    · rintro ⟨id, item, indexed, rfl, differs⟩
      exact ⟨(id, item), OrdMap.mem_toList.mpr indexed, if_pos differs⟩
  · cases sync.deleteStaleRemote with
    | false => simp
    | true =>
      simp only [↓reduceIte, true_and, List.mem_filterMap]
      constructor
      · rintro ⟨⟨id, item⟩, listed, made⟩
        split at made
        · cases made
        · rename_i stale
          cases made
          exact ⟨id, item, OrdMap.mem_toList.mp listed, (absent id).mp (Bool.eq_false_iff.mpr stale), rfl⟩
      · rintro ⟨id, item, indexed, stale, rfl⟩
        exact ⟨(id, item), OrdMap.mem_toList.mpr indexed, by simp [(absent id).mpr stale]⟩

/-! ### What the server does with a batch -/

/-- The server once it has applied the events. -/
def taken (sync : EntityStoreSync) (events : List Change) (server : ServerState) : ServerState :=
  final ((Call.applyEventBatch (events.map sync.received)).run sync.ctx) server

/-- What the change leaves on the server under its id. -/
def left (sync : EntityStoreSync) (change : Change) : Option Item :=
  (sync.stored change).bind fun item => Change.value ⟨change.kind, item⟩

theorem left_set (item : Item) : sync.left ⟨.set, item⟩ = sync.stored ⟨.set, item⟩ := by
  simp [left, Change.value]

theorem left_del (item : Item) : sync.left ⟨.del, item⟩ = none := by
  simp [left, Change.value]

theorem Fit.typed {change : Change} (fit : sync.Fit change) : change.item.entityType = sync.entityType := by
  obtain ⟨kind, item⟩ := change
  cases kind with
  | set => exact Legible.typed fit
  | del => exact Deletable.typed fit

theorem Fit.read {change : Change} (fit : sync.Fit change) :
    ∃ item, sync.stored change = some item ∧ item.id = change.item.id := by
  obtain ⟨kind, item⟩ := change
  cases kind with
  | set =>
    obtain ⟨kept, read, same, -⟩ := Legible.read fit
    exact ⟨kept, read, same⟩
  | del => exact Deletable.read fit

section
variable (serves : sync.Serves)
include serves

theorem received_type {change : Change} (typed : change.item.entityType = sync.entityType) :
    (sync.received change).itemType = sync.entityType := by
  have named : hasNul (sync.format.row "" 0 change).itemType = false := by
    show hasNul change.item.entityType = false
    rw [typed]
    exact serves.named
  exact (sync.format.ingest_itemType named).trans typed

theorem stored_type {change : Change} (typed : change.item.entityType = sync.entityType) {item : Item}
    (read : sync.stored change = some item) : item.entityType = sync.entityType :=
  (sync.ctx.parser_type _ _ _ read).trans (received_type serves typed)

omit serves in
theorem mem_writes {write : Change} : write ∈ eventWrites sync.ctx (events.map sync.received) ↔
    ∃ change ∈ events, sync.stored change = some write.item ∧ change.kind = write.kind := by
  have parsed : ∀ kind item, item ∈ parsedItems sync.ctx (events.map sync.received) kind ↔
      ∃ change ∈ events, sync.stored change = some item ∧ change.kind = kind := by
    intro kind item
    rw [parsedItems, List.mem_filterMap]
    constructor
    · rintro ⟨event, among, read⟩
      obtain ⟨present, same⟩ := List.mem_filter.mp among
      obtain ⟨change, listed, rfl⟩ := List.mem_map.mp present
      have same : (sync.received change).changeType = kind := of_decide_eq_true same
      rw [received, Postgres.WireFormat.ingest_kind] at same
      exact ⟨change, listed, read, same⟩
    · rintro ⟨change, listed, read, rfl⟩
      refine ⟨sync.received change, List.mem_filter.mpr ⟨List.mem_map_of_mem listed, decide_eq_true ?_⟩, read⟩
      rw [received, Postgres.WireFormat.ingest_kind]
      rfl
  obtain ⟨kind, item⟩ := write
  rw [eventWrites, List.mem_append]
  cases kind <;> simp [parsed]

variable (fit : ∀ change ∈ events, sync.Fit change) (outside : server.causal = none)
include fit outside

theorem taken_registry : (sync.taken events server).registry =
    server.registry.writeAll (eventWrites sync.ctx (events.map sync.received)) := by
  have typed : ∀ event ∈ events.map sync.received, event.itemType = sync.entityType := by
    intro event among
    obtain ⟨change, listed, rfl⟩ := List.mem_map.mp among
    exact received_type serves (fit change listed).typed
  refine batch_simple (fun event among => ?_) (fun event among => ?_) outside
  · rw [typed event among]
    exact serves.simple
  · rw [typed event among]
    exact serves.atOnce

/-- What stands under an id is what an event for it left there, or what stood there before if there is none. -/
theorem taken_value (id : String) :
    (∃ change ∈ events, change.item.id = id ∧
      (sync.taken events server).registry.getValue sync.entityType id = sync.left change) ∨
    (∀ change ∈ events, change.item.id ≠ id) ∧ (sync.taken events server).registry.getValue sync.entityType id =
      server.registry.getValue sync.entityType id := by
  rw [taken_registry serves fit outside]
  rcases StoreRegistry.getValue_writeAll_cases server.registry (eventWrites sync.ctx (events.map sync.received))
    sync.entityType id with ⟨write, among, here, value⟩ | ⟨none, value⟩
  · obtain ⟨change, listed, read, kind⟩ := mem_writes.mp among
    obtain ⟨item, same, id⟩ := (fit change listed).read
    obtain rfl := Option.some.inj (read.symm.trans same)
    refine .inl ⟨change, listed, id.symm.trans (congrArg Prod.snd here), ?_⟩
    rw [value, left, read, kind]
    rfl
  · refine .inr ⟨fun change listed same => ?_, value⟩
    obtain ⟨item, read, id⟩ := (fit change listed).read
    refine none ⟨change.kind, item⟩ (mem_writes.mpr ⟨change, listed, read, rfl⟩) ?_
    rw [Change.key, stored_type serves (fit change listed).typed read, id, same]

/-- What the server shows can still be deleted. -/
theorem taken_deletable (shows : ∀ item ∈ sync.result server, sync.Deletable item) :
    ∀ item ∈ sync.result (sync.taken events server), sync.Deletable item := by
  intro item among
  obtain ⟨stored, asked⟩ := mem_result.mp among
  rcases taken_value serves fit outside item.id with ⟨change, listed, -, value⟩ | ⟨-, value⟩
  · rw [value] at stored
    have fits := fit change listed
    obtain ⟨kind, item⟩ := change
    cases kind with
    | set =>
      obtain ⟨kept, read, -, -, -, deletable⟩ := Legible.read fits
      rw [left_set] at stored
      obtain rfl := Option.some.inj (read.symm.trans stored)
      exact deletable
    | del =>
      rw [left_del] at stored
      cases stored
  · exact shows item (mem_result.mpr ⟨value ▸ stored, asked⟩)

end

/-! ### What the client sends -/

/-- Events that can only bring the server closer to these local items. -/
def Current (sync : EntityStoreSync) (localItems : List Item) (events : List Change) : Prop :=
  ∀ change ∈ events, sync.Fit change ∧ (indexItems localItems)[change.item.id]? =
    match change.kind with
    | .set => some change.item
    | .del => none

/-- With nothing to send, the two agree. -/
theorem agrees_of_none (known : s.remoteItems = sync.result s.server) (none : sync.events s = []) :
    sync.Agrees s := by
  have nothing : ∀ change, change ∉ sync.events s := by simp [none]
  refine ⟨known, fun id item indexed => ?_, fun deletes remote among => ?_⟩
  · by_contra missing
    refine nothing ⟨.set, item⟩ (mem_reconcile.mpr (.inl ⟨id, item, indexed, rfl, ?_⟩))
    cases there : (indexItems s.remoteItems)[id]? with
    | none => rfl
    | some remote =>
      obtain ⟨listed, same⟩ := of_indexed there
      cases equal : sync.itemsEqual item remote with
      | false => simp [equal]
      | true => exact absurd ⟨remote, known ▸ listed, same, equal⟩ missing
  · by_contra stale
    refine nothing ⟨.del, remote⟩ (mem_reconcile.mpr (.inr ⟨deletes, remote.id, remote, ?_, ?_, rfl⟩))
    · rw [known]
      exact indexed_unique (result_unique sync s.server) among
    · exact none_indexed.mpr fun item listed same => stale ⟨item, listed, same⟩

section
variable (legible : ∀ item ∈ s.localItems, sync.Legible item)
include legible

theorem events_current (deletable : ∀ item ∈ s.remoteItems, sync.Deletable item) :
    sync.Current s.localItems (sync.events s) := by
  intro change among
  rcases mem_reconcile.mp among with ⟨id, item, indexed, rfl, -⟩ | ⟨-, id, item, indexed, stale, rfl⟩
  · obtain ⟨listed, rfl⟩ := of_indexed indexed
    exact ⟨legible item listed, indexed⟩
  · obtain ⟨listed, rfl⟩ := of_indexed indexed
    exact ⟨deletable item listed, stale⟩

variable (serves : sync.Serves) (outside : server.causal = none)
include serves outside

/-- What is sent for what the server still shows does change what it shows. -/
theorem events_move (deletable : ∀ item ∈ s.remoteItems, sync.Deletable item)
    (known : s.remoteItems = sync.result server) (some : sync.events s ≠ []) :
    sync.result (sync.taken (sync.events s) server) ≠ sync.result server := by
  intro same
  have current := events_current legible deletable
  have value : ∀ change ∈ sync.events s, ∃ other ∈ sync.events s, other.item.id = change.item.id ∧
      (sync.taken (sync.events s) server).registry.getValue sync.entityType change.item.id = sync.left other := by
    intro change among
    rcases taken_value serves (fun change among => (current change among).1) outside change.item.id with
      wrote | ⟨none, -⟩
    · exact wrote
    · exact absurd rfl (none change among)
  obtain ⟨change, among⟩ := List.exists_mem_of_ne_nil _ some
  obtain ⟨other, also, id, value⟩ := value change among
  have held := (current other also).2
  rw [id] at held
  rcases mem_reconcile.mp among with ⟨_, item, indexed, rfl, differs⟩ | ⟨-, _, item, indexed, stale, rfl⟩
  · obtain ⟨listed, rfl⟩ := of_indexed indexed
    obtain ⟨kept, read, kept_id, asked, equal, -⟩ := (legible item listed).read
    have there : kept ∈ sync.result server := by
      rw [← same]
      refine mem_result.mpr ⟨?_, asked⟩
      rw [kept_id, value]
      obtain ⟨kind, item⟩ := other
      cases kind with
      | set =>
        obtain rfl := Option.some.inj (indexed.symm.trans held)
        rw [left_set]
        exact read
      | del => exact absurd (indexed.symm.trans held) (by simp)
    have found : (indexItems s.remoteItems)[item.id]? = Option.some kept := by
      rw [known, ← kept_id]
      exact indexed_unique (result_unique sync server) there
    rw [found] at differs
    simp [equal] at differs
  · obtain ⟨listed, rfl⟩ := of_indexed indexed
    rw [known, ← same] at listed
    obtain ⟨stored, -⟩ := mem_result.mp listed
    rw [value] at stored
    obtain ⟨kind, item⟩ := other
    cases kind with
    | set => exact absurd (stale.symm.trans held) (by simp)
    | del =>
      rw [left_del] at stored
      cases stored

end

/-! ### Steps -/

/-- What is in flight can be read, what the server shows can be deleted, and the client is told of all of it. -/
structure Sound (sync : EntityStoreSync) (s : SyncState) : Prop where
  outside : s.server.causal = none
  legible : ∀ item ∈ s.localItems, sync.Legible item
  fit : ∀ events, .eventBatch events ∈ s.uplink → ∀ change ∈ events, sync.Fit change
  deletable : ∀ items ∈ sync.result s.server :: s.remoteItems :: s.responses, ∀ item ∈ items, sync.Deletable item
  joins : s.link = .joining → .query ∈ s.uplink
  latest : s.link = .live → s.responses.getLast?.getD s.remoteItems = sync.result s.server

/-- As long as the client would send something, something is on its way. -/
structure Inv (sync : EntityStoreSync) (s : SyncState) : Prop extends Sound sync s where
  pending : sync.events s = [] ∨ .eventBatch (sync.events s) ∈ s.uplink ∨ s.link ≠ .live ∨ s.responses ≠ []

theorem inv_start (sync : EntityStoreSync) : sync.Inv start where
  outside := rfl
  legible := by simp [start]
  fit := by simp [start]
  deletable := by
    simp [start, result, ServerState.initial, StoreRegistry.snapshot, StoreRegistry.empty]
  joins link := by cases link
  latest link := by cases link
  pending := .inr (.inr (.inl (by simp [start])))

theorem inv_syncOnce (sound : sync.Sound s) : sync.Inv (sync.syncOnce s) := by
  unfold syncOnce
  split
  · rename_i none
    exact ⟨sound, .inl (List.isEmpty_iff.mp none)⟩
  · refine ⟨⟨sound.outside, sound.legible, fun events among => ?_, sound.deletable, fun joining => ?_, sound.latest⟩,
      .inr (.inl (List.mem_append_right _ List.mem_cons_self))⟩
    · rcases List.mem_append.mp among with before | last
      · exact sound.fit events before
      · obtain ⟨⟩ := List.mem_singleton.mp last
        have current := events_current sound.legible fun item listed =>
          sound.deletable _ (List.mem_cons_of_mem _ List.mem_cons_self) item listed
        exact fun change among => (current change among).1
    · exact List.mem_append_left _ (sound.joins joining)

theorem told_last {before after default : List Item} {responses shown : List (List Item)}
    (known : responses.getLast?.getD default = before) :
    (responses ++ told before after shown).getLast?.getD default = after := by
  unfold told
  split
  · rename_i same
    rw [List.getLast?_append]
    cases last : shown.getLast? with
    | none =>
      rw [last] at same
      exact known.trans same
    | some items =>
      rw [last] at same
      exact same
  · rw [← List.append_assoc, List.getLast?_concat]
    rfl

theorem told_some {before after : List Item} (changed : after ≠ before) (shown : List (List Item)) :
    told before after shown ≠ [] := by
  intro none
  unfold told at none
  split at none
  · rename_i same
    rw [none] at same
    exact changed same.symm
  · simp at none

theorem sound_answer (sound : sync.Sound s) {shown : List (List Item)} (outside : server.causal = none)
    (deletable : ∀ items ∈ sync.result server :: shown, ∀ item ∈ items, sync.Deletable item) :
    sync.Sound (sync.answer s server shown) where
  outside := outside
  legible := sound.legible
  fit := sound.fit
  deletable := by
    intro items among
    have shows : items = sync.result server ∨ items ∈ shown → ∀ item ∈ items, sync.Deletable item := by
      rintro (rfl | listed)
      · exact deletable _ List.mem_cons_self
      · exact deletable items (List.mem_cons_of_mem _ listed)
    rcases List.mem_cons.mp among with rfl | among
    · exact shows (.inl rfl)
    rcases List.mem_cons.mp among with rfl | among
    · exact sound.deletable _ (List.mem_cons_of_mem _ List.mem_cons_self)
    have among : items ∈ if s.link = .live then s.responses ++ told (sync.result s.server) (sync.result server) shown
      else s.responses := among
    split at among
    · rcases List.mem_append.mp among with before | now
      · exact sound.deletable items (List.mem_cons_of_mem _ (List.mem_cons_of_mem _ before))
      · unfold told at now
        split at now
        · exact shows (.inr now)
        · rcases List.mem_append.mp now with listed | last
          · exact shows (.inr listed)
          · exact shows (.inl (List.mem_singleton.mp last))
    · exact sound.deletable items (List.mem_cons_of_mem _ (List.mem_cons_of_mem _ among))
  joins := sound.joins
  latest live := by
    have live : s.link = .live := live
    show (if s.link = .live then _ else _ : List (List Item)).getLast?.getD s.remoteItems = sync.result server
    rw [if_pos live]
    exact told_last (sound.latest live)

theorem receive_cases (stepped : sync.step s .receive = some t) : ∃ items rest, s.responses = items :: rest ∧
    t = sync.syncOnce { s with remoteItems := items, responses := rest } := by
  rw [step] at stepped
  split at stepped
  · cases stepped
  · rename_i items rest waiting
    cases stepped
    exact ⟨items, rest, waiting, rfl⟩

theorem sound_receive (sound : sync.Sound s) {items : List Item} {rest : List (List Item)}
    (waiting : s.responses = items :: rest) : sync.Sound { s with remoteItems := items, responses := rest } := by
  refine ⟨sound.outside, sound.legible, sound.fit, fun other among => sound.deletable other ?_, sound.joins,
    fun live => ?_⟩
  · rw [waiting]
    rcases List.mem_cons.mp among with rfl | among
    · exact List.mem_cons_self
    · exact List.mem_cons_of_mem _ (List.mem_cons_of_mem _ among)
  · have latest := sound.latest live
    rw [waiting, List.getLast?_cons] at latest
    exact latest

theorem take_cases {shown : List (List Item)} (stepped : sync.step s (.take shown) = some t) :
    ∃ frame rest, s.uplink = frame :: rest ∧
      (frame = .query ∧
          t = { s with uplink := rest, link := .live, responses := s.responses ++ [sync.result s.server] } ∨
        ∃ events, frame = .eventBatch events ∧ t = sync.answer { s with uplink := rest } (sync.taken events s.server)
          (if sync.result (sync.taken events s.server) = sync.result s.server then [] else shown)) := by
  rw [step] at stepped
  split at stepped
  · cases stepped
  · rename_i frame rest waiting
    split at stepped
    · cases stepped
    · cases frame with
      | query =>
        cases stepped
        exact ⟨.query, rest, waiting, .inl ⟨rfl, rfl⟩⟩
      | eventBatch events =>
        cases stepped
        exact ⟨.eventBatch events, rest, waiting, .inr ⟨events, rfl, rfl⟩⟩

section
variable (serves : sync.Serves)
include serves

/-- The server shows something new for the events that the client is waiting for. -/
theorem answer_pending (inv : sync.Inv s) {events : List Change} {rest : List Uplink}
    (waiting : s.uplink = .eventBatch events :: rest) (shown : List (List Item)) :
    sync.events s = [] ∨ .eventBatch (sync.events s) ∈ rest ∨ s.link ≠ .live ∨
      (sync.answer { s with uplink := rest } (sync.taken events s.server) shown).responses ≠ [] := by
  rcases inv.pending with none | sent | apart | coming
  · exact .inl none
  · rw [waiting] at sent
    rcases List.mem_cons.mp sent with same | later
    · cases same
      by_cases idle : sync.events s = [] ∨ s.link ≠ .live ∨ s.responses ≠ []
      · rcases idle with none | apart | coming
        · exact .inl none
        · exact .inr (.inr (.inl apart))
        · refine .inr (.inr (.inr ?_))
          unfold answer
          split <;> simp [coming]
      · simp only [not_or, not_not] at idle
        obtain ⟨some, live, none⟩ := idle
        have known := inv.latest live
        rw [none] at known
        have moves := events_move inv.legible serves inv.outside (fun item listed =>
          inv.deletable _ (List.mem_cons_of_mem _ List.mem_cons_self) item listed) known some
        refine .inr (.inr (.inr ?_))
        show (if s.link = .live then _ else _ : List (List Item)) ≠ []
        rw [if_pos live]
        exact List.append_ne_nil_of_right_ne_nil _ (told_some moves _)
    · exact .inr (.inl later)
  · exact .inr (.inr (.inl apart))
  · refine .inr (.inr (.inr ?_))
    unfold answer
    split <;> simp [coming]

theorem inv_take (inv : sync.Inv s) {shown : List (List Item)}
    (deletable : ∀ items ∈ shown, ∀ item ∈ items, sync.Deletable item)
    (stepped : sync.step s (.take shown) = some t) : sync.Inv t := by
  obtain ⟨frame, rest, waiting, took⟩ := take_cases stepped
  have fit : ∀ events, .eventBatch events ∈ rest → ∀ change ∈ events, sync.Fit change := fun events among =>
    inv.fit events (waiting ▸ List.mem_cons_of_mem _ among)
  rcases took with ⟨-, rfl⟩ | ⟨events, rfl, rfl⟩
  · refine ⟨⟨inv.outside, inv.legible, fit, fun items among => ?_, (fun joining => nomatch joining), fun _ => ?_⟩,
      .inr (.inr (.inr (by simp)))⟩
    · refine inv.deletable items ?_
      rcases List.mem_cons.mp among with rfl | among
      · exact List.mem_cons_self
      rcases List.mem_cons.mp among with rfl | among
      · exact List.mem_cons_of_mem _ List.mem_cons_self
      rcases List.mem_append.mp among with before | last
      · exact List.mem_cons_of_mem _ (List.mem_cons_of_mem _ before)
      · rw [List.mem_singleton.mp last]
        exact List.mem_cons_self
    · rw [List.getLast?_concat]
      rfl
  · have fits := inv.fit events (waiting ▸ List.mem_cons_self)
    have sound : sync.Sound { s with uplink := rest } := by
      refine ⟨inv.outside, inv.legible, fit, inv.deletable, fun joining => ?_, inv.latest⟩
      have there := inv.joins joining
      rw [waiting] at there
      exact (List.mem_cons.mp there).resolve_left (by simp)
    refine ⟨sound_answer sound (call_outside inv.outside _) fun items among => ?_, ?_⟩
    · rcases List.mem_cons.mp among with rfl | among
      · exact taken_deletable serves fits inv.outside (inv.deletable _ List.mem_cons_self)
      · split at among
        · cases among
        · exact deletable items among
    · exact answer_pending serves inv waiting _

theorem inv_step (inv : sync.Inv s) {event : SyncEvent} (allowed : sync.Allowed s event)
    (stepped : sync.step s event = some t) : sync.Inv t := by
  cases event with
  | localChanges items =>
    cases stepped
    exact inv_syncOnce ⟨inv.outside, allowed, inv.fit, inv.deletable, inv.joins, inv.latest⟩
  | receive =>
    obtain ⟨items, rest, waiting, rfl⟩ := receive_cases stepped
    exact inv_syncOnce (sound_receive inv.toSound waiting)
  | take shown => exact inv_take serves inv allowed stepped
  | call call shown =>
    cases stepped
    refine ⟨sound_answer inv.toSound (call_outside inv.outside call) allowed, ?_⟩
    rcases inv.pending with none | sent | apart | coming
    · exact .inl none
    · exact .inr (.inl sent)
    · exact .inr (.inr (.inl apart))
    · refine .inr (.inr (.inr ?_))
      show (if s.link = .live then s.responses ++ _ else s.responses) ≠ []
      split <;> simp [coming]
  | disconnect kept =>
    rw [step] at stepped
    split at stepped
    · rename_i among
      cases stepped
      refine ⟨⟨inv.outside, inv.legible, fun events listed => ?_, fun items listed => ?_, (fun joining => nomatch joining),
        (fun live => nomatch live)⟩, .inr (.inr (.inl (by simp)))⟩
      · obtain ⟨batch, there, same⟩ := List.mem_map.mp listed
        cases same
        obtain ⟨frame, sent, same⟩ := List.mem_filterMap.mp (among.subset there)
        cases frame with
        | query => cases same
        | eventBatch batch =>
          cases same
          exact inv.fit _ sent
      · refine inv.deletable items ?_
        rcases List.mem_cons.mp listed with rfl | listed
        · exact List.mem_cons_self
        · rw [List.mem_singleton.mp listed]
          exact List.mem_cons_of_mem _ List.mem_cons_self
    · cases stepped
  | connect position =>
    rw [step] at stepped
    split at stepped
    · cases stepped
      have inside : min position s.uplink.length ≤ s.uplink.length := Nat.min_le_right _ _
      refine ⟨⟨inv.outside, inv.legible, fun events listed => ?_, inv.deletable, fun _ => ?_, (fun live => nomatch live)⟩,
        .inr (.inr (.inl (by simp)))⟩
      · rcases (List.mem_insertIdx inside).mp listed with same | before
        · cases same
        · exact inv.fit events before
      · exact (List.mem_insertIdx inside).mpr (.inl rfl)
    · cases stepped

end

/-! ### Deliveries end -/

/-- The client or the server handles what is on its way to it, and nothing else happens. -/
def Delivers (sync : EntityStoreSync) (s t : SyncState) : Prop :=
  ∃ event, event.isDelivery = true ∧ sync.Allowed s event ∧ sync.step s event = some t

/-- What the server would hold if it had taken all local items and nothing else. -/
def target (sync : EntityStoreSync) (localItems : List Item) (id : String) : Option Item :=
  (indexItems localItems)[id]?.bind fun item => sync.stored ⟨.set, item⟩

/-- The ids that still have something else on the server. -/
def astray (sync : EntityStoreSync) (localItems : List Item) (server : ServerState) : Set String :=
  {id | server.registry.getValue sync.entityType id ≠ sync.target localItems id}

theorem astray_finite (sync : EntityStoreSync) (localItems : List Item) (server : ServerState) :
    (sync.astray localItems server).Finite := by
  let stored := (server.registry.snapshot sync.entityType).map Item.id
  let wanted := localItems.map Item.id
  refine (stored ++ wanted).finite_toSet.subset fun id away => ?_
  by_contra absent
  have absent : id ∉ stored ∧ id ∉ wanted := by simpa using absent
  refine away ?_
  have none : (indexItems localItems)[id]? = none :=
    none_indexed.mpr fun item listed same => absent.2 (List.mem_map.mpr ⟨item, listed, same⟩)
  rw [target, none]
  cases held : server.registry.getValue sync.entityType id with
  | none => rfl
  | some item =>
    refine absurd (List.mem_map.mpr ⟨item, StoreRegistry.snapshot_of_getValue held, ?_⟩) absent.1
    exact (StoreRegistry.getValue_keyed held).2

section
variable (serves : sync.Serves) {localItems : List Item} (current : sync.Current localItems events)
  (outside : server.causal = none)
include serves current outside

/-- Events for the local items set right every id they write. -/
theorem current_sets (id : String) :
    (sync.taken events server).registry.getValue sync.entityType id = sync.target localItems id ∨
      (sync.taken events server).registry.getValue sync.entityType id =
        server.registry.getValue sync.entityType id := by
  rcases taken_value serves (fun change among => (current change among).1) outside id with
    ⟨change, among, rfl, value⟩ | ⟨-, value⟩
  · left
    have held := (current change among).2
    rw [value, target, held]
    obtain ⟨kind, item⟩ := change
    cases kind with
    | set => exact left_set item
    | del => exact left_del item
  · exact .inr value

theorem current_closer :
    (sync.astray localItems (sync.taken events server)).ncard ≤ (sync.astray localItems server).ncard ∧
      (sync.result (sync.taken events server) ≠ sync.result server →
        (sync.astray localItems (sync.taken events server)).ncard < (sync.astray localItems server).ncard) := by
  have fewer : sync.astray localItems (sync.taken events server) ⊆ sync.astray localItems server := by
    intro id away
    rcases current_sets serves current outside id with right | same
    · exact absurd right away
    · exact fun right => away (same.trans right)
  refine ⟨Set.ncard_le_ncard fewer (astray_finite sync localItems server), fun changed => ?_⟩
  obtain ⟨id, moved⟩ : ∃ id, (sync.taken events server).registry.getValue sync.entityType id ≠
      server.registry.getValue sync.entityType id := by
    by_contra same
    simp only [ne_eq, not_exists, not_not] at same
    exact changed (result_of_same same)
  have right := (current_sets serves current outside id).resolve_right moved
  refine Set.ncard_lt_ncard ⟨fewer, fun all => ?_⟩ (astray_finite sync localItems server)
  exact all (show id ∈ sync.astray localItems server from fun was => moved (right.trans was.symm)) right

end

open Classical in
/-- Events for local items that have changed since. -/
noncomputable def isStale (sync : EntityStoreSync) (localItems : List Item) : Uplink → Bool
  | .query => false
  | .eventBatch events => !decide (sync.Current localItems events)

noncomputable def staleness (sync : EntityStoreSync) (s : SyncState) : Nat :=
  s.uplink.countP (sync.isStale s.localItems)

def Uplink.weight : Uplink → Nat
  | .query => 3
  | .eventBatch _ => 1

def inFlight (s : SyncState) : Nat := 2 * s.responses.length + (s.uplink.map Uplink.weight).sum

/-- What every delivery takes away from. -/
noncomputable def distance (sync : EntityStoreSync) (s : SyncState) : Nat ×ₗ Nat ×ₗ Nat :=
  toLex (sync.staleness s, toLex ((sync.astray s.localItems s.server).ncard, inFlight s))

theorem distance_syncOnce (sound : sync.Sound s) : sync.staleness (sync.syncOnce s) = sync.staleness s ∧
    (sync.syncOnce s).localItems = s.localItems ∧ (sync.syncOnce s).server = s.server ∧
    inFlight (sync.syncOnce s) ≤ inFlight s + 1 := by
  unfold syncOnce
  split
  · exact ⟨rfl, rfl, rfl, Nat.le_succ _⟩
  · refine ⟨?_, rfl, rfl, ?_⟩
    · have current := events_current sound.legible fun item listed =>
        sound.deletable _ (List.mem_cons_of_mem _ List.mem_cons_self) item listed
      simp [staleness, isStale, List.countP_append, current]
    · simp only [inFlight, List.map_append, List.sum_append, List.map_cons, List.map_nil, List.sum_cons, List.sum_nil,
        Uplink.weight]
      omega

theorem distance_take (serves : sync.Serves) (inv : sync.Inv s) {shown : List (List Item)}
    (stepped : sync.step s (.take shown) = some t) : sync.distance t < sync.distance s := by
  obtain ⟨frame, rest, waiting, ⟨rfl, rfl⟩ | ⟨events, rfl, rfl⟩⟩ := take_cases stepped
  · refine Prod.Lex.toLex_lt_toLex.mpr (.inr ⟨?_, Prod.Lex.toLex_lt_toLex.mpr (.inr ⟨rfl, ?_⟩)⟩)
    · simp [staleness, waiting, isStale]
    · simp only [inFlight, waiting, List.length_append, List.length_singleton, List.map_cons, List.sum_cons,
        Uplink.weight]
      omega
  · by_cases current : sync.Current s.localItems events
    · obtain ⟨fewer, moves⟩ := current_closer serves current inv.outside
      refine Prod.Lex.toLex_lt_toLex.mpr (.inr ⟨?_, Prod.Lex.toLex_lt_toLex.mpr ?_⟩)
      · simp [staleness, answer, waiting, isStale, current]
      · by_cases changed : sync.result (sync.taken events s.server) = sync.result s.server
        · rcases Nat.lt_or_eq_of_le fewer with closer | level
          · exact .inl closer
          · refine .inr ⟨level, ?_⟩
            have none : told (sync.result s.server) (sync.result s.server) [] = [] := by simp [told]
            simp only [inFlight, answer, waiting, changed, ↓reduceIte, none, List.append_nil, ite_self, List.map_cons,
              List.sum_cons, Uplink.weight]
            omega
        · exact .inl (moves changed)
    · refine Prod.Lex.toLex_lt_toLex.mpr (.inl ?_)
      simp [staleness, answer, waiting, isStale, current]

theorem distance_lt (serves : sync.Serves) (inv : sync.Inv s) (delivers : sync.Delivers s t) :
    sync.distance t < sync.distance s := by
  obtain ⟨event, delivery, -, stepped⟩ := delivers
  cases event with
  | take shown => exact distance_take serves inv stepped
  | receive =>
    obtain ⟨items, rest, waiting, rfl⟩ := receive_cases stepped
    obtain ⟨stale, localItems, server, less⟩ := distance_syncOnce (sound_receive inv.toSound waiting)
    refine Prod.Lex.toLex_lt_toLex.mpr (.inr ⟨stale, Prod.Lex.toLex_lt_toLex.mpr (.inr ⟨?_, ?_⟩)⟩)
    · rw [localItems, server]
    · refine Nat.lt_of_le_of_lt less ?_
      simp only [inFlight, waiting, List.length_cons]
      omega
  | localChanges items => cases delivery
  | call call shown => cases delivery
  | disconnect kept => cases delivery
  | connect position => cases delivery

theorem deliveries_end (serves : sync.Serves) (inv : sync.Inv s) : Acc (fun t s => sync.Delivers s t) s := by
  generalize far : sync.distance s = distance
  induction distance using WellFoundedLT.induction generalizing s with | ind distance ih =>
  subst far
  refine .intro s fun t delivers => ih _ (distance_lt serves inv delivers) ?_ rfl
  obtain ⟨event, -, allowed, stepped⟩ := delivers
  exact inv_step serves inv allowed stepped

theorem inv_delivered (serves : sync.Serves) (inv : sync.Inv s) (delivered : ReflTransGen sync.Delivers s t) :
    sync.Inv t := by
  induction delivered with
  | refl => exact inv
  | tail _ delivers ih =>
    obtain ⟨event, -, allowed, stepped⟩ := delivers
    exact inv_step serves ih allowed stepped

/-- Where nothing is left to deliver and the connection is up, the two agree. -/
theorem agrees_of_quiet (inv : sync.Inv s) (up : s.link ≠ .down) (quiet : ∀ t, ¬sync.Delivers s t) :
    sync.Agrees s := by
  have responses : s.responses = [] := by
    cases waiting : s.responses with
    | nil => rfl
    | cons items rest =>
      refine absurd ⟨.receive, rfl, trivial, ?_⟩ (quiet (sync.syncOnce { s with remoteItems := items, responses := rest }))
      rw [step, waiting]
  have uplink : s.uplink = [] := by
    cases waiting : s.uplink with
    | nil => rfl
    | cons frame rest =>
      have none : sync.step s (.take []) = none := by
        cases stepped : sync.step s (.take []) with
        | none => rfl
        | some t => exact absurd ⟨.take [], rfl, by simp [Allowed], stepped⟩ (quiet t)
      rw [step, waiting] at none
      cases frame <;> simp [up] at none
  have live : s.link = .live := by
    cases link : s.link with
    | down => exact absurd link up
    | joining =>
      have there := inv.joins link
      rw [uplink] at there
      cases there
    | live => rfl
  have known := inv.latest live
  rw [responses] at known
  refine agrees_of_none known ?_
  rcases inv.pending with none | sent | apart | coming
  · exact none
  · rw [uplink] at sent
    cases sent
  · exact absurd live apart
  · exact absurd responses coming

end EntityStoreSync
end Myko.Client

/-! ### One lamp -/

namespace Myko.Client.SyncSample
open EntityStoreSync

def lamp : Item := ⟨"lamp", "l", []⟩

/-- An item of which nothing but the id is sent. -/
def parse (itemType payload : String) : Option Item := some ⟨itemType, payload, []⟩

theorem parse_type (itemType payload : String) (item : Item) (read : parse itemType payload = some item) :
    item.entityType = itemType := by
  cases read
  rfl

def server : MykoServerContext :=
  { Myko.Sample.server with
    persister := fun _ => none
    parser := parse
    parser_type := parse_type }

def format : Postgres.WireFormat where
  encode value := ((value.get "id").bind Value.asStr).getD ""
  content _ := .null
  createdAt _ := "now"
  tx _ := ""
  fields := ⟨fun _ => none, fun _ => none, fun _ => []⟩

def lamps : EntityStoreSync where
  ctx := server
  format := format
  clientId := "desk"
  entityType := "lamp"
  deleteStaleRemote := true
  itemsEqual a b := a = b
  asks _ := true

def joining : SyncState := { EntityStoreSync.start with uplink := [.query], link := .joining }

def lit : SyncState := lamps.syncOnce { joining with localItems := [lamp] }

theorem lamps_served : lamps.Serves where
  named := by decide
  atOnce := rfl
  simple :=
    { plain := by
        intro item change typed
        show Myko.Sample.schema.coordinates item change = false
        rw [GraphSchema.coordinates, typed]
        cases change <;> rfl
      unrelated := fun change => by cases change <;> rfl
      accepted := fun persist found => by cases found }

theorem lamp_legible : lamps.Legible lamp where
  typed := rfl
  read := ⟨lamp, rfl, rfl, rfl, by decide, rfl, lamp, rfl, rfl⟩

end Myko.Client.SyncSample

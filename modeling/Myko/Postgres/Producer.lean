import Mathlib.Logic.Function.Iterate
import Myko.Lib.Runs
import Myko.Postgres.Convergence
import Myko.Server.Provenance
import Myko.Server.Sample
import Myko.Wire.Event

/-!
The Postgres producer behind a server. It inserts the events handed to the persister in batches and puts a
batch that fails before everything else, so one row that Postgres never accepts keeps all later ones out.
-/

namespace Myko.Postgres
open StateError

/-! ### Rows -/

/-- How items and events read as JSON, and the stamps of the events produced. -/
structure WireFormat where
  encode : Value → String
  content : String → Value
  createdAt : Nat → String
  tx : Nat → String
  fields : AssignedFields

namespace WireFormat

def fieldValue (format : WireFormat) : Field → Value
  | .text value => .string value
  | .optional none => .null
  | .optional (some value) => .string value
  | .ids values => .array (values.map .string)
  | .data content => format.content content

def toValue (format : WireFormat) (item : Item) : Value :=
  .object (("id", .string item.id) :: item.fields.map fun field => (field.1, format.fieldValue field.2))

/-- The event made of the change that is handed over as the `n`-th. -/
def row (format : WireFormat) (hostId : String) (n : Nat) (change : Change) : WireEvent where
  changeType := change.kind
  itemType := change.item.entityType
  createdAt := format.createdAt n
  tx := format.tx n
  sourceId := some hostId
  item := format.toValue change.item

/-- The events handed to the persister so far, which is what the channel has carried. -/
def produced (format : WireFormat) (hostId : String) (offered : List Change) : List WireEvent :=
  offered.mapIdx (format.row hostId)

def received (format : WireFormat) (event : WireEvent) : MEvent :=
  ⟨event.changeType, event.itemType, format.encode event.item⟩

/-- What the server applies of a client's event. -/
def ingest (format : WireFormat) (clientId hostId : String) (event : WireEvent) : MEvent :=
  format.received (format.fields.normalizeIncomingEvent clientId hostId event.sanitizeNullBytes)

theorem ingest_kind (format : WireFormat) (clientId hostId : String) (event : WireEvent) :
    (format.ingest clientId hostId event).changeType = event.changeType := by
  show (format.fields.normalizeIncomingEvent clientId hostId event.sanitizeNullBytes).changeType = _
  unfold AssignedFields.normalizeIncomingEvent
  split <;> rfl

theorem ingest_itemType (format : WireFormat) {clientId hostId : String} {event : WireEvent}
    (named : hasNul event.itemType = false) : (format.ingest clientId hostId event).itemType = event.itemType := by
  show (format.fields.normalizeIncomingEvent clientId hostId event.sanitizeNullBytes).itemType = _
  rw [AssignedFields.normalize_itemType]
  show sanitizeString event.itemType = event.itemType
  simp [sanitizeString, named]

def fieldNulFree (format : WireFormat) (field : String × Field) : Bool :=
  !hasNul field.1 && (format.fieldValue field.2).nulFree

def itemNulFree (format : WireFormat) (item : Item) : Bool :=
  !hasNul item.entityType && !hasNul item.id && item.fields.all format.fieldNulFree

end WireFormat

variable {ctx : MykoServerContext} {format : WireFormat} {item : Item}

theorem itemNulFree_iff : format.itemNulFree item = true ↔
    hasNul item.entityType = false ∧ hasNul item.id = false ∧
      ∀ field ∈ item.fields, format.fieldNulFree field = true := by
  simp [WireFormat.itemNulFree, and_assoc]

theorem nulFree_toValue (free : format.itemNulFree item = true) : (format.toValue item).nulFree = true := by
  obtain ⟨-, identified, fields⟩ := itemNulFree_iff.mp free
  refine nulFree_object.mpr fun entry among => ?_
  rcases List.mem_cons.mp among with rfl | among
  · have named : hasNul "id" = false := by decide
    exact ⟨named, by simpa [Value.nulFree] using identified⟩
  · obtain ⟨field, present, rfl⟩ := List.mem_map.mp among
    simpa [WireFormat.fieldNulFree] using fields field present

theorem mem_assign {name : String} {value : Field} {fields : List (String × Field)} {field : String × Field}
    (among : field ∈ Item.assign name value fields) : field = (name, value) ∨ field ∈ fields := by
  induction fields with
  | nil => exact .inl (List.mem_singleton.mp among)
  | cons first rest ih =>
    unfold Item.assign at among
    split at among
    · exact (List.mem_cons.mp among).imp_right (List.mem_cons_of_mem _)
    · rcases List.mem_cons.mp among with rfl | among
      · exact .inr List.mem_cons_self
      · exact (ih among).imp_right (List.mem_cons_of_mem _)

theorem itemNulFree_setField {name : String} {value : Field} (named : hasNul name = false)
    (fine : (format.fieldValue value).nulFree = true) (free : format.itemNulFree item = true) :
    format.itemNulFree (item.setField name value) = true := by
  obtain ⟨typed, identified, fields⟩ := itemNulFree_iff.mp free
  refine itemNulFree_iff.mpr ⟨typed, identified, fun field among => ?_⟩
  rcases mem_assign among with rfl | among
  · simp [WireFormat.fieldNulFree, named, fine]
  · exact fields field among

/-! ### What is derived from clean items is clean -/

/-- The types whose items are handed to the persister, and the ones entities are ensured for. -/
def Persisted (ctx : MykoServerContext) (entityType : String) : Prop :=
  (ctx.persister entityType).isSome ∨ ctx.tables.ensureForBy entityType ≠ []

def Clean (ctx : MykoServerContext) (format : WireFormat) (item : Item) : Prop :=
  Persisted ctx item.entityType → format.itemNulFree item = true

/-- The server runs with its producer thread up; what it adds to items and events of its own (ids, stamps,
names of types and fields, defaults of ensured entities) and what its parsers make of a NUL-free value has
no NUL. -/
structure Deployed (ctx : MykoServerContext) (format : WireFormat) : Prop where
  persists : ∀ {entityType persist}, ctx.persister entityType = some persist →
    ∀ offered change, persist offered change = .ok ()
  hostId : hasNul ctx.hostId = false
  uuid : ∀ n, hasNul (ctx.uuid n) = false
  createdAt : ∀ n, hasNul (format.createdAt n) = false
  tx : ∀ n, hasNul (format.tx n) = false
  fields : format.fields.NulFree
  serverOwned : ∀ {entityType field}, ctx.serverOwnedField entityType = some field → hasNul field = false
  ensured : ∀ {entityType lookup}, lookup ∈ ctx.tables.ensureForBy entityType →
    hasNul lookup.localType = false ∧ (∀ dependency ∈ lookup.dependencies, hasNul dependency.2 = false) ∧
      (∀ field ∈ lookup.blank ++ lookup.defaults, format.fieldNulFree field = true)
  parses : ∀ {itemType value item}, hasNul itemType = false → value.nulFree = true →
    ctx.parser itemType (format.encode value) = some item → format.itemNulFree item = true

theorem ensured_dependencies (relations : List Relation) (tables : RelationshipTables)
    (before : ∀ entry ∈ tables.ensureForByDependency, ∀ dependency ∈ entry.2.dependencies,
      (dependency.1, entry.2) ∈ tables.ensureForByDependency) :
    ∀ entry ∈ (relations.foldl RelationshipTables.register tables).ensureForByDependency,
      ∀ dependency ∈ entry.2.dependencies,
        (dependency.1, entry.2) ∈ (relations.foldl RelationshipTables.register tables).ensureForByDependency := by
  induction relations generalizing tables with
  | nil => exact before
  | cons relation rest ih =>
    refine ih _ ?_
    cases relation with
    | belongsTo key => exact before
    | ownsMany lookup => exact before
    | ensureFor lookup =>
      intro entry among dependency known
      rcases List.mem_append.mp among with among | among
      · exact List.mem_append_left _ (before entry among dependency known)
      · obtain ⟨foreignType, -, rfl⟩ := List.mem_map.mp among
        refine List.mem_append_right _ (List.mem_map.mpr ⟨dependency.1, ?_, rfl⟩)
        exact List.mem_eraseDups.mpr (List.mem_map_of_mem known)

theorem persisted_dependency {entityType : String} {lookup : EnsureForLookup} {dependency : String × String}
    (listed : lookup ∈ ctx.tables.ensureForBy entityType) (known : dependency ∈ lookup.dependencies) :
    Persisted ctx dependency.1 := by
  obtain ⟨entry, present, rfl⟩ := List.mem_map.mp listed
  have declared := ensured_dependencies ctx.relations .empty (fun _ among => nomatch among) entry
    (List.mem_filter.mp present).1 dependency known
  refine .inr (List.ne_nil_of_mem (a := entry.2) (List.mem_map.mpr ⟨_, List.mem_filter.mpr ⟨declared, ?_⟩, rfl⟩))
  exact decide_eq_true rfl

theorem itemNulFree_makeEntity (deployed : Deployed ctx format) {entityType id : String}
    {lookup : EnsureForLookup} {combo : List String} (listed : lookup ∈ ctx.tables.ensureForBy entityType)
    (identified : hasNul id = false) (ids : ∀ id ∈ combo, hasNul id = false) :
    format.itemNulFree (lookup.makeEntity id combo) = true := by
  obtain ⟨typed, named, defaults⟩ := deployed.ensured listed
  have assigned : ∀ (values : List (String × Field)) (entity : Item),
      (∀ field ∈ values, format.fieldNulFree field = true) → format.itemNulFree entity = true →
      format.itemNulFree (values.foldl (fun entity value => entity.setField value.1 value.2) entity) = true := by
    intro values
    induction values with
    | nil => exact fun _ _ free => free
    | cons value rest ih =>
      intro entity fine free
      have first : hasNul value.1 = false ∧ (format.fieldValue value.2).nulFree = true := by
        simpa [WireFormat.fieldNulFree] using fine value List.mem_cons_self
      exact ih _ (fun field among => fine field (List.mem_cons_of_mem _ among))
        (itemNulFree_setField first.1 first.2 free)
  have keyed : ∀ (keys : List (ForeignKey × String)) (entity : Item),
      (∀ key ∈ keys, hasNul key.1.field = false ∧ hasNul key.2 = false) → format.itemNulFree entity = true →
      format.itemNulFree (keys.foldl (fun entity key => entity.setField key.1.field (.text key.2)) entity) =
        true := by
    intro keys
    induction keys with
    | nil => exact fun _ _ free => free
    | cons key rest ih =>
      intro entity fine free
      obtain ⟨field, id⟩ := fine key List.mem_cons_self
      refine ih _ (fun other among => fine other (List.mem_cons_of_mem _ among)) (itemNulFree_setField field ?_ free)
      simpa [WireFormat.fieldValue, Value.nulFree] using id
  refine assigned _ _ (fun field among => defaults field (List.mem_append_right _ among)) (keyed _ _ ?_ ?_)
  · intro key among
    obtain ⟨known, id⟩ := List.of_mem_zip among
    obtain ⟨dependency, present, same⟩ := List.mem_map.mp known
    rw [← same]
    exact ⟨named dependency present, ids _ id⟩
  · exact itemNulFree_iff.mpr ⟨typed, identified, fun field among => defaults field (List.mem_append_left _ among)⟩

theorem itemNulFree_bakeServerOwner (deployed : Deployed ctx format) (free : format.itemNulFree item = true) :
    format.itemNulFree (bakeServerOwner ctx item) = true := by
  unfold bakeServerOwner
  split
  · exact free
  · rename_i field known
    split
    · refine itemNulFree_setField (deployed.serverOwned known) ?_ free
      simpa [WireFormat.fieldValue, Value.nulFree] using deployed.hostId
    · exact free

theorem inherited_clean (deployed : Deployed ctx format) : Inherited ctx (Clean ctx format) where
  loses {lookup parent item id} removed clean := by
    obtain ⟨ids, extracted, rfl⟩ := Option.map_eq_some_iff.mp removed
    intro persisted
    have free := clean persisted
    obtain ⟨-, -, fields⟩ := itemNulFree_iff.mp free
    obtain ⟨name, present⟩ : ∃ name, (name, Field.ids ids) ∈ parent.fields ∧ name = lookup.field := by
      unfold OwnsManyLookup.extractIds at extracted
      split at extracted
      · split at extracted
        · rename_i found
          cases extracted
          obtain ⟨entry, among, value⟩ := Option.map_eq_some_iff.mp found
          refine ⟨entry.1, ?_, by simpa using List.find?_some among⟩
          rw [← value]
          exact List.mem_of_find?_eq_some among
        · cases extracted
      · cases extracted
    have fine := fields _ present.1
    rw [present.2] at fine
    have listed : hasNul lookup.field = false ∧ itemsNulFree (ids.map .string) = true := by
      simpa [WireFormat.fieldNulFree, WireFormat.fieldValue, Value.nulFree] using fine
    refine itemNulFree_setField listed.1 ?_ free
    show itemsNulFree _ = true
    refine itemsNulFree_iff.mpr fun value among => ?_
    obtain ⟨kept, member, rfl⟩ := List.mem_map.mp among
    exact itemsNulFree_iff.mp listed.2 _ (List.mem_map_of_mem (List.mem_filter.mp member).1)
  ensured {entityType lookup combo} n listed dependencies _ := by
    refine itemNulFree_bakeServerOwner deployed (itemNulFree_makeEntity deployed listed (deployed.uuid n) ?_)
    intro id among
    obtain ⟨dependency, known, item, clean, typed, rfl⟩ := dependencies id among
    refine (itemNulFree_iff.mp (clean ?_)).2.1
    rw [typed]
    exact persisted_dependency listed known

/-! ### The producer loop -/

/-- The loop's thread: how many events it has taken from the channel, the batch it retries, and the rows in
the table. -/
structure Producer where
  taken : Nat
  retryBatch : List WireEvent
  log : List WireEvent

namespace Producer

def start : Producer := ⟨0, [], []⟩

def batch (channel : List WireEvent) (producer : Producer) : List WireEvent :=
  producer.retryBatch ++
    (channel.drop producer.taken).take (producerMaxBatch - producer.retryBatch.length)

/-- One turn of the loop, with the connection it finds. A batch is inserted as a whole or not at all. -/
def round (channel : List WireEvent) (connected : Bool) (producer : Producer) : Producer :=
  let batch := producer.batch channel
  let taken := producer.taken + (batch.length - producer.retryBatch.length)
  if connected && batch.all WireEvent.nulFree then ⟨taken, [], producer.log ++ batch⟩
  else ⟨taken, batch, producer.log⟩

/-- The log, the batch under way and what is left in the channel make up all that was handed over. -/
structure InOrder (channel : List WireEvent) (producer : Producer) : Prop where
  received : producer.taken ≤ channel.length
  bounded : producer.retryBatch.length ≤ producerMaxBatch
  ordered : producer.log ++ producer.retryBatch = channel.take producer.taken

variable {channel : List WireEvent} {producer : Producer}

theorem InOrder.batch (inOrder : InOrder channel producer) :
    producer.log ++ producer.batch channel =
      channel.take (producer.taken + ((producer.batch channel).length - producer.retryBatch.length)) := by
  rw [Producer.batch, ← List.append_assoc, inOrder.ordered, List.length_append, Nat.add_sub_cancel_left,
    List.take_add]
  simp

theorem InOrder.round (inOrder : InOrder channel producer) (connected : Bool) :
    InOrder channel (producer.round channel connected) := by
  have ordered := inOrder.batch
  have received : producer.taken + ((producer.batch channel).length - producer.retryBatch.length) ≤
      channel.length := by
    have := inOrder.received
    simp only [Producer.batch, List.length_append, List.length_take, List.length_drop]
    omega
  unfold Producer.round
  dsimp only
  split
  · exact ⟨received, Nat.zero_le _, by simpa using ordered⟩
  · refine ⟨received, ?_, ordered⟩
    have := inOrder.bounded
    simp only [Producer.batch, List.length_append, List.length_take]
    omega

theorem InOrder.grow (inOrder : InOrder channel producer) (later : List WireEvent) :
    InOrder (channel ++ later) producer where
  received := by
    have := inOrder.received
    rw [List.length_append]
    omega
  bounded := inOrder.bounded
  ordered := by rw [List.take_append_of_le_length inOrder.received, inOrder.ordered]

theorem batch_subset (inOrder : InOrder channel producer) {row : WireEvent} (among : row ∈ producer.batch channel) :
    row ∈ channel := by
  have present : row ∈ producer.log ++ producer.batch channel := List.mem_append_right _ among
  rw [inOrder.batch] at present
  exact List.mem_of_mem_take present

/-- With a connection and rows that Postgres accepts, every turn moves rows to the log until all are there. -/
theorem drained (inOrder : InOrder channel producer) (free : ∀ row ∈ channel, row.nulFree = true) :
    ∃ n, ((Producer.round channel true)^[n] producer).log = channel := by
  obtain ⟨left, measure⟩ : ∃ left, channel.length - producer.log.length = left := ⟨_, rfl⟩
  induction left using Nat.strong_induction_on generalizing producer with
  | _ left ih =>
    have whole := inOrder.batch
    by_cases done : producer.batch channel = []
    · refine ⟨0, ?_⟩
      obtain ⟨none, drop⟩ := List.append_eq_nil_iff.mp done
      have all : producer.log = channel.take producer.taken := by
        have ordered := inOrder.ordered
        rwa [none, List.append_nil] at ordered
      rw [none] at drop
      have passed : channel.length ≤ producer.taken := by
        have := congrArg List.length drop
        simp only [List.length_take, List.length_drop, List.length_nil, producerMaxBatch] at this
        omega
      rw [Function.iterate_zero, id, all, List.take_of_length_le passed]
    · have accepted : (producer.batch channel).all WireEvent.nulFree = true :=
        List.all_eq_true.mpr fun row among => free row (batch_subset inOrder among)
      have inserted : (producer.round channel true).log = producer.log ++ producer.batch channel := by
        simp [Producer.round, accepted]
      have busy : 0 < (producer.batch channel).length := List.length_pos_iff.mpr done
      have within : producer.log.length + (producer.batch channel).length ≤ channel.length := by
        have := congrArg List.length whole
        rw [List.length_append, List.length_take] at this
        omega
      obtain ⟨n, logged⟩ := ih _ (by rw [← measure, inserted, List.length_append]; omega)
        (inOrder.round true) rfl
      exact ⟨n + 1, by rwa [Function.iterate_succ_apply]⟩

/-- A batch with a row that Postgres rejects is never inserted, and nothing after it. -/
theorem blocked {row : WireEvent} (waits : row ∈ producer.retryBatch) (bad : row.nulFree = false)
    (turns : List (List WireEvent × Bool)) :
    (turns.foldl (fun producer turn => producer.round turn.1 turn.2) producer).log = producer.log := by
  induction turns generalizing producer with
  | nil => rfl
  | cons turn rest ih =>
    have listed : row ∈ producer.batch turn.1 := List.mem_append_left _ waits
    have rejected : (turn.2 && (producer.batch turn.1).all WireEvent.nulFree) = false := by
      rw [Bool.and_eq_false_iff]
      refine .inr (Bool.eq_false_iff.mpr fun all => ?_)
      rw [List.all_eq_true.mp all row listed] at bad
      cases bad
    have kept : producer.round turn.1 turn.2 =
        ⟨producer.taken + ((producer.batch turn.1).length - producer.retryBatch.length),
          producer.batch turn.1, producer.log⟩ := by
      simp [Producer.round, rejected]
    rw [List.foldl_cons, kept]
    exact ih listed

end Producer

/-! ### Runs -/

/-- A server and the producer behind it. -/
structure Durable where
  server : ServerState
  producer : Producer

/-- A call made by code of the server (the handler of a command, a saga, the application), a message from a
client, or a turn of the producer. A single event is a batch of one. -/
inductive DurableEvent where
  | call (call : Call)
  | eventBatch (clientId : String) (events : List WireEvent)
  | round (connected : Bool)

namespace Durable

def start : Durable := ⟨.initial, .start⟩

def channel (ctx : MykoServerContext) (format : WireFormat) (w : Durable) : List WireEvent :=
  format.produced ctx.hostId w.server.offered

def step (ctx : MykoServerContext) (format : WireFormat) (w : Durable) : DurableEvent → Option Durable
  | .call call => some { w with server := final (call.run ctx) w.server }
  | .eventBatch clientId events => some { w with
      server := final ((Call.applyEventBatch (events.map (format.ingest clientId ctx.hostId))).run ctx) w.server }
  | .round connected => some { w with producer := w.producer.round (w.channel ctx format) connected }

/-- No row handed to the producer is one that Postgres rejects, and turns with a connection bring them all
into the log. -/
structure Unjammed (ctx : MykoServerContext) (format : WireFormat) (w : Durable) : Prop where
  handed : ∀ row ∈ w.channel ctx format, row.nulFree = true
  retried : ∀ row ∈ w.producer.retryBatch, row.nulFree = true
  logged : ∃ n, ((Producer.round (w.channel ctx format) true)^[n] w.producer).log = w.channel ctx format

/-- Code of the server brings in no item with a NUL, where the item or something made of it is persisted; a
client id is a uuid. -/
def Allowed (ctx : MykoServerContext) (format : WireFormat) (_ : Durable) : DurableEvent → Prop
  | .call call => call.Supplies ctx (Clean ctx format)
  | .eventBatch clientId _ => hasNul clientId = false
  | .round _ => True

structure Inv (ctx : MykoServerContext) (format : WireFormat) (w : Durable) : Prop where
  carries : Carries ctx (Clean ctx format) w.server.offered w.server
  offered : ∀ change ∈ w.server.offered, format.itemNulFree change.item = true
  inOrder : w.producer.InOrder (w.channel ctx format)

variable {w w' : Durable} {event : DurableEvent}

theorem inv_start : Inv ctx format start where
  carries := carries_initial
  offered _ among := nomatch among
  inOrder := ⟨Nat.le_refl _, Nat.zero_le _, rfl⟩

theorem Inv.unjammed (deployed : Deployed ctx format) (inv : Inv ctx format w) : Unjammed ctx format w := by
  have free : ∀ row ∈ w.channel ctx format, row.nulFree = true := by
    intro row among
    obtain ⟨n, bound, rfl⟩ := List.mem_mapIdx.mp among
    have clean := inv.offered _ (List.getElem_mem bound)
    simp [WireEvent.nulFree, WireFormat.row, (itemNulFree_iff.mp clean).1, nulFree_toValue clean,
      deployed.createdAt n, deployed.tx n, deployed.hostId]
  refine ⟨free, fun row among => free row ?_, Producer.drained inv.inOrder free⟩
  have present : row ∈ w.producer.log ++ w.producer.retryBatch := List.mem_append_right _ among
  rw [inv.inOrder.ordered] at present
  exact List.mem_of_mem_take present

/-- A call adds rows to the channel, and none with a NUL. -/
theorem Inv.called (deployed : Deployed ctx format) (inv : Inv ctx format w) {call : Call}
    (supplies : call.Supplies ctx (Clean ctx format)) :
    Inv ctx format { w with server := final (call.run ctx) w.server } := by
  have carries := (Call.keeps_run (inherited_clean deployed) supplies).final inv.carries
  obtain ⟨later, grown, clean⟩ := carries.offered
  refine ⟨carries.rebase, fun change among => ?_, ?_⟩
  · dsimp only at among
    rw [grown] at among
    rcases List.mem_append.mp among with among | among
    · exact inv.offered change among
    · exact (clean change among).1 (.inl (clean change among).2)
  · have channel : ∃ rows, format.produced ctx.hostId (final (call.run ctx) w.server).offered =
        w.channel ctx format ++ rows := by
      rw [grown]
      exact ⟨_, List.mapIdx_append⟩
    obtain ⟨rows, channel⟩ := channel
    show w.producer.InOrder (format.produced ctx.hostId (final (call.run ctx) w.server).offered)
    rw [channel]
    exact inv.inOrder.grow rows

theorem ingest_supplies (deployed : Deployed ctx format) {clientId : String} (client : hasNul clientId = false)
    (events : List WireEvent) :
    (Call.applyEventBatch (events.map (format.ingest clientId ctx.hostId))).Supplies ctx (Clean ctx format) := by
  intro event among item parsed _
  obtain ⟨sent, -, rfl⟩ := List.mem_map.mp among
  refine deployed.parses ?_ ?_ parsed
  · show hasNul (format.fields.normalizeIncomingEvent _ _ _).itemType = false
    rw [AssignedFields.normalize_itemType]
    exact hasNul_sanitizeString _
  · exact AssignedFields.nulFree_normalize deployed.fields client deployed.hostId (nulFree_sanitizeValue _)

theorem Inv.step (deployed : Deployed ctx format) (inv : Inv ctx format w) (allowed : Allowed ctx format w event)
    (stepped : step ctx format w event = some w') : Inv ctx format w' := by
  cases event with
  | call call =>
    cases stepped
    exact inv.called deployed allowed
  | eventBatch clientId events =>
    cases stepped
    exact inv.called deployed (ingest_supplies deployed allowed events)
  | round connected =>
    cases stepped
    exact ⟨inv.carries, inv.offered, inv.inOrder.round connected⟩

theorem no_event_jams (deployed : Deployed ctx format) {events : List DurableEvent}
    (ran : Runs.run (step ctx format) start events = some w)
    (each : Runs.Each (step ctx format) (Allowed ctx format) start events) :
    Runs.Always (step ctx format) (Unjammed ctx format) start events :=
  each.always ran inv_start (fun inv allowed stepped => inv.step deployed allowed stepped)
    fun inv => inv.unjammed deployed

namespace Sample

/-- A parser reads the id of a JSON object, and the rest of it is left out. -/
def texts : WireFormat where
  encode value := ((value.get "id").bind Value.asStr).getD ""
  content _ := .null
  createdAt _ := "2026-01-01T00:00:00+00:00"
  tx _ := "tx"
  fields := ⟨fun _ => none, fun _ => none, fun _ => []⟩

def server : MykoServerContext :=
  { Myko.Sample.server with
    uuid := fun _ => "uuid"
    persister := fun _ => some fun _ _ => .ok ()
    parser := fun itemType payload => if payload = "" then none else some ⟨itemType, payload, []⟩
    parser_type := fun _ _ _ read => by
      split at read
      · cases read
      · cases read
        rfl }

theorem deployed : Deployed server texts where
  persists known _ _ := by
    cases known
    rfl
  hostId := by decide
  uuid _ := (by decide : hasNul "uuid" = false)
  createdAt _ := (by decide : hasNul "2026-01-01T00:00:00+00:00" = false)
  tx _ := (by decide : hasNul "tx" = false)
  fields := ⟨fun _ _ known => (nomatch known), fun _ _ known => (nomatch known), fun _ _ known => (nomatch known)⟩
  serverOwned known := nomatch known
  ensured listed := nomatch listed
  parses {itemType value item} typed free read := by
    simp only [server] at read
    split at read
    · cases read
    · cases read
      refine itemNulFree_iff.mpr ⟨typed, ?_, fun _ among => nomatch among⟩
      show hasNul (((value.get "id").bind Value.asStr).getD "") = false
      cases found : (value.get "id").bind Value.asStr with
      | none => decide
      | some id => exact hasNul_asStr free found

def labelled (label : String) : Item := ⟨"node", "n1", [("label", .text label)]⟩

/-- An item of the application, and one of a client that is sanitized. -/
def clean : List DurableEvent :=
  [.call (.set (labelled "a")),
    .eventBatch "client" [⟨.set, "node", "now", "tx", none, .object [("id", .string "n\x002")]⟩], .round true]

theorem clean_unjammed : Runs.Always (step server texts) (Unjammed server texts) start clean := by
  obtain ⟨last, ran⟩ : ∃ last, Runs.run (step server texts) start clean = some last := ⟨_, rfl⟩
  refine no_event_jams deployed ran ?_
  refine (Runs.each_cons rfl).mpr ⟨fun _ => by decide, ?_⟩
  refine (Runs.each_cons rfl).mpr ⟨(by decide : hasNul "client" = false), ?_⟩
  exact (Runs.each_cons rfl).mpr ⟨trivial, trivial⟩

/-- A command sets a field from an argument with a NUL, and another a clean item. -/
def jammed : List DurableEvent :=
  [.call (.set (labelled "a\x00b")), .round true, .call (.set (Myko.Sample.node "n2"))]

theorem nul_blocks : ∃ last, Runs.run (step server texts) start jammed = some last ∧
    (last.channel server texts).length = 2 ∧
    (∀ turns : List (List WireEvent × Bool),
      (turns.foldl (fun producer turn => producer.round turn.1 turn.2) last.producer).log = []) ∧
    ¬Runs.Always (step server texts) (Unjammed server texts) start jammed := by
  obtain ⟨last, ran, handed, bad, waits, empty⟩ : ∃ last,
      Runs.run (step server texts) start jammed = some last ∧ (last.channel server texts).length = 2 ∧
      (texts.row "host" 0 ⟨.set, labelled "a\x00b"⟩).nulFree = false ∧
      last.producer.retryBatch = [texts.row "host" 0 ⟨.set, labelled "a\x00b"⟩] ∧ last.producer.log = [] :=
    ⟨_, rfl, rfl, by decide, rfl, rfl⟩
  have among : texts.row "host" 0 ⟨.set, labelled "a\x00b"⟩ ∈ last.producer.retryBatch := by
    rw [waits]
    exact List.mem_cons_self
  refine ⟨last, ran, handed, fun turns => ?_, fun always => ?_⟩
  · rw [Producer.blocked among bad turns, empty]
  · have free := (always.at_end ran).retried _ among
    rw [bad] at free
    cases free

end Sample
end Durable
end Myko.Postgres

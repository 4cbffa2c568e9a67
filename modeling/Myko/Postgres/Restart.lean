import Myko.Postgres.Consumer

/-!
A server that starts on an existing log: what its stores hold once the snapshot is loaded and the tail
has caught up, beside what the log says of each entity.
-/

namespace Myko.Postgres

open KeyedLog

variable {handlers : HandlerRegistry} {hostId : String}

/-- Start on the rows up to `start`, poll while the log grows, and catch up with all of it. -/
def restart (handlers : HandlerRegistry) (hostId : String) (log : EventRows) (start : Nat)
    (views : List Nat) : Consumer :=
  let visible := log.upto start
  let loaded := Consumer.load handlers hostId visible visible.maxId
  let polled := views.foldl (fun consumer bound => consumer.poll handlers hostId (log.upto bound)) loaded
  polled.catchUp handlers hostId log

def events (rows : List (Nat × SourcedEvent)) : List SourcedEvent := rows.map Prod.snd

/-- What a list of events says last of an entity. -/
def tells (handlers : HandlerRegistry) (key : String × String) (events : List SourcedEvent) : Option Item :=
  (lastEffect handlers.effect key events).getD none

def rowsOf (handlers : HandlerRegistry) (key : String × String) (rows : List (Nat × SourcedEvent)) :
    List (Nat × SourcedEvent) :=
  rows.filter fun row => handlers.entity row.2 = key

/-- The latest row of an entity. -/
def latestRow (handlers : HandlerRegistry) (log : EventRows) (key : String × String) :
    Option (Nat × SourcedEvent) :=
  (rowsOf handlers key log.toList).getLast?

def others (hostId : String) (events : List SourcedEvent) : List SourcedEvent :=
  events.filter fun event => !isMyEvent hostId event

/-- The rows a server that starts on the rows up to `start` reads: the latest SETs, then every later row. -/
def readRows (handlers : HandlerRegistry) (log : EventRows) (start : Nat) : List (Nat × SourcedEvent) :=
  snapshotRows handlers log start ++ log.toList.filter fun row => start < row.1

/-! ### What a server makes of the rows it reads -/

theorem lastEffect_others (key : String × String) (xs : List SourcedEvent) :
    lastEffect (othersEffect handlers hostId) key xs =
      lastEffect handlers.effect key (others hostId xs) := by
  have skipped : lastEffect (othersEffect handlers hostId) key (others hostId xs) =
      lastEffect (othersEffect handlers hostId) key xs :=
    lastEffect_filter fun event _ mine => by
      have own : isMyEvent hostId event = true := by simpa using mine
      simp [effectOn, othersEffect, own]
  rw [← skipped]
  unfold lastEffect
  congr 1
  refine List.filterMap_congr fun event member => ?_
  have foreign : isMyEvent hostId event = false := by simpa using (List.mem_filter.mp member).2
  simp [effectOn, othersEffect, foreign]

theorem snapshotEffect_of_set {event : SourcedEvent} (set : event.changeType = .set) :
    snapshotEffect handlers hostId event = othersEffect handlers hostId event := by
  simp [snapshotEffect, othersEffect, HandlerRegistry.effect, set]

theorem valueOf_load (rows : EventRows) (highWater : Nat) (key : String × String) :
    valueOf (Consumer.load handlers hostId rows highWater).registry key =
      (lastEffect (othersEffect handlers hostId) key
        (events (snapshotRows handlers rows highWater))).getD none := by
  rw [Consumer.load, valueOf_loadSnapshot]
  congr 1
  unfold lastEffect events
  congr 1
  refine List.filterMap_congr fun event member => ?_
  obtain ⟨row, listed, rfl⟩ := List.mem_map.mp member
  have set : row.2.changeType = .set := by simpa using (List.mem_filter.mp listed).2
  simp only [effectOn, snapshotEffect_of_set set]

/-- The consumer has applied the rows above the high-water id up to its cursor. -/
structure Applied (handlers : HandlerRegistry) (hostId : String) (log : EventRows) (highWater : Nat)
    (loaded : StoreRegistry) (consumer : Consumer) : Prop where
  within : highWater ≤ consumer.lastSeenId
  registry : consumer.registry =
    (log.between highWater consumer.lastSeenId).foldl
      (fun registry row => applyRemoteEvent handlers hostId registry row.2) loaded

theorem applied_poll {log : EventRows} {highWater : Nat} {loaded : StoreRegistry} {consumer : Consumer}
    (applied : Applied handlers hostId log highWater loaded consumer) (bound : Nat) :
    Applied handlers hostId log highWater loaded
      (consumer.poll handlers hostId (log.upto bound)) := by
  have moved := consumer.lastSeenId_poll handlers hostId (log.upto bound)
  refine ⟨Nat.le_trans applied.within moved, ?_⟩
  have paged := SerialRows.page_eq_between (log.upto bound) consumer.lastSeenId fetchLimit
  have read : (log.upto bound).page consumer.lastSeenId fetchLimit =
      log.between consumer.lastSeenId (consumer.poll handlers hostId (log.upto bound)).lastSeenId := by
    refine SerialRows.eq_of_rows (SerialRows.sorted_page _ _ _) (SerialRows.sorted_between _ _ _) ?_
    intro row
    constructor
    · intro member
      have inside := member
      rw [paged, SerialRows.mem_between, SerialRows.get_upto] at inside
      obtain ⟨stored, above, below⟩ := inside
      split at stored
      · exact SerialRows.mem_between.mpr ⟨stored, above, below⟩
      · cases stored
    · intro member
      obtain ⟨stored, above, below⟩ := SerialRows.mem_between.mp member
      -- The frontier is a row of the view, so what lies below it is in the view.
      have visible : row.1 ≤ bound := by
        cases empty : (log.upto bound).page consumer.lastSeenId fetchLimit with
        | nil =>
          have still : (consumer.poll handlers hostId (log.upto bound)).lastSeenId =
              consumer.lastSeenId := by
            change SerialRows.frontier _ ((log.upto bound).page consumer.lastSeenId fetchLimit) = _
            rw [empty]
            rfl
          omega
        | cons first rest =>
          have some : (log.upto bound).page consumer.lastSeenId fetchLimit ≠ [] := by simp [empty]
          have top := (Consumer.lastSeenId_poll_lt handlers hostId some).2
          have most : (log.upto bound).maxId ≤ bound := SerialRows.maxId_le fun id e h => by
            rw [SerialRows.get_upto] at h
            split at h
            · assumption
            · cases h
          omega
      rw [paged, SerialRows.mem_between, SerialRows.get_upto, if_pos visible]
      exact ⟨stored, above, below⟩
  have joined := SerialRows.between_append log applied.within moved
  rw [← joined, List.foldl_append, ← applied.registry, ← read]
  rfl

theorem applied_catchUp {log : EventRows} {highWater : Nat} {loaded : StoreRegistry} {consumer : Consumer}
    (applied : Applied handlers hostId log highWater loaded consumer) :
    Applied handlers hostId log highWater loaded (consumer.catchUp handlers hostId log) ∧
      ∀ id event, log[id]? = some event → id ≤ (consumer.catchUp handlers hostId log).lastSeenId := by
  induction consumer using Consumer.catchUp.induct handlers hostId log with
  | case1 consumer done =>
    rw [Consumer.catchUp, if_pos done]
    exact ⟨⟨applied.within, applied.registry⟩, (SerialRows.page_eq_nil (by decide)).mp done⟩
  | case2 consumer more ih =>
    rw [Consumer.catchUp, if_neg more]
    have polled := applied_poll applied log.maxId
    rw [SerialRows.upto_maxId] at polled
    exact ih polled

/-- A caught-up server holds what the other hosts' rows among those it read say last. -/
theorem valueOf_restart (handlers : HandlerRegistry) (hostId : String) (log : EventRows) (start : Nat)
    (views : List Nat) (key : String × String) :
    valueOf (restart handlers hostId log start views).registry key =
      tells handlers key (others hostId (events (readRows handlers log start))) := by
  have polled : ∀ (views : List Nat) (consumer : Consumer) (highWater : Nat) (loaded : StoreRegistry),
      Applied handlers hostId log highWater loaded consumer →
      Applied handlers hostId log highWater loaded
        (views.foldl (fun consumer bound => consumer.poll handlers hostId (log.upto bound)) consumer) := by
    intro views
    induction views with
    | nil => intro consumer highWater loaded applied; exact applied
    | cons bound rest ih =>
      intro consumer highWater loaded applied
      exact ih _ _ _ (applied_poll applied bound)
  have first : Applied handlers hostId log (log.upto start).maxId
      (loadSnapshot handlers hostId (snapshotRows handlers (log.upto start) (log.upto start).maxId))
      (Consumer.load handlers hostId (log.upto start) (log.upto start).maxId) := by
    refine ⟨Nat.le_refl _, ?_⟩
    have nothing : log.between (log.upto start).maxId (log.upto start).maxId = [] := by
      refine List.filter_eq_nil_iff.mpr fun row _ => ?_
      simp
    change loadSnapshot _ _ _ = List.foldl _ _ (log.between _ (log.upto start).maxId)
    rw [nothing]
    rfl
  obtain ⟨caught, reached⟩ := applied_catchUp (polled views _ _ _ first)
  have snapshot : snapshotRows handlers (log.upto start) (log.upto start).maxId =
      snapshotRows handlers log start := by
    rw [snapshotRows, snapshotRows, SerialRows.upto_maxId]
  have tail : log.between (log.upto start).maxId (restart handlers hostId log start views).lastSeenId =
      log.toList.filter fun row => start < row.1 := by
    refine SerialRows.eq_of_rows (SerialRows.sorted_between _ _ _) (log.sorted.filter _) fun row => ?_
    rw [SerialRows.mem_between, List.mem_filter, SerialRows.mem_toList, decide_eq_true_eq]
    constructor
    · rintro ⟨stored, above, _⟩
      refine ⟨stored, Nat.lt_of_not_le fun early => ?_⟩
      have visible : (log.upto start)[row.1]? = some row.2 := by
        rw [SerialRows.get_upto, if_pos early, stored]
      exact absurd (SerialRows.le_maxId visible) (by omega)
    · rintro ⟨stored, above⟩
      refine ⟨stored, Nat.lt_of_le_of_lt (SerialRows.maxId_le fun id e h => ?_) above, reached _ _ stored⟩
      rw [SerialRows.get_upto] at h
      split at h
      · assumption
      · cases h
  have folded : (restart handlers hostId log start views).registry =
      (events (log.toList.filter fun row => start < row.1)).foldl (applyRemoteEvent handlers hostId)
        (Consumer.load handlers hostId (log.upto start) (log.upto start).maxId).registry := by
    rw [events, List.foldl_map, ← tail]
    exact caught.registry
  have split : events (readRows handlers log start) = events (snapshotRows handlers log start) ++
      events (log.toList.filter fun row => start < row.1) := List.map_append
  rw [folded, get_foldl (replays_applyRemoteEvent handlers hostId), valueOf_load, snapshot, tells,
    ← lastEffect_others, split, lastEffect_append]
  cases lastEffect (othersEffect handlers hostId) key
    (events (log.toList.filter fun row => start < row.1)) <;> rfl

/-! ### What the log says of an entity -/

def replayLog (handlers : HandlerRegistry) (log : EventRows) : StoreRegistry :=
  (events log.toList).foldl (applyEvent handlers) StoreRegistry.empty

theorem valueOf_replayLog (handlers : HandlerRegistry) (log : EventRows) (key : String × String) :
    valueOf (replayLog handlers log) key = tells handlers key (events log.toList) := by
  have empty : valueOf StoreRegistry.empty key = none := StoreRegistry.getValue_empty _ _
  rw [replayLog, get_foldl (replays_applyEvent handlers), empty, tells]

theorem sorted_rowsOf {rows : List (Nat × SourcedEvent)} (sorted : rows.Pairwise fun a b => a.1 < b.1)
    (key : String × String) : (rowsOf handlers key rows).Pairwise fun a b => a.1 < b.1 :=
  sorted.filter _

theorem mem_rowsOf {key : String × String} {rows : List (Nat × SourcedEvent)} {row : Nat × SourcedEvent} :
    row ∈ rowsOf handlers key rows ↔ row ∈ rows ∧ handlers.entity row.2 = key := by
  simp [rowsOf]

/-- Only the rows of an entity say anything of it. -/
theorem lastEffect_rowsOf (key : String × String) (rows : List (Nat × SourcedEvent)) :
    lastEffect handlers.effect key (events (rowsOf handlers key rows)) =
      lastEffect handlers.effect key (events rows) := by
  induction rows with
  | nil => rfl
  | cons row rest ih =>
    unfold rowsOf events at ih ⊢
    by_cases here : handlers.entity row.2 = key
    · rw [List.filter_cons_of_pos (by simpa using here), List.map_cons, List.map_cons, lastEffect_cons,
        lastEffect_cons, ih]
    · rw [List.filter_cons_of_neg (by simpa using here), List.map_cons, lastEffect_cons, ih,
        HandlerRegistry.effectOn_of_entity here, Option.or_none]

/-- A last row that can be read decides what the rows say of its entity. -/
theorem tells_last {key : String × String} {rows : List (Nat × SourcedEvent)} {row : Nat × SourcedEvent}
    (last : (rowsOf handlers key rows).getLast? = some row) (readable : (handlers.effect row.2).isSome) :
    tells handlers key (events rows) = tells handlers key [row.2] := by
  obtain ⟨front, split⟩ := List.getLast?_eq_some_iff.mp last
  have named : handlers.entity row.2 = key := by
    have member := List.mem_of_getLast? last
    exact (mem_rowsOf.mp member).2
  obtain ⟨⟨written, value⟩, read⟩ := Option.isSome_iff_exists.mp readable
  have decided : effectOn handlers.effect key row.2 = some value := by
    have same : written = key := (HandlerRegistry.effect_entity read).trans named
    simp [effectOn, read, same]
  have whole : events (rowsOf handlers key rows) = events front ++ [row.2] := by
    rw [split, events, events, List.map_append, List.map_singleton]
  rw [tells, tells, ← lastEffect_rowsOf, whole, lastEffect_concat, lastEffect_singleton, decided,
    Option.some_or]

theorem tells_none {key : String × String} {rows : List (Nat × SourcedEvent)}
    (none : rowsOf handlers key rows = []) : tells handlers key (events rows) = Option.none := by
  rw [tells, ← lastEffect_rowsOf, none]
  rfl

theorem others_events (rows : List (Nat × SourcedEvent)) :
    others hostId (events rows) = events (rows.filter fun row => !isMyEvent hostId row.2) := by
  unfold others events
  rw [List.filter_map]
  rfl

theorem mem_readRows {log : EventRows} {start : Nat} {row : Nat × SourcedEvent} :
    row ∈ readRows handlers log start ↔ log[row.1]? = some row.2 ∧ (start < row.1 ∨
      row.1 ≤ start ∧ row.2.changeType = .set ∧ ∀ other : Nat × SourcedEvent, log[other.1]? = some other.2 →
        other.1 ≤ start → handlers.entity other.2 = handlers.entity row.2 → other.1 ≤ row.1) := by
  have snapshot : row ∈ snapshotRows handlers log start ↔ (log[row.1]? = some row.2 ∧ row.1 ≤ start) ∧
      (∀ other : Nat × SourcedEvent, log[other.1]? = some other.2 → other.1 ≤ start →
        handlers.entity other.2 = handlers.entity row.2 → other.1 ≤ row.1) ∧
      row.2.changeType = .set := by
    unfold snapshotRows latest
    rw [List.mem_filter, List.mem_filter, SerialRows.mem_toList_upto, List.all_eq_true, decide_eq_true_eq,
      and_assoc]
    refine and_congr_right fun _ => and_congr_left fun _ => ?_
    constructor
    · intro greatest other stored early same
      exact of_decide_eq_true (greatest other (SerialRows.mem_toList_upto.mpr ⟨stored, early⟩)) same
    · intro greatest other member
      obtain ⟨stored, early⟩ := SerialRows.mem_toList_upto.mp member
      exact decide_eq_true fun same => greatest other stored early same
  rw [readRows, List.mem_append, snapshot, List.mem_filter, SerialRows.mem_toList, decide_eq_true_eq]
  constructor
  · rintro (⟨⟨stored, early⟩, greatest, set⟩ | ⟨stored, later⟩)
    · exact ⟨stored, .inr ⟨early, set, greatest⟩⟩
    · exact ⟨stored, .inl later⟩
  · rintro ⟨stored, later | ⟨early, set, greatest⟩⟩
    · exact .inr ⟨stored, later⟩
    · exact .inl ⟨⟨stored, early⟩, greatest, set⟩

theorem sorted_readRows (handlers : HandlerRegistry) (log : EventRows) (start : Nat) :
    (readRows handlers log start).Pairwise fun a b => a.1 < b.1 := by
  refine List.pairwise_append.mpr ⟨((SerialRows.sorted _).filter _).filter _, log.sorted.filter _, ?_⟩
  intro a ha b hb
  have early : a ∈ (log.upto start).toList := (List.mem_filter.mp (List.mem_filter.mp ha).1).1
  have below := (SerialRows.mem_toList_upto.mp early).2
  have above : start < b.1 := by simpa using (List.mem_filter.mp hb).2
  omega

theorem latestRow_eq_some {log : EventRows} {key : String × String} {row : Nat × SourcedEvent} :
    latestRow handlers log key = some row ↔
      (log[row.1]? = some row.2 ∧ handlers.entity row.2 = key) ∧
        ∀ other : Nat × SourcedEvent, log[other.1]? = some other.2 → handlers.entity other.2 = key →
          other.1 ≤ row.1 := by
  rw [latestRow, SerialRows.getLast?_eq_some (sorted_rowsOf log.sorted key), mem_rowsOf,
    SerialRows.mem_toList]
  refine and_congr_right fun _ => ?_
  constructor
  · intro greatest other stored same
    exact greatest other (mem_rowsOf.mpr ⟨SerialRows.mem_toList.mpr stored, same⟩)
  · intro greatest other member
    obtain ⟨stored, same⟩ := mem_rowsOf.mp member
    exact greatest other (SerialRows.mem_toList.mp stored) same

/-- When another host wrote the latest row of an entity, the server reads what that row says. -/
theorem tells_others {log : EventRows} {start : Nat} {key : String × String} {row : Nat × SourcedEvent}
    (last : latestRow handlers log key = some row) (readable : (handlers.effect row.2).isSome)
    (foreign : isMyEvent hostId row.2 = false) :
    tells handlers key (others hostId (events (readRows handlers log start))) =
      tells handlers key [row.2] := by
  obtain ⟨⟨stored, named⟩, greatest⟩ := latestRow_eq_some.mp last
  rw [others_events]
  by_cases read : row ∈ readRows handlers log start
  · refine tells_last ?_ readable
    rw [SerialRows.getLast?_eq_some (sorted_rowsOf ((sorted_readRows handlers log start).filter _) key),
      mem_rowsOf, List.mem_filter]
    refine ⟨⟨⟨read, by simp [foreign]⟩, named⟩, fun other member => ?_⟩
    obtain ⟨listed, same⟩ := mem_rowsOf.mp member
    exact greatest other (mem_readRows.mp (List.mem_filter.mp listed).1).1 same
  · -- An unread latest row is a DEL that the snapshot query leaves out with its whole entity.
    have early : row.1 ≤ start := Nat.le_of_not_lt fun later => read (mem_readRows.mpr ⟨stored, .inl later⟩)
    have unread : rowsOf handlers key
        ((readRows handlers log start).filter fun row => !isMyEvent hostId row.2) = [] := by
      refine List.eq_nil_iff_forall_not_mem.mpr fun other member => ?_
      obtain ⟨listed, same⟩ := mem_rowsOf.mp member
      obtain ⟨otherStored, place⟩ := mem_readRows.mp (List.mem_filter.mp listed).1
      have below := greatest other otherStored same
      rcases place with later | ⟨_, _, most⟩
      · omega
      · have above := most row stored early (named.trans same.symm)
        have eq : other.1 = row.1 := Nat.le_antisymm below above
        have event : other.2 = row.2 := by
          rw [eq, stored] at otherStored
          exact (Option.some.inj otherStored).symm
        exact read (by rw [← Prod.ext eq event]; exact (List.mem_filter.mp listed).1)
    rw [tells_none unread]
    have del : row.2.changeType = .del := by
      cases kind : row.2.changeType with
      | del => rfl
      | set =>
        refine absurd (mem_readRows.mpr ⟨stored, .inr ⟨early, kind, ?_⟩⟩) read
        exact fun other otherStored _ same => greatest other otherStored (same.trans named)
    rw [tells, lastEffect_singleton, effectOn, HandlerRegistry.effect, del]
    cases handlers.payloadId row.2.item with
    | none => rfl
    | some id =>
      dsimp only [Option.map_some]
      split <;> rfl

/-! ### What a restart restores -/

/-- The stores hold the entities whose latest row is a SET, with its contents, and are what the whole log
leaves when it is replayed in id order. -/
structure Restores (handlers : HandlerRegistry) (log : EventRows) (registry : StoreRegistry) : Prop where
  set : ∀ key id event, latestRow handlers log key = some (id, event) → event.changeType = .set →
    ∃ item, handlers.parser event.itemType event.item = some item ∧ valueOf registry key = some item
  other : ∀ key, (∀ id event, latestRow handlers log key = some (id, event) → event.changeType = .del) →
    valueOf registry key = none
  replay : ∀ key, valueOf registry key = valueOf (replayLog handlers log) key

/-- When the latest row of an entity is not lost on a server that starts at `start`: a SET can be parsed,
and where the row carries the server's own host id, other hosts' rows among those it reads end the same. -/
structure Recoverable (handlers : HandlerRegistry) (hostId : String) (log : EventRows) (start : Nat)
    (key : String × String) (event : SourcedEvent) : Prop where
  parses : event.changeType = .set → (handlers.effect event).isSome
  own : isMyEvent hostId event →
    tells handlers key (others hostId (events (readRows handlers log start))) =
      tells handlers key [event]
  unnamed : handlers.effect event = none → tells handlers key (events log.toList) = none ∧
    tells handlers key (others hostId (events (readRows handlers log start))) = none

theorem tells_latest {log : EventRows} {key : String × String} {row : Nat × SourcedEvent}
    (last : latestRow handlers log key = some row) (readable : (handlers.effect row.2).isSome) :
    tells handlers key (events log.toList) = tells handlers key [row.2] :=
  tells_last last readable

theorem tells_set {key : String × String} {event : SourcedEvent} {item : Item}
    (set : event.changeType = .set) (named : handlers.entity event = key)
    (read : handlers.parser event.itemType event.item = some item) :
    tells handlers key [event] = some item := by
  have written : handlers.effect event = some ((item.entityType, item.id), some item) := by
    simp [HandlerRegistry.effect, set, read]
  have same := (HandlerRegistry.effect_entity written).trans named
  rw [tells, lastEffect_singleton, effectOn, written]
  dsimp only
  rw [if_pos same]
  rfl

theorem tells_del {key : String × String} {event : SourcedEvent} (del : event.changeType = .del) :
    tells handlers key [event] = none := by
  rw [tells, lastEffect_singleton, effectOn, HandlerRegistry.effect, del]
  cases handlers.payloadId event.item with
  | none => rfl
  | some id =>
    dsimp only [Option.map_some]
    split <;> rfl

/-- An entity without rows is absent from every list of the log's rows. -/
theorem rowsOf_none {log : EventRows} {key : String × String} (none : latestRow handlers log key = none)
    {rows : List (Nat × SourcedEvent)} (listed : ∀ row ∈ rows, row ∈ log.toList) :
    rowsOf handlers key rows = [] := by
  refine List.eq_nil_iff_forall_not_mem.mpr fun row member => ?_
  obtain ⟨inside, named⟩ := mem_rowsOf.mp member
  have found : row ∈ rowsOf handlers key log.toList := mem_rowsOf.mpr ⟨listed row inside, named⟩
  rw [List.getLast?_eq_none_iff.mp none] at found
  cases found

/-- A restart restores the log exactly when no entity's latest row is lost on the server. -/
theorem restart_restores_iff (handlers : HandlerRegistry) (hostId : String) (log : EventRows) (start : Nat)
    (views : List Nat) :
    Restores handlers log (restart handlers hostId log start views).registry ↔
      ∀ key id event, latestRow handlers log key = some (id, event) →
        Recoverable handlers hostId log start key event := by
  constructor
  · intro restores key id event last
    have got := valueOf_restart handlers hostId log start views key
    have whole := valueOf_replayLog handlers log key
    have named := (latestRow_eq_some.mp last).1.2
    have value : event.changeType = .del → valueOf (restart handlers hostId log start views).registry key = none :=
      fun del => restores.other key fun id' event' last' => by
        rw [last] at last'
        cases last'
        exact del
    refine ⟨fun set => ?_, fun _ => ?_, fun unread => ?_⟩
    · obtain ⟨item, read, _⟩ := restores.set key id event last set
      simp [HandlerRegistry.effect, set, read]
    · rw [← got]
      cases kind : event.changeType with
      | set =>
        obtain ⟨item, read, held⟩ := restores.set key id event last kind
        rw [held, tells_set kind named read]
      | del => rw [value kind, tells_del kind]
    · have del : event.changeType = .del := by
        cases kind : event.changeType with
        | del => rfl
        | set =>
          obtain ⟨item, read, _⟩ := restores.set key id event last kind
          simp [HandlerRegistry.effect, kind, read] at unread
      exact ⟨by rw [← whole, ← restores.replay, value del], by rw [← got, value del]⟩
  · intro recoverable
    have agree : ∀ key id event, latestRow handlers log key = some (id, event) →
        valueOf (restart handlers hostId log start views).registry key = tells handlers key [event] ∧
          tells handlers key (events log.toList) = tells handlers key [event] := by
      intro key id event last
      have cond := recoverable key id event last
      rw [valueOf_restart]
      cases read : handlers.effect event with
      | none =>
        obtain ⟨whole, got⟩ := cond.unnamed read
        have nothing : tells handlers key [event] = none := by
          rw [tells, lastEffect_singleton, effectOn, read]
          rfl
        rw [whole, got, nothing]
        exact ⟨rfl, rfl⟩
      | some effect =>
        have readable : (handlers.effect event).isSome := by rw [read]; rfl
        refine ⟨?_, tells_latest last readable⟩
        cases mine : isMyEvent hostId event with
        | true => exact cond.own mine
        | false => exact tells_others last readable mine
    have absent : ∀ key, latestRow handlers log key = none →
        valueOf (restart handlers hostId log start views).registry key = none ∧
          tells handlers key (events log.toList) = none := by
      intro key none
      rw [valueOf_restart, others_events]
      refine ⟨tells_none (rowsOf_none none fun row member => ?_),
        tells_none (rowsOf_none none fun _ member => member)⟩
      exact SerialRows.mem_toList.mpr (mem_readRows.mp (List.mem_filter.mp member).1).1
    refine ⟨fun key id event last set => ?_, fun key gone => ?_, fun key => ?_⟩
    · obtain ⟨effect, read⟩ := Option.isSome_iff_exists.mp ((recoverable key id event last).parses set)
      rw [HandlerRegistry.effect, set] at read
      obtain ⟨item, parsed, _⟩ := Option.map_eq_some_iff.mp read
      refine ⟨item, parsed, ?_⟩
      rw [(agree key id event last).1, tells_set set (latestRow_eq_some.mp last).1.2 parsed]
    · cases last : latestRow handlers log key with
      | none => exact (absent key last).1
      | some row => rw [(agree key row.1 row.2 last).1, tells_del (gone row.1 row.2 last)]
    · rw [valueOf_replayLog]
      cases last : latestRow handlers log key with
      | none => rw [(absent key last).1, (absent key last).2]
      | some row => rw [(agree key row.1 row.2 last).1, (agree key row.1 row.2 last).2]

/-- A log whose latest rows all come from other hosts and parse is restored. -/
theorem recoverable_of_foreign {log : EventRows} {start : Nat} {key : String × String}
    {event : SourcedEvent} (foreign : isMyEvent hostId event = false)
    (readable : (handlers.effect event).isSome) : Recoverable handlers hostId log start key event where
  parses _ := readable
  own mine := by simp [foreign] at mine
  unnamed unread := by simp [unread] at readable

end Myko.Postgres

namespace Myko.Sample

open Postgres

/-- A server that restarts under the host id of the rows it wrote comes up empty. -/
theorem not_restored :
    ¬ Restores handlers ((∅ : EventRows).insert 1 written)
      (restart handlers "host" ((∅ : EventRows).insert 1 written) 1 []).registry := by
  intro restores
  have last : latestRow handlers ((∅ : EventRows).insert 1 written) ("Node", "x") = some (1, written) := by
    decide +kernel
  obtain ⟨item, _, held⟩ := restores.set _ 1 written last rfl
  rw [valueOf_restart] at held
  have nothing : tells handlers ("Node", "x") (others "host"
      (events (readRows handlers ((∅ : EventRows).insert 1 written) 1))) = none := by
    decide +kernel
  rw [nothing] at held
  cases held

end Myko.Sample

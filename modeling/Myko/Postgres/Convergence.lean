import Myko.Postgres.Restart

/-!
Servers that share one event log. Each applies its own writes at once and enqueues them, inserts the
queue in batches that are retried, and applies the rows of the others in the order of the log.
-/

namespace Myko.Postgres

open KeyedLog

/-- The host ids of the servers, one for each. -/
structure Hosts (S : Type) where
  hostId : S → String
  injective : Function.Injective hostId

def producerMaxBatch : Nat := 256

/-- A server: its stores and consumer, the producer's channel, the batch to retry, and the batch being
inserted with what is left of it to insert. -/
structure Server where
  consumer : Consumer
  queue : List SourcedEvent
  retryBatch : List SourcedEvent
  batch : List SourcedEvent
  unsent : List SourcedEvent

namespace Server

/-- Apply a local write and enqueue its event. -/
def write (handlers : HandlerRegistry) (server : Server) (event : SourcedEvent) : Server :=
  { server with
    consumer := { server.consumer with registry := applyEvent handlers server.consumer.registry event }
    queue := server.queue ++ [event] }

/-- Start a batch: what is to be retried, then as much of the channel as fits. -/
def collect (server : Server) : Server :=
  if server.batch = [] then
    let room := producerMaxBatch - server.retryBatch.length
    let batch := server.retryBatch ++ server.queue.take room
    { server with queue := server.queue.drop room, retryBatch := [], batch, unsent := batch }
  else server

/-- The batch is through. -/
def finish (server : Server) : Server := { server with batch := [], unsent := [] }

/-- The insert reported an error. -/
def giveUp (server : Server) : Server :=
  { server with batch := [], unsent := [], retryBatch := server.batch }

/-- The server's events that are not in the table yet, in the order in which it will insert them. -/
def outgoing (server : Server) : List SourcedEvent := server.unsent ++ server.retryBatch ++ server.queue

end Server

/-- The table and the servers that share it. -/
structure Cluster (S : Type) where
  table : SerialTable S SourcedEvent
  server : S → Server

inductive ServerAction where
  | write (event : MEvent)
  | collect
  | insertNext
  | commit
  | commitUnacknowledged
  | fail
  | fetch
  | applyNext

variable {S : Type} [DecidableEq S]

namespace Cluster

def start : Cluster S where
  table := SerialTable.empty
  server _ :=
    { consumer := ⟨StoreRegistry.empty, 0, []⟩, queue := [], retryBatch := [], batch := [], unsent := [] }

def setServer (w : Cluster S) (i : S) (server : Server) : Cluster S :=
  { w with server := Function.update w.server i server }

/-- The whole batch has been inserted. -/
def Inserted (server : Server) : Prop := server.batch ≠ [] ∧ server.unsent = []

instance (server : Server) : Decidable (Inserted server) :=
  inferInstanceAs (Decidable (_ ∧ _))

/-- One step of one server. A local write is of an item whose event every server can read. -/
def step (handlers : HandlerRegistry) (hosts : Hosts S) (w : Cluster S) (i : S) (action : ServerAction) :
    Cluster S :=
  let server := w.server i
  match action with
  | .write event =>
    let sourced : SourcedEvent := { event with sourceId := some (hosts.hostId i) }
    if (handlers.effect sourced).isSome then w.setServer i (server.write handlers sourced) else w
  | .collect => w.setServer i server.collect
  | .insertNext =>
    match server.unsent with
    | [] => w
    | event :: rest =>
      { table := w.table.insert i event
        server := Function.update w.server i { server with unsent := rest } }
  | .commit =>
    if Inserted server then
      { table := w.table.commit i, server := Function.update w.server i server.finish }
    else w
  | .commitUnacknowledged =>
    if Inserted server then
      { table := w.table.commit i, server := Function.update w.server i server.giveUp }
    else w
  | .fail =>
    if server.batch = [] then w
    else { table := w.table.rollback i, server := Function.update w.server i server.giveUp }
  | .fetch =>
    if server.consumer.fetched = [] then
      w.setServer i { server with consumer := server.consumer.fetch w.table.rows }
    else w
  | .applyNext =>
    w.setServer i { server with consumer := server.consumer.applyNext handlers (hosts.hostId i) }

def run (handlers : HandlerRegistry) (hosts : Hosts S) (w : Cluster S) (actions : List (S × ServerAction)) :
    Cluster S :=
  actions.foldl (fun w action => w.step handlers hosts action.1 action.2) w

/-- Nothing is left to insert or to read anywhere. -/
structure Quiescent (w : Cluster S) : Prop where
  queue : ∀ i, (w.server i).queue = []
  retryBatch : ∀ i, (w.server i).retryBatch = []
  batch : ∀ i, (w.server i).batch = []
  fetched : ∀ i, (w.server i).consumer.fetched = []
  caughtUp : ∀ i id event, w.table.rows[id]? = some event → id ≤ (w.server i).consumer.lastSeenId

/-- What the latest event of each entity leaves. -/
def logValue (handlers : HandlerRegistry) (log : EventRows) (key : String × String) : Option Item :=
  match latestRow handlers log key with
  | some row => tells handlers key [row.2]
  | none => none

/-- Once nothing is left to do, the servers hold the same stores, those of the log. -/
def Converged (handlers : HandlerRegistry) (w : Cluster S) : Prop :=
  w.Quiescent →
    (∀ i j, (w.server i).consumer.registry = (w.server j).consumer.registry) ∧
      ∀ i key, valueOf (w.server i).consumer.registry key = logValue handlers w.table.rows key

/-! ### When the servers stay in step -/

/-- The rows a server has inserted are above all that another server has fetched. -/
def Ahead (w : Cluster S) (i : S) : Prop :=
  ∀ j, j ≠ i → ∀ row ∈ w.table.pending i, (w.server j).consumer.frontier < row.1

/-- No row the server has applied about an entity is above one of its own in the transaction. -/
def Unsuperseded (handlers : HandlerRegistry) (w : Cluster S) (i : S) : Prop :=
  ∀ row ∈ w.table.pending i, ∀ id event, w.table.rows[id]? = some event →
    handlers.entity event = handlers.entity row.2 → id ≤ (w.server i).consumer.lastSeenId → id < row.1

/-- The server has no event of its own about the entity still to come, nor a row above this one. -/
structure Undisputed (handlers : HandlerRegistry) (hosts : Hosts S) (w : Cluster S) (i : S)
    (row : Nat × SourcedEvent) : Prop where
  outgoing : ∀ event ∈ (w.server i).outgoing, handlers.entity event ≠ handlers.entity row.2
  pending : ∀ own ∈ w.table.pending i, handlers.entity own.2 = handlers.entity row.2 → own.1 < row.1
  rows : ∀ id event, w.table.rows[id]? = some event → isMyEvent (hosts.hostId i) event →
    handlers.entity event = handlers.entity row.2 → id < row.1

/-- A commit stays above what others have fetched; an insert that is retried has not been overtaken; a row
of another host is applied only where the server has nothing newer about its entity. -/
def Meets (handlers : HandlerRegistry) (hosts : Hosts S) (w : Cluster S) (i : S) : ServerAction → Prop
  | .commit => Inserted (w.server i) → w.Ahead i
  | .commitUnacknowledged => Inserted (w.server i) → w.Ahead i ∧ w.Unsuperseded handlers i
  | .fail => w.Unsuperseded handlers i
  | .applyNext => ∀ row ∈ (w.server i).consumer.fetched.head?,
      isMyEvent (hosts.hostId i) row.2 = false → w.Undisputed handlers hosts i row
  | _ => True

def AllMeet (handlers : HandlerRegistry) (hosts : Hosts S) : Cluster S → List (S × ServerAction) → Prop
  | _, [] => True
  | w, action :: rest => w.Meets handlers hosts action.1 action.2 ∧
      AllMeet handlers hosts (w.step handlers hosts action.1 action.2) rest

end Cluster

/-! ### What a server knows of the log -/

variable {handlers : HandlerRegistry} {hosts : Hosts S} {i : S}

/-- The rows a server's stores reflect: its own, committed or not, and those of others up to its cursor. -/
def known (hosts : Hosts S) (table : SerialTable S SourcedEvent) (i : S) (cursor : Nat) :
    List (Nat × SourcedEvent) :=
  (table.commit i).rows.toList.filter fun row => isMyEvent (hosts.hostId i) row.2 ∨ row.1 ≤ cursor

theorem sorted_known (hosts : Hosts S) (table : SerialTable S SourcedEvent) (i : S) (cursor : Nat) :
    (known hosts table i cursor).Pairwise fun a b => a.1 < b.1 := (SerialRows.sorted _).filter _

theorem mem_known {table : SerialTable S SourcedEvent} {cursor : Nat} {row : Nat × SourcedEvent} :
    row ∈ known hosts table i cursor ↔ (row ∈ table.pending i ∨ table.rows[row.1]? = some row.2) ∧
      (isMyEvent (hosts.hostId i) row.2 = true ∨ row.1 ≤ cursor) := by
  rw [known, List.mem_filter, SerialRows.mem_toList, table.get_commit, decide_eq_true_eq]

/-- Before and after a commit a server knows the same rows. -/
theorem known_commit (hosts : Hosts S) (table : SerialTable S SourcedEvent) (i : S) (cursor : Nat) :
    known hosts (table.commit i) i cursor = known hosts table i cursor := by
  refine SerialRows.eq_of_rows (sorted_known _ _ _ _) (sorted_known _ _ _ _) fun row => ?_
  rw [mem_known, mem_known, table.pending_commit, if_pos rfl, table.get_commit]
  simp

/-- One server in step with the table: its stores hold what the rows it knows and then its outgoing events
leave. -/
structure Steady (handlers : HandlerRegistry) (hosts : Hosts S) (table : SerialTable S SourcedEvent) (i : S)
    (server : Server) : Prop where
  own : ∀ event ∈ server.batch ++ server.outgoing,
    isMyEvent (hosts.hostId i) event = true ∧ (handlers.effect event).isSome
  batch : server.batch = events (table.pending i) ++ server.unsent
  retry : server.batch ≠ [] → server.retryBatch = []
  below : ∀ id event, table.rows[id]? = some event → isMyEvent (hosts.hostId i) event = true →
    ∀ row ∈ table.pending i, id < row.1
  fetched : ∀ row ∈ server.consumer.fetched,
    table.rows[row.1]? = some row.2 ∧ server.consumer.lastSeenId < row.1
  fetchedSorted : server.consumer.fetched.Pairwise fun a b => a.1 < b.1
  fetchedAll : ∀ id event, table.rows[id]? = some event → isMyEvent (hosts.hostId i) event = false →
    server.consumer.lastSeenId < id → id ≤ server.consumer.frontier → (id, event) ∈ server.consumer.fetched
  value : ∀ key, valueOf server.consumer.registry key = (lastEffect handlers.effect key
    (events (known hosts table i server.consumer.lastSeenId) ++ server.outgoing)).getD none

namespace Steady

variable {table : SerialTable S SourcedEvent} {server : Server}

theorem pending_own (steady : Steady handlers hosts table i server) {row : Nat × SourcedEvent}
    (member : row ∈ table.pending i) :
    isMyEvent (hosts.hostId i) row.2 = true ∧ (handlers.effect row.2).isSome := by
  refine steady.own row.2 (List.mem_append_left _ ?_)
  rw [steady.batch]
  exact List.mem_append_left _ (List.mem_map_of_mem member)

theorem pending_nil (steady : Steady handlers hosts table i server) (idle : server.batch = []) :
    table.pending i = [] ∧ server.unsent = [] := by
  have none := steady.batch
  rw [idle] at none
  obtain ⟨noRows, noRest⟩ := List.append_eq_nil_iff.mp none.symm
  exact ⟨List.map_eq_nil_iff.mp noRows, noRest⟩

theorem cursor_le_frontier (steady : Steady handlers hosts table i server) :
    server.consumer.lastSeenId ≤ server.consumer.frontier :=
  SerialRows.cursor_le_frontier fun row member => (steady.fetched row member).2

/-- Rows that others commit above the frontier do not matter yet. -/
theorem grow {table' : SerialTable S SourcedEvent} (steady : Steady handlers hosts table i server)
    (pending : table'.pending i = table.pending i)
    (old : ∀ (id : Nat) (event : SourcedEvent), table.rows[id]? = some event → table'.rows[id]? = some event)
    (new : ∀ (id : Nat) (event : SourcedEvent), table'.rows[id]? = some event → table.rows[id]? = some event ∨
      isMyEvent (hosts.hostId i) event = false ∧ server.consumer.frontier < id) :
    Steady handlers hosts table' i server where
  own := steady.own
  batch := by rw [pending]; exact steady.batch
  retry := steady.retry
  below id event stored mine row member := by
    rw [pending] at member
    rcases new id event stored with before | ⟨foreign, _⟩
    · exact steady.below id event before mine row member
    · rw [mine] at foreign
      cases foreign
  fetched row member := ⟨old _ _ (steady.fetched row member).1, (steady.fetched row member).2⟩
  fetchedSorted := steady.fetchedSorted
  fetchedAll id event stored foreign above within := by
    rcases new id event stored with before | ⟨_, ahead⟩
    · exact steady.fetchedAll id event before foreign above within
    · omega
  value key := by
    have cursor := steady.cursor_le_frontier
    have same : lastEffect handlers.effect key (events (known hosts table' i server.consumer.lastSeenId)) =
        lastEffect handlers.effect key (events (known hosts table i server.consumer.lastSeenId)) := by
      refine SerialRows.lastEffect_congr (sorted_known _ _ _ _) (sorted_known _ _ _ _) fun row _ => ?_
      rw [mem_known, mem_known, pending]
      constructor
      · rintro ⟨inserted | stored, read⟩
        · exact ⟨.inl inserted, read⟩
        · rcases new _ _ stored with before | ⟨foreign, ahead⟩
          · exact ⟨.inr before, read⟩
          · rcases read with mine | early
            · rw [mine] at foreign
              cases foreign
            · omega
      · rintro ⟨inserted | stored, read⟩
        · exact ⟨.inl inserted, read⟩
        · exact ⟨.inr (old _ _ stored), read⟩
    rw [steady.value key, lastEffect_append, lastEffect_append, same]

theorem write (steady : Steady handlers hosts table i server) {event : SourcedEvent}
    (mine : isMyEvent (hosts.hostId i) event = true) (readable : (handlers.effect event).isSome) :
    Steady handlers hosts table i (server.write handlers event) where
  own other member := by
    have place : other ∈ server.batch ++ server.outgoing ∨ other = event := by
      simp only [Server.outgoing, Server.write, List.mem_append, List.mem_singleton] at member ⊢
      tauto
    rcases place with earlier | rfl
    · exact steady.own other earlier
    · exact ⟨mine, readable⟩
  batch := steady.batch
  retry := steady.retry
  below := steady.below
  fetched := steady.fetched
  fetchedSorted := steady.fetchedSorted
  fetchedAll := steady.fetchedAll
  value key := by
    have longer : (server.write handlers event).outgoing = server.outgoing ++ [event] := by
      simp [Server.outgoing, Server.write]
    change valueOf (applyEvent handlers server.consumer.registry event) key = _
    rw [replays_applyEvent, steady.value key, longer, ← List.append_assoc, lastEffect_concat]
    cases effectOn handlers.effect key event <;> rfl

theorem collect (steady : Steady handlers hosts table i server) :
    Steady handlers hosts table i server.collect := by
  by_cases idle : server.batch = []
  · obtain ⟨noRows, noRest⟩ := steady.pending_nil idle
    have outgoing : server.collect.outgoing = server.outgoing := by
      simp [Server.outgoing, Server.collect, idle, noRest]
    have consumer : server.collect.consumer = server.consumer := by simp [Server.collect, idle]
    have sent : server.collect.batch = server.collect.unsent := by simp [Server.collect, idle]
    refine ⟨fun event member => ?_, ?_, fun _ => ?_, steady.below, ?_, ?_, ?_, ?_⟩
    · refine steady.own event (List.mem_append_right _ ?_)
      rw [← outgoing]
      rcases List.mem_append.mp member with batched | out
      · rw [sent] at batched
        exact List.mem_append_left _ (List.mem_append_left _ batched)
      · exact out
    · rw [noRows, sent]
      rfl
    · simp [Server.collect, idle]
    · rw [consumer]; exact steady.fetched
    · rw [consumer]; exact steady.fetchedSorted
    · rw [consumer]; exact steady.fetchedAll
    · rw [consumer, outgoing]; exact steady.value
  · have same : server.collect = server := if_neg idle
    rw [same]
    exact steady

theorem insertNext (steady : Steady handlers hosts table i server) {event : SourcedEvent}
    {rest : List SourcedEvent} (next : server.unsent = event :: rest) :
    Steady handlers hosts (table.insert i event) i { server with unsent := rest } where
  own other member := by
    refine steady.own other ?_
    simp only [Server.outgoing, next, List.mem_append, List.mem_cons] at member ⊢
    tauto
  batch := by
    have whole := steady.batch
    rw [next] at whole
    rw [table.pending_insert, if_pos rfl, events, List.map_append, List.append_assoc]
    exact whole
  retry := steady.retry
  below id other stored mine row member := by
    rw [table.pending_insert, if_pos rfl, List.mem_append, List.mem_singleton] at member
    rcases member with earlier | rfl
    · exact steady.below id other stored mine row earlier
    · exact Nat.lt_succ_of_le (table.rows_le id other stored)
  fetched := steady.fetched
  fetchedSorted := steady.fetchedSorted
  fetchedAll := steady.fetchedAll
  value key := by
    have mine : isMyEvent (hosts.hostId i) event = true := by
      refine (steady.own event (List.mem_append_right _ ?_)).1
      simp [Server.outgoing, next]
    have extended : known hosts (table.insert i event) i server.consumer.lastSeenId =
        known hosts table i server.consumer.lastSeenId ++ [(table.lastId + 1, event)] := by
      refine SerialRows.eq_of_rows (sorted_known _ _ _ _) ?_ fun row => ?_
      · refine List.pairwise_append.mpr ⟨sorted_known _ _ _ _, List.pairwise_singleton _ _, ?_⟩
        intro a member b last
        rw [List.mem_singleton.mp last]
        rcases (mem_known.mp member).1 with inserted | stored
        · exact Nat.lt_succ_of_le (table.pending_le i a inserted)
        · exact Nat.lt_succ_of_le (table.rows_le _ _ stored)
      · rw [List.mem_append, mem_known, mem_known, table.pending_insert, if_pos rfl, List.mem_append,
          List.mem_singleton, table.rows_insert]
        constructor
        · rintro ⟨(inserted | rfl) | stored, read⟩
          · exact .inl ⟨.inl inserted, read⟩
          · exact .inr rfl
          · exact .inl ⟨.inr stored, read⟩
        · rintro (⟨inserted | stored, read⟩ | rfl)
          · exact ⟨.inl (.inl inserted), read⟩
          · exact ⟨.inr stored, read⟩
          · exact ⟨.inl (.inr rfl), .inl mine⟩
    rw [steady.value key]
    change _ = (lastEffect handlers.effect key
      (events (known hosts (table.insert i event) i server.consumer.lastSeenId) ++
        (rest ++ server.retryBatch ++ server.queue))).getD none
    rw [extended, Server.outgoing, next, events, events, List.map_append]
    simp only [List.map_cons, List.map_nil, List.append_assoc, List.cons_append, List.nil_append]

/-- What a commit leaves of a steady server, apart from its producer. -/
theorem commit_tail (steady : Steady handlers hosts table i server) {server' : Server}
    (consumer : server'.consumer = server.consumer)
    (own : ∀ event ∈ server'.batch ++ server'.outgoing,
      isMyEvent (hosts.hostId i) event = true ∧ (handlers.effect event).isSome)
    (batch : server'.batch = server'.unsent) (retry : server'.batch ≠ [] → server'.retryBatch = [])
    (value : ∀ key, valueOf server.consumer.registry key = (lastEffect handlers.effect key
      (events (known hosts table i server.consumer.lastSeenId) ++ server'.outgoing)).getD none) :
    Steady handlers hosts (table.commit i) i server' where
  own := own
  batch := by rw [table.pending_commit, if_pos rfl, batch]; rfl
  retry := retry
  below id event _ _ row member := by
    rw [table.pending_commit, if_pos rfl] at member
    cases member
  fetched row member := by
    rw [consumer] at member ⊢
    obtain ⟨stored, above⟩ := steady.fetched row member
    exact ⟨(table.get_commit i _ _).mpr (.inr stored), above⟩
  fetchedSorted := by rw [consumer]; exact steady.fetchedSorted
  fetchedAll id event stored foreign above within := by
    rw [consumer] at above within ⊢
    rcases (table.get_commit i id event).mp stored with inserted | before
    · rw [(steady.pending_own inserted).1] at foreign
      cases foreign
    · exact steady.fetchedAll id event before foreign above within
  value key := by rw [consumer, known_commit]; exact value key

theorem commit (steady : Steady handlers hosts table i server) (inserted : server.unsent = []) :
    Steady handlers hosts (table.commit i) i server.finish := by
  have outgoing : server.finish.outgoing = server.outgoing := by
    simp [Server.outgoing, Server.finish, inserted]
  refine steady.commit_tail rfl (fun event member => ?_) rfl (fun some => absurd rfl some) ?_
  · refine steady.own event (List.mem_append_right _ ?_)
    rw [← outgoing]
    simpa [Server.finish] using member
  · rw [outgoing]
    exact steady.value

/-- When the transaction has not been overtaken, its events decide what the known rows leave. -/
theorem lastEffect_pending (steady : Steady handlers hosts table i server) (key : String × String)
    (current : ∀ row ∈ table.pending i, ∀ id event, table.rows[id]? = some event →
      handlers.entity event = handlers.entity row.2 → id ≤ server.consumer.lastSeenId → id < row.1) :
    lastEffect handlers.effect key (events (known hosts table i server.consumer.lastSeenId)) =
      (lastEffect handlers.effect key (events (table.pending i))).or (lastEffect handlers.effect key
        (events (known hosts (table.rollback i) i server.consumer.lastSeenId))) := by
  have entity : ∀ {event : SourcedEvent}, (effectOn handlers.effect key event).isSome →
      handlers.entity event = key := by
    intro event writes
    by_contra other
    rw [HandlerRegistry.effectOn_of_entity other] at writes
    cases writes
  cases last : (SerialRows.writing handlers.effect key (table.pending i)).getLast? with
  | none =>
    have silent : ∀ row ∈ table.pending i, ¬ (effectOn handlers.effect key row.2).isSome := by
      intro row member
      simpa using List.filter_eq_nil_iff.mp (List.getLast?_eq_none_iff.mp last) row member
    have nothing : lastEffect handlers.effect key (events (table.pending i)) = none := by
      refine lastEffect_eq_none.mpr fun event member => ?_
      obtain ⟨row, inserted, rfl⟩ := List.mem_map.mp member
      exact Option.not_isSome_iff_eq_none.mp (silent row inserted)
    rw [nothing, Option.none_or]
    refine SerialRows.lastEffect_congr (sorted_known _ _ _ _) (sorted_known _ _ _ _) fun row writes => ?_
    rw [mem_known, mem_known, table.pending_rollback, if_pos rfl, table.rows_rollback,
      or_iff_right fun inserted => silent row inserted writes, or_iff_right List.not_mem_nil]
  | some top =>
    obtain ⟨member, greatest⟩ :=
      (SerialRows.getLast?_eq_some ((table.pending_sorted i).filter _)).mp last
    obtain ⟨inserted, writes⟩ := List.mem_filter.mp member
    obtain ⟨value, written⟩ := Option.isSome_iff_exists.mp writes
    have pending : lastEffect handlers.effect key (events (table.pending i)) = some value :=
      SerialRows.lastEffect_top (table.pending_sorted i) inserted written fun other listed does =>
        greatest other (List.mem_filter.mpr ⟨listed, does⟩)
    rw [pending, Option.some_or]
    refine SerialRows.lastEffect_top (sorted_known _ _ _ _)
      (mem_known.mpr ⟨.inl inserted, .inl (steady.pending_own inserted).1⟩) written ?_
    intro other listed does
    obtain ⟨waiting | stored, read⟩ := mem_known.mp listed
    · exact greatest other (List.mem_filter.mpr ⟨waiting, does⟩)
    · rcases read with mine | early
      · exact Nat.le_of_lt (steady.below _ _ stored mine top inserted)
      · exact Nat.le_of_lt (current top inserted _ _ stored ((entity does).trans (entity writes).symm) early)

theorem commitUnacknowledged (steady : Steady handlers hosts table i server) (inserted : Cluster.Inserted server)
    (current : ∀ row ∈ table.pending i, ∀ id event, table.rows[id]? = some event →
      handlers.entity event = handlers.entity row.2 → id ≤ server.consumer.lastSeenId → id < row.1) :
    Steady handlers hosts (table.commit i) i server.giveUp := by
  have whole : server.batch = events (table.pending i) := by
    rw [steady.batch, inserted.2, List.append_nil]
  have queued : server.outgoing = server.queue := by
    simp [Server.outgoing, inserted.2, steady.retry inserted.1]
  have again : server.giveUp.outgoing = server.batch ++ server.queue := by
    simp [Server.outgoing, Server.giveUp]
  refine steady.commit_tail rfl (fun event member => ?_) rfl (fun some => absurd rfl some) fun key => ?_
  · refine steady.own event ?_
    rw [queued, ← again]
    simpa [Server.giveUp] using member
  · rw [steady.value key, again, queued, lastEffect_append, lastEffect_append, lastEffect_append, whole,
      steady.lastEffect_pending key current]
    cases lastEffect handlers.effect key server.queue <;>
      cases lastEffect handlers.effect key (events (table.pending i)) <;> rfl

theorem fail (steady : Steady handlers hosts table i server) (busy : server.batch ≠ [])
    (current : ∀ row ∈ table.pending i, ∀ id event, table.rows[id]? = some event →
      handlers.entity event = handlers.entity row.2 → id ≤ server.consumer.lastSeenId → id < row.1) :
    Steady handlers hosts (table.rollback i) i server.giveUp where
  own event member := by
    refine steady.own event ?_
    simp only [Server.outgoing, Server.giveUp, List.mem_append, List.not_mem_nil, false_or] at member ⊢
    tauto
  batch := by rw [table.pending_rollback, if_pos rfl]; rfl
  retry some := absurd rfl some
  below id event _ _ row member := by
    rw [table.pending_rollback, if_pos rfl] at member
    cases member
  fetched := steady.fetched
  fetchedSorted := steady.fetchedSorted
  fetchedAll := steady.fetchedAll
  value key := by
    have before : server.outgoing = server.unsent ++ server.queue := by
      simp [Server.outgoing, steady.retry busy]
    have again : server.giveUp.outgoing = events (table.pending i) ++ (server.unsent ++ server.queue) := by
      rw [← List.append_assoc, ← steady.batch]
      simp [Server.outgoing, Server.giveUp]
    change valueOf server.consumer.registry key = (lastEffect handlers.effect key
      (events (known hosts (table.rollback i) i server.consumer.lastSeenId) ++ server.giveUp.outgoing)).getD none
    rw [steady.value key, again, before]
    simp only [lastEffect_append, steady.lastEffect_pending key current, Option.or_assoc]

theorem fetch (steady : Steady handlers hosts table i server) :
    Steady handlers hosts table i { server with consumer := server.consumer.fetch table.rows } where
  own := steady.own
  batch := steady.batch
  retry := steady.retry
  below := steady.below
  fetched _ member := SerialRows.above_of_page member
  fetchedSorted := SerialRows.sorted_page _ _ _
  fetchedAll id event stored _ above within := by
    change (id, event) ∈ table.rows.page server.consumer.lastSeenId fetchLimit
    rw [SerialRows.page_eq_between]
    exact SerialRows.mem_between.mpr ⟨stored, above, within⟩
  value := steady.value

/-- Between the cursor and the next fetched row there is no other row of another host. -/
theorem next_row (steady : Steady handlers hosts table i server) {row : Nat × SourcedEvent}
    {rest : List (Nat × SourcedEvent)} (next : server.consumer.fetched = row :: rest) :
    ∀ other, other ∈ known hosts table i row.1 ↔
      other ∈ known hosts table i server.consumer.lastSeenId ∨ other = row := by
  have sorted := steady.fetchedSorted
  rw [next] at sorted
  obtain ⟨stored, above⟩ := steady.fetched row (by simp [next])
  have within : row.1 ≤ server.consumer.frontier := by
    rw [Consumer.frontier, next]
    exact SerialRows.le_frontier _ sorted List.mem_cons_self
  intro other
  rw [mem_known, mem_known]
  constructor
  · rintro ⟨place, mine | early⟩
    · exact .inl ⟨place, .inl mine⟩
    · by_cases before : other.1 ≤ server.consumer.lastSeenId
      · exact .inl ⟨place, .inr before⟩
      · cases mine : isMyEvent (hosts.hostId i) other.2 with
        | true => exact .inl ⟨place, .inl rfl⟩
        | false =>
          have committed : table.rows[other.1]? = some other.2 := by
            rcases place with inserted | committed
            · rw [(steady.pending_own inserted).1] at mine
              cases mine
            · exact committed
          have listed := steady.fetchedAll other.1 other.2 committed mine (by omega) (by omega)
          rw [next] at listed
          rcases List.mem_cons.mp listed with same | later
          · exact .inr same
          · have beyond := (List.pairwise_cons.mp sorted).1 _ later
            dsimp only at beyond
            omega
  · rintro (⟨place, mine | early⟩ | rfl)
    · exact ⟨place, .inl mine⟩
    · exact ⟨place, .inr (by omega)⟩
    · exact ⟨.inr stored, .inr (Nat.le_refl _)⟩

theorem applyNext (steady : Steady handlers hosts table i server) {row : Nat × SourcedEvent}
    {rest : List (Nat × SourcedEvent)} (next : server.consumer.fetched = row :: rest)
    (undisputed : isMyEvent (hosts.hostId i) row.2 = false →
      (∀ event ∈ server.outgoing, handlers.entity event ≠ handlers.entity row.2) ∧
      (∀ own ∈ table.pending i, handlers.entity own.2 = handlers.entity row.2 → own.1 < row.1) ∧
      ∀ id event, table.rows[id]? = some event → isMyEvent (hosts.hostId i) event = true →
        handlers.entity event = handlers.entity row.2 → id < row.1) :
    Steady handlers hosts table i
      { server with consumer := server.consumer.applyNext handlers (hosts.hostId i) } := by
  have sorted := steady.fetchedSorted
  rw [next, List.pairwise_cons] at sorted
  obtain ⟨stored, above⟩ := steady.fetched row (by simp [next])
  have cursor : (server.consumer.applyNext handlers (hosts.hostId i)).lastSeenId = row.1 := by
    simp [Consumer.applyNext, next]
  have remaining : (server.consumer.applyNext handlers (hosts.hostId i)).fetched = rest := by
    simp [Consumer.applyNext, next]
  have applied : (server.consumer.applyNext handlers (hosts.hostId i)).registry =
      applyRemoteEvent handlers (hosts.hostId i) server.consumer.registry row.2 := by
    simp [Consumer.applyNext, next]
  have frontier : (server.consumer.applyNext handlers (hosts.hostId i)).frontier = server.consumer.frontier :=
    congrArg Consumer.lastSeenId (Consumer.drain_applyNext handlers (hosts.hostId i) server.consumer)
  have places := steady.next_row next
  refine ⟨steady.own, steady.batch, steady.retry, steady.below, fun other member => ?_, ?_,
    fun id event inside foreign beyond within => ?_, fun key => ?_⟩
  · dsimp only at member ⊢
    rw [remaining] at member
    rw [cursor]
    exact ⟨(steady.fetched other (by simp [next, member])).1, sorted.1 other member⟩
  · dsimp only
    rw [remaining]
    exact sorted.2
  · dsimp only at beyond within ⊢
    rw [cursor] at beyond
    rw [frontier] at within
    have listed := steady.fetchedAll id event inside foreign (by omega) within
    rw [next] at listed
    rw [remaining]
    rcases List.mem_cons.mp listed with same | later
    · rw [← same] at beyond
      exact absurd beyond (Nat.lt_irrefl _)
    · exact later
  · change valueOf (server.consumer.applyNext handlers (hosts.hostId i)).registry key =
      (lastEffect handlers.effect key (events (known hosts table i
        (server.consumer.applyNext handlers (hosts.hostId i)).lastSeenId) ++ server.outgoing)).getD none
    rw [applied, cursor, replays_applyRemoteEvent, steady.value key]
    -- A row that writes nothing under the key leaves what the server knows of it.
    have unchanged : effectOn handlers.effect key row.2 = none ∨ isMyEvent (hosts.hostId i) row.2 = true →
        lastEffect handlers.effect key (events (known hosts table i row.1)) =
          lastEffect handlers.effect key (events (known hosts table i server.consumer.lastSeenId)) := by
      intro silent
      refine SerialRows.lastEffect_congr (sorted_known _ _ _ _) (sorted_known _ _ _ _) fun other writes => ?_
      rw [places, or_iff_left_of_imp]
      rintro rfl
      rcases silent with silent | mine
      · rw [silent] at writes
        cases writes
      · exact mem_known.mpr ⟨.inr stored, .inl mine⟩
    cases mine : isMyEvent (hosts.hostId i) row.2 with
    | true =>
      have skipped : effectOn (othersEffect handlers (hosts.hostId i)) key row.2 = none := by
        simp [effectOn, othersEffect, mine]
      rw [skipped, lastEffect_append, lastEffect_append, unchanged (.inr mine)]
      rfl
    | false =>
      have read : effectOn (othersEffect handlers (hosts.hostId i)) key row.2 =
          effectOn handlers.effect key row.2 := by
        simp [effectOn, othersEffect, mine]
      rw [read]
      cases writes : effectOn handlers.effect key row.2 with
      | none =>
        rw [lastEffect_append, lastEffect_append, unchanged (.inl writes)]
        rfl
      | some value =>
        obtain ⟨out, pending, rows⟩ := undisputed mine
        have entity : ∀ {event : SourcedEvent}, (effectOn handlers.effect key event).isSome →
            handlers.entity event = handlers.entity row.2 := by
          intro event does
          have named : ∀ {e : SourcedEvent}, (effectOn handlers.effect key e).isSome →
              handlers.entity e = key := by
            intro e does
            by_contra other
            rw [HandlerRegistry.effectOn_of_entity other] at does
            cases does
          rw [named does, named (by rw [writes]; rfl)]
        have quiet : lastEffect handlers.effect key server.outgoing = none := by
          refine lastEffect_eq_none.mpr fun event member => ?_
          by_contra does
          exact out event member (entity (Option.isSome_iff_ne_none.mpr does))
        have top : lastEffect handlers.effect key (events (known hosts table i row.1)) = some value := by
          refine SerialRows.lastEffect_top (sorted_known _ _ _ _) ((places row).mpr (.inr rfl)) writes ?_
          intro other listed does
          obtain ⟨inserted | committed, own | early⟩ := mem_known.mp listed
          · exact Nat.le_of_lt (pending other inserted (entity does))
          · exact early
          · exact Nat.le_of_lt (rows _ _ committed own (entity does))
          · exact early
        have total : lastEffect handlers.effect key
            (events (known hosts table i row.1) ++ server.outgoing) = some value := by
          rw [lastEffect_append, quiet, Option.none_or, top]
        rw [total]
        rfl

end Steady

/-! ### The cluster -/

namespace Cluster

variable {w : Cluster S}

/-- Every server is in step and every committed row can be read. -/
structure Consistent (handlers : HandlerRegistry) (hosts : Hosts S) (w : Cluster S) : Prop where
  steady : ∀ i, Steady handlers hosts w.table i (w.server i)
  readable : ∀ (id : Nat) (event : SourcedEvent), w.table.rows[id]? = some event →
    (handlers.effect event).isSome

theorem consistent_start : Consistent handlers hosts (start : Cluster S) where
  steady i := by
    refine ⟨fun event member => ?_, rfl, fun _ => rfl, fun id event stored => ?_, fun row member => ?_,
      List.Pairwise.nil, fun id event stored => ?_, fun key => ?_⟩
    · simp [start, Server.outgoing] at member
    · simp [start, SerialTable.empty] at stored
    · simp [start] at member
    · simp [start, SerialTable.empty] at stored
    · have nothing : known hosts (start : Cluster S).table i 0 = [] := by
        refine List.eq_nil_iff_forall_not_mem.mpr fun row member => ?_
        simpa [start, SerialTable.empty] using (mem_known.mp member).1
      change valueOf StoreRegistry.empty key =
        (lastEffect handlers.effect key (events (known hosts (start : Cluster S).table i 0) ++ [])).getD none
      rw [nothing]
      exact StoreRegistry.getValue_empty _ _
  readable id event stored := by simp [start, SerialTable.empty] at stored

/-- A step of one server that leaves the table alone. -/
theorem consistent_setServer (consistent : Consistent handlers hosts w) {i : S} {server : Server}
    (steady : Steady handlers hosts w.table i server) : Consistent handlers hosts (w.setServer i server) where
  steady j := by
    by_cases same : j = i
    · subst same
      simpa [setServer] using steady
    · simpa [setServer, same] using consistent.steady j
  readable := consistent.readable

theorem consistent_commit (consistent : Consistent handlers hosts w) {i : S} {server : Server}
    (ahead : w.Ahead i) (steady : Steady handlers hosts (w.table.commit i) i server) :
    Consistent handlers hosts ⟨w.table.commit i, Function.update w.server i server⟩ where
  steady j := by
    by_cases same : j = i
    · subst same
      simpa using steady
    · have other : Function.update w.server i server j = w.server j := Function.update_of_ne same _ _
      change Steady handlers hosts (w.table.commit i) j (Function.update w.server i server j)
      rw [other]
      refine (consistent.steady j).grow (by rw [w.table.pending_commit, if_neg same])
        (fun id event stored => (w.table.get_commit i id event).mpr (.inr stored)) fun id event stored => ?_
      rcases (w.table.get_commit i id event).mp stored with inserted | before
      · refine .inr ⟨?_, ahead j same _ inserted⟩
        have own := ((consistent.steady i).pending_own inserted).1
        have sameHost : hosts.hostId i ≠ hosts.hostId j := fun eq => same (hosts.injective eq).symm
        simp only [isMyEvent, decide_eq_true_eq] at own
        simp [isMyEvent, own, sameHost]
      · exact .inl before
  readable id event stored := by
    rcases (w.table.get_commit i id event).mp stored with inserted | before
    · exact ((consistent.steady i).pending_own inserted).2
    · exact consistent.readable id event before

theorem consistent_step (consistent : Consistent handlers hosts w) {i : S} {action : ServerAction}
    (meets : w.Meets handlers hosts i action) :
    Consistent handlers hosts (w.step handlers hosts i action) := by
  have steady := consistent.steady i
  -- A change of the table that only touches this server's transaction.
  have elsewhere : ∀ (table' : SerialTable S SourcedEvent) (server : Server),
      table'.rows = w.table.rows → (∀ j, j ≠ i → table'.pending j = w.table.pending j) →
      Steady handlers hosts table' i server →
      Consistent handlers hosts ⟨table', Function.update w.server i server⟩ := by
    intro table' server rows pending steady'
    refine ⟨fun j => ?_, fun id event stored => ?_⟩
    · by_cases same : j = i
      · subst same
        simpa using steady'
      · change Steady handlers hosts table' j (Function.update w.server i server j)
        rw [Function.update_of_ne same]
        exact (consistent.steady j).grow (pending j same) (fun id event h => by rw [rows]; exact h)
          fun id event h => .inl (by rw [← rows]; exact h)
    · change table'.rows[id]? = some event at stored
      rw [rows] at stored
      exact consistent.readable id event stored
  cases action with
  | write event =>
    simp only [step]
    split
    · rename_i readable
      exact consistent_setServer consistent (steady.write (by simp [isMyEvent]) readable)
    · exact consistent
  | collect => exact consistent_setServer consistent steady.collect
  | insertNext =>
    simp only [step]
    split
    · exact consistent
    · rename_i event rest next
      exact elsewhere _ _ rfl (fun j other => by rw [w.table.pending_insert, if_neg other])
        (steady.insertNext next)
  | commit =>
    simp only [step]
    split
    · rename_i inserted
      exact consistent_commit consistent (meets inserted) (steady.commit inserted.2)
    · exact consistent
  | commitUnacknowledged =>
    simp only [step]
    split
    · rename_i inserted
      obtain ⟨ahead, current⟩ := meets inserted
      exact consistent_commit consistent ahead (steady.commitUnacknowledged inserted current)
    · exact consistent
  | fail =>
    simp only [step]
    split
    · exact consistent
    · rename_i busy
      exact elsewhere _ _ rfl (fun j other => by rw [w.table.pending_rollback, if_neg other])
        (steady.fail busy meets)
  | fetch =>
    simp only [step]
    split
    · exact consistent_setServer consistent steady.fetch
    · exact consistent
  | applyNext =>
    cases next : (w.server i).consumer.fetched with
    | nil =>
      have idle : (w.server i).consumer.applyNext handlers (hosts.hostId i) = (w.server i).consumer := by
        simp [Consumer.applyNext, next]
      refine consistent_setServer consistent ?_
      rw [idle]
      exact steady
    | cons row rest =>
      refine consistent_setServer consistent (steady.applyNext next fun foreign => ?_)
      have undisputed := meets row (by simp [next]) foreign
      exact ⟨undisputed.outgoing, undisputed.pending, undisputed.rows⟩

theorem consistent_run {actions : List (S × ServerAction)} (consistent : Consistent handlers hosts w)
    (meet : AllMeet handlers hosts w actions) : Consistent handlers hosts (w.run handlers hosts actions) := by
  induction actions generalizing w with
  | nil => exact consistent
  | cons action rest ih => exact ih (consistent_step consistent meet.1) meet.2

/-- In a quiescent cluster whose servers are in step every store is that of the log. -/
theorem converged_of_consistent (consistent : Consistent handlers hosts w) : Converged handlers w := by
  intro quiescent
  have value : ∀ i key, valueOf (w.server i).consumer.registry key = logValue handlers w.table.rows key := by
    intro i key
    have steady := consistent.steady i
    obtain ⟨noRows, noRest⟩ := steady.pending_nil (quiescent.batch i)
    have out : (w.server i).outgoing = [] := by
      simp [Server.outgoing, noRest, quiescent.retryBatch i, quiescent.queue i]
    have whole : known hosts w.table i (w.server i).consumer.lastSeenId = w.table.rows.toList := by
      refine SerialRows.eq_of_rows (sorted_known _ _ _ _) w.table.rows.sorted fun row => ?_
      rw [mem_known, noRows, SerialRows.mem_toList]
      constructor
      · rintro ⟨inserted | stored, _⟩
        · cases inserted
        · exact stored
      · intro stored
        exact ⟨.inr stored, .inr (quiescent.caughtUp i _ _ stored)⟩
    rw [steady.value key, whole, out, List.append_nil]
    change tells handlers key (events w.table.rows.toList) = logValue handlers w.table.rows key
    unfold logValue
    cases last : latestRow handlers w.table.rows key with
    | none => exact tells_none (List.getLast?_eq_none_iff.mp last)
    | some row =>
      exact tells_latest last (consistent.readable _ _ (latestRow_eq_some.mp last).1.1)
  refine ⟨fun i j => StoreRegistry.ext fun entityType id => ?_, value⟩
  exact (value i (entityType, id)).trans (value j (entityType, id)).symm

/-- Servers that stay in step converge. -/
theorem replicas_converge (handlers : HandlerRegistry) (hosts : Hosts S) (actions : List (S × ServerAction))
    (meet : AllMeet handlers hosts start actions) :
    Converged handlers ((start : Cluster S).run handlers hosts actions) :=
  converged_of_consistent (consistent_run consistent_start meet)

end Cluster
end Myko.Postgres

namespace Myko.Sample

open Postgres Cluster

def hosts : Hosts Bool where
  hostId server := if server then "second" else "first"
  injective a b same := by
    cases a <;> cases b <;> first | rfl | exact absurd same (by decide)

def setX : MEvent := ⟨.set, "Node", "x"⟩

def delX : MEvent := ⟨.del, "Node", "x"⟩

def flush (server : Bool) : List (Bool × ServerAction) :=
  [(server, .collect), (server, .insertNext), (server, .commit)]

/-- The first server sets an entity and the second reads of it. -/
def oneWriter : List (Bool × ServerAction) :=
  (false, .write setX) :: flush false ++
    [(true, .fetch), (true, .applyNext), (false, .fetch), (false, .applyNext)]

theorem replicas_converge_oneWriter :
    Converged handlers ((start : Cluster Bool).run handlers hosts oneWriter) := by
  have alone : ∀ (rows : EventRows) (e : SourcedEvent), rows.toList = [(1, e)] →
      ∀ (id : Nat) (event : SourcedEvent), rows[id]? = some event → event = e := by
    intro rows e listed id event stored
    have member : (id, event) ∈ rows.toList := SerialRows.mem_toList.mpr stored
    rw [listed, List.mem_singleton] at member
    exact (Prod.mk.inj member).2
  refine Cluster.replicas_converge handlers hosts oneWriter
    ⟨trivial, trivial, trivial, fun _ => ?_, trivial, fun row next foreign => ?_, trivial,
      fun row next foreign => ?_, trivial⟩
  · intro j other row member
    cases j with
    | false => exact absurd rfl other
    | true =>
      have only : row = (1, { setX with sourceId := some "first" }) := List.mem_singleton.mp member
      rw [only]
      decide
  · have only : row = (1, { setX with sourceId := some "first" }) := (Option.some.inj next).symm
    subst only
    refine ⟨fun event member => (by cases member), fun own member => (by cases member), ?_⟩
    intro id event stored mine
    rw [alone _ { setX with sourceId := some "first" } (by decide +kernel) id event stored] at mine
    exact absurd mine (by decide)
  · have only : row = (1, { setX with sourceId := some "first" }) := (Option.some.inj next).symm
    subst only
    exact absurd foreign (by decide)

/-- One server sets an entity while the other deletes it; each then reads the log. -/
def twoWriters : List (Bool × ServerAction) :=
  (false, .write setX) :: (true, .write delX) :: flush false ++ flush true ++
    [(true, .fetch), (true, .applyNext), (true, .applyNext), (false, .fetch), (false, .applyNext),
      (false, .applyNext)]

/-- The second server applies the older SET over its own DEL. -/
theorem not_converged : ¬ Converged handlers ((start : Cluster Bool).run handlers hosts twoWriters) := by
  intro converged
  have quiescent : ((start : Cluster Bool).run handlers hosts twoWriters).Quiescent := by
    refine ⟨by decide +kernel, by decide +kernel, by decide +kernel, by decide +kernel, ?_⟩
    intro i id event stored
    have bound := ((start : Cluster Bool).run handlers hosts twoWriters).table.rows_le id event stored
    cases i <;> exact bound
  have same := (converged quiescent).1 false true
  have first : valueOf (((start : Cluster Bool).run handlers hosts twoWriters).server false).consumer.registry
      ("Node", "x") = none := by decide +kernel
  have second : valueOf (((start : Cluster Bool).run handlers hosts twoWriters).server true).consumer.registry
      ("Node", "x") = some ⟨"Node", "x", []⟩ := by decide +kernel
  rw [same, second] at first
  cases first

end Myko.Sample

import Mathlib.Data.List.Flatten
import Myko.TypeScript.Sockets

/-!
Outgoing messages of the TypeScript client: events wait in a buffer for a microtask, messages wait in a
queue while no current server is open, and the rest goes to the socket of the current server.
-/

namespace Myko.TypeScript

namespace Connection

def currentOpen (c : Connection) : Bool :=
  match c.currentServer with
  | none => false
  | some address =>
    match c.socket address with
    | some managed => managed.readyState = .opened
    | none => false

/-- A socket opens while there is no current server. -/
def OpensFirst (c : Connection) : SocketEvent → Prop
  | .opens _ => c.currentServer = none
  | _ => False

/-- The current server closes while another socket is open. -/
def FailsOver (c : Connection) : SocketEvent → Prop
  | .closes address =>
    c.currentServer = some address ∧ ∃ managed ∈ c.sockets, managed.address ≠ address ∧
      managed.readyState = .opened
  | _ => False

/-- The current server goes, so that its commands fail. -/
def LosesCurrent (c : Connection) : SocketEvent → Bool
  | .closes address => c.currentServer = some address
  | .setAddress _ | .setAddresses _ | .disconnect => true
  | _ => false

end Connection

/-- Events and messages are numbered in the order they are sent. -/
inductive Message where
  | batch (events : List Nat)
  | pulse (event : Nat)
  | command (id : Nat)
  | other (id : Nat)
  deriving DecidableEq

namespace Message

/-- What a message carries whose order counts. -/
def ordered : Message → List Nat
  | .batch events => events
  | .pulse _ => []
  | .command id | .other id => [id]

def isBatch : Message → Bool
  | .batch _ => true
  | _ => false

def isCommand : Message → Bool
  | .command _ => true
  | _ => false

end Message

inductive Send where
  | event (pulse : Bool)
  /-- A batch, for each event whether it is a pulse. -/
  | eventBatch (pulses : List Bool)
  | command
  | other

def eventBatchMaxSize : Nat := 256

/-- The buffer is taken apart from the front. -/
def splice : Nat → List Nat → List Message
  | 0, _ => []
  | _ + 1, [] => []
  | fuel + 1, events => .batch (events.take eventBatchMaxSize) :: splice fuel (events.drop eventBatchMaxSize)

structure Outbox where
  connection : Connection
  messageQueue : List Message
  pendingEventBatch : List Nat
  eventBatchFlushScheduled : Bool
  /-- What has reached sockets. -/
  wire : List Message
  sent : Nat

inductive OutboxEvent where
  | send (send : Send)
  | microtask
  /-- A command is aborted or times out. -/
  | commandFails (id : Nat)
  /-- What happens to sockets, and what callbacks of the status and of the current server send meanwhile. -/
  | socket (event : SocketEvent) (callbacks : List Send)

namespace Outbox

def start : Outbox := ⟨.start, [], [], false, [], 0⟩

def sendNow (o : Outbox) (message : Message) : Outbox :=
  if o.connection.currentOpen then { o with wire := o.wire ++ [message] }
  else { o with messageQueue := o.messageQueue ++ [message] }

def flushPendingEventBatch (o : Outbox) : Outbox :=
  (splice o.pendingEventBatch.length o.pendingEventBatch).foldl sendNow { o with pendingEventBatch := [] }

def sendMessage (o : Outbox) (message : Message) : Outbox :=
  if message.isBatch then o.sendNow message else o.flushPendingEventBatch.sendNow message

/-- The events of a batch with their numbers, those that are pulses or those that are not. -/
def numbered (sent : Nat) (pulses : List Bool) (pulse : Bool) : List Nat :=
  (pulses.zipIdx sent).filterMap fun event => if event.1 = pulse then some event.2 else none

def sendEventBatch (o : Outbox) (pulses : List Bool) : Outbox :=
  if pulses = [] then o
  else
    let immediatePulses := numbered o.sent pulses true
    let o := { o with
      pendingEventBatch := o.pendingEventBatch ++ numbered o.sent pulses false
      sent := o.sent + pulses.length }
    if immediatePulses ≠ [] then
      immediatePulses.foldl (fun o event => o.sendNow (.pulse event)) o.flushPendingEventBatch
    else if eventBatchMaxSize ≤ o.pendingEventBatch.length then o.flushPendingEventBatch
    else { o with eventBatchFlushScheduled := true }

def perform (o : Outbox) : Send → Outbox
  | .event true => { o with sent := o.sent + 1 }.flushPendingEventBatch.sendNow (.pulse o.sent)
  | .event false => o.sendEventBatch [false]
  | .eventBatch pulses => o.sendEventBatch pulses
  | .command => { o with sent := o.sent + 1 }.sendMessage (.command o.sent)
  | .other => { o with sent := o.sent + 1 }.sendMessage (.other o.sent)

def performAll (o : Outbox) (sends : List Send) : Outbox := sends.foldl perform o

def flushQueue (o : Outbox) : Outbox := o.messageQueue.foldl sendMessage { o with messageQueue := [] }

/-- Commands that wait when the current server goes are given up. -/
def failPendingCommands (o : Outbox) : Outbox :=
  { o with messageQueue := o.messageQueue.filter fun message => !message.isCommand }

/-- Callbacks run when the current server and the status are set, before the queue is flushed. -/
def onSocket (o : Outbox) (event : SocketEvent) (next : Connection) (callbacks : List Send) : Outbox :=
  let failed := if o.connection.LosesCurrent event then o.failPendingCommands else o
  let called := { failed with connection := next }.performAll callbacks
  match event with
  | .opens _ => if o.connection.currentServer.isNone then called.flushQueue else called
  | _ => called

/-- The sockets' own events are tasks of their own: no microtask is left. -/
def isTask : SocketEvent → Bool
  | .peersAdvertised _ | .opens _ | .startsClosing _ | .closes _ | .timerFires _ => true
  | .setAddress _ | .setAddresses _ | .addServers _ _ | .enablePeerDiscovery _ | .disconnect => false

variable (parseAddress : String → Option (String × Nat))

def step (o : Outbox) : OutboxEvent → Option Outbox
  | .send send => some (o.perform send)
  | .microtask =>
    if o.eventBatchFlushScheduled then
      some { o with eventBatchFlushScheduled := false }.flushPendingEventBatch
    else none
  | .commandFails id =>
    some { o with messageQueue := o.messageQueue.filter fun message => message ≠ .command id }
  | .socket event callbacks =>
    if isTask event ∧ o.eventBatchFlushScheduled then none
    else (o.connection.step parseAddress event).map fun next => o.onSocket event next callbacks

def orderedIds (messages : List Message) : List Nat := messages.flatMap Message.ordered

/-- Nothing waits for a current server that is open, and messages have arrived in the order of sending. -/
structure Delivers (o : Outbox) : Prop where
  none_waits : o.connection.currentOpen = true → o.messageQueue = []
  in_order : (orderedIds o.wire).Pairwise (· < ·)

end Outbox

/-! ### The current server -/

namespace Connection

variable {parseAddress : String → Option (String × Nat)} {c next : Connection} {address other : String}
variable {event : SocketEvent} {managed : ManagedSocket} {reconnectOnClose : Bool} {addresses : List String}

/-- The current server has opened. -/
def CurrentOpened (c : Connection) : Prop :=
  ∀ address, c.currentServer = some address →
    ∃ managed, c.socket address = some managed ∧ managed.readyState ≠ .connecting

/-- The current server stays, with its socket or one that is closing. -/
def Stays (c next : Connection) : Prop :=
  next.currentServer = c.currentServer ∧ ∀ address, c.currentServer = some address →
    next.socket address = c.socket address ∨
      ∃ managed, next.socket address = some managed ∧ managed.readyState = .closing

theorem Stays.refl : c.Stays c := ⟨rfl, fun _ _ => .inl rfl⟩

theorem Stays.trans {mid : Connection} (first : c.Stays mid) (second : mid.Stays next) : c.Stays next := by
  refine ⟨second.1.trans first.1, fun address current => ?_⟩
  rcases second.2 address (first.1.trans current) with same | closing
  · rcases first.2 address current with same' | ⟨managed, found, closing⟩
    · exact .inl (same.trans same')
    · exact .inr ⟨managed, same.trans found, closing⟩
  · exact .inr closing

theorem Stays.currentOpened (stays : c.Stays next) (opened : c.CurrentOpened) : next.CurrentOpened := by
  intro address current
  rw [stays.1] at current
  rcases stays.2 address current with same | ⟨managed, found, closing⟩
  · rw [same]
    exact opened address current
  · exact ⟨managed, found, by rw [closing]; decide⟩

theorem Stays.currentOpen (stays : c.Stays next) (opened : next.currentOpen = true) : c.currentOpen = true := by
  unfold Connection.currentOpen at opened ⊢
  cases current : c.currentServer with
  | none =>
    rw [stays.1, current] at opened
    exact opened
  | some address =>
    rw [stays.1, current] at opened
    dsimp only at opened ⊢
    rcases stays.2 address current with same | ⟨managed, found, closing⟩
    · rw [same] at opened
      exact opened
    · simp only [found, closing] at opened
      cases opened

theorem stays_createSocket (address : String) (reconnectOnClose : Bool)
    (wellFormed : c.WellFormed parseAddress) (opened : c.CurrentOpened) :
    c.Stays (c.createSocket parseAddress address reconnectOnClose) := by
  cases taken : c.hasConnectionTo parseAddress address with
  | true =>
    rw [createSocket_taken taken]
    exact .refl
  | false =>
    rw [createSocket_free wellFormed taken]
    refine ⟨rfl, fun current isCurrent => .inl ?_⟩
    obtain ⟨managed, found, _⟩ := opened current isCurrent
    unfold socket at found ⊢
    rw [List.find?_append, found]
    rfl

theorem stays_createSockets (wellFormed : c.WellFormed parseAddress) (opened : c.CurrentOpened)
    (configured : reconnectOnClose = true → ∀ address ∈ addresses, address ∈ c.configured) :
    c.Stays (c.createSockets parseAddress addresses reconnectOnClose) := by
  induction addresses generalizing c with
  | nil => exact .refl
  | cons address rest ih =>
    have first := stays_createSocket address reconnectOnClose wellFormed opened
    refine first.trans (ih (wellFormed.createSocket fun reconnects =>
      configured reconnects address List.mem_cons_self) (first.currentOpened opened) ?_)
    intro reconnects other among
    rw [createSocket_configured]
    exact configured reconnects other (List.mem_cons_of_mem address among)

theorem socket_remove (different : address ≠ managed.address) :
    (c.remove managed).socket address = c.socket address := by
  unfold socket remove
  rw [List.find?_filter]
  congr 1
  funext other
  by_cases same : other.address = address
  · simp [same, different]
  · simp [same]

theorem socket_setReadyState {readyState : ReadyState} :
    (c.setReadyState address readyState).socket other = (c.socket other).map fun managed =>
      if managed.address = address then { managed with readyState } else managed := by
  unfold socket setReadyState
  rw [List.find?_map]
  congr 2
  funext managed
  by_cases same : managed.address = address <;> simp [same]

theorem WellFormed.socket_of_mem (wellFormed : c.WellFormed parseAddress) (among : managed ∈ c.sockets) :
    c.socket managed.address = some managed := by
  cases found : c.socket managed.address with
  | none => simpa using List.find?_eq_none.mp found managed among
  | some other =>
    obtain ⟨present, same⟩ := socket_mem found
    rw [wellFormed.same_socket among present same.symm]

/-- A socket takes over from none or from the one that closes. -/
def TakesOver (c : Connection) (event : SocketEvent) : Prop := c.OpensFirst event ∨ c.FailsOver event

theorem stays_of_sockets (current : next.currentServer = c.currentServer) (sockets : next.sockets = c.sockets) :
    c.Stays next := by
  refine ⟨current, fun address _ => .inl ?_⟩
  unfold socket
  rw [sockets]

theorem createSockets_current :
    (c.createSockets parseAddress addresses reconnectOnClose).currentServer = c.currentServer := by
  induction addresses generalizing c with
  | nil => rfl
  | cons address rest ih =>
    refine ih.trans ?_
    unfold createSocket
    dsimp only
    split <;> rfl

theorem remove_current : (c.remove managed).currentServer = c.currentServer := rfl

theorem retry_current (c : Connection) (managed : ManagedSocket) :
    (c.retry managed).currentServer = c.currentServer ∧ (c.retry managed).sockets = c.sockets := by
  unfold retry scheduleReconnect
  split
  · split <;> exact ⟨rfl, rfl⟩
  · exact ⟨rfl, rfl⟩

theorem onClose_other (other : c.currentServer ≠ some managed.address) : c.Stays (c.onClose managed) := by
  unfold onClose
  dsimp only
  rw [remove_current, if_neg other]
  obtain ⟨current, sockets⟩ := retry_current (c.remove managed) managed
  have removed : c.Stays (c.remove managed) := by
    refine ⟨rfl, fun address isCurrent => .inl (socket_remove ?_)⟩
    rintro rfl
    exact other isCurrent
  exact removed.trans (stays_of_sockets current sockets)

theorem onClose_lost (isCurrent : c.currentServer = some managed.address)
    (none : (c.remove managed).getFirstOpenSocket = none) : (c.onClose managed).currentServer = .none := by
  unfold onClose
  dsimp only
  rw [remove_current, if_pos isCurrent, none]
  exact (retry_current _ managed).1

theorem onClose_failsOver {other : ManagedSocket} (isCurrent : c.currentServer = some managed.address)
    (found : (c.remove managed).getFirstOpenSocket = some other) :
    c.onClose managed = { c.remove managed with currentServer := some other.address } := by
  unfold onClose
  dsimp only
  rw [remove_current, if_pos isCurrent, found]

theorem failsOver_iff : (∃ next, (c.remove managed).getFirstOpenSocket = some next) ↔
    ∃ other ∈ c.sockets, other.address ≠ managed.address ∧ other.readyState = .opened := by
  rw [← Option.isSome_iff_exists, getFirstOpenSocket, List.find?_isSome]
  constructor
  · rintro ⟨other, among, opened⟩
    obtain ⟨present, different⟩ := List.mem_filter.mp among
    exact ⟨other, present, of_decide_eq_true different, of_decide_eq_true opened⟩
  · rintro ⟨other, present, different, opened⟩
    exact ⟨other, List.mem_filter.mpr ⟨present, decide_eq_true different⟩, decide_eq_true opened⟩

theorem stays_step (wellFormed : c.WellFormed parseAddress) (opened : c.CurrentOpened)
    (stepped : step parseAddress c event = some next) (stays : ¬c.TakesOver event) :
    c.Stays next ∨ next.currentServer = none := by
  have stays_enabling : ∀ {configured : List String} {addresses : List String} {reconnectOnClose : Bool},
      (∀ address ∈ c.configured, address ∈ configured) →
      (reconnectOnClose = true → ∀ address ∈ addresses, address ∈ configured) →
      c.Stays (createSockets parseAddress { c with shouldReconnect := true, configured } addresses
        reconnectOnClose) := fun more configured =>
    (stays_of_sockets rfl rfl).trans (stays_createSockets (wellFormed.enabling more) opened configured)
  cases event with
  | setAddress address =>
    cases stepped
    refine .inr ?_
    cases address <;> rfl
  | setAddresses addresses =>
    cases stepped
    exact .inr createSockets_current
  | addServers addresses reconnectOnClose =>
    cases stepped
    rw [addServers_eq]
    cases reconnectOnClose with
    | false => exact .inl (stays_enabling (fun _ among => among) fun no => nomatch no)
    | true =>
      exact .inl (stays_enabling (fun _ among => List.mem_append_left _ among) fun _ _ among =>
        List.mem_append_right _ among)
  | enablePeerDiscovery enabled =>
    cases stepped
    exact .inl (stays_of_sockets rfl rfl)
  | disconnect =>
    cases stepped
    exact .inr rfl
  | peersAdvertised addresses =>
    simp only [step] at stepped
    split at stepped
    · obtain rfl := Option.some.inj stepped
      split
      · exact .inl .refl
      · rw [addServers_eq]
        exact .inl (stays_enabling (fun _ among => among) fun no => nomatch no)
    · cases stepped
  | opens address =>
    simp only [step] at stepped
    split at stepped
    · rename_i found
      obtain rfl := Option.some.inj stepped
      unfold onOpen
      dsimp only
      split
      · rename_i current isCurrent
        refine .inl ⟨rfl, fun other otherCurrent => .inl ?_⟩
        obtain ⟨managed, foundCurrent, notConnecting⟩ := opened other otherCurrent
        rw [socket_setReadyState, foundCurrent, Option.map_some, if_neg]
        rintro same
        obtain ⟨_, same'⟩ := socket_mem foundCurrent
        rw [← same', same, found] at foundCurrent
        cases foundCurrent
        exact notConnecting rfl
      · rename_i none
        exact (stays (.inl none)).elim
    · cases stepped
  | startsClosing address =>
    obtain ⟨managed, found, rfl⟩ := Option.map_eq_some_iff.mp stepped
    refine .inl ⟨rfl, fun other isCurrent => ?_⟩
    obtain ⟨current, foundCurrent, _⟩ := opened other isCurrent
    rw [socket_setReadyState, foundCurrent, Option.map_some]
    by_cases same : current.address = address
    · rw [if_pos same]
      exact .inr ⟨_, rfl, rfl⟩
    · rw [if_neg same]
      exact .inl rfl
  | closes address =>
    obtain ⟨managed, found, rfl⟩ := Option.map_eq_some_iff.mp stepped
    obtain ⟨present, rfl⟩ := socket_mem found
    by_cases isCurrent : c.currentServer = some managed.address
    · refine .inr (onClose_lost isCurrent ?_)
      by_contra fails
      exact stays (.inr ⟨isCurrent, failsOver_iff.mp (Option.ne_none_iff_exists'.mp fails)⟩)
    · exact .inl (onClose_other isCurrent)
  | timerFires key =>
    obtain ⟨address, pending, rfl⟩ := Option.map_eq_some_iff.mp stepped
    unfold timerFires
    dsimp only
    split
    · exact .inl ((stays_of_sockets rfl rfl).trans (stays_createSocket address true wellFormed.expire opened))
    · exact .inl (stays_of_sockets rfl rfl)

/-- What takes over is open. -/
theorem takesOver_step (wellFormed : c.WellFormed parseAddress)
    (stepped : step parseAddress c event = some next) (takes : c.TakesOver event) :
    next.currentOpen = true := by
  cases event with
  | opens address =>
    have none : c.currentServer = none := takes.resolve_right id
    simp only [step] at stepped
    split at stepped
    · rename_i found
      obtain rfl := Option.some.inj stepped
      have opened : (c.onOpen address).currentServer = some address ∧
          (c.onOpen address).socket address = (c.setReadyState address .opened).socket address := by
        unfold onOpen
        dsimp only
        rw [show (c.setReadyState address .opened).currentServer = .none from none]
        exact ⟨rfl, rfl⟩
      unfold currentOpen
      rw [opened.1]
      dsimp only
      rw [opened.2, socket_setReadyState, found, Option.map_some, if_pos (socket_mem found).2]
      rfl
    · cases stepped
  | closes address =>
    obtain ⟨managed, found, rfl⟩ := Option.map_eq_some_iff.mp stepped
    obtain ⟨present, rfl⟩ := socket_mem found
    obtain ⟨isCurrent, standby⟩ := takes.resolve_left id
    obtain ⟨other, first⟩ := failsOver_iff.mpr standby
    rw [onClose_failsOver isCurrent first]
    have among := List.mem_of_find?_eq_some first
    have held : (c.remove managed).socket other.address = some other :=
      (wellFormed.remove present).socket_of_mem among
    unfold currentOpen
    dsimp only
    rw [show socket { c.remove managed with currentServer := some other.address } other.address =
      some other from held]
    have opened := List.find?_some first
    exact opened
  | _ => exact (takes.elim id id).elim

theorem currentOpened_step (wellFormed : c.WellFormed parseAddress) (opened : c.CurrentOpened)
    (stepped : step parseAddress c event = some next) : next.CurrentOpened := by
  by_cases takes : c.TakesOver event
  · intro address current
    have open' := takesOver_step wellFormed stepped takes
    unfold currentOpen at open'
    rw [current] at open'
    dsimp only at open'
    split at open'
    · rename_i managed found
      exact ⟨managed, found, by rw [of_decide_eq_true open']; decide⟩
    · cases open'
  · rcases stays_step wellFormed opened stepped takes with stays | none
    · exact stays.currentOpened opened
    · intro address current
      rw [none] at current
      cases current

end Connection

/-! ### Sending -/

namespace Outbox

variable {o mid after : Outbox} {message : Message} {messages : List Message} {new more : List Nat}

theorem orderedIds_append (front back : List Message) :
    orderedIds (front ++ back) = orderedIds front ++ orderedIds back := List.flatMap_append

/-- Where messages go at the moment: to the current server or into the queue. -/
def out (o : Outbox) : List Message := if o.connection.currentOpen then o.wire else o.messageQueue

/-- What is sent goes where messages go, behind what is there and in the buffer. -/
structure Extends (o after : Outbox) (new : List Nat) : Prop where
  connection : after.connection = o.connection
  wire : o.connection.currentOpen = false → after.wire = o.wire
  queue : o.connection.currentOpen = true → after.messageQueue = o.messageQueue
  grows : o.out <+: after.out
  order : orderedIds after.out ++ after.pendingEventBatch =
    orderedIds o.out ++ o.pendingEventBatch ++ new

theorem Extends.refl : o.Extends o [] :=
  ⟨rfl, fun _ => rfl, fun _ => rfl, List.prefix_rfl, (List.append_nil _).symm⟩

theorem Extends.trans (first : o.Extends mid new) (second : mid.Extends after more) :
    o.Extends after (new ++ more) := by
  refine ⟨second.connection.trans first.connection, fun closed => ?_, fun opened => ?_,
    first.grows.trans second.grows, ?_⟩
  · exact (second.wire (by rwa [first.connection])).trans (first.wire closed)
  · exact (second.queue (by rwa [first.connection])).trans (first.queue opened)
  · rw [second.order, first.order, List.append_assoc]

theorem extends_sendNow (message : Message) (quiet : message.ordered = [] ∨ o.pendingEventBatch = []) :
    o.Extends (o.sendNow message) message.ordered := by
  have order : ∀ front : List Message, orderedIds (front ++ [message]) ++ o.pendingEventBatch =
      orderedIds front ++ o.pendingEventBatch ++ message.ordered := by
    intro front
    rw [orderedIds_append]
    rcases quiet with none | none <;> simp [orderedIds, none]
  unfold sendNow
  split
  · rename_i opened
    refine ⟨rfl, fun closed => ?_, fun _ => rfl, ?_, ?_⟩
    · rw [opened] at closed
      cases closed
    · simp only [out, opened, if_true]
      exact List.prefix_append _ _
    · simp only [out, opened, if_true]
      exact order o.wire
  · rename_i closed
    refine ⟨rfl, fun _ => rfl, fun opened => (closed opened).elim, ?_, ?_⟩
    · simp only [out, closed]
      exact List.prefix_append _ _
    · simp only [out, closed]
      exact order o.messageQueue

theorem sendNow_frame (o : Outbox) (message : Message) :
    (o.sendNow message).pendingEventBatch = o.pendingEventBatch ∧
    (o.sendNow message).sent = o.sent ∧
    (o.sendNow message).eventBatchFlushScheduled = o.eventBatchFlushScheduled := by
  unfold sendNow
  split <;> exact ⟨rfl, rfl, rfl⟩

theorem sendAll_frame : (messages.foldl sendNow o).pendingEventBatch = o.pendingEventBatch ∧
    (messages.foldl sendNow o).sent = o.sent ∧
    (messages.foldl sendNow o).eventBatchFlushScheduled = o.eventBatchFlushScheduled := by
  induction messages generalizing o with
  | nil => exact ⟨rfl, rfl, rfl⟩
  | cons message rest ih =>
    obtain ⟨pending, sent, scheduled⟩ := sendNow_frame o message
    obtain ⟨pending', sent', scheduled'⟩ := ih (o := o.sendNow message)
    exact ⟨pending'.trans pending, sent'.trans sent, scheduled'.trans scheduled⟩

theorem extends_sendAll (messages : List Message) (quiet : orderedIds messages = [] ∨ o.pendingEventBatch = []) :
    o.Extends (messages.foldl sendNow o) (orderedIds messages) := by
  induction messages generalizing o with
  | nil => exact .refl
  | cons message rest ih =>
    have split : orderedIds (message :: rest) = message.ordered ++ orderedIds rest := List.flatMap_cons
    rw [split] at quiet ⊢
    refine (extends_sendNow message (quiet.imp_left fun none => (List.append_eq_nil_iff.mp none).1)).trans (ih ?_)
    rw [(sendNow_frame _ _).1]
    exact quiet.imp_left fun none => (List.append_eq_nil_iff.mp none).2

theorem orderedIds_splice {fuel : Nat} {events : List Nat} (enough : events.length ≤ fuel) :
    orderedIds (splice fuel events) = events := by
  induction fuel generalizing events with
  | zero =>
    rw [List.eq_nil_of_length_eq_zero (Nat.le_zero.mp enough)]
    rfl
  | succ fuel ih =>
    cases events with
    | nil => rfl
    | cons event rest =>
      have shorter : ((event :: rest).drop eventBatchMaxSize).length ≤ fuel := by
        rw [List.length_drop]
        simp only [eventBatchMaxSize, List.length_cons] at enough ⊢
        omega
      show (event :: rest).take eventBatchMaxSize ++ orderedIds (splice fuel _) = _
      rw [ih shorter, List.take_append_drop]

/-- The buffer goes where messages go. -/
theorem extends_flush : o.Extends o.flushPendingEventBatch [] := by
  unfold flushPendingEventBatch
  have sent := extends_sendAll (o := { o with pendingEventBatch := [] })
    (splice o.pendingEventBatch.length o.pendingEventBatch) (.inr rfl)
  refine ⟨sent.connection, sent.wire, sent.queue, sent.grows, ?_⟩
  rw [sent.order, orderedIds_splice (Nat.le_refl _)]
  simp [out]

theorem flush_frame : o.flushPendingEventBatch.pendingEventBatch = [] ∧
    o.flushPendingEventBatch.sent = o.sent ∧
    o.flushPendingEventBatch.eventBatchFlushScheduled = o.eventBatchFlushScheduled := sendAll_frame

/-- Events wait in the buffer only while a microtask is to come. -/
def Buffered (o : Outbox) : Prop := o.eventBatchFlushScheduled = false → o.pendingEventBatch = []

/-- What is sent is numbered on from what was sent before. -/
structure Sends (o after : Outbox) (new : List Nat) : Prop where
  extending : o.Extends after new
  ascending : new.Pairwise (· < ·)
  numbered : ∀ id ∈ new, o.sent ≤ id ∧ id < after.sent
  counted : o.sent ≤ after.sent
  buffered : o.Buffered → after.Buffered

theorem Sends.refl : o.Sends o [] :=
  ⟨.refl, .nil, fun _ among => (nomatch among), Nat.le_refl _, id⟩

theorem Sends.trans (first : o.Sends mid new) (second : mid.Sends after more) : o.Sends after (new ++ more) := by
  refine ⟨first.extending.trans second.extending, ?_, fun id among => ?_, ?_, ?_⟩
  · refine List.pairwise_append.mpr ⟨first.ascending, second.ascending, fun id among later amongLater => ?_⟩
    have before := first.numbered id among
    have behind := second.numbered later amongLater
    omega
  · have counted := first.counted
    have counted' := second.counted
    rcases List.mem_append.mp among with among | among
    · have bounds := first.numbered id among
      omega
    · have bounds := second.numbered id among
      omega
  · exact Nat.le_trans first.counted second.counted
  · exact fun buffered => second.buffered (first.buffered buffered)

theorem numbered_ascending (sent : Nat) (pulses : List Bool) (pulse : Bool) :
    (numbered sent pulses pulse).Pairwise (· < ·) ∧
      ∀ id ∈ numbered sent pulses pulse, sent ≤ id ∧ id < sent + pulses.length := by
  induction pulses generalizing sent with
  | nil => exact ⟨.nil, fun _ among => nomatch among⟩
  | cons first rest ih =>
    obtain ⟨ascending, bounds⟩ := ih (sent + 1)
    have cons : numbered sent (first :: rest) pulse =
        if first = pulse then sent :: numbered (sent + 1) rest pulse else numbered (sent + 1) rest pulse := by
      unfold numbered
      rw [List.zipIdx_cons, List.filterMap_cons]
      split <;> split <;> simp_all
    rw [cons, List.length_cons]
    split
    · refine ⟨List.pairwise_cons.mpr ⟨fun id among => ?_, ascending⟩, fun id among => ?_⟩
      · have bound := bounds id among
        omega
      · rcases List.mem_cons.mp among with rfl | among
        · omega
        · have bound := bounds id among
          omega
    · refine ⟨ascending, fun id among => ?_⟩
      have bound := bounds id among
      omega

theorem sendMessage_sends {id : Nat} (single : message.ordered = [id]) (alone : message.isBatch = false)
    (isNext : id = o.sent) : o.Sends ({ o with sent := o.sent + 1 }.sendMessage message) [id] := by
  have flushed := extends_flush (o := { o with sent := o.sent + 1 })
  have empty := flush_frame (o := { o with sent := o.sent + 1 })
  have added := extends_sendNow message (.inr empty.1)
  have frame := sendNow_frame (flushPendingEventBatch { o with sent := o.sent + 1 }) message
  have counted : (sendMessage { o with sent := o.sent + 1 } message).sent = o.sent + 1 := by
    simp only [sendMessage, alone, Bool.false_eq_true, if_false]
    rw [frame.2.1, empty.2.1]
  have sending := flushed.trans added
  rw [single, List.nil_append] at sending
  refine ⟨?_, List.pairwise_singleton _ _, fun other among => ?_, by rw [counted]; omega, fun _ _ => ?_⟩
  · simp only [sendMessage, alone, Bool.false_eq_true, if_false]
    exact ⟨sending.connection, sending.wire, sending.queue, sending.grows, sending.order⟩
  · rw [List.mem_singleton.mp among, counted]
    omega
  · simp only [sendMessage, alone, Bool.false_eq_true, if_false]
    rw [frame.1, empty.1]

theorem pulse_ordered (pulses : List Nat) : orderedIds (pulses.map .pulse) = [] := by
  induction pulses with
  | nil => rfl
  | cons pulse rest ih => exact ih

/-- The buffer is flushed, and pulses go behind it. -/
theorem flushPulses_sends (pulses : List Nat) : o.Extends
    ((pulses.map Message.pulse).foldl sendNow o.flushPendingEventBatch) [] ∧
    ((pulses.map Message.pulse).foldl sendNow o.flushPendingEventBatch).pendingEventBatch = [] ∧
    ((pulses.map Message.pulse).foldl sendNow o.flushPendingEventBatch).sent = o.sent := by
  have pulsed := extends_flush.trans (extends_sendAll (o := o.flushPendingEventBatch)
    (pulses.map .pulse) (.inl (pulse_ordered pulses)))
  rw [pulse_ordered] at pulsed
  exact ⟨pulsed, sendAll_frame.1.trans flush_frame.1, sendAll_frame.2.1.trans flush_frame.2.1⟩

theorem sendEventBatch_sends (pulses : List Bool) :
    o.Sends (o.sendEventBatch pulses) (numbered o.sent pulses false) := by
  unfold sendEventBatch
  by_cases none : pulses = []
  · rw [if_pos none, none]
    exact .refl
  rw [if_neg none]
  obtain ⟨ascending, bounds⟩ := numbered_ascending o.sent pulses false
  dsimp only
  have buffering : o.Extends { o with
      pendingEventBatch := o.pendingEventBatch ++ numbered o.sent pulses false
      sent := o.sent + pulses.length } (numbered o.sent pulses false) :=
    ⟨rfl, fun _ => rfl, fun _ => rfl, List.prefix_rfl, (List.append_assoc _ _ _).symm⟩
  split
  · rw [← List.foldl_map (f := Message.pulse) (g := sendNow)]
    obtain ⟨pulsed, empty, counted⟩ := flushPulses_sends (o := { o with
      pendingEventBatch := o.pendingEventBatch ++ numbered o.sent pulses false
      sent := o.sent + pulses.length }) (numbered o.sent pulses true)
    have extending := buffering.trans pulsed
    rw [List.append_nil] at extending
    refine ⟨extending, ascending, ?_, ?_, fun _ _ => empty⟩
    · rw [counted]
      exact bounds
    · rw [counted]
      exact Nat.le_add_right _ _
  · split
    · have extending := buffering.trans extends_flush
      rw [List.append_nil] at extending
      obtain ⟨empty, counted, _⟩ := flush_frame (o := { o with
        pendingEventBatch := o.pendingEventBatch ++ numbered o.sent pulses false
        sent := o.sent + pulses.length })
      refine ⟨extending, ascending, ?_, ?_, fun _ _ => empty⟩
      · rw [counted]
        exact bounds
      · rw [counted]
        exact Nat.le_add_right _ _
    · refine ⟨⟨rfl, fun _ => rfl, fun _ => rfl, List.prefix_rfl, buffering.order⟩, ascending, bounds,
        Nat.le_add_right _ _, fun _ scheduled => nomatch scheduled⟩

theorem perform_sends (o : Outbox) (send : Send) : ∃ new, o.Sends (o.perform send) new := by
  cases send with
  | event pulse =>
    cases pulse with
    | true =>
      obtain ⟨pulsed, empty, counted⟩ := flushPulses_sends (o := { o with sent := o.sent + 1 }) [o.sent]
      refine ⟨[], ⟨pulsed.connection, pulsed.wire, pulsed.queue, pulsed.grows, pulsed.order⟩, .nil,
        fun _ among => (nomatch among), ?_, fun _ _ => empty⟩
      rw [show (o.perform (.event true)).sent = o.sent + 1 from counted]
      exact Nat.le_add_right _ _
    | false => exact ⟨_, sendEventBatch_sends [false]⟩
  | eventBatch pulses => exact ⟨_, sendEventBatch_sends pulses⟩
  | command => exact ⟨_, sendMessage_sends rfl rfl rfl⟩
  | other => exact ⟨_, sendMessage_sends rfl rfl rfl⟩

theorem performAll_sends (o : Outbox) (sends : List Send) : ∃ new, o.Sends (o.performAll sends) new := by
  induction sends generalizing o with
  | nil => exact ⟨[], .refl⟩
  | cons send rest ih =>
    obtain ⟨new, first⟩ := perform_sends o send
    obtain ⟨more, later⟩ := ih (o.perform send)
    exact ⟨new ++ more, first.trans later⟩

/-! ### Messages in order -/

/-- All that has been sent, whether it has arrived or waits. -/
def line (o : Outbox) : List Nat := orderedIds o.wire ++ orderedIds o.messageQueue ++ o.pendingEventBatch

structure InLine (o : Outbox) : Prop where
  ascending : o.line.Pairwise (· < ·)
  below : ∀ id ∈ o.line, id < o.sent
  buffered : o.Buffered

/-- While nothing waits for an open server, what is sent goes to the end of the line. -/
theorem Sends.line (sends : o.Sends after new)
    (steady : o.connection.currentOpen = true → o.messageQueue = []) : after.line = o.line ++ new := by
  have order := sends.extending.order
  unfold Outbox.line
  cases opened : o.connection.currentOpen with
  | true =>
    have queue := (sends.extending.queue opened).trans (steady opened)
    rw [queue, steady opened]
    simpa [out, sends.extending.connection, opened, orderedIds] using order
  | false =>
    rw [sends.extending.wire opened]
    simp only [out, sends.extending.connection, opened, Bool.false_eq_true, if_false] at order
    rw [List.append_assoc, order]
    simp

theorem InLine.sends (inLine : o.InLine) (sends : o.Sends after new)
    (steady : o.connection.currentOpen = true → o.messageQueue = []) : after.InLine ∧ after.Delivers := by
  have same := sends.line steady
  have ascending : after.line.Pairwise (· < ·) := by
    rw [same]
    refine List.pairwise_append.mpr ⟨inLine.ascending, sends.ascending, fun id among later amongLater => ?_⟩
    have before := inLine.below id among
    have behind := sends.numbered later amongLater
    omega
  refine ⟨⟨ascending, fun id among => ?_, sends.buffered inLine.buffered⟩, fun opened => ?_, ?_⟩
  · rw [same] at among
    have counted := sends.counted
    rcases List.mem_append.mp among with among | among
    · have before := inLine.below id among
      omega
    · exact (sends.numbered id among).2
  · rw [sends.extending.connection] at opened
    exact (sends.extending.queue opened).trans (steady opened)
  · unfold Outbox.line at ascending
    rw [List.append_assoc] at ascending
    exact (List.pairwise_append.mp ascending).1

/-- The line stays in order when messages are given up, and whatever becomes of the connection. -/
theorem InLine.given_up (inLine : o.InLine) (connection : Connection) {keep : Message → Bool} :
    InLine { o with messageQueue := o.messageQueue.filter keep, connection } := by
  have sub : (line { o with messageQueue := o.messageQueue.filter keep, connection }).Sublist o.line := by
    refine ((List.Sublist.refl _).append ?_).append (List.Sublist.refl _)
    exact List.Sublist.flatMap List.filter_sublist Message.ordered
  exact ⟨inLine.ascending.sublist sub, fun id among => inLine.below id (sub.subset among), inLine.buffered⟩

/-- What a flush of the queue puts on the wire: the buffer goes before the first message that is not a
batch. -/
def flushed (queue : List Message) (buffer : List Nat) : List Nat :=
  orderedIds (queue.takeWhile Message.isBatch) ++
    if queue.dropWhile Message.isBatch = [] then [] else buffer ++ orderedIds (queue.dropWhile Message.isBatch)

theorem flushed_nil (queue : List Message) : flushed queue [] = orderedIds queue := by
  unfold flushed
  conv_rhs => rw [← List.takeWhile_append_dropWhile (p := Message.isBatch) (l := queue)]
  rw [orderedIds_append]
  split
  · rename_i none
    rw [none]
    rfl
  · rfl

structure Flushes (o after : Outbox) (queue : List Message) : Prop where
  connection : after.connection = o.connection
  waiting : after.messageQueue = o.messageQueue
  wire : orderedIds after.wire = orderedIds o.wire ++ flushed queue o.pendingEventBatch
  buffer : after.pendingEventBatch =
    if queue.dropWhile Message.isBatch = [] then o.pendingEventBatch else []
  sent : after.sent = o.sent
  scheduled : after.eventBatchFlushScheduled = o.eventBatchFlushScheduled

theorem sendNow_open (opened : o.connection.currentOpen = true) :
    o.sendNow message = { o with wire := o.wire ++ [message] } := if_pos opened

theorem flushAll_flushes (queue : List Message) (opened : o.connection.currentOpen = true) :
    o.Flushes (queue.foldl sendMessage o) queue := by
  induction queue generalizing o with
  | nil => exact ⟨rfl, rfl, by simp [flushed, orderedIds], by simp, rfl, rfl⟩
  | cons message rest ih =>
    cases isBatch : message.isBatch with
    | true =>
      have first : o.sendMessage message = { o with wire := o.wire ++ [message] } := by
        rw [sendMessage, if_pos isBatch, sendNow_open opened]
      rw [List.foldl_cons, first]
      have later := ih (o := { o with wire := o.wire ++ [message] }) opened
      refine ⟨later.connection, later.waiting, ?_, ?_, later.sent, later.scheduled⟩
      · rw [later.wire, orderedIds_append]
        simp [flushed, isBatch, orderedIds]
      · rw [later.buffer]
        simp [isBatch]
    | false =>
      have flush := extends_flush (o := o)
      obtain ⟨empty, counted, scheduled⟩ := flush_frame (o := o)
      have opened' : o.flushPendingEventBatch.connection.currentOpen = true := by rwa [flush.connection]
      have first : o.sendMessage message = { o.flushPendingEventBatch with
          wire := o.flushPendingEventBatch.wire ++ [message] } := by
        rw [sendMessage, if_neg (by rw [isBatch]; decide), sendNow_open opened']
      have wire : orderedIds o.flushPendingEventBatch.wire = orderedIds o.wire ++ o.pendingEventBatch := by
        have order := flush.order
        rw [empty] at order
        simpa [out, flush.connection, opened] using order
      rw [List.foldl_cons, first]
      have later := ih (o := { o.flushPendingEventBatch with
        wire := o.flushPendingEventBatch.wire ++ [message] }) opened'
      refine ⟨later.connection.trans flush.connection, later.waiting.trans (flush.queue opened), ?_, ?_,
        later.sent.trans counted, later.scheduled.trans scheduled⟩
      · rw [later.wire]
        dsimp only
        rw [empty, flushed_nil, orderedIds_append, wire]
        simp [flushed, isBatch, orderedIds]
      · rw [later.buffer]
        simp [isBatch, empty]

/-- Nothing that waits is passed by: no socket takes over while messages but commands wait, unless it opens
first, and then callbacks leave what they send behind what waits. -/
def InTurn (o : Outbox) : OutboxEvent → Prop
  | .socket (.opens address) callbacks =>
    o.connection.currentServer = none →
      let called := { o with connection := o.connection.onOpen address }.performAll callbacks
      (orderedIds called.wire = orderedIds o.wire ∨ orderedIds o.messageQueue = []) ∧
        (called.pendingEventBatch = [] ∨ orderedIds (o.messageQueue.dropWhile Message.isBatch) = [])
  | .socket (.closes address) _ =>
    o.connection.FailsOver (.closes address) → o.failPendingCommands.messageQueue = []
  | _ => True

variable {parseAddress : String → Option (String × Nat)} {event : OutboxEvent} {events : List OutboxEvent}

structure Steady (parseAddress : String → Option (String × Nat)) (o : Outbox) : Prop where
  wellFormed : o.connection.WellFormed parseAddress
  opened : o.connection.CurrentOpened
  inLine : o.InLine

theorem ordered_flush {wire early queue rest buffer : List Nat}
    (waiting : (wire ++ (queue ++ rest)).Pairwise (· < ·))
    (new : (wire ++ (early ++ buffer)).Pairwise (· < ·))
    (behind : ∀ id ∈ queue ++ rest, ∀ later ∈ early ++ buffer, id < later) :
    (wire ++ early ++ (queue ++ (buffer ++ rest))).Pairwise (· < ·) ↔
      (early = [] ∨ queue ++ rest = []) ∧ (buffer = [] ∨ rest = []) := by
  constructor
  · intro ascending
    simp only [List.pairwise_append, List.mem_append] at ascending behind
    constructor
    · by_contra both
      rw [not_or] at both
      obtain ⟨id, among⟩ := List.exists_mem_of_ne_nil early both.1
      obtain ⟨other, amongQueue⟩ := List.exists_mem_of_ne_nil _ both.2
      have before := behind other (List.mem_append.mp amongQueue) id (.inl among)
      have after : id < other := by
        refine ascending.2.2 id (.inr among) other ?_
        rcases List.mem_append.mp amongQueue with amongQueue | amongRest
        · exact .inl amongQueue
        · exact .inr (.inr amongRest)
      omega
    · by_contra both
      rw [not_or] at both
      obtain ⟨id, among⟩ := List.exists_mem_of_ne_nil buffer both.1
      obtain ⟨other, amongRest⟩ := List.exists_mem_of_ne_nil rest both.2
      have before := behind other (.inr amongRest) id (.inr among)
      have after := ascending.2.1.2.1.2.2 id among other amongRest
      omega
  · rintro ⟨noneEarly | noneQueued, order⟩
    · subst noneEarly
      rw [List.append_nil]
      rcases order with rfl | rfl
      · exact waiting
      · rw [List.append_nil] at waiting ⊢
        rw [List.append_nil, List.nil_append] at behind
        rw [List.nil_append] at new
        obtain ⟨_, _, before⟩ := List.pairwise_append.mp new
        rw [← List.append_assoc]
        refine List.pairwise_append.mpr ⟨waiting, (List.pairwise_append.mp new).2.1, ?_⟩
        intro id among later amongBuffer
        rcases List.mem_append.mp among with among | among
        · exact before id among later amongBuffer
        · exact behind id among later amongBuffer
    · obtain ⟨rfl, rfl⟩ := List.append_eq_nil_iff.mp noneQueued
      rw [List.nil_append, List.append_nil, List.append_assoc]
      exact new

/-- The queue is flushed to a socket that has just become the current server. -/
theorem delivers_flush {called : Outbox} (inLine : o.InLine) (quiet : o.eventBatchFlushScheduled = false)
    (opened : o.connection.currentOpen = true) (sends : o.Sends called new) :
    (called.flushQueue.Delivers ↔
      (orderedIds called.wire = orderedIds o.wire ∨ orderedIds o.messageQueue = []) ∧
        (called.pendingEventBatch = [] ∨ orderedIds (o.messageQueue.dropWhile Message.isBatch) = [])) ∧
      (called.flushQueue.Delivers → called.flushQueue.InLine) := by
  have queue : called.messageQueue = o.messageQueue := sends.extending.queue opened
  have openedCalled : called.connection.currentOpen = true := by rwa [sends.extending.connection]
  have flush : Flushes { called with messageQueue := [] } called.flushQueue called.messageQueue :=
    flushAll_flushes called.messageQueue openedCalled
  have empty : o.pendingEventBatch = [] := inLine.buffered quiet
  -- What callbacks send is on the wire early or still in the buffer.
  obtain ⟨early, grown⟩ := sends.extending.grows
  have order := sends.extending.order
  simp only [out, opened, openedCalled, if_true] at grown order
  have wire : orderedIds called.wire = orderedIds o.wire ++ orderedIds early := by
    rw [← orderedIds_append, grown]
  have sent : orderedIds early ++ called.pendingEventBatch = new := by
    rw [wire, empty, List.append_nil, List.append_assoc] at order
    exact List.append_cancel_left order
  have split : orderedIds o.messageQueue = orderedIds (o.messageQueue.takeWhile Message.isBatch) ++
      orderedIds (o.messageQueue.dropWhile Message.isBatch) := by
    rw [← orderedIds_append, List.takeWhile_append_dropWhile]
  have waiting := inLine.ascending
  rw [line, empty, List.append_nil, split] at waiting
  have ascending : (orderedIds o.wire ++ (orderedIds early ++ called.pendingEventBatch)).Pairwise (· < ·) := by
    rw [sent]
    refine List.pairwise_append.mpr ⟨(List.pairwise_append.mp waiting).1, sends.ascending, ?_⟩
    intro id among later amongLater
    have below := inLine.below id (List.mem_append_left _ (List.mem_append_left _ among))
    have above := sends.numbered later amongLater
    omega
  have behind : ∀ id ∈ orderedIds o.messageQueue, ∀ later ∈ orderedIds early ++ called.pendingEventBatch,
      id < later := by
    intro id among later amongLater
    rw [sent] at amongLater
    have below := inLine.below id (List.mem_append_left _ (List.mem_append_right _ among))
    have above := sends.numbered later amongLater
    omega
  rw [split] at behind
  have emptied : called.flushQueue.messageQueue = [] := flush.waiting
  have ends : called.flushQueue.line = orderedIds o.wire ++ orderedIds early ++
      (orderedIds (o.messageQueue.takeWhile Message.isBatch) ++
        (called.pendingEventBatch ++ orderedIds (o.messageQueue.dropWhile Message.isBatch))) := by
    rw [line, flush.wire, flush.buffer, emptied, queue, wire, flushed]
    split
    · rename_i none
      simp [none, orderedIds]
    · simp [orderedIds]
  have inOrder : called.flushQueue.Delivers ↔ called.flushQueue.line.Pairwise (· < ·) := by
    constructor
    · intro delivers
      rw [line, emptied, flush.buffer, List.append_assoc]
      refine List.pairwise_append.mpr ⟨delivers.in_order, ?_, ?_⟩
      · split
        · exact (List.pairwise_append.mp (List.pairwise_append.mp ascending).2.1).2.1
        · exact .nil
      · intro id among later amongBuffer
        split at amongBuffer
        · rename_i none
          have amongBuffer : later ∈ called.pendingEventBatch := amongBuffer
          rw [flush.wire, queue, flushed, if_pos (queue ▸ none), List.append_nil] at among
          rcases List.mem_append.mp among with among | among
          · rw [wire, List.mem_append] at among
            rw [← List.append_assoc] at ascending
            exact (List.pairwise_append.mp ascending).2.2 id (List.mem_append.mpr among) later amongBuffer
          · exact behind id (List.mem_append_left _ among) later (List.mem_append_right _ amongBuffer)
        · cases amongBuffer
    · intro sorted
      rw [line, emptied] at sorted
      refine ⟨fun _ => emptied, ?_⟩
      rw [List.append_assoc] at sorted
      exact (List.pairwise_append.mp sorted).1
  constructor
  · rw [inOrder, ends, ordered_flush waiting ascending behind, ← split, wire]
    simp
  · intro delivers
    refine ⟨inOrder.mp delivers, fun id among => ?_, fun scheduled => ?_⟩
    · rw [show called.flushQueue.sent = called.sent from flush.sent]
      have counted := sends.counted
      rw [ends] at among
      have old : id ∈ orderedIds o.wire ++ orderedIds o.messageQueue → id < called.sent := by
        intro among
        have below := inLine.below id (List.mem_append_left _ among)
        omega
      have fresh : id ∈ orderedIds early ++ called.pendingEventBatch → id < called.sent := by
        intro among
        rw [sent] at among
        exact (sends.numbered id among).2
      rw [split] at old
      simp only [List.mem_append] at among old fresh
      tauto
    · rw [flush.buffer]
      split
      · exact sends.buffered inLine.buffered (by rwa [← show _ = called.eventBatchFlushScheduled from flush.scheduled])
      · rfl

theorem InLine.connect (inLine : o.InLine) {connection : Connection} : InLine { o with connection } :=
  ⟨inLine.ascending, inLine.below, inLine.buffered⟩

theorem currentOpen_none {c : Connection} (none : c.currentServer = none) : c.currentOpen = false := by
  rw [Connection.currentOpen, none]

theorem flushQueue_connection (opened : o.connection.currentOpen = true) :
    o.flushQueue.connection = o.connection :=
  (flushAll_flushes (o := { o with messageQueue := [] }) o.messageQueue opened).connection

/-- Without a takeover what is sent meanwhile goes to the end of the line. -/
theorem onSocket_stays {next : Connection} {socketEvent : SocketEvent} (callbacks : List Send)
    (steady : o.Steady parseAddress) (delivers : o.Delivers)
    (stepped : o.connection.step parseAddress socketEvent = some next)
    (stays : ¬o.connection.TakesOver socketEvent) :
    (o.onSocket socketEvent next callbacks).InLine ∧ (o.onSocket socketEvent next callbacks).Delivers ∧
      (o.onSocket socketEvent next callbacks).connection = next := by
  have closed : next.currentOpen = true → o.connection.currentOpen = true := by
    intro opened
    rcases Connection.stays_step steady.wellFormed steady.opened stepped stays with same | none
    · exact same.currentOpen opened
    · rw [currentOpen_none none] at opened
      cases opened
  obtain ⟨failed, isFailed, inLine, waits⟩ : ∃ failed,
      failed = (if o.connection.LosesCurrent socketEvent then o.failPendingCommands else o) ∧
      failed.InLine ∧ (o.messageQueue = [] → failed.messageQueue = []) := by
    refine ⟨_, rfl, ?_, fun none => ?_⟩
    · split
      · exact steady.inLine.given_up o.connection
      · exact steady.inLine
    · split
      · rw [failPendingCommands, none]
        rfl
      · exact none
  obtain ⟨new, sends⟩ := performAll_sends { failed with connection := next } callbacks
  have ends : o.onSocket socketEvent next callbacks = performAll { failed with connection := next } callbacks := by
    unfold onSocket
    rw [← isFailed]
    dsimp only
    split
    · rw [if_neg]
      intro none
      exact stays (.inl (Option.isNone_iff_eq_none.mp none))
    · rfl
  rw [ends]
  obtain ⟨inLine', delivers'⟩ := inLine.connect.sends sends fun opened =>
    waits (delivers.none_waits (closed opened))
  exact ⟨inLine', delivers', sends.extending.connection⟩

/-- The first socket to open is the current server when callbacks run, and then gets what waits. -/
theorem onSocket_opensFirst {next : Connection} (address : String) (callbacks : List Send)
    (inLine : o.InLine) (quiet : o.eventBatchFlushScheduled = false)
    (none : o.connection.currentServer = none) (opened : next.currentOpen = true) :
    ((o.onSocket (.opens address) next callbacks).Delivers ↔
      (orderedIds (performAll { o with connection := next } callbacks).wire = orderedIds o.wire ∨
        orderedIds o.messageQueue = []) ∧
      ((performAll { o with connection := next } callbacks).pendingEventBatch = [] ∨
        orderedIds (o.messageQueue.dropWhile Message.isBatch) = [])) ∧
      ((o.onSocket (.opens address) next callbacks).Delivers →
        (o.onSocket (.opens address) next callbacks).InLine) ∧
      (o.onSocket (.opens address) next callbacks).connection = next := by
  have ends : o.onSocket (.opens address) next callbacks =
      (performAll { o with connection := next } callbacks).flushQueue := by
    unfold onSocket
    simp [Connection.LosesCurrent, none]
  obtain ⟨new, sends⟩ := performAll_sends { o with connection := next } callbacks
  obtain ⟨delivers, kept⟩ := delivers_flush (o := { o with connection := next }) inLine.connect quiet opened sends
  rw [ends]
  refine ⟨delivers, kept, ?_⟩
  rw [flushQueue_connection (by rw [sends.extending.connection]; exact opened), sends.extending.connection]

/-- What waits when another socket takes over is not flushed. -/
theorem onSocket_failsOver {next : Connection} {address : String} (callbacks : List Send)
    (inLine : o.InLine) (current : o.connection.currentServer = some address)
    (opened : next.currentOpen = true) :
    ((o.onSocket (.closes address) next callbacks).Delivers ↔ o.failPendingCommands.messageQueue = []) ∧
      ((o.onSocket (.closes address) next callbacks).Delivers →
        (o.onSocket (.closes address) next callbacks).InLine) ∧
      (o.onSocket (.closes address) next callbacks).connection = next := by
  have ends : o.onSocket (.closes address) next callbacks =
      performAll { o.failPendingCommands with connection := next } callbacks := by
    unfold onSocket
    simp [Connection.LosesCurrent, current]
  obtain ⟨new, sends⟩ := performAll_sends { o.failPendingCommands with connection := next } callbacks
  have kept : (o.onSocket (.closes address) next callbacks).messageQueue =
      o.failPendingCommands.messageQueue := by
    rw [ends]
    exact sends.extending.queue opened
  have openedAfter : (o.onSocket (.closes address) next callbacks).connection = next := by
    rw [ends]
    exact sends.extending.connection
  have delivered : o.failPendingCommands.messageQueue = [] →
      (o.onSocket (.closes address) next callbacks).InLine ∧
        (o.onSocket (.closes address) next callbacks).Delivers := by
    intro none
    rw [ends]
    have given_up : InLine { o.failPendingCommands with connection := next } := inLine.given_up next
    exact given_up.sends sends fun _ => none
  have waits : (o.onSocket (.closes address) next callbacks).Delivers →
      o.failPendingCommands.messageQueue = [] := by
    intro delivers
    rw [← kept]
    exact delivers.none_waits (by rwa [openedAfter])
  exact ⟨⟨waits, fun none => (delivered none).2⟩, fun delivers => (delivered (waits delivers)).1, openedAfter⟩

theorem steady_step (steady : o.Steady parseAddress) (delivers : o.Delivers)
    (stepped : step parseAddress o event = some after) :
    (after.Delivers ↔ o.InTurn event) ∧ (after.Delivers → after.Steady parseAddress) := by
  have keeps : after.connection = o.connection → after.InLine → after.Steady parseAddress := by
    intro same inLine
    exact ⟨by rw [same]; exact steady.wellFormed, by rw [same]; exact steady.opened, inLine⟩
  cases event with
  | send send =>
    cases stepped
    obtain ⟨new, sends⟩ := perform_sends o send
    obtain ⟨inLine, delivers'⟩ := steady.inLine.sends sends delivers.none_waits
    exact ⟨iff_of_true delivers' trivial, fun _ => keeps sends.extending.connection inLine⟩
  | microtask =>
    simp only [step] at stepped
    split at stepped
    · obtain rfl := Option.some.inj stepped
      have flush := extends_flush (o := { o with eventBatchFlushScheduled := false })
      obtain ⟨empty, counted, _⟩ := flush_frame (o := { o with eventBatchFlushScheduled := false })
      have sends : o.Sends (flushPendingEventBatch { o with eventBatchFlushScheduled := false }) [] :=
        ⟨⟨flush.connection, flush.wire, flush.queue, flush.grows, flush.order⟩, .nil,
          fun _ among => (nomatch among), Nat.le_of_eq counted.symm, fun _ _ => empty⟩
      obtain ⟨inLine, delivers'⟩ := steady.inLine.sends sends delivers.none_waits
      exact ⟨iff_of_true delivers' trivial, fun _ => keeps flush.connection inLine⟩
    · cases stepped
  | commandFails id =>
    cases stepped
    refine ⟨iff_of_true ⟨fun opened => ?_, delivers.in_order⟩ trivial, fun _ => keeps rfl ?_⟩
    · show o.messageQueue.filter _ = []
      rw [delivers.none_waits opened]
      rfl
    · exact steady.inLine.given_up o.connection
  | socket socketEvent callbacks =>
    simp only [step] at stepped
    split at stepped
    · cases stepped
    rename_i task
    obtain ⟨next, happened, rfl⟩ := Option.map_eq_some_iff.mp stepped
    have formed := Connection.wellFormed_step steady.wellFormed happened
    have opened := Connection.currentOpened_step steady.wellFormed steady.opened happened
    have settled : ∀ {after : Outbox}, after.connection = next → after.InLine → after.Steady parseAddress := by
      intro after same inLine
      exact ⟨by rw [same]; exact formed, by rw [same]; exact opened, inLine⟩
    by_cases takes : o.connection.TakesOver socketEvent
    · have isOpen := Connection.takesOver_step steady.wellFormed happened takes
      cases socketEvent with
      | opens address =>
        have none : o.connection.currentServer = none := takes.resolve_right id
        have quiet : o.eventBatchFlushScheduled = false := by simpa [isTask] using task
        obtain ⟨delivers', inLine, same⟩ :=
          onSocket_opensFirst address callbacks steady.inLine quiet none isOpen
        refine ⟨delivers'.trans ?_, fun delivers => settled same (inLine delivers)⟩
        have isNext : next = o.connection.onOpen address := by
          simp only [Connection.step] at happened
          split at happened
          · exact (Option.some.inj happened).symm
          · cases happened
        rw [isNext]
        exact ⟨fun inTurn _ => inTurn, fun inTurn => inTurn none⟩
      | closes address =>
        have fails : o.connection.FailsOver (.closes address) := takes.resolve_left id
        obtain ⟨delivers', inLine, same⟩ :=
          onSocket_failsOver callbacks steady.inLine fails.1 isOpen
        refine ⟨delivers'.trans ?_, fun delivers => settled same (inLine delivers)⟩
        exact ⟨fun inTurn _ => inTurn, fun inTurn => inTurn fails⟩
      | _ => exact (takes.elim id id).elim
    · obtain ⟨inLine, delivers', same⟩ := onSocket_stays callbacks steady delivers happened takes
      refine ⟨iff_of_true delivers' ?_, fun _ => settled same inLine⟩
      cases socketEvent with
      | opens address => exact fun none => (takes (.inl none)).elim
      | closes address => exact fun fails => (takes (.inr fails)).elim
      | _ => trivial

theorem start_steady : start.Steady parseAddress :=
  ⟨Connection.start_wellFormed, fun _ current => (nomatch current), .nil, fun _ among => (nomatch among),
    fun _ => rfl⟩

theorem start_delivers : start.Delivers := ⟨fun opened => (nomatch opened), .nil⟩

/-- In every state of a run nothing waits for the open server and messages have arrived in order, just when
every step is in turn. -/
theorem messages_in_order_iff {last : Outbox} (ran : Runs.run (step parseAddress) start events = some last) :
    Runs.Always (step parseAddress) Delivers start events ↔
      Runs.Each (step parseAddress) InTurn start events :=
  Runs.always_iff_each (Steady parseAddress) ran start_steady start_delivers
    (fun steady delivers stepped held => (steady_step steady delivers stepped).2 held)
    fun steady delivers stepped => (steady_step steady delivers stepped).1

end Outbox

namespace Outbox.Sample

open Connection.Sample

/-- A batch and a subscription wait for the socket to open. -/
def queued : List OutboxEvent :=
  [.socket (.setAddress (some configuredServer)) [], .send (.event false), .send .other, .send (.event false),
    .microtask, .socket (.opens configuredServer) [.event true], .send .command]

theorem queued_in_order : Runs.Always (step parseUrl) Delivers start queued := by
  obtain ⟨last, ran⟩ : ∃ last, Runs.run (step parseUrl) start queued = some last :=
    Option.isSome_iff_exists.mp (by decide)
  refine (messages_in_order_iff ran).mpr ?_
  refine (Runs.each_cons rfl).mpr ⟨trivial, ?_⟩
  refine (Runs.each_cons rfl).mpr ⟨trivial, ?_⟩
  refine (Runs.each_cons rfl).mpr ⟨trivial, ?_⟩
  refine (Runs.each_cons rfl).mpr ⟨trivial, ?_⟩
  refine (Runs.each_cons rfl).mpr ⟨trivial, ?_⟩
  refine (Runs.each_cons rfl).mpr ⟨fun _ => ⟨.inl rfl, .inl rfl⟩, ?_⟩
  exact (Runs.each_cons rfl).mpr ⟨trivial, trivial⟩

/-- The current server is closing when a subscription is sent, and closes with a standby open. -/
def failedOver : List OutboxEvent :=
  [.socket (.setAddress (some configuredServer)) [], .socket (.opens configuredServer) [],
    .socket (.peersAdvertised [peer]) [], .socket (.opens peer) [],
    .socket (.startsClosing configuredServer) [], .send .other, .socket (.closes configuredServer) []]

theorem message_stuck : ∃ last, Runs.run (step parseUrl) start failedOver = some last ∧
    last.connection.currentServer = some peer ∧ last.connection.currentOpen = true ∧
    last.messageQueue = [.other 0] ∧ ¬Runs.Always (step parseUrl) Delivers start failedOver := by
  obtain ⟨last, ran, current, opened, waits⟩ : ∃ last,
      Runs.run (step parseUrl) start failedOver = some last ∧
      last.connection.currentServer = some peer ∧ last.connection.currentOpen = true ∧
      last.messageQueue = [.other 0] := ⟨_, rfl, rfl, rfl, rfl⟩
  refine ⟨last, ran, current, opened, waits, fun always => ?_⟩
  have none := (always.at_end ran).none_waits opened
  rw [waits] at none
  cases none

end Outbox.Sample
end Myko.TypeScript

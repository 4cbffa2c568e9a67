import Mathlib.Algebra.GroupWithZero.Nat
import Mathlib.Logic.Function.Basic
import Myko.Client.AutoSocket

/-!
The native socket while its address is changed: any number of callers of `set_addr` and `send`, the driver that
connects to the address wanted, and the reader and writer of its session.
-/

namespace Myko.Socket.Readdress

inductive SocketConnectionStatus where
  | idle
  | disconnected
  | connecting (addr : String)
  | reconnecting (addr : String)
  | connected (addr : String)
  deriving DecidableEq

def SocketConnectionStatus.current : SocketConnectionStatus → Option String
  | .connecting addr | .reconnecting addr | .connected addr => some addr
  | .idle | .disconnected => none

def intendedStatus : Option String → SocketConnectionStatus
  | none => .idle
  | some addr => .connected addr

structure ConnectionControl where
  generation : Nat
  addr : Option String
  /-- The number of the queue. -/
  outgoing : Nat

structure DesiredConnection where
  generation : Nat
  addr : Option String
  outgoingRx : Option Nat

/-- A frame with the address that was set when `send` had it accepted. -/
structure Queued where
  frame : WsFrame
  accepted : Option String
  deriving DecidableEq

/-- A queue with the address it was made for. -/
structure OutgoingQueue where
  addr : Option String
  frames : List Queued

/-- Where a call of `set_addr` has got to. It goes by the number of the queue it has made. -/
inductive SetAddr where
  | idle
  | entered (addr : Option String) (currentStatus : SocketConnectionStatus)
  | publishing (generation : Nat) (addr : Option String) (made : Nat)
  | checking (generation : Nat) (addr : Option String) (made : Nat)

/-- Where a call of `send` has got to. -/
inductive Send where
  | idle
  | holding (frame : WsFrame) (tx : Nat)

/-- The awaits of `run_driver` and `run_generation`. -/
inductive Driver where
  | top
  | idle
  | attempting (desired : DesiredConnection) (addr : String) (attempt : Nat)
  | parsing (desired : DesiredConnection) (addr : String) (attempt : Nat)
  | connecting (desired : DesiredConnection) (addr : String) (attempt : Nat)
  | opened (desired : DesiredConnection) (addr : String) (attempt : Nat)
  | starting (desired : DesiredConnection) (addr : String) (attempt : Nat)
  | ready (desired : DesiredConnection) (addr : String)
  | running (desired : DesiredConnection) (addr : String)
  | delaying (desired : DesiredConnection) (addr : String) (attempt : Nat)
  | stopping
  | waiting

/-- What the driver has read of the address wanted. -/
def Driver.held : Driver → Option (DesiredConnection × String)
  | .attempting desired addr _ | .parsing desired addr _ | .connecting desired addr _ | .opened desired addr _
  | .starting desired addr _ | .ready desired addr | .running desired addr | .delaying desired addr _ =>
    some (desired, addr)
  | .top | .idle | .stopping | .waiting => none

inductive ReaderTask where
  | reading
  | received (frame : WsFrame)
  | returned

inductive WriterTask where
  | receiving
  | sending (queued : Queued)
  | returned

structure Session where
  generation : Nat
  addr : String
  outgoingRx : Nat
  reader : ReaderTask
  writer : WriterTask
  cancelled : Bool

/-- A frame put on the incoming queue, by the session with that queue, when those calls had returned. -/
structure Delivery where
  frame : WsFrame
  outgoingRx : Nat
  returned : List Nat

/-- A frame written, and the address the session was connected to. -/
structure Write where
  queued : Queued
  addr : String

structure State where
  control : ConnectionControl
  desired : DesiredConnection
  version : Nat
  seen : Nat
  intended : SocketConnectionStatus
  actual : SocketConnectionStatus
  queues : Nat → OutgoingQueue
  callers : Nat → SetAddr
  senders : Nat → Send
  driver : Driver
  session : Option Session
  incoming : List Delivery
  written : List Write
  /-- The calls of `set_addr` that have changed the generation and returned. -/
  returned : List Nat
  /-- The address given to the call that has been let in last. -/
  last : Option String

def start : State where
  control := ⟨0, none, 0⟩
  desired := ⟨0, none, none⟩
  version := 0
  seen := 0
  intended := .idle
  actual := .idle
  queues _ := ⟨none, []⟩
  callers _ := .idle
  senders _ := .idle
  driver := .top
  session := none
  incoming := []
  written := []
  returned := []
  last := none

/-- `parses` is what the URL parser makes of an address. -/
structure Config where
  autoReconnect : Bool
  parses : String → Bool

inductive CallEvent where
  | enter (addr : Option String)
  | change
  | publish
  | check

inductive SendEvent where
  | take (frame : WsFrame)
  | accept
  | refuse

inductive DriverEvent where
  | read
  | changed
  | attempt
  | parse
  | connects
  | connectFails
  | spawns
  | becomesReady
  | failsToStart
  | confirms
  | sessionOver
  | elapses
  | stops

inductive SessionEvent where
  | receives (frame : WsFrame)
  | delivers
  | readerReturns
  | takes
  | writes
  | writeFails
  | writerReturns
  | cancels
  | ends

inductive Event where
  | call (caller : Nat) (event : CallEvent)
  | send (sender : Nat) (event : SendEvent)
  | driver (event : DriverEvent)
  | session (event : SessionEvent)

namespace State

variable (s : State)

def setCaller (caller : Nat) (call : SetAddr) : State := { s with callers := Function.update s.callers caller call }

/-- The number of the next generation, which is kept in 64 bits. -/
def nextGeneration : Nat := (s.control.generation + 1) % 2 ^ 64

/-- A new generation, with a queue of its own. -/
def rotate (addr : Option String) : State :=
  let outgoing := s.control.outgoing + 1
  { s with
    control := ⟨s.nextGeneration, addr, outgoing⟩
    queues := Function.update s.queues outgoing ⟨addr, []⟩
    desired := ⟨s.nextGeneration, addr, addr.map fun _ => outgoing⟩
    version := s.version + 1 }

def callStep (caller : Nat) : CallEvent → Option State
  | .enter addr =>
    match s.callers caller with
    | .idle => some (s.setCaller caller (.entered addr s.actual))
    | _ => none
  | .change =>
    match s.callers caller with
    | .entered addr currentStatus =>
      if s.control.addr = addr ∧ currentStatus.current.isSome ∧ currentStatus.current = addr then
        some ({ s with last := addr }.setCaller caller .idle)
      else
        some (({ s with last := addr }.rotate addr).setCaller caller
          (.publishing s.nextGeneration addr (s.control.outgoing + 1)))
    | _ => none
  | .publish =>
    match s.callers caller with
    | .publishing generation addr made =>
      some ({ s with intended := intendedStatus addr }.setCaller caller (.checking generation addr made))
    | _ => none
  | .check =>
    match s.callers caller with
    | .checking generation _ made =>
      if s.control.generation = generation then
        some ({ s with returned := made :: s.returned }.setCaller caller .idle)
      else some (s.setCaller caller (.publishing s.control.generation s.control.addr made))
    | _ => none

/-- Somebody still has a receiver of the queue. -/
def hasReceiver (queue : Nat) : Bool :=
  s.control.outgoing = queue || s.desired.outgoingRx = some queue ||
    s.driver.held.any (fun held => held.1.outgoingRx = some queue) ||
    s.session.any fun session => session.outgoingRx = queue

def sendStep (sender : Nat) : SendEvent → Option State
  | .take frame =>
    match s.senders sender with
    | .idle => some { s with senders := Function.update s.senders sender (.holding frame s.control.outgoing) }
    | .holding _ _ => none
  | .accept =>
    -- The lock has been given back: the generation may be another one by now.
    match s.senders sender with
    | .holding frame tx =>
      if s.hasReceiver tx ∧ (s.queues tx).frames.length < outgoingQueueCapacity then
        some { s with
          senders := Function.update s.senders sender .idle
          queues := Function.update s.queues tx
            { s.queues tx with frames := (s.queues tx).frames ++ [⟨frame, s.control.addr⟩] } }
      else none
    | .idle => none
  | .refuse =>
    match s.senders sender with
    | .holding _ tx =>
      if s.hasReceiver tx then none else some { s with senders := Function.update s.senders sender .idle }
    | .idle => none

def cancelSession : State := { s with session := s.session.map fun session => { session with cancelled := true } }

/-- After an attempt: another one later, or none until the address is changed. -/
def retry (cfg : Config) (desired : DesiredConnection) (addr : String) (attempt : Nat) : Driver :=
  if cfg.autoReconnect then .delaying desired addr attempt else .waiting

def driverStep (cfg : Config) : DriverEvent → Option State
  | .read =>
    match s.driver with
    | .top =>
      match s.desired.addr with
      | none => some { s with seen := s.version, actual := .idle, driver := .idle }
      | some addr => some { s with seen := s.version, driver := .attempting s.desired addr 0 }
    | _ => none
  | .changed =>
    if s.seen = s.version then none
    else
      match s.driver with
      | .idle | .connecting .. | .delaying .. | .waiting => some { s with seen := s.version, driver := .top }
      | .starting .. | .running .. => some { s.cancelSession with seen := s.version, driver := .stopping }
      | _ => none
  | .attempt =>
    match s.driver with
    | .attempting desired addr attempt =>
      some { s with
        actual := if attempt = 0 then .connecting addr else .reconnecting addr
        driver := .parsing desired addr (attempt + 1) }
    | _ => none
  | .parse =>
    match s.driver with
    | .parsing desired addr attempt =>
      if cfg.parses addr then some { s with driver := .connecting desired addr attempt }
      else if cfg.autoReconnect then some { s with driver := .delaying desired addr attempt }
      else some { s with actual := .disconnected, driver := .waiting }
    | _ => none
  | .connects =>
    match s.driver with
    | .connecting desired addr attempt => some { s with driver := .opened desired addr attempt }
    | _ => none
  | .connectFails =>
    match s.driver with
    | .connecting desired addr attempt =>
      some { s with actual := .disconnected, driver := retry cfg desired addr attempt }
    | _ => none
  | .spawns =>
    match s.driver with
    | .opened desired addr attempt =>
      if s.desired.generation ≠ desired.generation then some { s with driver := .top }
      else
        match desired.outgoingRx with
        | none => some { s with driver := .top }
        | some outgoingRx =>
          some { s with
            session := some ⟨desired.generation, addr, outgoingRx, .reading, .receiving, false⟩
            driver := .starting desired addr attempt }
    | _ => none
  | .becomesReady =>
    match s.driver with
    | .starting desired addr _ => some { s with driver := .ready desired addr }
    | _ => none
  | .failsToStart =>
    match s.driver with
    | .starting desired addr attempt =>
      some { s with session := none, actual := .disconnected, driver := .attempting desired addr attempt }
    | _ => none
  | .confirms =>
    match s.driver with
    | .ready desired addr =>
      if s.desired.generation ≠ desired.generation then some { s.cancelSession with driver := .stopping }
      else some { s with actual := .connected addr, driver := .running desired addr }
    | _ => none
  | .sessionOver =>
    match s.driver, s.session with
    | .running desired addr, none => some { s with actual := .disconnected, driver := retry cfg desired addr 0 }
    | _, _ => none
  | .elapses =>
    match s.driver with
    | .delaying desired addr attempt => some { s with driver := .attempting desired addr attempt }
    | _ => none
  | .stops =>
    match s.driver, s.session with
    | .stopping, none => some { s with driver := .top }
    | _, _ => none

def sessionStep (session : Session) : SessionEvent → Option State
  | .receives frame =>
    match session.reader with
    | .reading => some { s with session := some { session with reader := .received frame } }
    | _ => none
  | .delivers =>
    -- The generation is compared, and the frame put, under the lock.
    match session.reader with
    | .received frame =>
      if s.control.generation = session.generation then
        some { s with
          session := some { session with reader := .reading }
          incoming := s.incoming ++ [⟨frame, session.outgoingRx, s.returned⟩] }
      else some { s with session := some { session with reader := .returned } }
    | _ => none
  | .readerReturns =>
    match session.reader with
    | .reading => some { s with session := some { session with reader := .returned } }
    | _ => none
  | .takes =>
    match session.writer, (s.queues session.outgoingRx).frames with
    | .receiving, queued :: frames =>
      some { s with
        session := some { session with writer := .sending queued }
        queues := Function.update s.queues session.outgoingRx { s.queues session.outgoingRx with frames } }
    | _, _ => none
  | .writes =>
    match session.writer with
    | .sending queued =>
      some { s with
        session := some { session with writer := .receiving }
        written := s.written ++ [⟨queued, session.addr⟩] }
    | _ => none
  | .writeFails =>
    match session.writer with
    | .sending _ => some { s with session := some { session with writer := .returned } }
    | _ => none
  | .writerReturns =>
    -- The writer sees that it is cancelled, or is aborted after that.
    if session.cancelled then some { s with session := some { session with writer := .returned } } else none
  | .cancels =>
    match session.reader, session.writer with
    | .returned, _ | _, .returned => some { s with session := some { session with cancelled := true } }
    | _, _ => none
  | .ends =>
    match session.reader, session.writer with
    | .returned, .returned => some { s with session := none }
    | _, _ => none

end State

def State.step (cfg : Config) (s : State) : Event → Option State
  | .call caller event => s.callStep caller event
  | .send sender event => s.sendStep sender event
  | .driver event => s.driverStep cfg event
  | .session event => s.session.bind fun session => s.sessionStep session event

/-! ### What is promised -/

/-- No session puts a frame on the incoming queue once a call that has changed the generation after it has returned. -/
def NoStaleDelivery (s : State) : Prop :=
  ∀ delivery ∈ s.incoming, ∀ made ∈ delivery.returned, made ≤ delivery.outgoingRx

/-- Frames are written to the address that was set when they were accepted. -/
def OwnAddress (s : State) : Prop := ∀ write ∈ s.written, write.queued.accepted = some write.addr

/-- When no call is under way, the intended status is that of the last address. -/
def Settled (s : State) : Prop := (∀ caller, s.callers caller = .idle) → s.intended = intendedStatus s.last

/-- The number that a generation is given is not one that the session, the driver or another call still goes by. -/
def Unused (s : State) (generation : Nat) : Prop :=
  (∀ session, s.session = some session → session.generation ≠ generation) ∧
  (∀ held, s.driver.held = some held → held.1.generation ≠ generation) ∧
  ∀ caller other addr made,
    s.callers caller = .publishing other addr made ∨ s.callers caller = .checking other addr made →
    other ≠ generation

/-- The numbers of generations do not come round to one in use. -/
def Numbered (s : State) : Event → Prop
  | .call _ .change => Unused s s.nextGeneration
  | _ => True

/-- A frame is accepted only while the address is set that its queue was made for. -/
def Timely (s : State) : Event → Prop
  | .send sender .accept => ∀ frame tx, s.senders sender = .holding frame tx → (s.queues tx).addr = s.control.addr
  | _ => True

/-! ### What holds in every state -/

/-- The queue is one made for the address, and that of the generation if it is the present one. -/
structure Serves (s : State) (generation : Nat) (addr : String) (queue : Nat) : Prop where
  known : queue ≤ s.control.outgoing
  addr : (s.queues queue).addr = some addr
  present : generation = s.control.generation → queue = s.control.outgoing

/-- A call that is still going to publish. -/
def Unfinished (s : State) : SetAddr → Prop
  | .publishing .. => True
  | .checking generation _ _ => generation ≠ s.control.generation
  | .idle | .entered .. => False

/-- What is said of the frames sent needs that they were accepted in time. -/
structure Inv (timely : Prop) (s : State) : Prop where
  desired : s.desired = ⟨s.control.generation, s.control.addr, s.control.addr.map fun _ => s.control.outgoing⟩
  made : (s.queues s.control.outgoing).addr = s.control.addr
  held : ∀ desired addr, s.driver.held = some (desired, addr) → ∀ queue, desired.outgoingRx = some queue →
    Serves s desired.generation addr queue
  session : ∀ session, s.session = some session → Serves s session.generation session.addr session.outgoingRx
  entries : timely → ∀ queue, ∀ queued ∈ (s.queues queue).frames, queued.accepted = (s.queues queue).addr
  sending : timely → ∀ session queued, s.session = some session → session.writer = .sending queued →
    queued.accepted = some session.addr
  calls : ∀ caller generation addr made,
    s.callers caller = .publishing generation addr made ∨ s.callers caller = .checking generation addr made →
    made ≤ s.control.outgoing ∧ (generation = s.control.generation → addr = s.control.addr)
  returned : ∀ made ∈ s.returned, made ≤ s.control.outgoing
  last : s.control.addr = s.last
  told : s.intended = intendedStatus s.control.addr ∨ ∃ caller, Unfinished s (s.callers caller)
  noStale : NoStaleDelivery s
  ownAddress : timely → OwnAddress s

theorem inv_start (timely : Prop) : Inv timely start where
  desired := rfl
  made := rfl
  held desired addr none := by cases none
  session session none := by cases none
  entries _ queue queued none := by cases none
  sending _ session queued none := by cases none
  calls caller generation addr made none := by rcases none with none | none <;> cases none
  returned made none := by cases none
  last := rfl
  told := .inl rfl
  noStale delivery none := by cases none
  ownAddress _ write none := by cases none

theorem Inv.settled {timely : Prop} {s : State} (inv : Inv timely s) : Settled s := by
  intro idle
  rw [← inv.last]
  rcases inv.told with told | ⟨caller, unfinished⟩
  · exact told
  · rw [idle caller] at unfinished
    exact unfinished.elim

section
variable {timely : Prop} {s next : State}

theorem Serves.congr {generation queue : Nat} {addr : String} (serves : Serves s generation addr queue)
    (control : next.control = s.control) (addrs : ∀ queue, (next.queues queue).addr = (s.queues queue).addr) :
    Serves next generation addr queue := by
  obtain ⟨known, own, present⟩ := serves
  refine ⟨?_, ?_, ?_⟩
  · rw [control]
    exact known
  · rw [addrs]
    exact own
  · rw [control]
    exact present

/-- A step of a worker or of `send`: neither the address nor the calls that set it are touched. -/
theorem Inv.worker (inv : Inv timely s) (control : next.control = s.control) (desired : next.desired = s.desired)
    (intended : next.intended = s.intended) (callers : next.callers = s.callers)
    (returned : next.returned = s.returned) (last : next.last = s.last)
    (addrs : ∀ queue, (next.queues queue).addr = (s.queues queue).addr)
    (held : ∀ desired addr, next.driver.held = some (desired, addr) → ∀ queue, desired.outgoingRx = some queue →
      Serves s desired.generation addr queue)
    (session : ∀ session, next.session = some session →
      Serves s session.generation session.addr session.outgoingRx)
    (entries : timely → ∀ queue, ∀ queued ∈ (next.queues queue).frames, queued.accepted = (s.queues queue).addr)
    (sending : timely → ∀ session queued, next.session = some session → session.writer = .sending queued →
      queued.accepted = some session.addr)
    (noStale : NoStaleDelivery next) (ownAddress : timely → OwnAddress next) : Inv timely next where
  desired := by rw [desired, control]; exact inv.desired
  made := by rw [addrs, control]; exact inv.made
  held desired addr holds queue reads := (held desired addr holds queue reads).congr control addrs
  session running is := (session running is).congr control addrs
  entries in_time queue queued among := by rw [addrs]; exact entries in_time queue queued among
  sending := sending
  calls := by rw [callers, control]; exact inv.calls
  returned := by rw [returned, control]; exact inv.returned
  last := by rw [control, last]; exact inv.last
  told := by
    rw [intended, control, callers]
    refine inv.told.imp_right fun ⟨caller, unfinished⟩ => ⟨caller, ?_⟩
    unfold Unfinished at unfinished ⊢
    rw [control]
    exact unfinished
  noStale := noStale
  ownAddress := ownAddress

/-- All that a step of the driver does. -/
theorem driverStep_cases {cfg : Config} {event : DriverEvent} (stepped : s.driverStep cfg event = some next) :
    ∃ seen actual driver session, next = { s with seen, actual, driver, session } ∧
      (driver.held = none ∨ driver.held = s.driver.held ∨
        ∃ addr, s.desired.addr = some addr ∧ driver.held = some (s.desired, addr)) ∧
      (session = none ∨ session = s.session ∨
        session = s.session.map (fun session => { session with cancelled := true }) ∨
        ∃ desired addr outgoingRx, s.driver.held = some (desired, addr) ∧ desired.outgoingRx = some outgoingRx ∧
          session = some ⟨desired.generation, addr, outgoingRx, .reading, .receiving, false⟩) := by
  have retried : ∀ desired addr attempt, s.driver.held = some (desired, addr) →
      (State.retry cfg desired addr attempt).held = none ∨
        (State.retry cfg desired addr attempt).held = s.driver.held := by
    intro desired addr attempt held
    unfold State.retry
    split
    · exact .inr held.symm
    · exact .inl rfl
  cases event with
  | read =>
    simp only [State.driverStep] at stepped
    split at stepped
    · split at stepped
      · cases stepped
        exact ⟨_, _, _, _, rfl, .inl rfl, .inr (.inl rfl)⟩
      · rename_i addr wanted
        cases stepped
        exact ⟨_, _, _, _, rfl, .inr (.inr ⟨addr, wanted, rfl⟩), .inr (.inl rfl)⟩
    · cases stepped
  | changed =>
    simp only [State.driverStep] at stepped
    split at stepped
    · cases stepped
    · split at stepped
      all_goals first
        | cases stepped; done
        | (cases stepped; exact ⟨_, _, _, _, rfl, .inl rfl, .inr (.inl rfl)⟩)
        | (cases stepped; exact ⟨_, _, _, _, rfl, .inl rfl, .inr (.inr (.inl rfl))⟩)
  | attempt =>
    simp only [State.driverStep] at stepped
    split at stepped
    · rename_i here
      cases stepped
      exact ⟨_, _, _, _, rfl, .inr (.inl (by rw [here]; rfl)), .inr (.inl rfl)⟩
    · cases stepped
  | parse =>
    simp only [State.driverStep] at stepped
    split at stepped
    · rename_i here
      split at stepped
      · cases stepped
        exact ⟨_, _, _, _, rfl, .inr (.inl (by rw [here]; rfl)), .inr (.inl rfl)⟩
      · split at stepped
        · cases stepped
          exact ⟨_, _, _, _, rfl, .inr (.inl (by rw [here]; rfl)), .inr (.inl rfl)⟩
        · cases stepped
          exact ⟨_, _, _, _, rfl, .inl rfl, .inr (.inl rfl)⟩
    · cases stepped
  | connects =>
    simp only [State.driverStep] at stepped
    split at stepped
    · rename_i here
      cases stepped
      exact ⟨_, _, _, _, rfl, .inr (.inl (by rw [here]; rfl)), .inr (.inl rfl)⟩
    · cases stepped
  | connectFails =>
    simp only [State.driverStep] at stepped
    split at stepped
    · rename_i here
      cases stepped
      refine ⟨_, _, _, _, rfl, ?_, .inr (.inl rfl)⟩
      exact (retried _ _ _ (by rw [here]; rfl)).imp_right .inl
    · cases stepped
  | spawns =>
    simp only [State.driverStep] at stepped
    split at stepped
    · rename_i here
      split at stepped
      · cases stepped
        exact ⟨_, _, _, _, rfl, .inl rfl, .inr (.inl rfl)⟩
      · split at stepped
        · cases stepped
          exact ⟨_, _, _, _, rfl, .inl rfl, .inr (.inl rfl)⟩
        · rename_i reads
          cases stepped
          exact ⟨_, _, _, _, rfl, .inr (.inl (by rw [here]; rfl)),
            .inr (.inr (.inr ⟨_, _, _, by rw [here]; rfl, reads, rfl⟩))⟩
    · cases stepped
  | becomesReady =>
    simp only [State.driverStep] at stepped
    split at stepped
    · rename_i here
      cases stepped
      exact ⟨_, _, _, _, rfl, .inr (.inl (by rw [here]; rfl)), .inr (.inl rfl)⟩
    · cases stepped
  | failsToStart =>
    simp only [State.driverStep] at stepped
    split at stepped
    · rename_i here
      cases stepped
      exact ⟨_, _, _, _, rfl, .inr (.inl (by rw [here]; rfl)), .inl rfl⟩
    · cases stepped
  | confirms =>
    simp only [State.driverStep] at stepped
    split at stepped
    · rename_i here
      split at stepped
      · cases stepped
        exact ⟨_, _, _, _, rfl, .inl rfl, .inr (.inr (.inl rfl))⟩
      · cases stepped
        exact ⟨_, _, _, _, rfl, .inr (.inl (by rw [here]; rfl)), .inr (.inl rfl)⟩
    · cases stepped
  | sessionOver =>
    simp only [State.driverStep] at stepped
    split at stepped
    · rename_i here _
      cases stepped
      refine ⟨_, _, _, _, rfl, ?_, .inr (.inl rfl)⟩
      exact (retried _ _ _ (by rw [here]; rfl)).imp_right .inl
    · cases stepped
  | elapses =>
    simp only [State.driverStep] at stepped
    split at stepped
    · rename_i here
      cases stepped
      exact ⟨_, _, _, _, rfl, .inr (.inl (by rw [here]; rfl)), .inr (.inl rfl)⟩
    · cases stepped
  | stops =>
    simp only [State.driverStep] at stepped
    split at stepped
    · cases stepped
      exact ⟨_, _, _, _, rfl, .inl rfl, .inr (.inl rfl)⟩
    · cases stepped

theorem inv_driver {cfg : Config} {event : DriverEvent} (inv : Inv timely s)
    (stepped : s.driverStep cfg event = some next) : Inv timely next := by
  obtain ⟨seen, actual, driver, session, rfl, holds, runs⟩ := driverStep_cases stepped
  refine inv.worker rfl rfl rfl rfl rfl rfl (fun _ => rfl) ?_ ?_ inv.entries ?_ inv.noStale inv.ownAddress
  · intro desired addr held queue reads
    dsimp only at held
    rcases holds with none | same | ⟨wanted, is, read⟩
    · rw [none] at held
      cases held
    · rw [same] at held
      exact inv.held desired addr held queue reads
    · rw [read] at held
      cases held
      rw [inv.desired] at is reads ⊢
      dsimp only at is reads ⊢
      rw [is] at reads
      cases reads
      exact ⟨Nat.le_refl _, inv.made.trans is, fun _ => rfl⟩
  · intro running is
    dsimp only at is
    rcases runs with none | same | cancelled | ⟨desired, addr, queue, held, reads, new⟩
    · rw [none] at is
      cases is
    · rw [same] at is
      exact inv.session running is
    · rw [cancelled] at is
      obtain ⟨before, was, rfl⟩ := Option.map_eq_some_iff.mp is
      exact inv.session before was
    · rw [new] at is
      cases is
      exact inv.held desired addr held queue reads
  · intro in_time running queued is sends
    dsimp only at is
    rcases runs with none | same | cancelled | ⟨desired, addr, queue, held, reads, new⟩
    · rw [none] at is
      cases is
    · rw [same] at is
      exact inv.sending in_time running queued is sends
    · rw [cancelled] at is
      obtain ⟨before, was, rfl⟩ := Option.map_eq_some_iff.mp is
      exact inv.sending in_time before queued was sends
    · rw [new] at is
      cases is
      cases sends

theorem inv_session {session : Session} {event : SessionEvent} (inv : Inv timely s) (running : s.session = some session)
    (stepped : s.sessionStep session event = some next) : Inv timely next := by
  have serves := inv.session session running
  have mine : ∀ other : Session, other.generation = session.generation → other.addr = session.addr →
      other.outgoingRx = session.outgoingRx → ∀ is : Session, some other = some is →
        Serves s is.generation is.addr is.outgoingRx := by
    intro other generation addr queue is same
    cases same
    rw [generation, addr, queue]
    exact serves
  -- tasks that only go on
  have goes_on : ∀ other : Session, other.generation = session.generation → other.addr = session.addr →
      other.outgoingRx = session.outgoingRx →
      (∀ queued, other.writer = .sending queued → session.writer = .sending queued) →
      Inv timely { s with session := some other } := by
    intro other generation addr queue writer
    refine inv.worker rfl rfl rfl rfl rfl rfl (fun _ => rfl) inv.held (mine other generation addr queue)
      inv.entries ?_ inv.noStale inv.ownAddress
    intro in_time is queued same sends
    cases same
    rw [addr]
    exact inv.sending in_time session queued running (writer queued sends)
  cases event with
  | receives frame =>
    simp only [State.sessionStep] at stepped
    split at stepped
    · cases stepped
      exact goes_on _ rfl rfl rfl fun _ => id
    · cases stepped
  | delivers =>
    simp only [State.sessionStep] at stepped
    split at stepped
    · split at stepped
      · rename_i present
        cases stepped
        refine inv.worker rfl rfl rfl rfl rfl rfl (fun _ => rfl) inv.held (mine _ rfl rfl rfl) inv.entries ?_ ?_
          inv.ownAddress
        · intro in_time is queued same sends
          cases same
          exact inv.sending in_time session queued running sends
        · intro delivery among made returned
          rcases List.mem_append.mp among with among | new
          · exact inv.noStale delivery among made returned
          · rw [List.mem_singleton.mp new] at returned ⊢
            -- the queue of the present generation is the last one made
            dsimp only at returned ⊢
            rw [serves.present present.symm]
            exact inv.returned made returned
      · cases stepped
        exact goes_on _ rfl rfl rfl fun _ => id
    · cases stepped
  | readerReturns =>
    simp only [State.sessionStep] at stepped
    split at stepped
    · cases stepped
      exact goes_on _ rfl rfl rfl fun _ => id
    · cases stepped
  | takes =>
    simp only [State.sessionStep] at stepped
    split at stepped
    · rename_i queued frames _ waiting
      cases stepped
      have addrs : ∀ queue, (Function.update s.queues session.outgoingRx
          { s.queues session.outgoingRx with frames } queue).addr = (s.queues queue).addr := by
        intro queue
        by_cases here : queue = session.outgoingRx
        · rw [here, Function.update_self]
        · rw [Function.update_of_ne here]
      have first : timely → queued.accepted = (s.queues session.outgoingRx).addr := by
        intro in_time
        apply inv.entries in_time
        rw [waiting]
        exact List.mem_cons_self
      refine inv.worker rfl rfl rfl rfl rfl rfl addrs inv.held (mine _ rfl rfl rfl) ?_ ?_ inv.noStale inv.ownAddress
      · intro in_time queue other among
        dsimp only at among
        by_cases here : queue = session.outgoingRx
        · subst here
          rw [Function.update_self] at among
          apply inv.entries in_time
          rw [waiting]
          exact List.mem_cons_of_mem queued among
        · rw [Function.update_of_ne here] at among
          exact inv.entries in_time queue other among
      · intro in_time is other same sends
        cases same
        cases sends
        exact (first in_time).trans serves.addr
    · cases stepped
  | writes =>
    simp only [State.sessionStep] at stepped
    split at stepped
    · rename_i queued sending
      cases stepped
      refine inv.worker rfl rfl rfl rfl rfl rfl (fun _ => rfl) inv.held (mine _ rfl rfl rfl) inv.entries ?_
        inv.noStale ?_
      · intro _ is other same sends
        cases same
        cases sends
      · intro in_time write among
        rcases List.mem_append.mp among with among | new
        · exact inv.ownAddress in_time write among
        · rw [List.mem_singleton.mp new]
          exact inv.sending in_time session queued running sending
    · cases stepped
  | writeFails =>
    simp only [State.sessionStep] at stepped
    split at stepped
    · cases stepped
      exact goes_on _ rfl rfl rfl fun _ sends => by cases sends
    · cases stepped
  | writerReturns =>
    simp only [State.sessionStep] at stepped
    split at stepped
    · cases stepped
      exact goes_on _ rfl rfl rfl fun _ sends => by cases sends
    · cases stepped
  | cancels =>
    simp only [State.sessionStep] at stepped
    split at stepped
    all_goals first
      | (cases stepped; done)
      | (cases stepped; exact goes_on _ rfl rfl rfl fun _ => id)
  | ends =>
    simp only [State.sessionStep] at stepped
    split at stepped
    · cases stepped
      exact inv.worker rfl rfl rfl rfl rfl rfl (fun _ => rfl) inv.held (fun is none => by cases none) inv.entries
        (fun _ is _ none => by cases none) inv.noStale inv.ownAddress
    · cases stepped

theorem inv_send {sender : Nat} {event : SendEvent} (inv : Inv timely s)
    (in_time : timely → Timely s (.send sender event))
    (stepped : s.sendStep sender event = some next) : Inv timely next := by
  have only_senders : ∀ senders, Inv timely { s with senders } := fun senders =>
    inv.worker rfl rfl rfl rfl rfl rfl (fun _ => rfl) inv.held inv.session inv.entries inv.sending inv.noStale
      inv.ownAddress
  cases event with
  | take frame =>
    simp only [State.sendStep] at stepped
    split at stepped
    · cases stepped
      exact only_senders _
    · cases stepped
  | accept =>
    simp only [State.sendStep] at stepped
    split at stepped
    · rename_i frame tx holding
      split at stepped
      · cases stepped
        have addrs : ∀ queue, (Function.update s.queues tx
            { s.queues tx with frames := (s.queues tx).frames ++ [⟨frame, s.control.addr⟩] } queue).addr =
              (s.queues queue).addr := by
          intro queue
          by_cases here : queue = tx
          · rw [here, Function.update_self]
          · rw [Function.update_of_ne here]
        refine inv.worker rfl rfl rfl rfl rfl rfl addrs inv.held inv.session ?_ inv.sending inv.noStale inv.ownAddress
        intro accepted_in_time queue queued among
        have set := in_time accepted_in_time frame tx holding
        dsimp only at among
        by_cases here : queue = tx
        · subst here
          rw [Function.update_self] at among
          rcases List.mem_append.mp among with among | new
          · exact inv.entries accepted_in_time queue queued among
          · rw [List.mem_singleton.mp new]
            exact set.symm
        · rw [Function.update_of_ne here] at among
          exact inv.entries accepted_in_time queue queued among
      · cases stepped
    · cases stepped
  | refuse =>
    simp only [State.sendStep] at stepped
    split at stepped
    · split at stepped
      · cases stepped
      · cases stepped
        exact only_senders _
    · cases stepped

theorem callers_setCaller_self (s : State) (caller : Nat) (call : SetAddr) :
    (s.setCaller caller call).callers caller = call := Function.update_self ..

theorem callers_setCaller_of_ne (s : State) {caller other : Nat} (elsewhere : other ≠ caller) (call : SetAddr) :
    (s.setCaller caller call).callers other = s.callers other := Function.update_of_ne elsewhere ..

theorem Unfinished.congr {call : SetAddr} (unfinished : Unfinished s call) (control : next.control = s.control) :
    Unfinished next call := by
  unfold Unfinished at unfinished ⊢
  rw [control]
  exact unfinished

/-- A step of a call that leaves the address as it is. -/
theorem Inv.call (inv : Inv timely s) {caller : Nat} {call : SetAddr} {intended : SocketConnectionStatus}
    {returned : List Nat} {last : Option String}
    (own : ∀ generation addr made, call = .publishing generation addr made ∨ call = .checking generation addr made →
      made ≤ s.control.outgoing ∧ (generation = s.control.generation → addr = s.control.addr))
    (done : ∀ made ∈ returned, made ≤ s.control.outgoing) (same : s.control.addr = last)
    (told : intended = intendedStatus s.control.addr ∨ Unfinished s call ∨
      ∃ other, other ≠ caller ∧ Unfinished s (s.callers other)) :
    Inv timely ({ s with intended, returned, last }.setCaller caller call) where
  desired := inv.desired
  made := inv.made
  held desired addr holds queue reads := (inv.held desired addr holds queue reads).congr rfl fun _ => rfl
  session session is := (inv.session session is).congr rfl fun _ => rfl
  entries := inv.entries
  sending := inv.sending
  calls other generation addr made is := by
    by_cases here : other = caller
    · rw [here, callers_setCaller_self] at is
      exact own generation addr made is
    · rw [callers_setCaller_of_ne _ here] at is
      exact inv.calls other generation addr made is
  returned := done
  last := same
  told := by
    rcases told with told | unfinished | ⟨other, elsewhere, unfinished⟩
    · exact .inl told
    · refine .inr ⟨caller, ?_⟩
      rw [callers_setCaller_self]
      exact unfinished.congr rfl
    · refine .inr ⟨other, ?_⟩
      rw [callers_setCaller_of_ne _ elsewhere]
      exact unfinished.congr rfl
  noStale := inv.noStale
  ownAddress := inv.ownAddress

/-- Whoever is to publish is another call, if this one is not. -/
theorem Inv.told_by_another (inv : Inv timely s) {caller : Nat} (finished : ¬Unfinished s (s.callers caller)) :
    s.intended = intendedStatus s.control.addr ∨ ∃ other, other ≠ caller ∧ Unfinished s (s.callers other) := by
  refine inv.told.imp_right fun ⟨other, unfinished⟩ => ⟨other, ?_, unfinished⟩
  rintro rfl
  exact finished unfinished

/-- What serves a generation still serves it when there is a new one with another number. -/
theorem Serves.rotate {generation queue : Nat} {addr : String} (serves : Serves s generation addr queue)
    (other : generation ≠ s.nextGeneration) (next : Option String) :
    Serves (s.rotate next) generation addr queue := by
  have known := serves.known
  unfold State.rotate
  refine ⟨?_, ?_, fun present => absurd present other⟩
  · show queue ≤ s.control.outgoing + 1
    omega
  · show (Function.update s.queues (s.control.outgoing + 1) ⟨next, []⟩ queue).addr = some addr
    rw [Function.update_of_ne (by omega)]
    exact serves.addr

theorem inv_change {caller : Nat} {addr : Option String} (inv : Inv timely s) (unused : Unused s s.nextGeneration) :
    Inv timely (({ s with last := addr }.rotate addr).setCaller caller
      (.publishing s.nextGeneration addr (s.control.outgoing + 1))) where
  desired := rfl
  made := by
    show (Function.update s.queues (s.control.outgoing + 1) ⟨addr, []⟩ (s.control.outgoing + 1)).addr = addr
    rw [Function.update_self]
  held desired addr' holds queue reads := by
    have serves := (inv.held desired addr' holds queue reads).rotate (unused.2.1 _ holds) addr
    exact ⟨serves.known, serves.addr, serves.present⟩
  session session is := by
    have serves := (inv.session session is).rotate (unused.1 session is) addr
    exact ⟨serves.known, serves.addr, serves.present⟩
  entries in_time queue queued among := by
    unfold State.setCaller State.rotate at among ⊢
    dsimp only at among ⊢
    by_cases here : queue = s.control.outgoing + 1
    · rw [here, Function.update_self] at among
      cases among
    · rw [Function.update_of_ne here] at among ⊢
      exact inv.entries in_time queue queued among
  sending := inv.sending
  calls other generation addr' made is := by
    by_cases here : other = caller
    · rw [here, callers_setCaller_self] at is
      rcases is with is | is
      · cases is
        exact ⟨Nat.le_refl _, fun _ => rfl⟩
      · cases is
    · rw [callers_setCaller_of_ne _ here] at is
      have known := (inv.calls other generation addr' made is).1
      refine ⟨?_, fun present => absurd present (unused.2.2 other generation addr' made is)⟩
      show made ≤ s.control.outgoing + 1
      omega
  returned made among := by
    have known := inv.returned made among
    show made ≤ s.control.outgoing + 1
    omega
  last := rfl
  told := by
    refine .inr ⟨caller, ?_⟩
    rw [callers_setCaller_self]
    trivial
  noStale := inv.noStale
  ownAddress := inv.ownAddress

theorem inv_call {caller : Nat} {event : CallEvent} (inv : Inv timely s) (numbered : Numbered s (.call caller event))
    (stepped : s.callStep caller event = some next) : Inv timely next := by
  cases event with
  | enter addr =>
    simp only [State.callStep] at stepped
    split at stepped
    · rename_i here
      cases stepped
      refine inv.call (fun _ _ _ none => ?_) inv.returned inv.last ?_
      · rcases none with none | none <;> cases none
      · exact (inv.told_by_another (by rw [here]; exact id)).imp_right .inr
    · cases stepped
  | change =>
    simp only [State.callStep] at stepped
    split at stepped
    · rename_i addr currentStatus here
      split at stepped
      · rename_i same
        cases stepped
        refine inv.call (fun _ _ _ none => ?_) inv.returned same.1 ?_
        · rcases none with none | none <;> cases none
        · exact (inv.told_by_another (by rw [here]; exact id)).imp_right .inr
      · cases stepped
        exact inv_change inv numbered
    · cases stepped
  | publish =>
    simp only [State.callStep] at stepped
    split at stepped
    · rename_i generation addr made here
      cases stepped
      obtain ⟨known, current⟩ := inv.calls caller generation addr made (.inl here)
      refine inv.call (fun _ _ _ is => ?_) inv.returned inv.last ?_
      · rcases is with is | is
        · cases is
        · cases is
          exact ⟨known, current⟩
      · by_cases present : generation = s.control.generation
        · rw [current present]
          exact .inl rfl
        · exact .inr (.inl present)
    · cases stepped
  | check =>
    simp only [State.callStep] at stepped
    split at stepped
    · rename_i generation addr made here
      obtain ⟨known, current⟩ := inv.calls caller generation addr made (.inr here)
      split at stepped
      · rename_i present
        cases stepped
        refine inv.call (fun _ _ _ none => ?_) (fun other among => ?_) inv.last ?_
        · rcases none with none | none <;> cases none
        · rcases List.mem_cons.mp among with rfl | among
          · exact known
          · exact inv.returned other among
        · -- this call has published what is set now, so that it is not the one to wait for
          refine (inv.told_by_another ?_).imp_right .inr
          rw [here]
          exact fun other => other present.symm
      · cases stepped
        refine inv.call (fun _ _ _ is => ?_) inv.returned inv.last (.inr (.inl trivial))
        rcases is with is | is
        · cases is
          exact ⟨known, fun _ => rfl⟩
        · cases is
    · cases stepped

theorem inv_step {cfg : Config} {event : Event} (inv : Inv timely s) (numbered : Numbered s event)
    (in_time : timely → Timely s event) (stepped : s.step cfg event = some next) : Inv timely next := by
  cases event with
  | call caller event => exact inv_call inv numbered stepped
  | send sender event => exact inv_send inv in_time stepped
  | driver event => exact inv_driver inv stepped
  | session event =>
    obtain ⟨session, running, stepped⟩ := Option.bind_eq_some_iff.mp stepped
    exact inv_session inv running stepped

end

/-- In every run in which no number of a generation comes back while it is in use, nothing is received from an
address that has been given up, and the intended status comes to be that of the last address. If moreover frames
are only accepted for the address that is set, every frame goes to the address set when it was accepted. -/
theorem readdress_safe {cfg : Config} {events : List Event} {s : State}
    (ran : Runs.run (State.step cfg) start events = some s)
    (numbered : Runs.Each (State.step cfg) Numbered start events) :
    Runs.Always (State.step cfg) (fun s => NoStaleDelivery s ∧ Settled s) start events ∧
      (Runs.Each (State.step cfg) (fun s event => Numbered s event ∧ Timely s event) start events →
        Runs.Always (State.step cfg) (fun s => NoStaleDelivery s ∧ OwnAddress s ∧ Settled s) start events) := by
  constructor
  · exact numbered.always ran (inv_start False) (fun inv numbered => inv_step inv numbered False.elim)
      fun inv => ⟨inv.noStale, inv.settled⟩
  · intro orderly
    exact orderly.always ran (inv_start True) (fun inv orderly => inv_step inv orderly.1 fun _ => orderly.2)
      fun inv => ⟨inv.noStale, inv.ownAddress trivial, inv.settled⟩

namespace Sample

def cfg : Config := ⟨true, fun _ => true⟩

def hello : WsFrame := .text "hello"

def setAddr (caller : Nat) (addr : String) : List Event :=
  [.call caller (.enter (some addr)), .call caller .change, .call caller .publish, .call caller .check]

theorem intended_after_setAddr : ∃ s, Runs.run (State.step cfg) start (setAddr 0 "a") = some s ∧
    s.intended = .connected "a" := by
  obtain ⟨s, ran, idle, last⟩ : ∃ s, Runs.run (State.step cfg) start (setAddr 0 "a") = some s ∧
      (∀ caller, s.callers caller = .idle) ∧ s.last = some "a" := by
    refine ⟨_, rfl, fun caller => ?_, rfl⟩
    cases caller <;> rfl
  have unused : ∀ next, start.step cfg (.call 0 (.enter (some "a"))) = some next →
      Numbered next (.call 0 .change) := by
    intro next stepped
    cases stepped
    refine ⟨fun _ none => (by cases none), fun _ none => (by cases none), fun caller _ _ _ none => ?_⟩
    cases caller <;> rcases none with none | none <;> cases none
  have numbered : Runs.Each (State.step cfg) Numbered start (setAddr 0 "a") :=
    ⟨trivial, fun next stepped => ⟨unused next stepped, fun _ _ => ⟨trivial, fun _ _ => ⟨trivial, fun _ _ => trivial⟩⟩⟩⟩
  obtain ⟨-, settled⟩ := (readdress_safe ran numbered).1.at_end ran
  exact ⟨s, ran, by rw [settled idle, last]; rfl⟩

/-- `send` takes the queue of `a`. The call that sets `b` returns, the frame is accepted, and the session with `a`,
which has not been cancelled yet, writes it. -/
def overtaken : List Event :=
  setAddr 0 "a" ++ [.driver .read, .driver .attempt, .driver .parse, .driver .connects, .driver .spawns,
    .driver .becomesReady, .driver .confirms, .send 0 (.take hello)] ++ setAddr 1 "b" ++
    [.send 0 .accept, .session .takes, .session .writes]

theorem frame_for_the_old_address : ∃ s, Runs.run (State.step cfg) start overtaken = some s ∧ ¬OwnAddress s := by
  obtain ⟨s, ran, written⟩ : ∃ s, Runs.run (State.step cfg) start overtaken = some s ∧
      s.written = [⟨⟨hello, some "b"⟩, "a"⟩] := ⟨_, rfl, rfl⟩
  refine ⟨s, ran, fun own => ?_⟩
  have same := own ⟨⟨hello, some "b"⟩, "a"⟩ (by rw [written]; exact List.mem_singleton_self _)
  exact absurd same (by decide)

end Sample
end Myko.Socket.Readdress

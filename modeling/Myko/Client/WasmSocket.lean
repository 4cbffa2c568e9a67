import Mathlib.Data.List.Basic
import Myko.Lib.Runs

/-!
The browser socket. Everything runs on one thread, but whoever watches a status is called while the status is set
and may call the socket again, so calls stand on a stack, each at the status it is just setting.
-/

namespace Myko.Browser
open Runs

inductive SocketConnectionStatus where
  | idle
  | disconnected
  | connecting (addr : String)
  | reconnecting (addr : String)
  | connected (addr : String)
  deriving DecidableEq

/-- A browser socket with the address and the generation its handlers were made for. -/
structure WebSocket where
  id : Nat
  addr : String
  generation : Nat
  deriving DecidableEq

/-- A call, or a browser callback, and the status it is setting. -/
inductive Frame where
  /-- The intended status of `set_addr`, or of `close` where there is no address. -/
  | announcing (addr : Option String)
  /-- The actual status, in `disconnect`. -/
  | disconnecting (addr : Option String)
  /-- The actual status, in `connect`. -/
  | connecting (addr : String) (generation : Nat)
  /-- The actual status, before a reconnect is scheduled. -/
  | lost (addr : String) (generation : Nat)
  /-- The actual status of an open socket, or the callback of a frame received. -/
  | notifying
  deriving DecidableEq

/-- Generations are counted in 64 bits and wrap. -/
def generations : Nat := 0x10000000000000000

structure WasmSocket where
  ws : Option WebSocket
  reconnectTimeout : Option (String × Nat)
  generation : Nat
  intendedAddr : Option String
  intendedStatus : SocketConnectionStatus
  actualStatus : SocketConnectionStatus
  /-- The shared state is mutably borrowed. -/
  borrowed : Bool
  stack : List Frame
  /-- The browser's sockets with handlers. -/
  attached : List WebSocket
  nextId : Nat
  panicked : Bool
  /-- The address of the `set_addr` or `close` that began last. -/
  last : Option String
  /-- The address that a socket was last made for, or tried to be, since the last disconnect. -/
  dialled : Option String

inductive SocketEvent where
  | setAddr (addr : Option String)
  | close
  | send
  | socketOpen (id : Nat)
  | socketMessage (id : Nat)
  | socketClose (id : Nat)
  | timer
  /-- The subscribers have returned and the call on top goes on; whether the browser makes the socket and takes
  the timer. -/
  | resume (created scheduled : Bool)

namespace WasmSocket

def new : WasmSocket where
  ws := none
  reconnectTimeout := none
  generation := 0
  intendedAddr := none
  intendedStatus := .idle
  actualStatus := .idle
  borrowed := false
  stack := []
  attached := []
  nextId := 0
  panicked := false
  last := none
  dialled := none

def isCurrent (s : WasmSocket) (generation : Nat) (addr : String) : Prop :=
  s.generation = generation ∧ s.intendedAddr = some addr

instance (s : WasmSocket) (generation : Nat) (addr : String) : Decidable (s.isCurrent generation addr) :=
  inferInstanceAs (Decidable (_ ∧ _))

def detachSocket (s : WasmSocket) : WasmSocket :=
  match s.ws with
  | none => s
  | some ws => { s with ws := none, attached := s.attached.filter (·.id ≠ ws.id) }

/-- What is done with the shared state borrowed; a panic where it is borrowed already. -/
def borrow (s : WasmSocket) (body : WasmSocket) : WasmSocket :=
  if s.borrowed then { s with panicked := true } else body

def intendedStatusOf : Option String → SocketConnectionStatus
  | none => .idle
  | some addr => .connected addr

def announce (s : WasmSocket) (addr : Option String) : WasmSocket :=
  { s with intendedStatus := intendedStatusOf addr, last := addr, stack := .announcing addr :: s.stack }

/-- Up to the actual status, which is set with the state still borrowed. -/
def disconnect (s : WasmSocket) (addr : Option String) (stack : List Frame) : WasmSocket :=
  let s := { s with generation := (s.generation + 1) % generations, reconnectTimeout := none }.detachSocket
  { s with
    actualStatus := if addr.isSome then .disconnected else .idle
    borrowed := true
    dialled := none
    stack := .disconnecting addr :: stack }

def connect (s : WasmSocket) (addr : String) (generation : Nat) (reconnecting : Bool) : WasmSocket :=
  s.borrow <|
    if s.isCurrent generation addr then
      { s with
        actualStatus := if reconnecting then .reconnecting addr else .connecting addr
        stack := .connecting addr generation :: s.stack }
    else s

/-- The state is released, and the address taken over. -/
def finishDisconnect (s : WasmSocket) (addr : Option String) (stack : List Frame) : WasmSocket :=
  let s := { s with borrowed := false, intendedAddr := addr, stack }
  match addr with
  | none => s
  | some addr => s.connect addr s.generation false

/-- A socket that has come too late is closed without handlers. -/
def finishConnect (s : WasmSocket) (addr : String) (generation : Nat) (created : Bool) : WasmSocket :=
  s.borrow <|
    if s.isCurrent generation addr then
      if created then
        let s := s.detachSocket
        let ws := ⟨s.nextId, addr, generation⟩
        { s with ws := some ws, attached := ws :: s.attached, nextId := s.nextId + 1, dialled := some addr }
      else
        { s with actualStatus := .disconnected, stack := .lost addr generation :: s.stack, dialled := some addr }
    else s

variable (autoReconnect : Bool)

def scheduleReconnect (s : WasmSocket) (addr : String) (generation : Nat) (scheduled : Bool) : WasmSocket :=
  if autoReconnect then
    s.borrow <|
      if s.isCurrent generation addr ∧ scheduled then { s with reconnectTimeout := some (addr, generation) } else s
  else s

/-- A handler of an attached socket, while no call is under way. -/
def handle (s : WasmSocket) (id : Nat) (status : WebSocket → SocketConnectionStatus) (frame : WebSocket → Frame) :
    Option WasmSocket :=
  match s.stack, s.attached.find? fun ws => ws.id = id with
  | [], some ws =>
    some (s.borrow (if s.isCurrent ws.generation ws.addr then
      { s with actualStatus := status ws, stack := [frame ws] } else s))
  | _, _ => none

def step (s : WasmSocket) (event : SocketEvent) : Option WasmSocket :=
  if s.panicked then none
  else
    match event with
    | .setAddr addr => some (s.announce addr)
    | .close => some (s.announce none)
    | .send => some (s.borrow s)
    | .socketOpen id => s.handle id (fun ws => .connected ws.addr) fun _ => .notifying
    | .socketMessage id => s.handle id (fun _ => s.actualStatus) fun _ => .notifying
    | .socketClose id => s.handle id (fun _ => .disconnected) fun ws => .lost ws.addr ws.generation
    | .timer =>
      match s.stack, s.reconnectTimeout with
      | [], some (addr, generation) => some ({ s with reconnectTimeout := none }.connect addr generation true)
      | _, _ => none
    | .resume created scheduled =>
      match s.stack with
      | [] => none
      | .announcing addr :: stack => some (s.borrow (s.disconnect addr stack))
      | .disconnecting addr :: stack => some (s.finishDisconnect addr stack)
      | .connecting addr generation :: stack => some ({ s with stack }.finishConnect addr generation created)
      | .lost addr generation :: stack =>
        some ({ s with stack }.scheduleReconnect autoReconnect addr generation scheduled)
      | .notifying :: stack => some { s with stack }

/-! ### What a socket is for -/

/-- No call has met the state borrowed, one socket is attached at most, and once all calls have returned
everything is the business of the one that began last. -/
structure Converged (s : WasmSocket) : Prop where
  free : s.panicked = false
  single : s.attached.length ≤ 1
  status : s.stack = [] → s.intendedStatus = intendedStatusOf s.last
  addr : s.stack = [] → s.intendedAddr = s.last
  dialled : s.stack = [] → s.dialled = s.last
  sockets : s.stack = [] → ∀ ws ∈ s.attached, s.last = some ws.addr
  timer : s.stack = [] → ∀ entry, s.reconnectTimeout = some entry → s.last = some entry.1

/-- The actual status is being set by `disconnect`. -/
def midDisconnect (s : WasmSocket) : Prop := ∃ addr stack, s.stack = .disconnecting addr :: stack

/-- No call from the subscribers of a disconnect, and none with another address before a call has announced its own. -/
def Undisturbed (s : WasmSocket) : SocketEvent → Prop
  | .setAddr _ | .close | .send => ¬s.midDisconnect
  | .resume _ _ => ∀ addr stack, s.stack = .announcing addr :: stack → s.last = addr
  | _ => True

/-! ### What is kept -/

/-- The state between disconnects. -/
structure Settled (s : WasmSocket) : Prop where
  addr : (∀ addr, .announcing addr ∉ s.stack) → s.intendedAddr = s.last
  socket : ∀ ws, s.ws = some ws → s.intendedAddr = some ws.addr
  timer : ∀ entry, s.reconnectTimeout = some entry → s.intendedAddr = some entry.1
  /-- What is not dialled yet is about to be. -/
  dialled : s.dialled = s.intendedAddr ∨
    s.dialled = none ∧ ∃ addr generation, .connecting addr generation ∈ s.stack ∧ s.isCurrent generation addr

structure Inv (s : WasmSocket) : Prop where
  free : s.panicked = false
  announced : s.intendedStatus = intendedStatusOf s.last
  attached : s.attached = s.ws.toList
  borrowed : s.borrowed = true ↔ s.midDisconnect
  below : ∀ addr, .disconnecting addr ∉ s.stack.tail
  mid : ∀ addr stack, s.stack = .disconnecting addr :: stack →
    s.ws = none ∧ s.reconnectTimeout = none ∧ s.dialled = none ∧ s.last = addr
  settled : s.borrowed = false → s.Settled

variable {s t : WasmSocket} {autoReconnect : Bool} {frame : Frame} {stack : List Frame}

theorem inv_new : Inv new where
  free := rfl
  announced := rfl
  attached := rfl
  borrowed := ⟨nofun, nofun⟩
  below _ := List.not_mem_nil
  mid := nofun
  settled _ := ⟨fun _ => rfl, nofun, nofun, .inl rfl⟩

namespace Inv

theorem converged (inv : Inv s) : Converged s := by
  have settled : s.stack = [] → s.Settled := by
    intro empty
    refine inv.settled (Bool.eq_false_iff.mpr fun borrowed => ?_)
    obtain ⟨addr, stack, same⟩ := inv.borrowed.mp borrowed
    rw [empty] at same
    cases same
  have addr : s.stack = [] → s.intendedAddr = s.last := by
    intro empty
    refine (settled empty).addr fun addr member => ?_
    rw [empty] at member
    cases member
  refine ⟨inv.free, ?_, fun _ => inv.announced, addr, fun empty => ?_, fun empty ws member => ?_,
    fun empty entry waits => ?_⟩
  · rw [inv.attached]
    cases s.ws with
    | none => exact Nat.zero_le 1
    | some ws => exact Nat.le_refl 1
  · rcases (settled empty).dialled with same | ⟨-, other, generation, member, -⟩
    · exact same.trans (addr empty)
    · rw [empty] at member
      cases member
  · rw [inv.attached, Option.mem_toList] at member
    rw [← addr empty]
    exact (settled empty).socket ws member
  · rw [← addr empty]
    exact (settled empty).timer entry waits

/-- Whatever runs other than a disconnect finds the state free. -/
theorem unborrowed (inv : Inv s) (at_stack : s.stack = frame :: stack) (other : ∀ addr, frame ≠ .disconnecting addr) :
    s.borrowed = false := by
  refine Bool.eq_false_iff.mpr fun borrowed => ?_
  obtain ⟨addr, rest, same⟩ := inv.borrowed.mp borrowed
  rw [at_stack] at same
  exact other addr (List.cons.inj same).1

theorem unborrowed_nil (inv : Inv s) (empty : s.stack = []) : s.borrowed = false := by
  refine Bool.eq_false_iff.mpr fun borrowed => ?_
  obtain ⟨addr, rest, same⟩ := inv.borrowed.mp borrowed
  rw [empty] at same
  cases same

/-- Below the call on top no disconnect is under way. -/
theorem not_mid (inv : Inv s) (at_stack : s.stack = frame :: stack) (addr : Option String) :
    .disconnecting addr ∉ stack := by
  have below := inv.below addr
  rw [at_stack] at below
  exact below

end Inv

theorem borrow_free (free : s.borrowed = false) (body : WasmSocket) : s.borrow body = body := by
  unfold borrow
  rw [free]
  rfl

/-- The only socket with handlers is the one kept. -/
theorem detachSocket_eq (attached : s.attached = s.ws.toList) :
    s.detachSocket = { s with ws := none, attached := [] } := by
  unfold detachSocket
  cases ws : s.ws with
  | none =>
    have empty : s.attached = [] := by rw [attached, ws]; rfl
    show s = _
    rw [← ws, ← empty]
  | some socket =>
    have empty : s.attached.filter (·.id ≠ socket.id) = [] := by simp [attached, ws]
    dsimp only
    rw [empty]

theorem not_disconnecting_cons (other : ∀ addr, frame ≠ .disconnecting addr)
    (none : ∀ addr, .disconnecting addr ∉ stack) (addr : Option String) : .disconnecting addr ∉ frame :: stack := by
  intro member
  rcases List.mem_cons.mp member with here | below
  · exact other addr here.symm
  · exact none addr below

/-- With no disconnect under way the state is free. -/
theorem inv_free (free : s.panicked = false) (announced : s.intendedStatus = intendedStatusOf s.last)
    (attached : s.attached = s.ws.toList) (unborrowed : s.borrowed = false)
    (none : ∀ addr, .disconnecting addr ∉ s.stack) (settled : s.Settled) : Inv s where
  free := free
  announced := announced
  attached := attached
  borrowed := by
    rw [unborrowed]
    refine ⟨nofun, ?_⟩
    rintro ⟨addr, stack, same⟩
    exact absurd (same ▸ List.mem_cons_self) (none addr)
  below addr member := none addr (List.mem_of_mem_tail member)
  mid addr stack same := absurd (same ▸ List.mem_cons_self) (none addr)
  settled _ := settled

/-! ### One step -/

/-- Another call on top. -/
theorem Settled.push (settled : s.Settled) (frame : Frame) (actualStatus : SocketConnectionStatus) :
    Settled { s with actualStatus, stack := frame :: s.stack } where
  addr quiet := settled.addr fun addr member => quiet addr (List.mem_cons_of_mem _ member)
  socket := settled.socket
  timer := settled.timer
  dialled := by
    rcases settled.dialled with same | ⟨none, addr, generation, member, current⟩
    · exact .inl same
    · exact .inr ⟨none, addr, generation, List.mem_cons_of_mem _ member, current⟩

/-- The call on top returns, with nothing left for it to dial. -/
theorem Settled.pop (settled : s.Settled) (at_stack : s.stack = frame :: stack)
    (quiet : ∀ addr, frame ≠ .announcing addr)
    (late : ∀ addr generation, frame = .connecting addr generation → ¬s.isCurrent generation addr) :
    Settled { s with stack } where
  addr none := settled.addr fun addr member => by
    rw [at_stack] at member
    rcases List.mem_cons.mp member with here | below
    · exact quiet addr here.symm
    · exact none addr below
  socket := settled.socket
  timer := settled.timer
  dialled := by
    rcases settled.dialled with same | ⟨none, addr, generation, member, current⟩
    · exact .inl same
    · rw [at_stack] at member
      rcases List.mem_cons.mp member with here | below
      · exact absurd current (late addr generation here.symm)
      · exact .inr ⟨none, addr, generation, below, current⟩

/-- Outside a disconnect none is under way below either. -/
theorem Inv.outside (inv : Inv s) (outside : ¬s.midDisconnect) (addr : Option String) :
    .disconnecting addr ∉ s.stack := by
  cases at_stack : s.stack with
  | nil => exact List.not_mem_nil
  | cons frame rest =>
    refine not_disconnecting_cons (fun other same => outside ⟨other, rest, ?_⟩) (inv.not_mid at_stack) addr
    rw [at_stack, same]

theorem inv_announce (inv : Inv s) (outside : ¬s.midDisconnect) (addr : Option String) : Inv (s.announce addr) := by
  have unborrowed : s.borrowed = false := Bool.eq_false_iff.mpr fun borrowed => outside (inv.borrowed.mp borrowed)
  have settled := inv.settled unborrowed
  refine inv_free inv.free rfl inv.attached unborrowed (not_disconnecting_cons (fun _ => nofun) (inv.outside outside))
    ⟨fun quiet => ?_, settled.socket, settled.timer, (settled.push (.announcing addr) s.actualStatus).dialled⟩
  exact absurd List.mem_cons_self (quiet addr)

theorem inv_connect (inv : Inv s) (unborrowed : s.borrowed = false) (none : ∀ addr, .disconnecting addr ∉ s.stack)
    (addr : String) (generation : Nat) (reconnecting : Bool) : Inv (s.connect addr generation reconnecting) := by
  unfold connect
  rw [borrow_free unborrowed]
  split
  · exact inv_free inv.free inv.announced inv.attached unborrowed (not_disconnecting_cons (fun _ => nofun) none)
      ((inv.settled unborrowed).push _ _)
  · exact inv

theorem inv_handle {id : Nat} {status : WebSocket → SocketConnectionStatus} {frameOf : WebSocket → Frame} (inv : Inv s)
    (other : ∀ ws addr, frameOf ws ≠ .disconnecting addr) (handled : s.handle id status frameOf = some t) : Inv t := by
  unfold handle at handled
  split at handled
  · next ws empty found =>
    have unborrowed := inv.unborrowed_nil empty
    rw [borrow_free unborrowed] at handled
    obtain rfl := Option.some.inj handled
    split
    · have pushed := (inv.settled unborrowed).push (frameOf ws) (status ws)
      rw [empty] at pushed
      exact inv_free inv.free inv.announced inv.attached unborrowed
        (not_disconnecting_cons (other ws) fun _ => List.not_mem_nil) pushed
    · exact inv
  · cases handled

theorem inv_timer (inv : Inv s) (empty : s.stack = []) (addr : String) (generation : Nat) :
    Inv ({ s with reconnectTimeout := none }.connect addr generation true) := by
  have unborrowed := inv.unborrowed_nil empty
  have settled := inv.settled unborrowed
  have none : ∀ addr, .disconnecting addr ∉ s.stack := fun addr member => by
    rw [empty] at member
    cases member
  have taken : Inv { s with reconnectTimeout := Option.none } :=
    inv_free inv.free inv.announced inv.attached unborrowed none
      ⟨settled.addr, settled.socket, nofun, settled.dialled⟩
  exact inv_connect taken unborrowed none addr generation true

theorem inv_disconnect {addr : Option String} (inv : Inv s) (at_stack : s.stack = .announcing addr :: stack)
    (latest : s.last = addr) : Inv (s.disconnect addr stack) := by
  unfold disconnect
  rw [detachSocket_eq (show WasmSocket.attached { s with
    generation := (s.generation + 1) % generations, reconnectTimeout := none } = s.ws.toList from inv.attached)]
  refine ⟨inv.free, inv.announced, rfl, ⟨fun _ => ⟨addr, stack, rfl⟩, fun _ => rfl⟩, inv.not_mid at_stack, ?_, nofun⟩
  intro other rest same
  obtain ⟨here, -⟩ := List.cons.inj same
  cases here
  exact ⟨rfl, rfl, rfl, latest⟩

theorem inv_finishDisconnect {addr : Option String} (inv : Inv s) (at_stack : s.stack = .disconnecting addr :: stack) :
    Inv (s.finishDisconnect addr stack) := by
  obtain ⟨gone, timeout, dialled, last⟩ := inv.mid addr stack at_stack
  have none := inv.not_mid at_stack
  unfold finishDisconnect
  cases addr with
  | none =>
    refine inv_free inv.free inv.announced inv.attached rfl none ⟨fun _ => last.symm, fun ws here => ?_,
      fun entry here => ?_, .inl dialled⟩
    · exact absurd (gone.symm.trans here) nofun
    · exact absurd (timeout.symm.trans here) nofun
  | some addr =>
    dsimp only
    unfold connect
    rw [borrow_free rfl, if_pos ⟨rfl, rfl⟩]
    refine inv_free inv.free inv.announced inv.attached rfl (not_disconnecting_cons (fun _ => nofun) none)
      ⟨fun _ => last.symm, fun ws here => ?_, fun entry here => ?_,
        .inr ⟨dialled, addr, s.generation, List.mem_cons_self, rfl, rfl⟩⟩
    · exact absurd (gone.symm.trans here) nofun
    · exact absurd (timeout.symm.trans here) nofun

theorem inv_finishConnect {addr : String} {generation : Nat} (inv : Inv s)
    (at_stack : s.stack = .connecting addr generation :: stack) (created : Bool) :
    Inv ({ s with stack }.finishConnect addr generation created) := by
  have unborrowed := inv.unborrowed at_stack fun _ => nofun
  have settled := inv.settled unborrowed
  have none := inv.not_mid at_stack
  have addressed : (∀ addr, .announcing addr ∉ stack) → s.intendedAddr = s.last := fun quiet =>
    settled.addr fun other member => by
      rw [at_stack] at member
      rcases List.mem_cons.mp member with here | below
      · cases here
      · exact quiet other below
  unfold finishConnect
  have free : ({ s with stack } : WasmSocket).borrowed = false := unborrowed
  rw [borrow_free free]
  split
  · next current =>
    obtain ⟨-, intended⟩ := current
    have intended : s.intendedAddr = some addr := intended
    split
    · rw [detachSocket_eq (show WasmSocket.attached { s with stack } = s.ws.toList from inv.attached)]
      refine inv_free inv.free inv.announced rfl unborrowed none ⟨addressed, fun ws here => ?_, settled.timer,
        .inl intended.symm⟩
      cases here
      exact intended
    · refine inv_free inv.free inv.announced inv.attached unborrowed (not_disconnecting_cons (fun _ => nofun) none)
        ⟨fun quiet => ?_, settled.socket, settled.timer, .inl intended.symm⟩
      exact addressed fun other member => quiet other (List.mem_cons_of_mem _ member)
  · next late =>
    refine inv_free inv.free inv.announced inv.attached unborrowed none
      (settled.pop at_stack (fun _ => nofun) fun other at_generation same => ?_)
    cases same
    exact late

theorem inv_scheduleReconnect {addr : String} {generation : Nat} (inv : Inv s)
    (at_stack : s.stack = .lost addr generation :: stack) (scheduled : Bool) :
    Inv ({ s with stack }.scheduleReconnect autoReconnect addr generation scheduled) := by
  have unborrowed := inv.unborrowed at_stack fun _ => nofun
  have settled := (inv.settled unborrowed).pop at_stack (fun _ => nofun) fun _ _ => nofun
  have free : ({ s with stack } : WasmSocket).borrowed = false := unborrowed
  have returned : Inv { s with stack } :=
    inv_free inv.free inv.announced inv.attached unborrowed (inv.not_mid at_stack) settled
  unfold scheduleReconnect
  rw [borrow_free free]
  split
  · split
    · next current =>
      refine inv_free inv.free inv.announced inv.attached unborrowed (inv.not_mid at_stack)
        ⟨settled.addr, settled.socket, fun entry waits => ?_, settled.dialled⟩
      cases waits
      exact current.1.2
    · exact returned
  · exact returned

theorem inv_step {event : SocketEvent} (inv : Inv s) (undisturbed : s.Undisturbed event)
    (stepped : step autoReconnect s event = some t) : Inv t := by
  have running : ¬s.panicked = true := Bool.eq_false_iff.mp inv.free
  unfold step at stepped
  rw [if_neg running] at stepped
  cases event with
  | setAddr addr =>
    cases stepped
    exact inv_announce inv undisturbed addr
  | close =>
    cases stepped
    exact inv_announce inv undisturbed none
  | send =>
    cases stepped
    rw [borrow_free (Bool.eq_false_iff.mpr fun borrowed => undisturbed (inv.borrowed.mp borrowed))]
    exact inv
  | socketOpen id => exact inv_handle inv (fun _ _ same => by cases same) stepped
  | socketMessage id => exact inv_handle inv (fun _ _ same => by cases same) stepped
  | socketClose id => exact inv_handle inv (fun _ _ same => by cases same) stepped
  | timer =>
    dsimp only at stepped
    split at stepped
    · next addr generation empty _ =>
      cases stepped
      exact inv_timer inv empty addr generation
    · cases stepped
  | resume created scheduled =>
    dsimp only at stepped
    split at stepped
    · cases stepped
    · next addr stack at_stack =>
      cases stepped
      rw [borrow_free (inv.unborrowed at_stack fun _ => nofun)]
      exact inv_disconnect inv at_stack (undisturbed addr stack at_stack)
    · next addr stack at_stack =>
      cases stepped
      exact inv_finishDisconnect inv at_stack
    · next addr generation stack at_stack =>
      cases stepped
      exact inv_finishConnect inv at_stack created
    · next addr generation stack at_stack =>
      cases stepped
      exact inv_scheduleReconnect inv at_stack scheduled
    · next stack at_stack =>
      cases stepped
      have unborrowed := inv.unborrowed at_stack fun _ => nofun
      exact inv_free inv.free inv.announced inv.attached unborrowed (inv.not_mid at_stack)
        ((inv.settled unborrowed).pop at_stack (fun _ => nofun) fun _ _ => nofun)

/-- Whatever the calls, however they nest, and whatever the browser does in between. -/
theorem converges {events : List SocketEvent} (ran : run (step autoReconnect) new events = some t)
    (each : Each (step autoReconnect) Undisturbed new events) : Always (step autoReconnect) Converged new events :=
  each.always ran inv_new inv_step Inv.converged

/-- A subscriber turns to another address while the first is being connected. -/
theorem converges_readdressed : Always (step true) Converged new
    [.setAddr (some "ws://a"), .send, .resume true true, .resume true true, .setAddr (some "ws://b"), .resume true true,
      .resume true true, .resume true true, .resume true true, .socketClose 0, .resume true true, .timer] := by
  have ran : ∃ t, run (step true) new
      [.setAddr (some "ws://a"), .send, .resume true true, .resume true true, .setAddr (some "ws://b"),
        .resume true true, .resume true true, .resume true true, .resume true true, .socketClose 0, .resume true true,
        .timer] = some t := ⟨_, rfl⟩
  obtain ⟨t, ran⟩ := ran
  refine converges ran ?_
  refine (each_cons rfl).mpr ⟨?_, (each_cons rfl).mpr ⟨?_, ?_⟩⟩
  · rintro ⟨_, _, here⟩
    cases here
  · rintro ⟨_, _, here⟩
    cases here
  refine (each_cons rfl).mpr ⟨fun _ _ here => ?_, (each_cons rfl).mpr ⟨fun _ _ here => ?_, ?_⟩⟩
  · cases here
    rfl
  · cases here
  refine (each_cons rfl).mpr ⟨?_, (each_cons rfl).mpr ⟨fun _ _ here => ?_, ?_⟩⟩
  · rintro ⟨_, _, here⟩
    cases here
  · cases here
    rfl
  refine (each_cons rfl).mpr ⟨fun _ _ here => ?_, (each_cons rfl).mpr ⟨fun _ _ here => ?_, ?_⟩⟩
  · cases here
  · cases here
  refine (each_cons rfl).mpr ⟨fun _ _ here => ?_, (each_cons rfl).mpr ⟨trivial, ?_⟩⟩
  · cases here
  refine (each_cons rfl).mpr ⟨fun _ _ here => ?_, (each_cons rfl).mpr ⟨trivial, trivial⟩⟩
  cases here

/-- A subscriber of the intended status turns to another address, and the outer call goes on to its own: the intended
status is that of the later call, the address and the socket that of the earlier. A subscriber that sends while the
socket is being disconnected finds the state borrowed. -/
theorem overtaken_and_borrowed :
    (∃ t, run (step true) new
      [.setAddr (some "ws://a"), .setAddr (some "ws://b"), .resume true true, .resume true true, .resume true true,
        .resume true true, .resume true true, .resume true true] = some t ∧ t.stack = [] ∧
        t.intendedStatus = .connected "ws://b" ∧ t.intendedAddr = some "ws://a" ∧ ¬Converged t) ∧
      ∃ t, run (step true) new [.setAddr (some "ws://a"), .resume true true, .send] = some t ∧ ¬Converged t := by
  refine ⟨⟨_, rfl, rfl, rfl, rfl, fun converged => ?_⟩, ⟨_, rfl, fun converged => ?_⟩⟩
  · exact absurd (converged.addr rfl) (by decide)
  · exact absurd converged.free (by decide)

end WasmSocket

end Myko.Browser

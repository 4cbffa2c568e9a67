import Mathlib.Data.List.Nodup
import Mathlib.Logic.Function.Basic
import Myko.Lib.Runs

/-!
Sockets of the TypeScript client: one for each endpoint, of which one is the current server and the others
are standbys. Configured endpoints are dialled again after a while, discovered ones are not.
-/

namespace Myko.TypeScript

inductive ReadyState where
  | connecting
  | opened
  | closing
  deriving DecidableEq

structure ManagedSocket where
  address : String
  endpointKey : String
  reconnectOnClose : Bool
  readyState : ReadyState
  deriving DecidableEq

structure Connection where
  /-- The sockets in the order they were made. -/
  sockets : List ManagedSocket
  endpointSockets : String → Option String
  /-- The address each pending timer dials. -/
  reconnectTimers : String → Option String
  currentServer : Option String
  shouldReconnect : Bool
  peerDiscoveryEnabled : Bool
  discovering : Bool
  /-- The addresses the application configured since all sockets were closed. -/
  configured : List String

section Endpoints

variable (parseAddress : String → Option (String × Nat))

def loopback : List String := ["localhost", "127.0.0.1", "::1"]

def endpointKey (address : String) : String :=
  match parseAddress address with
  | none => address
  | some (host, port) => (if host ∈ loopback then "localhost" else host) ++ ":" ++ toString port

end Endpoints

inductive SocketEvent where
  | setAddress (address : Option String)
  | setAddresses (addresses : List String)
  | addServers (addresses : List String) (reconnectOnClose : Bool)
  | enablePeerDiscovery (enabled : Bool)
  | disconnect
  | peersAdvertised (addresses : List String)
  | opens (address : String)
  | startsClosing (address : String)
  | closes (address : String)
  | timerFires (endpointKey : String)

namespace Connection

def start : Connection := ⟨[], fun _ => none, fun _ => none, none, true, true, false, []⟩

def socket (c : Connection) (address : String) : Option ManagedSocket :=
  c.sockets.find? fun managed => managed.address = address

def getFirstOpenSocket (c : Connection) : Option ManagedSocket :=
  c.sockets.find? fun managed => managed.readyState = .opened

def hasOpenConnection (c : Connection) : Bool := c.getFirstOpenSocket.isSome

def closeAllSockets (c : Connection) : Connection :=
  { c with
    reconnectTimers := fun _ => none
    endpointSockets := fun _ => none
    sockets := []
    currentServer := none
    configured := [] }

/-- A socket takes the place of an earlier one under its address. -/
def setSocket (sockets : List ManagedSocket) (managed : ManagedSocket) : List ManagedSocket :=
  if sockets.any fun other => other.address = managed.address then
    sockets.map fun other => if other.address = managed.address then managed else other
  else sockets ++ [managed]

def setReadyState (c : Connection) (address : String) (readyState : ReadyState) : Connection :=
  { c with
    sockets := c.sockets.map fun managed =>
      if managed.address = address then { managed with readyState } else managed }

variable (parseAddress : String → Option (String × Nat))

def createSocket (c : Connection) (address : String) (reconnectOnClose : Bool) : Connection :=
  let key := endpointKey parseAddress address
  if (c.endpointSockets key).isSome then c
  else
    { c with
      endpointSockets := Function.update c.endpointSockets key (some address)
      reconnectTimers := Function.update c.reconnectTimers key none
      sockets := setSocket c.sockets ⟨address, key, reconnectOnClose, .connecting⟩ }

def createSockets (c : Connection) (addresses : List String) (reconnectOnClose : Bool) : Connection :=
  addresses.foldl (fun c address => c.createSocket parseAddress address reconnectOnClose) c

def hasConnectionTo (c : Connection) (address : String) : Bool :=
  (c.endpointSockets (endpointKey parseAddress address)).isSome

def setAddress (c : Connection) (address : Option String) : Connection :=
  let closed := { c with shouldReconnect := true }.closeAllSockets
  match address with
  | none => closed
  | some address => { closed with configured := [address] }.createSocket parseAddress address true

def setAddresses (c : Connection) (addresses : List String) : Connection :=
  let closed := { c with shouldReconnect := true }.closeAllSockets
  { closed with configured := addresses }.createSockets parseAddress addresses true

def addServers (c : Connection) (addresses : List String) (reconnectOnClose : Bool) : Connection :=
  addresses.foldl
    (fun c address =>
      if c.hasConnectionTo parseAddress address then c
      else c.createSocket parseAddress address reconnectOnClose)
    { c with
      shouldReconnect := true
      configured := if reconnectOnClose then c.configured ++ addresses else c.configured }

def disconnect (c : Connection) : Connection :=
  { c with shouldReconnect := false, discovering := false }.closeAllSockets

def onOpen (c : Connection) (address : String) : Connection :=
  let c := c.setReadyState address .opened
  match c.currentServer with
  | some _ => c
  | none => { c with currentServer := some address, discovering := c.discovering || c.peerDiscoveryEnabled }

def scheduleReconnect (c : Connection) (address key : String) : Connection :=
  if (c.reconnectTimers key).isSome then c
  else { c with reconnectTimers := Function.update c.reconnectTimers key (some address) }

/-- Only configured sockets are dialled again, and only when no other is open. -/
def retry (c : Connection) (managed : ManagedSocket) : Connection :=
  if managed.reconnectOnClose ∧ c.shouldReconnect ∧ ¬c.hasOpenConnection then
    c.scheduleReconnect managed.address managed.endpointKey
  else c

def remove (c : Connection) (managed : ManagedSocket) : Connection :=
  { c with
    sockets := c.sockets.filter fun other => other.address ≠ managed.address
    endpointSockets := Function.update c.endpointSockets managed.endpointKey none }

def onClose (c : Connection) (managed : ManagedSocket) : Connection :=
  let c := c.remove managed
  if c.currentServer = some managed.address then
    match c.getFirstOpenSocket with
    | some next => { c with currentServer := some next.address }
    | none => { c with currentServer := none }.retry managed
  else c.retry managed

def timerFires (c : Connection) (key address : String) : Connection :=
  let c := { c with reconnectTimers := Function.update c.reconnectTimers key none }
  if c.shouldReconnect ∧ ¬c.hasOpenConnection ∧ ¬(c.endpointSockets key).isSome then
    c.createSocket parseAddress address true
  else c

def step (c : Connection) : SocketEvent → Option Connection
  | .setAddress address => some (c.setAddress parseAddress address)
  | .setAddresses addresses => some (c.setAddresses parseAddress addresses)
  | .addServers addresses reconnectOnClose => some (c.addServers parseAddress addresses reconnectOnClose)
  | .enablePeerDiscovery enabled =>
    some { c with
      peerDiscoveryEnabled := enabled
      discovering := if enabled then c.discovering || c.hasOpenConnection else false }
  | .disconnect => some c.disconnect
  | .peersAdvertised addresses =>
    -- Without addresses the servers are left as they are.
    if c.discovering then
      some (if addresses = [] then c else c.addServers parseAddress addresses false)
    else none
  | .opens address =>
    match c.socket address with
    | some ⟨_, _, _, .connecting⟩ => some (c.onOpen address)
    | _ => none
  | .startsClosing address => (c.socket address).map fun _ => c.setReadyState address .closing
  | .closes address => (c.socket address).map c.onClose
  | .timerFires key => (c.reconnectTimers key).map (c.timerFires parseAddress key)

/-! ### Live connections -/

def Live (managed : ManagedSocket) : Prop := managed.readyState ≠ .closing

def Dialling (c : Connection) : Prop := ∃ key, ∃ address ∈ c.configured, c.reconnectTimers key = some address

def Alive (c : Connection) : Prop := (∃ managed ∈ c.sockets, Live managed) ∨ c.Dialling

def NotStranded (c : Connection) : Prop := c.shouldReconnect = true → c.configured ≠ [] → c.Alive

/-- What keeps the client alive when the socket under an address does not. -/
def AliveWithout (c : Connection) (address : String) : Prop :=
  (∃ managed ∈ c.sockets, managed.address ≠ address ∧ Live managed) ∨ c.Dialling

/-- Neither the last live socket nor the last timer goes without something to take its place. -/
def KeepsAlive (c : Connection) : SocketEvent → Prop
  | .addServers addresses true =>
    addresses ≠ [] → c.Alive ∨ ∃ address ∈ addresses, c.hasConnectionTo parseAddress address = false
  | .startsClosing address => c.configured ≠ [] → c.AliveWithout address
  | .closes address =>
    c.configured ≠ [] → c.AliveWithout address ∨
      ∃ managed ∈ c.sockets, managed.address = address ∧ managed.reconnectOnClose = true
  | .timerFires key =>
    c.configured ≠ [] → (∃ managed ∈ c.sockets, Live managed) ∨
      (∃ other, other ≠ key ∧ ∃ address ∈ c.configured, c.reconnectTimers other = some address) ∨
      c.endpointSockets key = none
  | _ => True

structure WellFormed (c : Connection) : Prop where
  keyed : ∀ managed ∈ c.sockets, managed.endpointKey = endpointKey parseAddress managed.address ∧
    c.endpointSockets managed.endpointKey = some managed.address
  distinct : c.sockets.Pairwise fun managed other => managed.address ≠ other.address
  retried : ∀ managed ∈ c.sockets, managed.reconnectOnClose = true → managed.address ∈ c.configured
  timed : ∀ key address, c.reconnectTimers key = some address →
    key = endpointKey parseAddress address ∧ address ∈ c.configured
  enabled : c.shouldReconnect = false → c.configured = []

variable {parseAddress} {c next : Connection} {address key : String} {addresses : List String}
variable {reconnectOnClose : Bool} {managed : ManagedSocket} {event : SocketEvent} {events : List SocketEvent}

theorem mem_setSocket_self {sockets : List ManagedSocket} : managed ∈ setSocket sockets managed := by
  unfold setSocket
  split
  · rename_i taken
    obtain ⟨other, among, same⟩ := List.any_eq_true.mp taken
    exact List.mem_map.mpr ⟨other, among, if_pos (of_decide_eq_true same)⟩
  · exact List.mem_append_right _ (List.mem_singleton_self managed)

theorem createSocket_taken (taken : c.hasConnectionTo parseAddress address = true) :
    c.createSocket parseAddress address reconnectOnClose = c := if_pos taken

/-- The endpoint of a new socket has none, so it is added behind the others. -/
theorem createSocket_free (wellFormed : c.WellFormed parseAddress)
    (free : c.hasConnectionTo parseAddress address = false) :
    c.createSocket parseAddress address reconnectOnClose =
      { c with
        endpointSockets := Function.update c.endpointSockets (endpointKey parseAddress address) (some address)
        reconnectTimers := Function.update c.reconnectTimers (endpointKey parseAddress address) none
        sockets := c.sockets ++
          [⟨address, endpointKey parseAddress address, reconnectOnClose, .connecting⟩] } := by
  unfold createSocket
  rw [if_neg (by rw [show (c.endpointSockets _).isSome = false from free]; decide)]
  have absent : (c.sockets.any fun other => other.address = address) = false := by
    apply Bool.eq_false_iff.mpr
    intro taken
    obtain ⟨other, among, same⟩ := List.any_eq_true.mp taken
    obtain ⟨key, held⟩ := wellFormed.keyed other among
    rw [key, of_decide_eq_true same] at held
    rw [hasConnectionTo, held] at free
    cases free
  simp only [setSocket, absent, Bool.false_eq_true, if_false]

theorem alive_of_free (free : c.hasConnectionTo parseAddress address = false) :
    (c.createSocket parseAddress address reconnectOnClose).Alive := by
  refine .inl ⟨⟨address, endpointKey parseAddress address, reconnectOnClose, .connecting⟩, ?_, by simp [Live]⟩
  unfold createSocket
  rw [if_neg (by rw [show (c.endpointSockets _).isSome = false from free]; decide)]
  exact mem_setSocket_self

theorem Alive.createSocket (alive : c.Alive) :
    (c.createSocket parseAddress address reconnectOnClose).Alive := by
  cases taken : c.hasConnectionTo parseAddress address with
  | true => rwa [createSocket_taken taken]
  | false => exact alive_of_free taken

theorem Alive.createSockets (alive : c.Alive) :
    (c.createSockets parseAddress addresses reconnectOnClose).Alive := by
  unfold Connection.createSockets
  induction addresses generalizing c with
  | nil => exact alive
  | cons address rest ih => exact ih alive.createSocket

/-- Servers are added as sockets are made; those of taken endpoints are left as they are. -/
theorem addServers_eq : c.addServers parseAddress addresses reconnectOnClose =
    { c with
      shouldReconnect := true
      configured := if reconnectOnClose then c.configured ++ addresses else c.configured }.createSockets
        parseAddress addresses reconnectOnClose := by
  unfold addServers createSockets
  congr 1
  funext c address
  split
  · rename_i taken
    exact (createSocket_taken taken).symm
  · rfl

theorem alive_createSockets_iff : (c.createSockets parseAddress addresses reconnectOnClose).Alive ↔
    c.Alive ∨ ∃ address ∈ addresses, c.hasConnectionTo parseAddress address = false := by
  induction addresses generalizing c with
  | nil => simp [createSockets]
  | cons address rest ih =>
    show ((c.createSocket parseAddress address reconnectOnClose).createSockets parseAddress rest
      reconnectOnClose).Alive ↔ _
    cases taken : c.hasConnectionTo parseAddress address with
    | true =>
      rw [createSocket_taken taken, ih]
      simp [taken]
    | false =>
      exact iff_of_true (alive_of_free taken).createSockets (.inr ⟨address, List.mem_cons_self, taken⟩)

/-! ### What holds in every state -/

theorem start_wellFormed : start.WellFormed parseAddress := by
  refine ⟨fun _ among => (nomatch among), .nil, fun _ among => (nomatch among), fun _ _ same => (nomatch same), ?_⟩
  exact fun disabled => nomatch disabled

theorem WellFormed.createSocket (wellFormed : c.WellFormed parseAddress)
    (configured : reconnectOnClose = true → address ∈ c.configured) :
    (c.createSocket parseAddress address reconnectOnClose).WellFormed parseAddress := by
  cases taken : c.hasConnectionTo parseAddress address with
  | true => rwa [createSocket_taken taken]
  | false =>
    rw [createSocket_free wellFormed taken]
    have free : c.endpointSockets (endpointKey parseAddress address) = none := by
      rwa [hasConnectionTo, Option.isSome_eq_false_iff, Option.isNone_iff_eq_none] at taken
    have other : ∀ managed ∈ c.sockets, managed.endpointKey ≠ endpointKey parseAddress address := by
      intro managed among same
      have held := (wellFormed.keyed managed among).2
      rw [same, free] at held
      cases held
    refine ⟨fun managed among => ?_, ?_, fun managed among reconnects => ?_, fun key timed same => ?_,
      wellFormed.enabled⟩
    · rcases List.mem_append.mp among with among | among
      · obtain ⟨keyed, held⟩ := wellFormed.keyed managed among
        refine ⟨keyed, ?_⟩
        dsimp only
        rw [Function.update_of_ne (other managed among), held]
      · rw [List.mem_singleton.mp among]
        exact ⟨rfl, Function.update_self _ _ _⟩
    · refine List.pairwise_append.mpr ⟨wellFormed.distinct, List.pairwise_singleton _ _, ?_⟩
      intro managed among new isNew
      rw [List.mem_singleton.mp isNew]
      intro same
      exact other managed among ((wellFormed.keyed managed among).1.trans (congrArg _ same))
    · rcases List.mem_append.mp among with among | among
      · exact wellFormed.retried managed among reconnects
      · rw [List.mem_singleton.mp among] at reconnects ⊢
        exact configured reconnects
    · by_cases here : key = endpointKey parseAddress address
      · rw [here] at same
        cases (Function.update_self _ _ _).symm.trans same
      · exact wellFormed.timed key timed ((Function.update_of_ne here _ _).symm.trans same)

theorem createSocket_configured :
    (c.createSocket parseAddress address reconnectOnClose).configured = c.configured := by
  unfold Connection.createSocket
  dsimp only
  split <;> rfl

theorem createSocket_shouldReconnect :
    (c.createSocket parseAddress address reconnectOnClose).shouldReconnect = c.shouldReconnect := by
  unfold Connection.createSocket
  dsimp only
  split <;> rfl

theorem WellFormed.createSockets (wellFormed : c.WellFormed parseAddress)
    (configured : reconnectOnClose = true → ∀ address ∈ addresses, address ∈ c.configured) :
    (c.createSockets parseAddress addresses reconnectOnClose).WellFormed parseAddress := by
  induction addresses generalizing c with
  | nil => exact wellFormed
  | cons address rest ih =>
    refine ih (wellFormed.createSocket fun reconnects => configured reconnects address List.mem_cons_self) ?_
    intro reconnects other among
    rw [createSocket_configured]
    exact configured reconnects other (List.mem_cons_of_mem address among)

theorem createSockets_configured :
    (c.createSockets parseAddress addresses reconnectOnClose).configured = c.configured := by
  induction addresses generalizing c with
  | nil => rfl
  | cons address rest ih => exact ih.trans createSocket_configured

theorem createSockets_shouldReconnect :
    (c.createSockets parseAddress addresses reconnectOnClose).shouldReconnect = c.shouldReconnect := by
  induction addresses generalizing c with
  | nil => rfl
  | cons address rest ih => exact ih.trans createSocket_shouldReconnect

theorem WellFormed.closed (configured : List String) :
    WellFormed parseAddress
      { { c with shouldReconnect := true }.closeAllSockets with configured := configured } := by
  refine ⟨fun _ among => (nomatch among), .nil, fun _ among => (nomatch among), fun _ _ same => (nomatch same), ?_⟩
  exact fun disabled => nomatch disabled

theorem WellFormed.enabling (wellFormed : c.WellFormed parseAddress) {configured : List String}
    (more : ∀ address ∈ c.configured, address ∈ configured) :
    WellFormed parseAddress { c with shouldReconnect := true, configured } := by
  refine ⟨wellFormed.keyed, wellFormed.distinct, fun managed among reconnects => ?_, fun key address same => ?_,
    fun disabled => nomatch disabled⟩
  · exact more _ (wellFormed.retried managed among reconnects)
  · obtain ⟨keyed, configured⟩ := wellFormed.timed key address same
    exact ⟨keyed, more address configured⟩

theorem WellFormed.setReadyState (wellFormed : c.WellFormed parseAddress) (address : String)
    (readyState : ReadyState) :
    (c.setReadyState address readyState).WellFormed parseAddress := by
  refine ⟨fun managed among => ?_, ?_, fun managed among reconnects => ?_, wellFormed.timed, wellFormed.enabled⟩
  · obtain ⟨earlier, present, rfl⟩ := List.mem_map.mp among
    split <;> exact wellFormed.keyed earlier present
  · refine List.pairwise_map.mpr (wellFormed.distinct.imp fun different => ?_)
    split <;> split <;> exact different
  · obtain ⟨earlier, present, rfl⟩ := List.mem_map.mp among
    revert reconnects
    split <;> exact wellFormed.retried earlier present

/-- A socket is removed with the entry of its endpoint. -/
theorem WellFormed.remove (wellFormed : c.WellFormed parseAddress) (among : managed ∈ c.sockets) :
    (c.remove managed).WellFormed parseAddress := by
  refine ⟨fun other kept => ?_, wellFormed.distinct.filter _, fun other kept => ?_, wellFormed.timed,
    wellFormed.enabled⟩
  · obtain ⟨kept, different⟩ := List.mem_filter.mp kept
    have different : other.address ≠ managed.address := of_decide_eq_true different
    obtain ⟨keyed, held⟩ := wellFormed.keyed other kept
    refine ⟨keyed, ?_⟩
    have elsewhere : other.endpointKey ≠ managed.endpointKey := by
      intro same
      have removed := (wellFormed.keyed managed among).2
      rw [← same, held] at removed
      exact different (Option.some.inj removed)
    exact (Function.update_of_ne elsewhere _ _).trans held
  · exact wellFormed.retried other (List.mem_filter.mp kept).1

theorem WellFormed.current (wellFormed : c.WellFormed parseAddress) {server : Option String} :
    WellFormed parseAddress { c with currentServer := server } :=
  ⟨wellFormed.keyed, wellFormed.distinct, wellFormed.retried, wellFormed.timed, wellFormed.enabled⟩

theorem WellFormed.retry (wellFormed : c.WellFormed parseAddress)
    (keyed : managed.endpointKey = endpointKey parseAddress managed.address)
    (configured : managed.reconnectOnClose = true → managed.address ∈ c.configured) :
    (c.retry managed).WellFormed parseAddress := by
  unfold Connection.retry
  split
  · rename_i retries
    unfold Connection.scheduleReconnect
    split
    · exact wellFormed
    · refine ⟨wellFormed.keyed, wellFormed.distinct, wellFormed.retried, fun key address same => ?_,
        wellFormed.enabled⟩
      by_cases here : key = managed.endpointKey
      · subst here
        have timer : Function.update c.reconnectTimers managed.endpointKey (some managed.address)
            managed.endpointKey = some address := same
        rw [Function.update_self] at timer
        cases timer
        exact ⟨keyed, configured retries.1⟩
      · exact wellFormed.timed key address ((Function.update_of_ne here _ _).symm.trans same)
  · exact wellFormed

theorem WellFormed.onClose (wellFormed : c.WellFormed parseAddress) (among : managed ∈ c.sockets) :
    (c.onClose managed).WellFormed parseAddress := by
  have keyed := (wellFormed.keyed managed among).1
  have configured := wellFormed.retried managed among
  have removed := wellFormed.remove among
  unfold Connection.onClose
  dsimp only
  split
  · split
    · exact removed.current
    · exact removed.current.retry keyed configured
  · exact removed.retry keyed configured

theorem retry_frame : (c.retry managed).configured = c.configured ∧
    (c.retry managed).shouldReconnect = c.shouldReconnect := by
  unfold Connection.retry Connection.scheduleReconnect
  split
  · split <;> exact ⟨rfl, rfl⟩
  · exact ⟨rfl, rfl⟩

theorem onClose_frame : (c.onClose managed).configured = c.configured ∧
    (c.onClose managed).shouldReconnect = c.shouldReconnect := by
  unfold Connection.onClose
  dsimp only
  split
  · split
    · exact ⟨rfl, rfl⟩
    · exact retry_frame
  · exact retry_frame

theorem timerFires_frame : (c.timerFires parseAddress key address).configured = c.configured ∧
    (c.timerFires parseAddress key address).shouldReconnect = c.shouldReconnect := by
  unfold timerFires
  dsimp only
  split
  · exact ⟨createSocket_configured, createSocket_shouldReconnect⟩
  · exact ⟨rfl, rfl⟩

theorem WellFormed.same_socket (wellFormed : c.WellFormed parseAddress) {other : ManagedSocket}
    (among : managed ∈ c.sockets) (present : other ∈ c.sockets) (same : managed.address = other.address) :
    managed = other :=
  List.inj_on_of_nodup_map (List.pairwise_map.mpr wellFormed.distinct) among present same

theorem socket_mem (found : c.socket address = some managed) :
    managed ∈ c.sockets ∧ managed.address = address :=
  ⟨List.mem_of_find?_eq_some found, by simpa using List.find?_some found⟩

theorem WellFormed.expire (wellFormed : c.WellFormed parseAddress) :
    WellFormed parseAddress { c with reconnectTimers := Function.update c.reconnectTimers key none } := by
  refine ⟨wellFormed.keyed, wellFormed.distinct, wellFormed.retried, fun other address same => ?_,
    wellFormed.enabled⟩
  by_cases here : other = key
  · rw [here] at same
    cases (Function.update_self _ _ _).symm.trans same
  · exact wellFormed.timed other address ((Function.update_of_ne here _ _).symm.trans same)

theorem wellFormed_step (wellFormed : c.WellFormed parseAddress)
    (stepped : step parseAddress c event = some next) : next.WellFormed parseAddress := by
  cases event with
  | setAddress address =>
    cases stepped
    cases address with
    | none => exact WellFormed.closed []
    | some address =>
      exact (WellFormed.closed [address]).createSocket fun _ => List.mem_singleton_self address
  | setAddresses addresses =>
    cases stepped
    exact (WellFormed.closed addresses).createSockets fun _ _ among => among
  | addServers addresses reconnectOnClose =>
    cases stepped
    rw [addServers_eq]
    cases reconnectOnClose with
    | false => exact (wellFormed.enabling fun _ among => among).createSockets fun no => nomatch no
    | true =>
      refine (wellFormed.enabling fun _ among => List.mem_append_left _ among).createSockets ?_
      exact fun _ _ among => List.mem_append_right _ among
  | enablePeerDiscovery enabled =>
    cases stepped
    exact ⟨wellFormed.keyed, wellFormed.distinct, wellFormed.retried, wellFormed.timed, wellFormed.enabled⟩
  | disconnect =>
    cases stepped
    refine ⟨fun _ among => (nomatch among), .nil, fun _ among => (nomatch among), fun _ _ same => (nomatch same), ?_⟩
    exact fun _ => rfl
  | peersAdvertised addresses =>
    simp only [step] at stepped
    split at stepped
    · obtain rfl := Option.some.inj stepped
      split
      · exact wellFormed
      · rw [addServers_eq]
        exact (wellFormed.enabling fun _ among => among).createSockets fun no => nomatch no
    · cases stepped
  | opens address =>
    simp only [step] at stepped
    split at stepped
    · obtain rfl := Option.some.inj stepped
      have opened := wellFormed.setReadyState address .opened
      unfold onOpen
      dsimp only
      split
      · exact opened
      · exact ⟨opened.keyed, opened.distinct, opened.retried, opened.timed, opened.enabled⟩
    · cases stepped
  | startsClosing address =>
    obtain ⟨_, _, rfl⟩ := Option.map_eq_some_iff.mp stepped
    exact wellFormed.setReadyState address .closing
  | closes address =>
    obtain ⟨managed, found, rfl⟩ := Option.map_eq_some_iff.mp stepped
    exact wellFormed.onClose (socket_mem found).1
  | timerFires key =>
    obtain ⟨address, pending, rfl⟩ := Option.map_eq_some_iff.mp stepped
    unfold timerFires
    dsimp only
    split
    · exact wellFormed.expire.createSocket fun _ => (wellFormed.timed key address pending).2
    · exact wellFormed.expire

/-! ### What keeps the client alive -/

theorem live_of_open (opened : c.hasOpenConnection = true) : ∃ managed ∈ c.sockets, Live managed := by
  obtain ⟨managed, found⟩ := Option.isSome_iff_exists.mp opened
  refine ⟨managed, List.mem_of_find?_eq_some found, ?_⟩
  have isOpen : managed.readyState = .opened := by simpa using List.find?_some found
  rw [Live, isOpen]
  exact fun same => nomatch same

theorem WellFormed.enabled_of_configured (wellFormed : c.WellFormed parseAddress)
    (configured : c.configured ≠ []) : c.shouldReconnect = true := by
  cases enabled : c.shouldReconnect with
  | true => rfl
  | false => exact (configured (wellFormed.enabled enabled)).elim

theorem NotStranded.alive (held : c.NotStranded) (wellFormed : c.WellFormed parseAddress)
    (configured : c.configured ≠ []) : c.Alive :=
  held (wellFormed.enabled_of_configured configured) configured

theorem WellFormed.alive_enabling (wellFormed : c.WellFormed parseAddress) (configured : List String)
    (more : ∀ address ∈ c.configured, address ∈ configured) :
    Alive { c with shouldReconnect := true, configured } ↔ c.Alive := by
  refine or_congr_right ⟨?_, ?_⟩
  · rintro ⟨key, address, _, timer⟩
    exact ⟨key, address, (wellFormed.timed key address timer).2, timer⟩
  · rintro ⟨key, address, among, timer⟩
    exact ⟨key, address, more address among, timer⟩

theorem alive_startsClosing : (c.setReadyState address .closing).Alive ↔ c.AliveWithout address := by
  refine or_congr_left ⟨?_, ?_⟩
  · rintro ⟨managed, among, live⟩
    obtain ⟨earlier, present, rfl⟩ := List.mem_map.mp among
    by_cases same : earlier.address = address
    · rw [if_pos same] at live
      exact (live rfl).elim
    · rw [if_neg same] at live
      exact ⟨earlier, present, same, live⟩
  · rintro ⟨managed, among, different, live⟩
    exact ⟨managed, List.mem_map.mpr ⟨managed, among, if_neg different⟩, live⟩

theorem alive_remove : (c.remove managed).Alive ↔ c.AliveWithout managed.address := by
  refine or_congr_left ⟨?_, ?_⟩
  · rintro ⟨other, among, live⟩
    obtain ⟨present, different⟩ := List.mem_filter.mp among
    exact ⟨other, present, of_decide_eq_true different, live⟩
  · rintro ⟨other, present, different, live⟩
    exact ⟨other, List.mem_filter.mpr ⟨present, decide_eq_true different⟩, live⟩

theorem Alive.retry (alive : c.Alive) : (c.retry managed).Alive := by
  unfold Connection.retry
  split
  · unfold scheduleReconnect
    split
    · exact alive
    · rename_i idle
      refine alive.imp_right ?_
      rintro ⟨key, address, among, timer⟩
      refine ⟨key, address, among, ?_⟩
      have other : key ≠ managed.endpointKey := by
        rintro rfl
        exact idle (by rw [timer]; rfl)
      exact (Function.update_of_ne other _ _).trans timer
  · exact alive

theorem alive_retry (wellFormed : c.WellFormed parseAddress) (enabled : c.shouldReconnect = true)
    (configured : managed.reconnectOnClose = true → managed.address ∈ c.configured) :
    (c.retry managed).Alive ↔ c.Alive ∨ managed.reconnectOnClose = true := by
  by_cases alive : c.Alive
  · exact iff_of_true alive.retry (.inl alive)
  · rw [or_iff_right alive]
    unfold Connection.retry
    split
    · rename_i retries
      refine iff_of_true (.inr ?_) retries.1
      unfold scheduleReconnect
      split
      · rename_i busy
        obtain ⟨address, timer⟩ := Option.isSome_iff_exists.mp busy
        exact ⟨_, address, (wellFormed.timed _ address timer).2, timer⟩
      · exact ⟨managed.endpointKey, managed.address, configured retries.1, Function.update_self _ _ _⟩
    · rename_i stays
      refine iff_of_false alive fun reconnects => stays ⟨reconnects, enabled, fun opened => ?_⟩
      exact alive (.inl (live_of_open opened))

theorem alive_onClose (wellFormed : c.WellFormed parseAddress) (among : managed ∈ c.sockets)
    (enabled : c.shouldReconnect = true) :
    (c.onClose managed).Alive ↔ c.AliveWithout managed.address ∨ managed.reconnectOnClose = true := by
  have configured := wellFormed.retried managed among
  have removed := wellFormed.remove among
  rw [← alive_remove]
  unfold onClose
  dsimp only
  split
  · split
    · rename_i next found
      obtain ⟨other, live⟩ := live_of_open (c := c.remove managed) (Option.isSome_iff_exists.mpr ⟨next, found⟩)
      exact iff_of_true (.inl ⟨other, live⟩) (.inl (.inl ⟨other, live⟩))
    · exact alive_retry removed.current enabled configured
  · exact alive_retry removed enabled configured

theorem alive_expire :
    Alive { c with reconnectTimers := Function.update c.reconnectTimers key none } ↔
      (∃ managed ∈ c.sockets, Live managed) ∨
        ∃ other, other ≠ key ∧ ∃ address ∈ c.configured, c.reconnectTimers other = some address := by
  refine or_congr_right ⟨?_, ?_⟩
  · rintro ⟨other, address, among, timer⟩
    by_cases here : other = key
    · subst here
      cases (Function.update_self _ _ _).symm.trans timer
    · exact ⟨other, here, address, among, (Function.update_of_ne here _ _).symm.trans timer⟩
  · rintro ⟨other, different, address, among, timer⟩
    exact ⟨other, address, among, (Function.update_of_ne different _ _).trans timer⟩

theorem alive_timerFires (wellFormed : c.WellFormed parseAddress) (enabled : c.shouldReconnect = true)
    (pending : c.reconnectTimers key = some address) :
    (c.timerFires parseAddress key address).Alive ↔ (∃ managed ∈ c.sockets, Live managed) ∨
      (∃ other, other ≠ key ∧ ∃ address ∈ c.configured, c.reconnectTimers other = some address) ∨
      c.endpointSockets key = none := by
  rw [← or_assoc, ← alive_expire]
  have keyed := (wellFormed.timed key address pending).1
  unfold timerFires
  dsimp only
  split
  · rename_i dials
    have free : c.endpointSockets key = none := Option.not_isSome_iff_eq_none.mp dials.2.2
    refine iff_of_true (alive_of_free ?_) (.inr free)
    rw [hasConnectionTo, ← keyed, free]
    rfl
  · rename_i stays
    refine (or_iff_left_of_imp fun free => ?_).symm
    refine .inl (live_of_open (c := c) (by_contra fun closed => stays ⟨enabled, closed, ?_⟩))
    exact Option.not_isSome_iff_eq_none.mpr free

theorem notStranded_step (wellFormed : c.WellFormed parseAddress) (held : c.NotStranded)
    (stepped : step parseAddress c event = some next) :
    next.NotStranded ↔ c.KeepsAlive parseAddress event := by
  have configuredAlive := held.alive wellFormed
  cases event with
  | setAddress address =>
    cases stepped
    refine iff_of_true (fun _ configured => ?_) trivial
    cases address with
    | none => exact (configured rfl).elim
    | some address => exact alive_of_free rfl
  | setAddresses addresses =>
    cases stepped
    refine iff_of_true (fun _ configured => alive_createSockets_iff.mpr (.inr ?_)) trivial
    have some : addresses ≠ [] := by
      rintro rfl
      exact configured rfl
    obtain ⟨address, among⟩ := List.exists_mem_of_ne_nil addresses some
    exact ⟨address, among, rfl⟩
  | addServers addresses reconnectOnClose =>
    cases stepped
    rw [addServers_eq]
    cases reconnectOnClose with
    | false =>
      refine iff_of_true (fun _ configured => alive_createSockets_iff.mpr (.inl ?_)) trivial
      rw [createSockets_configured] at configured
      exact (wellFormed.alive_enabling c.configured fun _ among => among).mpr (configuredAlive configured)
    | true =>
      have alive := wellFormed.alive_enabling (c.configured ++ addresses) fun _ among =>
        List.mem_append_left _ among
      rw [NotStranded, alive_createSockets_iff, createSockets_configured, createSockets_shouldReconnect]
      constructor
      · intro held some
        exact (held rfl (List.append_ne_nil_of_right_ne_nil _ some)).imp_left alive.mp
      · intro keeps _ configured
        refine Or.imp_left alive.mpr ?_
        by_cases none : addresses = []
        · subst none
          exact .inl (configuredAlive (by simpa using configured))
        · exact keeps none
  | enablePeerDiscovery enabled =>
    cases stepped
    exact iff_of_true held trivial
  | disconnect =>
    cases stepped
    exact iff_of_true (fun enabled => nomatch enabled) trivial
  | peersAdvertised addresses =>
    simp only [step] at stepped
    split at stepped
    · obtain rfl := Option.some.inj stepped
      refine iff_of_true ?_ trivial
      split
      · exact held
      · rw [addServers_eq]
        refine fun _ configured => alive_createSockets_iff.mpr (.inl ?_)
        rw [createSockets_configured] at configured
        exact (wellFormed.alive_enabling c.configured fun _ among => among).mpr (configuredAlive configured)
    · cases stepped
  | opens address =>
    simp only [step] at stepped
    split at stepped
    · rename_i found
      obtain rfl := Option.some.inj stepped
      obtain ⟨present, same⟩ := socket_mem found
      have opened : ∃ managed ∈ (c.setReadyState address .opened).sockets, Live managed := by
        refine ⟨_, List.mem_map.mpr ⟨_, present, rfl⟩, ?_⟩
        rw [if_pos same]
        exact fun closing => nomatch closing
      refine iff_of_true (fun _ _ => .inl ?_) trivial
      unfold onOpen
      dsimp only
      split <;> exact opened
    · cases stepped
  | startsClosing address =>
    obtain ⟨_, _, rfl⟩ := Option.map_eq_some_iff.mp stepped
    rw [NotStranded, alive_startsClosing]
    exact ⟨fun held configured => held (wellFormed.enabled_of_configured configured) configured,
      fun keeps _ configured => keeps configured⟩
  | closes address =>
    obtain ⟨managed, found, rfl⟩ := Option.map_eq_some_iff.mp stepped
    obtain ⟨present, rfl⟩ := socket_mem found
    have only : (∃ other ∈ c.sockets, other.address = managed.address ∧ other.reconnectOnClose = true) ↔
        managed.reconnectOnClose = true := by
      constructor
      · rintro ⟨other, among, same, reconnects⟩
        rwa [wellFormed.same_socket present among same.symm]
      · exact fun reconnects => ⟨managed, present, rfl, reconnects⟩
    rw [NotStranded, onClose_frame.1, onClose_frame.2, KeepsAlive, only]
    constructor
    · intro held configured
      have enabled := wellFormed.enabled_of_configured configured
      exact (alive_onClose wellFormed present enabled).mp (held enabled configured)
    · exact fun keeps enabled configured => (alive_onClose wellFormed present enabled).mpr (keeps configured)
  | timerFires key =>
    obtain ⟨address, pending, rfl⟩ := Option.map_eq_some_iff.mp stepped
    rw [NotStranded, timerFires_frame.1, timerFires_frame.2, KeepsAlive]
    constructor
    · intro held configured
      have enabled := wellFormed.enabled_of_configured configured
      exact (alive_timerFires wellFormed enabled pending).mp (held enabled configured)
    · exact fun keeps enabled configured => (alive_timerFires wellFormed enabled pending).mpr (keeps configured)

theorem start_notStranded : start.NotStranded := fun _ configured => (configured rfl).elim

/-- In every state of a run a configured client has a live socket or a timer just when no step takes the last
of them away. -/
theorem never_stranded_iff (ran : Runs.run (step parseAddress) start events = some next) :
    Runs.Always (step parseAddress) NotStranded start events ↔
      Runs.Each (step parseAddress) (KeepsAlive parseAddress) start events :=
  Runs.always_iff_each (WellFormed parseAddress) ran start_wellFormed start_notStranded
    (fun wellFormed _ stepped _ => wellFormed_step wellFormed stepped) notStranded_step

end Connection

namespace Connection.Sample

def configuredServer : String := "ws://a:5155/myko"

def peer : String := "ws://b:5155/myko"

def parseUrl (address : String) : Option (String × Nat) :=
  if address = configuredServer then some ("a", 5155)
  else if address = peer then some ("b", 5155)
  else none

def redialled : List SocketEvent :=
  [.setAddress (some configuredServer), .opens configuredServer, .closes configuredServer,
    .timerFires "a:5155", .opens configuredServer]

theorem redialled_notStranded : Runs.Always (step parseUrl) NotStranded start redialled := by
  obtain ⟨last, ran⟩ : ∃ last, Runs.run (step parseUrl) start redialled = some last := ⟨_, rfl⟩
  refine (never_stranded_iff ran).mpr ?_
  refine (Runs.each_cons rfl).mpr ⟨trivial, ?_⟩
  refine (Runs.each_cons rfl).mpr ⟨trivial, ?_⟩
  refine (Runs.each_cons rfl).mpr ⟨fun _ => .inr ⟨_, List.mem_singleton_self _, rfl, rfl⟩, ?_⟩
  refine (Runs.each_cons rfl).mpr ⟨fun _ => .inr (.inr rfl), ?_⟩
  exact (Runs.each_cons rfl).mpr ⟨trivial, trivial⟩

/-- The configured server closes while a discovered one is open, and then the discovered one closes. -/
theorem stranded : ∃ events last, Runs.run (step parseUrl) start events = some last ∧
    last.configured = [configuredServer] ∧ last.shouldReconnect = true ∧ last.sockets = [] ∧
    (∀ key, last.reconnectTimers key = none) ∧ ¬Runs.Always (step parseUrl) NotStranded start events := by
  have ran : ∃ last, Runs.run (step parseUrl) start [.setAddress (some configuredServer),
      .opens configuredServer, .peersAdvertised [peer], .opens peer, .closes configuredServer,
      .closes peer] = some last ∧ last.configured = [configuredServer] ∧ last.shouldReconnect = true ∧
      last.sockets = [] ∧ ∀ key, last.reconnectTimers key = none := by
    refine ⟨_, rfl, rfl, rfl, rfl, fun key => ?_⟩
    show Function.update (Function.update (fun _ => none) (endpointKey parseUrl configuredServer) none)
      (endpointKey parseUrl peer) none key = none
    simp [Function.update]
  obtain ⟨last, ran, configured, enabled, none, noTimer⟩ := ran
  refine ⟨_, last, ran, configured, enabled, none, noTimer, fun always => ?_⟩
  rcases always.at_end ran enabled (by rw [configured]; simp) with ⟨managed, among, _⟩ | ⟨key, address, _, timer⟩
  · rw [none] at among
    cases among
  · rw [noTimer key] at timer
    cases timer

end Connection.Sample
end Myko.TypeScript

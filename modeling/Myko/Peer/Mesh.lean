import Myko.Lib.Relay
import Myko.Postgres.Producer
import Myko.Server.Ingest

/-!
Servers that replicate types to their peers. What a server receives it sends on to all of its own peers, the one it
came from among them, so that events are never at rest where the connections go round.
-/

open Relation

namespace Myko.Peer
open StateError

/-- The answer of the persister, by how the sends to the connected peers went. -/
def persist (sends : List (Except String Unit)) (entityType : String) : Except PersistError Unit :=
  let peerCount := sends.length
  let errorCount := (sends.filter fun send => send.toOption.isNone).length
  if sends.isEmpty then .ok ()
  else if errorCount = peerCount then
    .error ⟨entityType, s!"PeerPersister: broadcast failed for all {peerCount} peer(s)"⟩
  else .ok ()

/-- The persister of a server with these peers. A client queues the event whatever its connection is like, so that
every send goes well. -/
def peerPersister {N : Type} (peers : List N) (_ : List Change) (change : Change) : Except PersistError Unit :=
  persist (peers.map fun _ => .ok ()) change.item.entityType

/-- An event on its way to a peer. -/
structure Frame (N : Type) where
  source : N
  target : N
  event : WireEvent

/-- Servers, each connected to its peers. -/
structure Mesh (N : Type) where
  ctx : N → MykoServerContext
  format : Postgres.WireFormat
  /-- The types replicated to peers. -/
  mirrored : String → Bool
  peers : N → List N
  /-- The id that the connection of one server has at another. -/
  clientId : N → N → String

/-- The servers and the frames in flight, the oldest first. -/
structure MeshState (N : Type) where
  servers : N → ServerState
  frames : List (Frame N)

inductive MeshEvent (N : Type) where
  | call (server : N) (call : Call)
  | deliver (source target : N)

def MeshEvent.isDelivery {N : Type} : MeshEvent N → Bool
  | call _ _ => false
  | deliver _ _ => true

def onLink {N : Type} [DecidableEq N] (source target : N) (frame : Frame N) : Bool :=
  frame.source = source && frame.target = target

namespace Mesh
variable {N : Type} [DecidableEq N] (mesh : Mesh N)

def start (N : Type) : MeshState N := ⟨fun _ => .initial, []⟩

def tells (server peer : N) : Prop := peer ∈ mesh.peers server

/-- What the persister sends on of the changes offered since, each to all peers. -/
def sent (server : N) (before after : ServerState) : List (Frame N) :=
  (((mesh.format.produced (mesh.ctx server).hostId after.offered).drop before.offered.length).filter
    fun event => mesh.mirrored event.itemType).flatMap fun event =>
      (mesh.peers server).map fun peer => ⟨server, peer, event⟩

def act (server : N) (call : Call) (s : MeshState N) : MeshState N :=
  let after := final (call.run (mesh.ctx server)) (s.servers server)
  { servers := Function.update s.servers server after
    frames := s.frames ++ mesh.sent server (s.servers server) after }

/-- A server handles the oldest frame of a connection. -/
def deliver (source target : N) (s : MeshState N) : Option (MeshState N) :=
  (s.frames.find? (onLink source target)).map fun frame =>
    mesh.act target
      (.applyEventBatch [mesh.format.ingest (mesh.clientId source target) (mesh.ctx target).hostId frame.event])
      { s with frames := s.frames.eraseP (onLink source target) }

def step (s : MeshState N) : MeshEvent N → Option (MeshState N)
  | .call server call => some (mesh.act server call s)
  | .deliver source target => mesh.deliver source target s

/-- A mesh whose replicated types have the peer persister everywhere, are applied as they come, are none of the
graph's, and can be read by every server that is told of them. -/
structure Formed : Prop where
  persisted : ∀ server entityType, mesh.mirrored entityType = true →
    (mesh.ctx server).persister entityType = some (peerPersister (mesh.peers server))
  atOnce : ∀ server entityType, mesh.mirrored entityType = true →
    (mesh.ctx server).bufferPolicy entityType = .none
  plain : ∀ server entityType, mesh.mirrored entityType = true → Plain (mesh.ctx server) entityType
  named : ∀ entityType, mesh.mirrored entityType = true → hasNul entityType = false
  read : ∀ source target n change, mesh.mirrored change.item.entityType = true →
    ((mesh.ctx target).parser change.item.entityType (mesh.format.ingest (mesh.clientId source target)
      (mesh.ctx target).hostId (mesh.format.row (mesh.ctx source).hostId n change)).item).isSome = true

/-- Nothing follows from a replicated item on any server. -/
def Unrelated : Prop :=
  ∀ server entityType change, mesh.mirrored entityType = true →
    (mesh.ctx server).tables.coordinates entityType change = false

/-- The frame carries the change, as one of those its source has offered. -/
def Carries (frame : Frame N) (change : Change) : Prop :=
  ∃ n, frame.event = mesh.format.row (mesh.ctx frame.source).hostId n change

/-- No server has a root open, and what is in flight are changes of replicated types, on their way to peers. -/
structure Inv (s : MeshState N) : Prop where
  outside : ∀ server, (s.servers server).causal = none
  carried : ∀ frame ∈ s.frames, mesh.tells frame.source frame.target ∧
    ∃ change, mesh.Carries frame change ∧ mesh.mirrored change.item.entityType = true

variable {mesh} {s t : MeshState N}

/-! ### What is sent -/

omit [DecidableEq N] in
theorem sent_eq {server : N} {before after : ServerState} {later : List Change}
    (grown : after.offered = before.offered ++ later) :
    mesh.sent server before after =
      ((later.mapIdx fun n => mesh.format.row (mesh.ctx server).hostId (n + before.offered.length)).filter
        fun event => mesh.mirrored event.itemType).flatMap fun event =>
          (mesh.peers server).map fun peer => ⟨server, peer, event⟩ := by
  have length : (before.offered.mapIdx (mesh.format.row (mesh.ctx server).hostId)).length =
      before.offered.length := List.length_mapIdx
  rw [sent, Postgres.WireFormat.produced, grown, List.mapIdx_append, ← length, List.drop_left]

omit [DecidableEq N] in
theorem carried_of_sent {server : N} {before after : ServerState} {later : List Change}
    (grown : after.offered = before.offered ++ later) {frame : Frame N}
    (among : frame ∈ mesh.sent server before after) :
    frame.source = server ∧ mesh.tells server frame.target ∧
      ∃ change ∈ later, mesh.Carries frame change ∧ mesh.mirrored change.item.entityType = true := by
  rw [sent_eq grown] at among
  obtain ⟨event, listed, among⟩ := List.mem_flatMap.mp among
  obtain ⟨peer, told, rfl⟩ := List.mem_map.mp among
  obtain ⟨listed, mirrored⟩ := List.mem_filter.mp listed
  obtain ⟨n, inside, rfl⟩ := List.mem_mapIdx.mp listed
  exact ⟨rfl, told, later[n], List.getElem_mem inside, ⟨_, rfl⟩, mirrored⟩

omit [DecidableEq N] in
/-- A change of a replicated type goes to every peer. -/
theorem sent_to_peers {server peer : N} {before after : ServerState} {later : List Change} {change : Change}
    (grown : after.offered = before.offered ++ later) (offered : change ∈ later)
    (mirrored : mesh.mirrored change.item.entityType = true) (told : mesh.tells server peer) :
    ∃ frame ∈ mesh.sent server before after, frame.target = peer ∧ mesh.Carries frame change := by
  obtain ⟨n, inside, rfl⟩ := List.getElem_of_mem offered
  let event := mesh.format.row (mesh.ctx server).hostId (n + before.offered.length) later[n]
  refine ⟨⟨server, peer, event⟩, ?_, rfl, n + before.offered.length, rfl⟩
  rw [sent_eq grown]
  refine List.mem_flatMap.mpr ⟨event, List.mem_filter.mpr ⟨?_, mirrored⟩, List.mem_map.mpr ⟨peer, told, rfl⟩⟩
  exact List.mem_mapIdx.mpr ⟨n, inside, rfl⟩

/-! ### Steps -/

omit [DecidableEq N] in
theorem inv_start : mesh.Inv (start N) := ⟨fun _ => rfl, fun _ among => nomatch among⟩

theorem inv_act (inv : mesh.Inv s) (server : N) (call : Call) : mesh.Inv (mesh.act server call s) := by
  obtain ⟨later, grown⟩ := call_offers (mesh.ctx server) call (s.servers server)
  refine ⟨fun other => ?_, fun frame among => ?_⟩
  · show (Function.update s.servers server _ other).causal = none
    by_cases same : other = server
    · subst same
      rw [Function.update_self]
      exact call_outside (inv.outside other) call
    · rw [Function.update_of_ne same]
      exact inv.outside other
  · rcases List.mem_append.mp among with before | among
    · exact inv.carried frame before
    · obtain ⟨rfl, told, change, -, carries, mirrored⟩ := carried_of_sent grown among
      exact ⟨told, change, carries, mirrored⟩

theorem deliver_frames {source target : N} (delivered : mesh.deliver source target s = some t) :
    ∃ sent, t.frames = s.frames.eraseP (onLink source target) ++ sent := by
  obtain ⟨frame, -, rfl⟩ := Option.map_eq_some_iff.mp delivered
  exact ⟨_, rfl⟩

/-- A delivery takes the first frame of its connection and is otherwise a call. -/
theorem deliver_cases {source target : N} (delivered : mesh.deliver source target s = some t) :
    ∃ frame before after, s.frames = before ++ frame :: after ∧ s.frames.find? (onLink source target) = some frame ∧
      frame.source = source ∧ frame.target = target ∧
      t = mesh.act target (.applyEventBatch
        [mesh.format.ingest (mesh.clientId source target) (mesh.ctx target).hostId frame.event])
        { s with frames := before ++ after } := by
  obtain ⟨frame, found, rfl⟩ := Option.map_eq_some_iff.mp delivered
  obtain ⟨linked, before, after, split, earlier⟩ := List.find?_eq_some_iff_append.mp found
  have none : ∀ other ∈ before, onLink source target other = false := fun other among => by
    simpa using earlier other among
  have ends : frame.source = source ∧ frame.target = target := by
    simpa [onLink] using linked
  refine ⟨frame, before, after, split, found, ends.1, ends.2, ?_⟩
  have erased : s.frames.eraseP (onLink source target) = before ++ after := by
    rw [split, List.eraseP_append_right _ (by simpa using none), List.eraseP_cons_of_pos linked]
  rw [erased]

theorem inv_deliver (inv : mesh.Inv s) {source target : N} (delivered : mesh.deliver source target s = some t) :
    mesh.Inv t := by
  obtain ⟨frame, before, after, split, -, -, -, rfl⟩ := deliver_cases delivered
  have rest : mesh.Inv { s with frames := before ++ after } := by
    refine ⟨inv.outside, fun other among => inv.carried other ?_⟩
    rw [split]
    rcases List.mem_append.mp among with among | among
    · exact List.mem_append_left _ among
    · exact List.mem_append_right _ (List.mem_cons_of_mem _ among)
  exact inv_act rest target _

theorem inv_step (inv : mesh.Inv s) {event : MeshEvent N} (stepped : mesh.step s event = some t) : mesh.Inv t := by
  cases event with
  | call server call =>
    cases stepped
    exact inv_act inv server call
  | deliver source target => exact inv_deliver inv stepped

theorem inv_run {events : List (MeshEvent N)} (ran : Runs.run mesh.step (start N) events = some s) : mesh.Inv s :=
  Runs.invariant ran inv_start fun inv stepped => inv_step inv stepped

/-! ### What arrives -/

/-- A frame that is handled is taken off its connection, and its server offers what it carried, before all else. -/
theorem delivered_offers (formed : mesh.Formed) (inv : mesh.Inv s) {source target : N}
    (delivered : mesh.deliver source target s = some t) : ∃ frame before after item later,
      s.frames = before ++ frame :: after ∧ s.frames.find? (onLink source target) = some frame ∧
      frame.source = source ∧ frame.target = target ∧
      t.frames = before ++ after ++ mesh.sent target (s.servers target) (t.servers target) ∧
      (t.servers target).offered = (s.servers target).offered ++ ⟨frame.event.changeType, item⟩ :: later ∧
      mesh.mirrored item.entityType = true ∧
      (mesh.ctx target).parser frame.event.itemType (mesh.format.ingest (mesh.clientId source target)
        (mesh.ctx target).hostId frame.event).item = some item ∧
      (mesh.Unrelated → (t.servers target).registry =
        (s.servers target).registry.write ⟨frame.event.changeType, item⟩) := by
  obtain ⟨frame, before, after, split, found, rfl, rfl, rfl⟩ := deliver_cases delivered
  obtain ⟨-, change, ⟨n, carried⟩, mirrored⟩ := inv.carried frame (by simp [split])
  have itemType : frame.event.itemType = change.item.entityType := by rw [carried]; rfl
  obtain ⟨item, read⟩ := Option.isSome_iff_exists.mp (formed.read frame.source frame.target n change mirrored)
  have typed := (mesh.ctx frame.target).parser_type _ _ _ read
  rw [← carried] at read
  let event := mesh.format.ingest (mesh.clientId frame.source frame.target) (mesh.ctx frame.target).hostId frame.event
  have named : event.itemType = change.item.entityType := by
    rw [← itemType]
    exact mesh.format.ingest_itemType (by rw [itemType]; exact formed.named _ mirrored)
  have parses : (mesh.ctx frame.target).parser event.itemType event.item = some item := by rw [named]; exact read
  have atOnce : (mesh.ctx frame.target).bufferPolicy event.itemType = .none := by
    rw [named]
    exact formed.atOnce _ _ mirrored
  have plain : Plain (mesh.ctx frame.target) event.itemType := by
    rw [named]
    exact formed.plain _ _ mirrored
  have persisted : ((mesh.ctx frame.target).persister event.itemType).isSome = true := by
    rw [named, formed.persisted _ _ mirrored]
    rfl
  obtain ⟨later, offered⟩ := event_offers parses atOnce plain persisted (inv.outside frame.target)
  have kind : event.changeType = frame.event.changeType := mesh.format.ingest_kind _ _ _
  rw [kind] at offered
  have server : (mesh.act frame.target (.applyEventBatch [event]) { s with frames := before ++ after }).servers
      frame.target = final ((Call.applyEventBatch [event]).run (mesh.ctx frame.target)) (s.servers frame.target) :=
    Function.update_self ..
  refine ⟨frame, before, after, item, later, split, found, rfl, rfl, ?_, ?_, ?_, ?_, fun unrelated => ?_⟩
  · rw [server]
    rfl
  · rw [server]
    exact offered
  · rw [typed]
    exact mirrored
  · rw [itemType]
    exact read
  · have alone : needsCausalRoot (mesh.ctx frame.target) [item] event.changeType .localOrigin = false := by
      have schema := formed.plain frame.target _ mirrored item event.changeType typed
      simp [needsCausalRoot, unrelated _ _ _ (typed ▸ mirrored), schema]
    rw [server, ← kind]
    exact event_writes parses atOnce plain persisted (inv.outside frame.target) alone

/-! ### Silence -/

/-- Where the frames in flight are going. -/
def targets (s : MeshState N) : Multiset N := s.frames.map Frame.target

variable (mesh) in
def Delivers (s t : MeshState N) : Prop := ∃ source target, mesh.deliver source target s = some t

/-- A server that handles a frame passes it on to all its peers. -/
theorem delivered_passes (formed : mesh.Formed) (inv : mesh.Inv s) (delivers : mesh.Delivers s t) :
    Relay.Passes mesh.tells (targets s) (targets t) := by
  obtain ⟨source, target, delivered⟩ := delivers
  obtain ⟨frame, before, after, item, later, split, -, -, rfl, frames, grown, mirrored, -, -⟩ :=
    delivered_offers formed inv delivered
  refine ⟨frame.target, ((before ++ after).map Frame.target : List N),
    ((mesh.sent frame.target (s.servers frame.target) (t.servers frame.target)).map Frame.target : List N), ?_, ?_, ?_⟩
  · rw [targets, split]
    simp
  · rw [targets, frames, List.map_append, Multiset.coe_add]
  · intro peer
    rw [Multiset.mem_coe, List.mem_map]
    constructor
    · rintro ⟨other, among, rfl⟩
      exact (carried_of_sent grown among).2.1
    · intro told
      obtain ⟨other, among, same, -⟩ := sent_to_peers grown List.mem_cons_self mirrored told
      exact ⟨other, among, same⟩

/-- As long as a frame is in flight one can be handled. -/
theorem delivers_of_frame {frame : Frame N} (among : frame ∈ s.frames) : ∃ t, mesh.Delivers s t := by
  have linked : onLink frame.source frame.target frame = true := by simp [onLink]
  obtain ⟨first, found⟩ := Option.isSome_iff_exists.mp
    (List.find?_isSome.mpr ⟨frame, among, linked⟩)
  exact ⟨_, frame.source, frame.target, by rw [deliver, found]; rfl⟩

theorem deliveries_end [Finite N] (formed : mesh.Formed) (inv : mesh.Inv s)
    (straight : ∀ frame ∈ s.frames, ¬Relay.Circles mesh.tells frame.target) :
    Acc (fun t s => mesh.Delivers s t) s := by
  have tokens : Acc (fun after before => Relay.Passes mesh.tells before after) (targets s) := by
    refine Relay.passes_end fun place here => ?_
    obtain ⟨frame, among, rfl⟩ := List.mem_map.mp (Multiset.mem_coe.mp here)
    exact straight frame among
  generalize held : targets s = places at tokens
  induction tokens generalizing s with
  | intro places _ ih =>
    subst held
    refine .intro s fun t delivers => ?_
    have passes := delivered_passes formed inv delivers
    obtain ⟨source, target, delivered⟩ := delivers
    have kept : mesh.Inv t := inv_deliver inv delivered
    refine ih _ passes kept (fun frame among => ?_) rfl
    refine passes.straight (fun place here => ?_) frame.target (List.mem_map_of_mem among)
    obtain ⟨other, among, rfl⟩ := List.mem_map.mp (Multiset.mem_coe.mp here)
    exact straight other among

/-- A frame that can come round again stays in flight as one that can, whatever else happens. -/
theorem circles_step (formed : mesh.Formed) (inv : mesh.Inv s) {event : MeshEvent N}
    (stepped : mesh.step s event = some t)
    (circles : ∃ frame ∈ s.frames, Relay.Circles mesh.tells frame.target) :
    ∃ frame ∈ t.frames, Relay.Circles mesh.tells frame.target := by
  cases event with
  | call server call =>
    cases stepped
    obtain ⟨frame, among, circles⟩ := circles
    exact ⟨frame, List.mem_append_left _ among, circles⟩
  | deliver source target =>
    have passes := delivered_passes formed inv ⟨source, target, stepped⟩
    obtain ⟨frame, among, circles⟩ := circles
    obtain ⟨place, here, circles⟩ := passes.circles ⟨frame.target, List.mem_map_of_mem among, circles⟩
    obtain ⟨other, among, rfl⟩ := List.mem_map.mp (Multiset.mem_coe.mp here)
    exact ⟨other, among, circles⟩

theorem circles_run (formed : mesh.Formed) (inv : mesh.Inv s) {events : List (MeshEvent N)}
    (ran : Runs.run mesh.step s events = some t)
    (circles : ∃ frame ∈ s.frames, Relay.Circles mesh.tells frame.target) :
    ∃ frame ∈ t.frames, Relay.Circles mesh.tells frame.target := by
  let Goes : MeshState N → Prop := fun s => mesh.Inv s ∧ ∃ frame ∈ s.frames, Relay.Circles mesh.tells frame.target
  have start : Goes s := ⟨inv, circles⟩
  have kept : Goes t := Runs.invariant ran start fun kept stepped =>
    ⟨inv_step kept.1 stepped, circles_step formed kept.1 stepped kept.2⟩
  exact kept.2

/-- Deliveries that end lead to silence. -/
theorem silent_of_end (ends : Acc (fun t s => mesh.Delivers s t) s) :
    ∃ events t, Runs.run mesh.step s events = some t ∧ t.frames = [] := by
  induction ends with
  | intro s _ ih =>
    cases frames : s.frames with
    | nil => exact ⟨[], s, rfl, frames⟩
    | cons frame rest =>
      have among : frame ∈ s.frames := frames ▸ List.mem_cons_self
      obtain ⟨t, source, target, delivered⟩ : ∃ t, mesh.Delivers s t := delivers_of_frame among
      obtain ⟨events, u, ran, silent⟩ := ih t ⟨source, target, delivered⟩
      exact ⟨.deliver source target :: events, u, Runs.run_cons.mpr ⟨t, delivered, ran⟩, silent⟩

/-- Whether a mesh ever falls silent again is decided by where its frames are going: it does, in every order of
deliveries, if no connection from there leads round, and otherwise in no order and whatever else is done. -/
theorem mesh_falls_silent_iff [Finite N] (formed : mesh.Formed) {events : List (MeshEvent N)}
    (ran : Runs.run mesh.step (start N) events = some s) :
    (Acc (fun t s => mesh.Delivers s t) s ↔ ∀ frame ∈ s.frames, ¬Relay.Circles mesh.tells frame.target) ∧
      ((∃ later t, Runs.run mesh.step s later = some t ∧ t.frames = []) ↔
        ∀ frame ∈ s.frames, ¬Relay.Circles mesh.tells frame.target) := by
  have inv := inv_run ran
  have silent : (∃ later t, Runs.run mesh.step s later = some t ∧ t.frames = []) →
      ∀ frame ∈ s.frames, ¬Relay.Circles mesh.tells frame.target := by
    rintro ⟨later, t, goes, none⟩ frame among circles
    obtain ⟨other, left, -⟩ := circles_run formed inv goes ⟨frame, among, circles⟩
    rw [none] at left
    cases left
  refine ⟨⟨fun ends => silent (silent_of_end ends), deliveries_end formed inv⟩, silent, fun straight => ?_⟩
  exact silent_of_end (deliveries_end formed inv straight)

/-! ### Writes that come back -/

variable (mesh) in
/-- The change is on its way to the server. -/
def Underway (s : MeshState N) (change : Change) (target : N) : Prop :=
  ∃ frame ∈ s.frames, frame.target = target ∧ mesh.Carries frame change

variable (mesh) in
/-- Every server reads the change as it was sent. -/
def ReadsBack (change : Change) : Prop :=
  ∀ source target n, (mesh.ctx target).parser change.item.entityType (mesh.format.ingest (mesh.clientId source target)
    (mesh.ctx target).hostId (mesh.format.row (mesh.ctx source).hostId n change)).item = some change.item

section
variable {change : Change} (formed : mesh.Formed) (reads : mesh.ReadsBack change)
include formed reads

/-- A change that is handled goes on to all peers. -/
theorem first_delivered (inv : mesh.Inv s) {source target : N} (delivered : mesh.deliver source target s = some t)
    {frame : Frame N} (found : s.frames.find? (onLink source target) = some frame)
    (carries : mesh.Carries frame change) :
    (∀ peer, mesh.tells target peer → mesh.Underway t change peer) ∧
      (mesh.Unrelated → (t.servers target).registry = (s.servers target).registry.write change) := by
  obtain ⟨first, before, after, item, later, -, foremost, rfl, rfl, frames, grown, mirrored, read, writes⟩ :=
    delivered_offers formed inv delivered
  obtain rfl := Option.some.inj (found.symm.trans foremost)
  obtain ⟨n, carried⟩ := carries
  have same : (⟨frame.event.changeType, item⟩ : Change) = change := by
    have back := reads frame.source frame.target n
    rw [carried] at read ⊢
    obtain rfl := Option.some.inj (back.symm.trans read)
    rfl
  rw [same] at grown writes
  refine ⟨fun peer told => ?_, writes⟩
  obtain ⟨onward, among, there, carries⟩ := sent_to_peers grown List.mem_cons_self (same ▸ mirrored) told
  exact ⟨onward, by rw [frames]; exact List.mem_append_right _ among, there, carries⟩

/-- A change that is in flight stays in flight, where every server has a peer. -/
theorem underway_step (inv : mesh.Inv s) (onward : ∀ server, ∃ peer, mesh.tells server peer)
    {event : MeshEvent N} (stepped : mesh.step s event = some t) (underway : ∃ target, mesh.Underway s change target) :
    ∃ target, mesh.Underway t change target := by
  obtain ⟨_, frame, among, rfl, carries⟩ := underway
  cases event with
  | call server call =>
    cases stepped
    exact ⟨_, frame, List.mem_append_left _ among, rfl, carries⟩
  | deliver source target =>
    obtain ⟨first, before, after, -, -, split, found, -, -, frames, -⟩ := delivered_offers formed inv stepped
    rw [split] at among
    by_cases other : frame ∈ before ++ after
    · exact ⟨_, frame, by rw [frames]; exact List.mem_append_left _ other, rfl, carries⟩
    · have same : frame = first := by
        rcases List.mem_append.mp among with among | among
        · exact absurd (List.mem_append_left _ among) other
        · rcases List.mem_cons.mp among with same | among
          · exact same
          · exact absurd (List.mem_append_right _ among) other
      subst same
      obtain ⟨peer, told⟩ := onward target
      exact ⟨peer, (first_delivered formed reads inv stepped found carries).1 peer told⟩

variable (unrelated : mesh.Unrelated)
include unrelated

/-- A change in flight can be brought to the server it goes to, by handling what is before it on its connection. -/
theorem brought {frame : Frame N} (carries : mesh.Carries frame change) (waiting : Nat) {before after : List (Frame N)}
    (length : before.length = waiting) (inv : mesh.Inv s) (split : s.frames = before ++ frame :: after) :
    ∃ events t, (∀ event ∈ events, event.isDelivery = true) ∧ Runs.run mesh.step s events = some t ∧ mesh.Inv t ∧
      (t.servers frame.target).registry.getValue change.item.entityType change.item.id = change.value ∧
      ∀ peer, mesh.tells frame.target peer → mesh.Underway t change peer := by
  induction waiting using Nat.strongRecOn generalizing s before after with | ind waiting ih =>
  have linked : onLink frame.source frame.target frame = true := by simp [onLink]
  obtain ⟨first, found⟩ : ∃ first, s.frames.find? (onLink frame.source frame.target) = some first :=
    Option.isSome_iff_exists.mp (List.find?_isSome.mpr ⟨frame, by simp [split], linked⟩)
  obtain ⟨t, delivered⟩ : ∃ t, mesh.deliver frame.source frame.target s = some t := by
    rw [deliver, found]
    exact ⟨_, rfl⟩
  have kept : mesh.Inv t := inv_deliver inv delivered
  have once : Runs.run mesh.step s [.deliver frame.source frame.target] = some t :=
    Runs.run_cons.mpr ⟨t, delivered, rfl⟩
  by_cases clear : ∀ other ∈ before, onLink frame.source frame.target other = false
  · have foremost : s.frames.find? (onLink frame.source frame.target) = some frame := by
      rw [split, List.find?_append, List.find?_eq_none.mpr (by simpa using clear), List.find?_cons_of_pos linked]
      rfl
    obtain ⟨goes, writes⟩ := first_delivered formed reads inv delivered foremost carries
    refine ⟨_, t, by simp [MeshEvent.isDelivery], once, kept, ?_, goes⟩
    rw [writes unrelated, StoreRegistry.getValue_write]
    simp [Change.key]
  · obtain ⟨other, among, ahead⟩ : ∃ other ∈ before, onLink frame.source frame.target other = true := by
      simpa using clear
    obtain ⟨sent, frames⟩ := deliver_frames delivered
    have nearer : t.frames = before.eraseP (onLink frame.source frame.target) ++ frame :: (after ++ sent) := by
      rw [frames, split, List.eraseP_append_left ahead _ among, List.append_assoc]
      rfl
    have shorter : (before.eraseP (onLink frame.source frame.target)).length < waiting := by
      have held := List.length_pos_of_mem among
      rw [List.length_eraseP_of_mem among ahead, ← length]
      omega
    obtain ⟨events, u, deliveries, goes, rest⟩ := ih _ shorter rfl kept nearer
    refine ⟨.deliver frame.source frame.target :: events, u, ?_, Runs.run_cons.mpr ⟨t, delivered, goes⟩, rest⟩
    exact List.forall_mem_cons.mpr ⟨rfl, deliveries⟩

/-- A change in flight can be brought to every server that connections lead to. -/
theorem brought_on {target server : N} (leads : ReflTransGen mesh.tells target server) (inv : mesh.Inv s)
    (underway : mesh.Underway s change target) :
    ∃ events t, (∀ event ∈ events, event.isDelivery = true) ∧ Runs.run mesh.step s events = some t ∧
      (t.servers server).registry.getValue change.item.entityType change.item.id = change.value := by
  induction leads using ReflTransGen.head_induction_on generalizing s with
  | refl =>
    obtain ⟨frame, among, rfl, carries⟩ := underway
    obtain ⟨before, after, split⟩ := List.append_of_mem among
    obtain ⟨events, t, deliveries, goes, -, holds, -⟩ := brought formed reads unrelated carries _ rfl inv split
    exact ⟨events, t, deliveries, goes, holds⟩
  | head step _ ih =>
    obtain ⟨frame, among, rfl, carries⟩ := underway
    obtain ⟨before, after, split⟩ := List.append_of_mem among
    obtain ⟨first, t, deliveries, goes, kept, -, onward⟩ := brought formed reads unrelated carries _ rfl inv split
    obtain ⟨rest, u, more, ends, holds⟩ := ih kept (onward _ step)
    refine ⟨first ++ rest, u, ?_, ?_, holds⟩
    · exact List.forall_mem_append.mpr ⟨deliveries, more⟩
    · rw [Runs.run_append, goes]
      exact ends

end

end Mesh
end Myko.Peer

/-! ### Two servers -/

namespace Myko.Peer.Sample
open StateError Mesh

def pulse : Item := ⟨"pulse", "p", []⟩

/-- A server that keeps pulses, which have nothing but an id, and sends them on to its peers. -/
def server (hostId : String) (peers : List Bool) : MykoServerContext :=
  { Myko.Sample.server with
    hostId
    persister := fun entityType => if entityType = "pulse" then some (peerPersister peers) else none
    parser := fun itemType payload => some ⟨itemType, payload, []⟩
    parser_type := by
      rintro itemType payload item read
      cases read
      rfl }

def format : Postgres.WireFormat where
  encode value := ((value.get "id").bind Value.asStr).getD ""
  content _ := .null
  createdAt _ := "now"
  tx _ := "tx"
  fields := ⟨fun _ => none, fun _ => none, fun _ => []⟩

def pair : Mesh Bool where
  ctx b := server (if b then "b" else "a") [!b]
  format := format
  mirrored entityType := entityType = "pulse"
  peers b := [!b]
  clientId _ _ := "peer"

def set : MeshState Bool := pair.act false (.set pulse) (start Bool)

def deleted : MeshState Bool := pair.act false (.del pulse) set

theorem plain_pulse (b : Bool) : Plain (pair.ctx b) "pulse" := by
  intro item change typed
  show Myko.Sample.schema.coordinates item change = false
  rw [GraphSchema.coordinates, typed]
  cases change <;> rfl

theorem formed : pair.Formed where
  persisted b entityType mirrored := by
    obtain rfl := of_decide_eq_true mirrored
    rfl
  atOnce b entityType mirrored := rfl
  plain b entityType mirrored := by
    obtain rfl := of_decide_eq_true mirrored
    exact plain_pulse b
  named entityType mirrored := by
    obtain rfl := of_decide_eq_true mirrored
    decide
  read source target n change mirrored := rfl

theorem there_and_back (b : Bool) : TransGen pair.tells b b := by
  have there : ∀ b, pair.tells b !b := fun b => List.mem_singleton.mpr rfl
  exact .tail (.single (there b)) (by simpa using there !b)

theorem pulse_sent : ∃ frame ∈ set.frames, frame.target = true ∧ pair.Carries frame ⟨.set, pulse⟩ := by
  have persisted : ((pair.ctx false).persister pulse.entityType).isSome = true := rfl
  have outside : ServerState.initial.causal = none := rfl
  have offers : OffersOn (pair.ctx false) [⟨.set, pulse⟩]
      (final ((Call.set pulse).run (pair.ctx false)) .initial) :=
    submit_offers (plain_pulse false) persisted outside .set .authoritative
  obtain ⟨later, grown⟩ := offers.later
  have grown : (final ((Call.set pulse).run (pair.ctx false)) .initial).offered =
      ServerState.initial.offered ++ ⟨.set, pulse⟩ :: later := grown
  have told : pair.tells false true := List.mem_singleton.mpr rfl
  obtain ⟨frame, among, there, carries⟩ := sent_to_peers grown List.mem_cons_self rfl told
  exact ⟨frame, among, there, carries⟩

theorem set_runs : Runs.run pair.step (start Bool) [.call false (.set pulse)] = some set := rfl

/-- The one pulse goes to and fro for good. -/
theorem mesh_falls_silent_iff_pair : ¬∃ later t, Runs.run pair.step set later = some t ∧ t.frames = [] := by
  intro silent
  obtain ⟨frame, among, there, -⟩ := pulse_sent
  refine (mesh_falls_silent_iff formed set_runs).2.mp silent frame among ?_
  rw [there]
  exact ⟨true, .refl, there_and_back true⟩

end Myko.Peer.Sample

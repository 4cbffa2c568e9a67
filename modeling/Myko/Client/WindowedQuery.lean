import Myko.Session.Windows

/-!
The windowed query of the native client, with the frames between it and a server that handles them in
order. Frames wait in the client while it is disconnected, and in the socket until the server takes them.
-/

namespace Myko.Client

open Query Session

inductive Frame where
  | query (window : Option QueryWindow)
  | queryWindow (window : Option QueryWindow)
  | queryCursorWindow (window : QueryCursorWindow)
  deriving DecidableEq

/-- A server with at most one subscription per `tx`: window updates need it, a second query is ignored. -/
def serve (served : Option WindowSelection) : Frame → Option WindowSelection
  | .query window =>
    match served with
    | none => some (.offset window)
    | some selection => some selection
  | .queryWindow window => served.map fun _ => .offset window
  | .queryCursorWindow window => served.map fun _ => .cursor window

structure MapSequence where
  awaitingSnapshot : Bool
  next : Nat

def MapSequence.accept (sequences : MapSequence) (sequence : Nat) : Option MapSequence :=
  if sequence = 0 then some ⟨false, 1⟩
  else if sequences.awaitingSnapshot then none
  else if sequence ≠ sequences.next then none
  else if sequences.next = lastSequence then none
  else some { sequences with next := sequences.next + 1 }

/-- The callbacks of a connect drain the waiting frames and send the query again, in either order. -/
inductive Status where
  | disconnected
  | connected (flushed subscribed : Bool)
  deriving DecidableEq

def Status.isConnected : Status → Bool
  | .disconnected => false
  | .connected _ _ => true

structure WindowedQuery where
  status : Status
  pendingSends : List Frame
  /-- A frame that was admitted and is not yet with the socket. -/
  admitted : Option Frame
  initialWindow : QueryWindow
  /-- The window of the last response. -/
  window : Option QueryWindow
  cursorWindow : Option QueryCursorWindow
  sequences : MapSequence
  requested : WindowSelection
  outgoing : List Frame
  served : Option WindowSelection

inductive Event where
  | setWindow (window : Option QueryWindow)
  | setCursorWindow (window : QueryCursorWindow)
  | socketSend
  | connected
  | flush
  | subscribe
  | disconnected (lost : Nat)
  | frameHandled
  | response (sequence : Nat) (window : Option QueryWindow)

namespace WindowedQuery

def start (initialWindow : QueryWindow) (connected : Bool) : WindowedQuery where
  status := if connected then .connected true false else .disconnected
  pendingSends := []
  admitted := none
  initialWindow
  window := some initialWindow
  cursorWindow := none
  sequences := ⟨true, 0⟩
  requested := .offset (some initialWindow)
  outgoing := []
  served := none

def sendOrQueue (q : WindowedQuery) (frame : Frame) : WindowedQuery :=
  if q.status.isConnected then { q with admitted := some frame }
  else { q with pendingSends := q.pendingSends ++ [frame] }

/-- The frames that subscribe: a cursor window follows the query it is for. -/
def subscribeFrames (q : WindowedQuery) : List Frame :=
  match q.cursorWindow with
  | some window => [.query (some q.initialWindow), .queryCursorWindow window]
  | none => [.query q.window]

def step (q : WindowedQuery) : Event → Option WindowedQuery
  | .setWindow window =>
    match q.admitted with
    | none =>
      some ({ q with cursorWindow := none, requested := .offset window }.sendOrQueue (.queryWindow window))
    | some _ => none
  | .setCursorWindow window =>
    match q.admitted, window.validate with
    | none, .ok () =>
      some ({ q with cursorWindow := some window, requested := .cursor window }.sendOrQueue
        (.queryCursorWindow window))
    | none, .error _ => some q
    | some _, _ => none
  | .socketSend =>
    q.admitted.map fun frame => { q with admitted := none, outgoing := q.outgoing ++ [frame] }
  | .connected =>
    match q.status with
    | .disconnected => some { q with status := .connected false false }
    | .connected _ _ => none
  | .flush =>
    match q.status with
    | .connected false subscribed =>
      some { q with
        status := .connected true subscribed
        pendingSends := []
        outgoing := q.outgoing ++ q.pendingSends }
    | _ => none
  | .subscribe =>
    match q.status with
    | .connected flushed false =>
      some { q with
        status := .connected flushed true
        sequences := { q.sequences with awaitingSnapshot := true }
        outgoing := q.outgoing ++ q.subscribeFrames }
    | _ => none
  | .disconnected lost =>
    match q.status with
    | .connected false _ | .connected _ false => none
    | _ =>
      some { q with
        status := .disconnected
        sequences := { q.sequences with awaitingSnapshot := true }
        outgoing := q.outgoing.drop lost
        served := none }
  | .frameHandled =>
    match q.outgoing with
    | frame :: outgoing => some { q with outgoing, served := serve q.served frame }
    | [] => none
  | .response sequence window =>
    match q.sequences.accept sequence with
    | some sequences => some { q with sequences, window }
    | none => some q

/-- What the server selects when it has handled all frames with the socket and the admitted one. -/
def outlook (q : WindowedQuery) : Option WindowSelection :=
  (q.outgoing ++ q.admitted.toList).foldl serve q.served

/-- The query is sent again for what was requested last. Frames an earlier connection left with the socket
go first, and if a query is among them it is this one the server takes. -/
def Resumes (q : WindowedQuery) : Prop :=
  q.admitted.isSome ∨ q.cursorWindow.isSome ∨
    q.requested = (q.outgoing.foldl serve q.served).getD (.offset q.window)

def Frame.selection : Frame → WindowSelection
  | .query window | .queryWindow window => .offset window
  | .queryCursorWindow window => .cursor window

/-- What decides the selection: the query is sent, a request is made, or frames that waited are sent, of
which the last must be for the last request. -/
def verdict (q : WindowedQuery) : Event → Option Prop
  | .subscribe => some q.Resumes
  | .setWindow _ => some True
  | .setCursorWindow window => if window.validate = .ok () then some True else none
  | .flush =>
    if q.admitted.isSome then none
    else q.pendingSends.getLast?.map fun frame => Frame.selection frame = q.requested
  | _ => none

def subscribed (q : WindowedQuery) : Bool :=
  match q.status with
  | .connected _ subscribed => subscribed
  | .disconnected => false

def isWindow : Frame → Bool
  | .query _ => false
  | .queryWindow _ | .queryCursorWindow _ => true

structure WellFormed (q : WindowedQuery) : Prop where
  waiting : ∀ frame ∈ q.pendingSends, isWindow frame = true
  admitted : ∀ frame ∈ q.admitted, isWindow frame = true ∧ Frame.selection frame = q.requested
  cursor : ∀ window, q.cursorWindow = some window → q.requested = .cursor window
  served : q.subscribed = true → (q.outgoing.foldl serve q.served).isSome = true

section Frames

variable {selection : WindowSelection} {frame : Frame} {frames : List Frame}

theorem serve_window (isWindow : isWindow frame = true) :
    serve (some selection) frame = some (Frame.selection frame) := by
  cases frame with
  | query window => cases isWindow
  | queryWindow window => rfl
  | queryCursorWindow window => rfl

theorem serve_some (selection : WindowSelection) (frame : Frame) :
    ∃ next, serve (some selection) frame = some next := by
  cases frame with
  | query window => exact ⟨selection, rfl⟩
  | queryWindow window => exact ⟨.offset window, rfl⟩
  | queryCursorWindow window => exact ⟨.cursor window, rfl⟩

theorem serveAll_isSome {served : Option WindowSelection} (some : served.isSome = true) :
    (frames.foldl serve served).isSome = true := by
  induction frames generalizing served with
  | nil => exact some
  | cons frame rest ih =>
    obtain ⟨selection, rfl⟩ := Option.isSome_iff_exists.mp some
    obtain ⟨next, same⟩ := serve_some selection frame
    exact ih (by rw [same]; rfl)

theorem serveAll_windows (windows : ∀ frame ∈ frames, isWindow frame = true) :
    frames.foldl serve (some selection) =
      some ((frames.getLast?.map Frame.selection).getD selection) := by
  induction frames generalizing selection with
  | nil => rfl
  | cons frame rest ih =>
    obtain ⟨first, later⟩ := List.forall_mem_cons.mp windows
    rw [List.foldl_cons, serve_window first, ih later]
    cases rest with
    | nil => rfl
    | cons other rest =>
      rw [List.getLast?_cons_cons, List.getLast?_eq_some_getLast (List.cons_ne_nil other rest)]
      rfl

end Frames

variable {q next : WindowedQuery} {event : Event} {events : List Event} {before : Prop}

theorem start_wellFormed (initialWindow : QueryWindow) (connected : Bool) :
    (start initialWindow connected).WellFormed := by
  refine ⟨fun _ among => (nomatch among), fun _ among => (nomatch among), fun _ same => (nomatch same), ?_⟩
  intro subscribed
  cases connected <;> cases subscribed

/-- An admitted frame is the last the server handles. -/
theorem outlook_admitted (wellFormed : q.WellFormed) (subscribed : q.subscribed = true)
    {frame : Frame} (admitted : q.admitted = some frame) : q.outlook = some q.requested := by
  obtain ⟨selection, served⟩ := Option.isSome_iff_exists.mp (wellFormed.served subscribed)
  obtain ⟨window, forRequested⟩ := wellFormed.admitted frame admitted
  unfold outlook
  rw [admitted, List.foldl_append, served, Option.toList_some, List.foldl_cons, List.foldl_nil,
    serve_window window, forRequested]

/-! ### Steps -/

/-- What has been decided, once the query is sent. -/
def Follows (q : WindowedQuery) (decided : Prop) : Prop :=
  q.WellFormed ∧ (q.subscribed = true → (q.outlook = some q.requested ↔ decided))

/-- A request is for what its frame selects. -/
theorem follows_request (frame : Frame) {cursorWindow : Option QueryCursorWindow}
    (wellFormed : q.WellFormed) (free : q.admitted = none) (window : isWindow frame = true)
    (cursor : ∀ window, cursorWindow = some window → Frame.selection frame = .cursor window) :
    ({ q with cursorWindow, requested := Frame.selection frame }.sendOrQueue frame).Follows True := by
  unfold sendOrQueue
  split
  · have formed : WellFormed
        { q with cursorWindow, requested := Frame.selection frame, admitted := some frame } := by
      refine ⟨wellFormed.waiting, ?_, cursor, wellFormed.served⟩
      rintro _ ⟨⟩
      exact ⟨window, rfl⟩
    exact ⟨formed, fun subscribed => iff_true_intro (outlook_admitted formed subscribed rfl)⟩
  · rename_i disconnected
    refine ⟨⟨?_, ?_, cursor, wellFormed.served⟩, fun subscribed => ?_⟩
    · intro other among
      rcases List.mem_append.mp among with among | among
      · exact wellFormed.waiting other among
      · rwa [List.mem_singleton.mp among]
    · intro other admitted
      rw [show q.admitted = none from free] at admitted
      cases admitted
    · refine (disconnected ?_).elim
      unfold WindowedQuery.subscribed at subscribed
      split at subscribed
      · rename_i status
        rw [status]
        rfl
      · cases subscribed

theorem follows_step (follows : q.Follows before) (stepped : step q event = some next) :
    next.Follows ((q.verdict event).getD before) := by
  obtain ⟨wellFormed, decided⟩ := follows
  cases event with
  | setWindow window =>
    simp only [step] at stepped
    split at stepped
    · rename_i free
      cases stepped
      exact follows_request (.queryWindow window) wellFormed free rfl fun _ same => (nomatch same)
    · cases stepped
  | setCursorWindow window =>
    simp only [step] at stepped
    split at stepped
    · rename_i free valid
      cases stepped
      rw [verdict, if_pos valid]
      exact follows_request (.queryCursorWindow window) wellFormed free rfl fun _ same =>
        congrArg WindowSelection.cursor (Option.some.inj same)
    · rename_i free message invalid
      cases stepped
      rw [verdict, if_neg (by rw [invalid]; exact fun same => nomatch same)]
      exact ⟨wellFormed, decided⟩
    · cases stepped
  | socketSend =>
    simp only [step, Option.map_eq_some_iff] at stepped
    obtain ⟨frame, admitted, rfl⟩ := stepped
    have same : outlook { q with admitted := none, outgoing := q.outgoing ++ [frame] } = q.outlook := by
      simp [outlook, admitted]
    refine ⟨⟨wellFormed.waiting, fun _ among => (nomatch among), wellFormed.cursor, ?_⟩, ?_⟩
    · intro subscribed
      rw [List.foldl_append]
      exact serveAll_isSome (wellFormed.served subscribed)
    · intro subscribed
      rw [same]
      exact decided subscribed
  | connected =>
    simp only [step] at stepped
    split at stepped
    · cases stepped
      exact ⟨⟨wellFormed.waiting, wellFormed.admitted, wellFormed.cursor, fun subscribed => nomatch subscribed⟩,
        fun subscribed => nomatch subscribed⟩
    · cases stepped
  | flush =>
    simp only [step] at stepped
    split at stepped
    · rename_i subscribed status
      cases stepped
      have same : q.subscribed = subscribed := by rw [WindowedQuery.subscribed, status]
      have formed : WellFormed { q with
          status := .connected true subscribed
          pendingSends := []
          outgoing := q.outgoing ++ q.pendingSends } := by
        refine ⟨fun _ among => (nomatch among), wellFormed.admitted, wellFormed.cursor, fun held => ?_⟩
        rw [List.foldl_append]
        exact serveAll_isSome (wellFormed.served (same.trans held))
      refine ⟨formed, fun held => ?_⟩
      have held' : q.subscribed = true := same.trans held
      obtain free | ⟨frame, admitted⟩ := Option.eq_none_or_eq_some q.admitted
      case inr =>
        rw [verdict, if_pos (by rw [admitted]; rfl), Option.getD_none, ← decided held']
        exact iff_of_true (outlook_admitted formed held admitted) (outlook_admitted wellFormed held' admitted)
      case inl =>
        obtain ⟨selection, served⟩ := Option.isSome_iff_exists.mp (wellFormed.served held')
        have before : q.outlook = some selection := by
          rw [outlook, free, Option.toList_none, List.append_nil, served]
        simp only [verdict, free, outlook, Option.toList_none, List.append_nil, List.foldl_append, served,
          serveAll_windows wellFormed.waiting, Option.isSome_none]
        cases waiting : q.pendingSends.getLast? with
        | none => simpa [before] using decided held'
        | some frame => simp
    · cases stepped
  | subscribe =>
    simp only [step] at stepped
    split at stepped
    · rename_i flushed status
      cases stepped
      have subscribes : ∃ selection, (q.outgoing ++ q.subscribeFrames).foldl serve q.served = some selection ∧
          (q.admitted = none → (selection = q.requested ↔ q.Resumes)) := by
        rw [List.foldl_append]
        unfold subscribeFrames Resumes
        cases cursor : q.cursorWindow with
        | some window =>
          refine ⟨.cursor window, ?_, fun _ => ?_⟩
          · cases q.outgoing.foldl serve q.served <;> rfl
          · exact iff_of_true (wellFormed.cursor window cursor).symm (.inr (.inl rfl))
        | none =>
          refine ⟨(q.outgoing.foldl serve q.served).getD (.offset q.window), ?_, fun free => ?_⟩
          · cases q.outgoing.foldl serve q.served <;> rfl
          · rw [free]
            simp [eq_comm]
      obtain ⟨selection, served, resumes⟩ := subscribes
      have formed : WellFormed { q with
          status := .connected flushed true
          sequences := { q.sequences with awaitingSnapshot := true }
          outgoing := q.outgoing ++ q.subscribeFrames } := by
        refine ⟨wellFormed.waiting, wellFormed.admitted, wellFormed.cursor, fun _ => ?_⟩
        exact Option.isSome_iff_exists.mpr ⟨selection, served⟩
      refine ⟨formed, fun held => ?_⟩
      show _ ↔ q.Resumes
      obtain free | ⟨frame, admitted⟩ := Option.eq_none_or_eq_some q.admitted
      case inr =>
        refine iff_of_true (outlook_admitted formed held admitted) (.inl ?_)
        rw [admitted]
        rfl
      case inl =>
        rw [← resumes free, outlook]
        dsimp only
        rw [free, Option.toList_none, List.append_nil, served]
        exact Option.some_inj
    · cases stepped
  | disconnected lost =>
    simp only [step] at stepped
    split at stepped
    · cases stepped
    · cases stepped
    · cases stepped
      exact ⟨⟨wellFormed.waiting, wellFormed.admitted, wellFormed.cursor, fun held => nomatch held⟩,
        fun held => nomatch held⟩
  | frameHandled =>
    simp only [step] at stepped
    split at stepped
    · rename_i frame outgoing queued
      cases stepped
      refine ⟨⟨wellFormed.waiting, wellFormed.admitted, wellFormed.cursor, fun held => ?_⟩, fun held => ?_⟩
      · have served := wellFormed.served held
        rwa [queued] at served
      · have same := decided held
        rw [outlook, queued] at same
        exact same
    · cases stepped
  | response sequence window =>
    simp only [step] at stepped
    split at stepped
    · cases stepped
      exact ⟨⟨wellFormed.waiting, wellFormed.admitted, wellFormed.cursor, wellFormed.served⟩, decided⟩
    · cases stepped
      exact ⟨wellFormed, decided⟩

namespace Sample

def firstPage : QueryWindow := ⟨0, 10⟩

def secondPage : QueryWindow := ⟨10, 10⟩

end Sample


end WindowedQuery
end Myko.Client

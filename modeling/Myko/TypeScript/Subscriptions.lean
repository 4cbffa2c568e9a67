import Myko.Client.WindowedQuery
import Myko.TypeScript.Outbox

/-!
Query and view subscriptions of the TypeScript client: the selection of each is kept, is sent as it changes,
and is sent again to a socket that takes over.
-/

namespace Myko.TypeScript

open Query Session

/-- Queries and views have messages of their own, which a server handles alike. -/
inductive Payload where
  | message (frame : Client.Frame)
  | cancel

namespace Payload

def serve (served : Option WindowSelection) : Payload → Option WindowSelection
  | .message frame => Client.serve served frame
  | .cancel => none

def serveAll (served : Option WindowSelection) (payloads : List Payload) : Option WindowSelection :=
  payloads.foldl serve served

end Payload

structure Frame where
  tx : Nat
  payload : Payload

/-- The subscriptions a server has on a connection. -/
abbrev Served : Type := Nat → Option WindowSelection

def Served.handle (served : Served) (frame : Frame) : Served :=
  Function.update served frame.tx (frame.payload.serve (served frame.tx))

structure ActiveQuery where
  tx : Nat
  window : Option QueryWindow

/-- What the client keeps of its subscriptions, numbered in the order they are made. -/
structure Selections where
  activeQueries : List ActiveQuery
  activeViews : List ActiveQuery
  activeQueryCursorWindows : Nat → Option QueryCursorWindow
  issued : Nat
  /-- What the application asked for last. -/
  requested : Served

inductive Call where
  | startQuery (window : Option QueryWindow)
  | cancelQuery (tx : Nat)
  | setQueryWindow (tx : Nat) (window : Option QueryWindow)
  | setQueryCursorWindow (tx : Nat) (window : QueryCursorWindow)
  | startView (window : Option QueryWindow)
  | cancelView (tx : Nat)
  | setViewWindow (tx : Nat) (window : Option QueryWindow)

def isActive (active : List ActiveQuery) (tx : Nat) : Bool := active.any fun query => query.tx = tx

def setActive (active : List ActiveQuery) (tx : Nat) (window : Option QueryWindow) : List ActiveQuery :=
  active.map fun query => if query.tx = tx then { query with window } else query

def deleteActive (active : List ActiveQuery) (tx : Nat) : List ActiveQuery :=
  active.filter fun query => query.tx ≠ tx

namespace Selections

def start : Selections := ⟨[], [], fun _ => none, 0, fun _ => none⟩

def request (s : Selections) (tx : Nat) (selection : Option WindowSelection) : Selections :=
  { s with requested := Function.update s.requested tx selection }

def startQuery (s : Selections) (window : Option QueryWindow) : Selections × List Frame :=
  let active : ActiveQuery := ⟨s.issued, window⟩
  ({ s with activeQueries := s.activeQueries ++ [active], issued := s.issued + 1 }.request s.issued
    (some (.offset window)), [⟨s.issued, .message (.query window)⟩])

def cancelQuery (s : Selections) (tx : Nat) : Selections × List Frame :=
  if isActive s.activeQueries tx then
    ({ s with
      activeQueries := deleteActive s.activeQueries tx
      activeQueryCursorWindows := Function.update s.activeQueryCursorWindows tx none }.request tx none,
      [⟨tx, .cancel⟩])
  else (s, [])

/-- The cursor window stays as it is. -/
def setQueryWindow (s : Selections) (tx : Nat) (window : Option QueryWindow) : Selections × List Frame :=
  if isActive s.activeQueries tx then
    ({ s with activeQueries := setActive s.activeQueries tx window }.request tx (some (.offset window)),
      [⟨tx, .message (.queryWindow window)⟩])
  else (s, [])

def setQueryCursorWindow (s : Selections) (tx : Nat) (window : QueryCursorWindow) :
    Selections × List Frame :=
  match window.validate with
  | .error _ => (s, [])
  | .ok () =>
    if isActive s.activeQueries tx then
      ({ s with
        activeQueryCursorWindows := Function.update s.activeQueryCursorWindows tx (some window) }.request tx
          (some (.cursor window)), [⟨tx, .message (.queryCursorWindow window)⟩])
    else (s, [])

def startView (s : Selections) (window : Option QueryWindow) : Selections × List Frame :=
  let active : ActiveQuery := ⟨s.issued, window⟩
  ({ s with activeViews := s.activeViews ++ [active], issued := s.issued + 1 }.request s.issued
    (some (.offset window)), [⟨s.issued, .message (.query window)⟩])

def cancelView (s : Selections) (tx : Nat) : Selections × List Frame :=
  if isActive s.activeViews tx then
    ({ s with activeViews := deleteActive s.activeViews tx }.request tx none, [⟨tx, .cancel⟩])
  else (s, [])

def setViewWindow (s : Selections) (tx : Nat) (window : Option QueryWindow) : Selections × List Frame :=
  if isActive s.activeViews tx then
    ({ s with activeViews := setActive s.activeViews tx window }.request tx (some (.offset window)),
      [⟨tx, .message (.queryWindow window)⟩])
  else (s, [])

def call (s : Selections) : Call → Selections × List Frame
  | .startQuery window => s.startQuery window
  | .cancelQuery tx => s.cancelQuery tx
  | .setQueryWindow tx window => s.setQueryWindow tx window
  | .setQueryCursorWindow tx window => s.setQueryCursorWindow tx window
  | .startView window => s.startView window
  | .cancelView tx => s.cancelView tx
  | .setViewWindow tx window => s.setViewWindow tx window

def callAll (s : Selections) : List Call → Selections × List Frame
  | [] => (s, [])
  | call :: rest =>
    let (s, frames) := s.call call
    let (s, more) := s.callAll rest
    (s, frames ++ more)

/-- The frames that subscribe again. -/
def resent (s : Selections) : List Frame :=
  (s.activeQueries.flatMap fun query =>
    ⟨query.tx, .message (.query query.window)⟩ ::
      (s.activeQueryCursorWindows query.tx).toList.map fun window =>
        ⟨query.tx, .message (.queryCursorWindow window)⟩) ++
    s.activeViews.map fun view => ⟨view.tx, .message (.query view.window)⟩

end Selections

structure Subscriptions where
  connection : Connection
  selections : Selections
  messageQueue : List Frame
  /-- What the current server has once it has handled all frames. -/
  served : Served

inductive SubscriptionEvent where
  | call (call : Call)
  /-- What happens to sockets, and what callbacks of the status and of the current server call meanwhile. -/
  | socket (event : SocketEvent) (callbacks : List Call)

/-- A socket becomes the current server, on a connection without subscriptions. -/
def Connection.takesOver (c next : Connection) : SocketEvent → Bool
  | .opens _ => c.currentServer.isNone
  | .closes address => c.currentServer = some address ∧ next.currentServer.isSome
  | _ => false

namespace Subscriptions

def start : Subscriptions := ⟨.start, .start, [], fun _ => none⟩

def sendNow (s : Subscriptions) (frame : Frame) : Subscriptions :=
  if s.connection.currentOpen then { s with served := s.served.handle frame }
  else { s with messageQueue := s.messageQueue ++ [frame] }

def perform (s : Subscriptions) (call : Call) : Subscriptions :=
  let (selections, frames) := s.selections.call call
  frames.foldl sendNow { s with selections }

def flushQueue (s : Subscriptions) : Subscriptions := s.messageQueue.foldl sendNow { s with messageQueue := [] }

def resendSubscriptions (s : Subscriptions) : Subscriptions := s.selections.resent.foldl sendNow s

/-- Only a socket that opens gets what waits in the queue. -/
def onSocket (s : Subscriptions) (event : SocketEvent) (next : Connection) (callbacks : List Call) :
    Subscriptions :=
  if s.connection.takesOver next event then
    let called := callbacks.foldl perform { s with connection := next, served := fun _ => none }
    match event with
    | .opens _ => called.flushQueue.resendSubscriptions
    | _ => called.resendSubscriptions
  else callbacks.foldl perform { s with connection := next }

variable (parseAddress : String → Option (String × Nat))

def step (s : Subscriptions) : SubscriptionEvent → Option Subscriptions
  | .call call => some (s.perform call)
  | .socket event callbacks =>
    (s.connection.step parseAddress event).map fun next => s.onSocket event next callbacks

/-- An open current server has the subscriptions asked for last. -/
def Restored (s : Subscriptions) : Prop :=
  s.connection.currentOpen = true → ∀ tx, s.served tx = s.selections.requested tx

end Subscriptions

/-! ### Frames of one subscription -/

variable {active : List ActiveQuery} {query : ActiveQuery} {tx other : Nat} {window : Option QueryWindow}
variable {served : Served} {frames more : List Frame} {frame : Frame}

def payloads (tx : Nat) (frames : List Frame) : List Payload :=
  (frames.filter fun frame => frame.tx = tx).map Frame.payload

theorem payloads_append : payloads tx (frames ++ more) = payloads tx frames ++ payloads tx more := by
  unfold payloads
  rw [List.filter_append, List.map_append]

theorem payloads_nil (none : ∀ frame ∈ frames, frame.tx ≠ tx) : payloads tx frames = [] := by
  unfold payloads
  rw [List.filter_eq_nil_iff.mpr fun frame among => by simpa using none frame among]
  rfl

theorem payloads_own (own : ∀ frame ∈ frames, frame.tx = tx) : payloads tx frames = frames.map Frame.payload := by
  unfold payloads
  rw [List.filter_eq_self.mpr fun frame among => by simpa using own frame among]

theorem serveAll_append (selection : Option WindowSelection) (first later : List Payload) :
    Payload.serveAll selection (first ++ later) = Payload.serveAll (Payload.serveAll selection first) later :=
  List.foldl_append

/-- A server has of each subscription what its own frames come to. -/
theorem handleAll_apply (frames : List Frame) (served : Served) (tx : Nat) :
    (frames.foldl Served.handle served) tx = Payload.serveAll (served tx) (payloads tx frames) := by
  induction frames generalizing served with
  | nil => rfl
  | cons frame rest ih =>
    rw [List.foldl_cons, ih, Served.handle]
    by_cases own : frame.tx = tx
    · subst own
      rw [Function.update_self]
      simp [payloads, Payload.serveAll]
    · rw [Function.update_of_ne (Ne.symm own)]
      simp [payloads, own]

/-- Where each entry of a list with distinct keys has frames of its own, a subscription has those of its
entry. -/
theorem payloads_flatMap {g : ActiveQuery → List Frame} (distinct : (active.map ActiveQuery.tx).Nodup)
    (own : ∀ query, ∀ frame ∈ g query, frame.tx = query.tx) :
    payloads tx (active.flatMap g) =
      ((active.find? fun query => query.tx = tx).map fun query => (g query).map Frame.payload).getD [] := by
  induction active with
  | nil => rfl
  | cons query rest ih =>
    rw [List.map_cons, List.nodup_cons] at distinct
    rw [List.flatMap_cons, payloads_append]
    by_cases here : query.tx = tx
    · subst here
      have others : ∀ frame ∈ rest.flatMap g, frame.tx ≠ query.tx := by
        intro frame among same
        obtain ⟨other, present, among⟩ := List.mem_flatMap.mp among
        exact distinct.1 (List.mem_map.mpr ⟨other, present, (own other frame among).symm.trans same⟩)
      rw [payloads_own (own query), payloads_nil others]
      simp
    · rw [payloads_nil fun frame among same => here ((own query frame among).symm.trans same), ih distinct.2]
      simp [here]

/-! ### What is active -/

def windowOf (active : List ActiveQuery) (tx : Nat) : Option (Option QueryWindow) :=
  (active.find? fun query => query.tx = tx).map ActiveQuery.window

theorem isActive_iff : isActive active tx = true ↔ ∃ window, windowOf active tx = some window := by
  unfold isActive windowOf
  rw [← Option.isSome_iff_exists, Option.isSome_map, List.find?_isSome, List.any_eq_true]

theorem windowOf_append (fresh : windowOf active tx = none) :
    windowOf (active ++ [⟨tx, window⟩]) other = Function.update (windowOf active) tx (some window) other := by
  unfold windowOf at fresh ⊢
  rw [List.find?_append]
  by_cases here : other = tx
  · subst here
    rw [Option.map_eq_none_iff.mp fresh]
    simp
  · simp [here, Ne.symm here]

theorem windowOf_setActive (isActive : isActive active tx = true) :
    windowOf (setActive active tx window) other = Function.update (windowOf active) tx (some window) other := by
  unfold windowOf setActive
  rw [List.find?_map]
  have same : (fun query : ActiveQuery => decide (query.tx = other)) ∘
      (fun query => if query.tx = tx then { query with window } else query) =
        fun query => decide (query.tx = other) := by
    funext query
    by_cases here : query.tx = tx <;> simp [here]
  rw [same, Option.map_map]
  by_cases here : other = tx
  · subst here
    obtain ⟨query, found⟩ := Option.isSome_iff_exists.mp (List.find?_isSome.mpr (List.any_eq_true.mp isActive))
    have own : query.tx = other := by simpa using List.find?_some found
    rw [found]
    simp [own]
  · rw [Function.update_of_ne here]
    cases found : active.find? fun query => decide (query.tx = other) with
    | none => rfl
    | some query =>
      have own : query.tx = other := by simpa using List.find?_some found
      simp [own, here]

theorem windowOf_deleteActive :
    windowOf (deleteActive active tx) other = Function.update (windowOf active) tx none other := by
  unfold windowOf deleteActive
  rw [List.find?_filter]
  by_cases here : other = tx
  · subst here
    simp
  · rw [Function.update_of_ne here]
    congr 2
    funext query
    by_cases own : query.tx = other <;> simp [own, here]

/-- What the client keeps of one subscription: a cursor window, or one that an offset window has replaced,
stays with its query. -/
inductive Entry : Option (Option QueryWindow) → Option (Option QueryWindow) → Option QueryCursorWindow →
    Option WindowSelection → Prop where
  | inactive : Entry none none none none
  | offset (window : Option QueryWindow) : Entry (some window) none none (some (.offset window))
  | cursor (window : Option QueryWindow) (cursorWindow : QueryCursorWindow) :
    Entry (some window) none (some cursorWindow) (some (.cursor cursorWindow))
  | replaced (window : Option QueryWindow) (cursorWindow : QueryCursorWindow) :
    Entry (some window) none (some cursorWindow) (some (.offset window))
  | view (window : Option QueryWindow) : Entry none (some window) none (some (.offset window))

namespace Entry

variable {asQuery asView : Option (Option QueryWindow)} {cursorWindow : Option QueryCursorWindow}
variable {requested : Option WindowSelection} {next : Option QueryWindow}

theorem unknown (entry : Entry asQuery asView cursorWindow none) : asQuery = none ∧ asView = none := by
  cases entry
  exact ⟨rfl, rfl⟩

theorem query_asked (entry : Entry (some window) asView cursorWindow requested) :
    ∃ selection, requested = some selection := by
  cases entry <;> exact ⟨_, rfl⟩

theorem view_asked (entry : Entry asQuery (some window) cursorWindow requested) :
    ∃ selection, requested = some selection := by
  cases entry
  exact ⟨_, rfl⟩

theorem startQuery (entry : Entry asQuery asView cursorWindow none) :
    Entry (some next) asView cursorWindow (some (.offset next)) := by
  cases entry
  exact .offset next

theorem startView (entry : Entry asQuery asView cursorWindow none) :
    Entry asQuery (some next) cursorWindow (some (.offset next)) := by
  cases entry
  exact .view next

theorem cancelQuery (entry : Entry (some window) asView cursorWindow requested) :
    Entry none asView none none := by
  cases entry <;> exact .inactive

theorem cancelView (entry : Entry asQuery (some window) cursorWindow requested) :
    Entry asQuery none cursorWindow none := by
  cases entry
  exact .inactive

theorem setQueryWindow (entry : Entry (some window) asView cursorWindow requested) :
    Entry (some next) asView cursorWindow (some (.offset next)) := by
  cases entry with
  | offset => exact .offset next
  | cursor _ cursorWindow => exact .replaced next cursorWindow
  | replaced _ cursorWindow => exact .replaced next cursorWindow

theorem setQueryCursorWindow {cursor : QueryCursorWindow}
    (entry : Entry (some window) asView cursorWindow requested) :
    Entry (some window) asView (some cursor) (some (.cursor cursor)) := by
  cases entry <;> exact .cursor window cursor

theorem setViewWindow (entry : Entry asQuery (some window) cursorWindow requested) :
    Entry asQuery (some next) cursorWindow (some (.offset next)) := by
  cases entry
  exact .view next

end Entry

namespace Selections

variable {s after last : Selections}

structure Tracked (s : Selections) : Prop where
  queries : (s.activeQueries.map ActiveQuery.tx).Nodup
  views : (s.activeViews.map ActiveQuery.tx).Nodup
  entries : ∀ tx, Entry (windowOf s.activeQueries tx) (windowOf s.activeViews tx)
    (s.activeQueryCursorWindows tx) (s.requested tx)
  unissued : ∀ tx, s.issued ≤ tx → s.requested tx = none

/-- Calls and their frames: a server that has what was asked for has it again, and no frame is for a
subscription of later, or starts one of before. -/
structure Asks (s after : Selections) (frames : List Frame) : Prop where
  tracked : after.Tracked
  requested : after.requested = frames.foldl Served.handle s.requested
  issued : s.issued ≤ after.issued
  numbered : ∀ frame ∈ frames, frame.tx < after.issued
  unasked : ∀ tx < s.issued, Payload.serveAll none (payloads tx frames) = none

theorem Asks.refl (tracked : s.Tracked) : s.Asks s [] :=
  ⟨tracked, rfl, Nat.le_refl _, fun _ among => (nomatch among), fun _ _ => rfl⟩

theorem Asks.trans (first : s.Asks after frames) (second : after.Asks last more) :
    s.Asks last (frames ++ more) := by
  refine ⟨second.tracked, ?_, first.issued.trans second.issued, fun frame among => ?_, fun tx old => ?_⟩
  · rw [List.foldl_append, ← first.requested, second.requested]
  · rcases List.mem_append.mp among with among | among
    · exact Nat.lt_of_lt_of_le (first.numbered frame among) second.issued
    · exact second.numbered frame among
  · rw [payloads_append, serveAll_append, first.unasked tx old]
    exact second.unasked tx (Nat.lt_of_lt_of_le old first.issued)

/-- A call changes one subscription and sends one frame for it. -/
theorem asks_one {payload : Payload} {asQuery asView : Option (Option QueryWindow)}
    {cursorWindow : Option QueryCursorWindow} {selection : Option WindowSelection} (tracked : s.Tracked)
    (queries : (after.activeQueries.map ActiveQuery.tx).Nodup)
    (views : (after.activeViews.map ActiveQuery.tx).Nodup)
    (asQueries : ∀ other, windowOf after.activeQueries other =
      Function.update (windowOf s.activeQueries) tx asQuery other)
    (asViews : ∀ other, windowOf after.activeViews other =
      Function.update (windowOf s.activeViews) tx asView other)
    (cursors : after.activeQueryCursorWindows =
      Function.update s.activeQueryCursorWindows tx cursorWindow)
    (requested : after.requested = Function.update s.requested tx selection)
    (entry : Entry asQuery asView cursorWindow selection)
    (serves : payload.serve (s.requested tx) = selection)
    (counted : s.issued ≤ after.issued) (numbered : tx < after.issued)
    (unasked : tx < s.issued → payload.serve none = none) : s.Asks after [⟨tx, payload⟩] := by
  refine ⟨⟨queries, views, fun other => ?_, fun other late => ?_⟩, ?_, counted, fun frame among => ?_, ?_⟩
  · rw [asQueries, asViews, cursors, requested]
    by_cases here : other = tx
    · subst here
      simpa only [Function.update_self] using entry
    · simpa only [Function.update_of_ne here] using tracked.entries other
  · have different : other ≠ tx := by omega
    rw [requested, Function.update_of_ne different]
    exact tracked.unissued other (counted.trans late)
  · rw [requested, ← serves]
    rfl
  · rw [List.mem_singleton.mp among]
    exact numbered
  · intro other old
    by_cases here : tx = other
    · subst here
      simpa [payloads, Payload.serveAll] using unasked old
    · simp [payloads, here, Payload.serveAll]

theorem unchanged {V : Type} (f : Nat → V) (tx other : Nat) : f other = Function.update f tx (f tx) other := by
  rw [Function.update_eq_self]

theorem nodup_setActive (distinct : (active.map ActiveQuery.tx).Nodup) :
    ((setActive active tx window).map ActiveQuery.tx).Nodup := by
  have same : (setActive active tx window).map ActiveQuery.tx = active.map ActiveQuery.tx := by
    unfold setActive
    rw [List.map_map]
    refine List.map_congr_left fun query _ => ?_
    by_cases here : query.tx = tx <;> simp [here]
  rwa [same]

theorem nodup_deleteActive (distinct : (active.map ActiveQuery.tx).Nodup) :
    ((deleteActive active tx).map ActiveQuery.tx).Nodup :=
  distinct.sublist (List.filter_sublist.map _)

theorem nodup_append (distinct : (active.map ActiveQuery.tx).Nodup) (fresh : windowOf active tx = none) :
    ((active ++ [ActiveQuery.mk tx window]).map ActiveQuery.tx).Nodup := by
  rw [List.map_append, List.map_singleton]
  refine List.nodup_append.mpr ⟨distinct, List.nodup_singleton _, fun other among tx' same => ?_⟩
  obtain ⟨query, present, rfl⟩ := List.mem_map.mp among
  rw [List.mem_singleton.mp same]
  intro taken
  have absent := List.find?_eq_none.mp (Option.map_eq_none_iff.mp fresh) query present
  simp [taken] at absent

theorem Tracked.active_issued (tracked : s.Tracked) {selection : WindowSelection}
    (asked : s.requested tx = some selection) : tx < s.issued := by
  by_contra late
  rw [tracked.unissued tx (Nat.le_of_not_lt late)] at asked
  cases asked

theorem call_asks (tracked : s.Tracked) (call : Call) : s.Asks (s.call call).1 (s.call call).2 := by
  have fresh : Entry (windowOf s.activeQueries s.issued) (windowOf s.activeViews s.issued)
      (s.activeQueryCursorWindows s.issued) none := by
    rw [← tracked.unissued s.issued (Nat.le_refl _)]
    exact tracked.entries s.issued
  cases call with
  | startQuery window =>
    exact asks_one tracked (nodup_append tracked.queries fresh.unknown.1) tracked.views
      (fun _ => windowOf_append fresh.unknown.1) (unchanged _ _) (funext (unchanged _ _)) rfl fresh.startQuery
      (by rw [tracked.unissued _ (Nat.le_refl _)]; rfl) (Nat.le_succ _) (Nat.lt_succ_self _)
      fun old => (Nat.lt_irrefl _ old).elim
  | startView window =>
    exact asks_one tracked tracked.queries (nodup_append tracked.views fresh.unknown.2) (unchanged _ _)
      (fun _ => windowOf_append fresh.unknown.2) (funext (unchanged _ _)) rfl fresh.startView
      (by rw [tracked.unissued _ (Nat.le_refl _)]; rfl) (Nat.le_succ _) (Nat.lt_succ_self _)
      fun old => (Nat.lt_irrefl _ old).elim
  | cancelQuery tx =>
    simp only [Selections.call, Selections.cancelQuery]
    split
    · rename_i isActive
      obtain ⟨window, found⟩ := isActive_iff.mp isActive
      have entry := tracked.entries tx
      rw [found] at entry
      obtain ⟨selection, asked⟩ := entry.query_asked
      exact asks_one tracked (nodup_deleteActive tracked.queries) tracked.views
        (fun _ => windowOf_deleteActive) (unchanged _ _) rfl rfl entry.cancelQuery rfl (Nat.le_refl _)
        (tracked.active_issued asked) fun _ => rfl
    · exact .refl tracked
  | setQueryWindow tx next =>
    simp only [Selections.call, Selections.setQueryWindow]
    split
    · rename_i isActive
      obtain ⟨window, found⟩ := isActive_iff.mp isActive
      have entry := tracked.entries tx
      rw [found] at entry
      obtain ⟨selection, asked⟩ := entry.query_asked
      exact asks_one tracked (nodup_setActive tracked.queries) tracked.views
        (fun _ => windowOf_setActive isActive) (unchanged _ _) (funext (unchanged _ _)) rfl
        entry.setQueryWindow (by rw [asked]; rfl) (Nat.le_refl _) (tracked.active_issued asked) fun _ => rfl
    · exact .refl tracked
  | setQueryCursorWindow tx cursor =>
    simp only [Selections.call, Selections.setQueryCursorWindow]
    split
    · exact .refl tracked
    · split
      · rename_i isActive
        obtain ⟨window, found⟩ := isActive_iff.mp isActive
        have entry := tracked.entries tx
        rw [found] at entry
        obtain ⟨selection, asked⟩ := entry.query_asked
        refine asks_one tracked tracked.queries tracked.views (unchanged _ _) (unchanged _ _) rfl rfl ?_
          (by rw [asked]; rfl) (Nat.le_refl _) (tracked.active_issued asked) fun _ => rfl
        show Entry (windowOf s.activeQueries tx) (windowOf s.activeViews tx) _ _
        rw [found]
        exact entry.setQueryCursorWindow
      · exact .refl tracked
  | cancelView tx =>
    simp only [Selections.call, Selections.cancelView]
    split
    · rename_i isActive
      obtain ⟨window, found⟩ := isActive_iff.mp isActive
      have entry := tracked.entries tx
      rw [found] at entry
      obtain ⟨selection, asked⟩ := entry.view_asked
      exact asks_one tracked tracked.queries (nodup_deleteActive tracked.views) (unchanged _ _)
        (fun _ => windowOf_deleteActive) (funext (unchanged _ _)) rfl entry.cancelView rfl (Nat.le_refl _)
        (tracked.active_issued asked) fun _ => rfl
    · exact .refl tracked
  | setViewWindow tx next =>
    simp only [Selections.call, Selections.setViewWindow]
    split
    · rename_i isActive
      obtain ⟨window, found⟩ := isActive_iff.mp isActive
      have entry := tracked.entries tx
      rw [found] at entry
      obtain ⟨selection, asked⟩ := entry.view_asked
      exact asks_one tracked tracked.queries (nodup_setActive tracked.views) (unchanged _ _)
        (fun _ => windowOf_setActive isActive) (funext (unchanged _ _)) rfl entry.setViewWindow
        (by rw [asked]; rfl) (Nat.le_refl _) (tracked.active_issued asked) fun _ => rfl
    · exact .refl tracked

theorem callAll_asks (tracked : s.Tracked) (calls : List Call) :
    s.Asks (s.callAll calls).1 (s.callAll calls).2 := by
  induction calls generalizing s with
  | nil => exact .refl tracked
  | cons call rest ih =>
    have first := call_asks tracked call
    exact first.trans (ih first.tracked)

theorem start_tracked : start.Tracked :=
  ⟨.nil, .nil, fun _ => .inactive, fun _ _ => rfl⟩

/-! ### Subscribing again -/

/-- What is sent again for one subscription. -/
theorem payloads_resent (tracked : s.Tracked) : payloads tx s.resent =
    ((windowOf s.activeQueries tx).map fun window =>
      .message (.query window) ::
        (s.activeQueryCursorWindows tx).toList.map fun window => .message (.queryCursorWindow window)).getD [] ++
      ((windowOf s.activeViews tx).map fun window => [.message (.query window)]).getD [] := by
  unfold resent
  rw [payloads_append, payloads_flatMap tracked.queries, List.map_eq_flatMap, payloads_flatMap tracked.views]
  · congr 2
    · unfold windowOf
      cases found : s.activeQueries.find? fun query => query.tx = tx with
      | none => rfl
      | some query =>
        have own : query.tx = tx := by simpa using List.find?_some found
        simp [own]
    · unfold windowOf
      rw [Option.map_map]
      rfl
  · intro view frame among
    rw [List.mem_singleton.mp among]
  · intro query frame among
    rcases List.mem_cons.mp among with rfl | among
    · rfl
    · obtain ⟨window, _, rfl⟩ := List.mem_map.mp among
      rfl

/-- A server has what was asked for once subscriptions have been sent again, just when no cursor window has
been replaced and the server had no other selection before. -/
theorem resent_restores_iff (tracked : s.Tracked) (served : Served) (tx : Nat) :
    (s.resent.foldl Served.handle served) tx = s.requested tx ↔
      (∀ window, s.activeQueryCursorWindows tx = some window → s.requested tx = some (.cursor window)) ∧
      (s.activeQueryCursorWindows tx = none → served tx = none ∨ served tx = s.requested tx) := by
  rw [handleAll_apply, payloads_resent tracked]
  have entry := tracked.entries tx
  generalize windowOf s.activeQueries tx = asQuery at entry ⊢
  generalize windowOf s.activeViews tx = asView at entry ⊢
  generalize s.activeQueryCursorWindows tx = cursorWindow at entry ⊢
  generalize s.requested tx = requested at entry ⊢
  generalize served tx = before
  cases entry <;> cases before <;> simp [Payload.serveAll, Payload.serve, Client.serve]

end Selections

namespace Subscriptions

variable {parseAddress : String → Option (String × Nat)} {s after last : Subscriptions}
variable {event : SubscriptionEvent} {events : List SubscriptionEvent} {calls : List Call}

/-- No cursor window of a query is one that an offset window has replaced. -/
def CursorsRequested (s : Selections) : Prop :=
  ∀ tx window, s.activeQueryCursorWindows tx = some window → s.requested tx = some (.cursor window)

/-- The frames that wait for a subscription leave it what was asked for last, or do not start it. -/
def QueueAgrees (messageQueue : List Frame) (s : Selections) : Prop :=
  ∀ tx, s.activeQueryCursorWindows tx = none →
    Payload.serveAll none (payloads tx messageQueue) = none ∨
      Payload.serveAll none (payloads tx messageQueue) = s.requested tx

/-- When a socket takes over, what the callbacks ask for included. -/
def Restores (s : Subscriptions) : SubscriptionEvent → Prop
  | .socket (.opens address) callbacks =>
    s.connection.OpensFirst (.opens address) →
      CursorsRequested (s.selections.callAll callbacks).1 ∧
        QueueAgrees s.messageQueue (s.selections.callAll callbacks).1
  | .socket (.closes address) callbacks =>
    s.connection.FailsOver (.closes address) → CursorsRequested (s.selections.callAll callbacks).1
  | _ => True

structure Steady (parseAddress : String → Option (String × Nat)) (s : Subscriptions) : Prop where
  wellFormed : s.connection.WellFormed parseAddress
  opened : s.connection.CurrentOpened
  tracked : s.selections.Tracked
  numbered : ∀ frame ∈ s.messageQueue, frame.tx < s.selections.issued

theorem sendAll_open (opened : s.connection.currentOpen = true) (frames : List Frame) :
    frames.foldl sendNow s = { s with served := frames.foldl Served.handle s.served } := by
  induction frames generalizing s with
  | nil => rfl
  | cons frame rest ih =>
    have first : s.sendNow frame = { s with served := s.served.handle frame } := if_pos opened
    rw [List.foldl_cons, first]
    exact ih opened

theorem sendAll_closed (closed : s.connection.currentOpen = false) (frames : List Frame) :
    frames.foldl sendNow s = { s with messageQueue := s.messageQueue ++ frames } := by
  induction frames generalizing s with
  | nil => rw [List.append_nil]; rfl
  | cons frame rest ih =>
    have first : s.sendNow frame = { s with messageQueue := s.messageQueue ++ [frame] } :=
      if_neg (by rw [closed]; decide)
    rw [List.foldl_cons, first, List.append_cons s.messageQueue frame rest]
    exact ih closed

theorem performAll_open (opened : s.connection.currentOpen = true) : calls.foldl perform s =
    { s with
      selections := (s.selections.callAll calls).1
      served := (s.selections.callAll calls).2.foldl Served.handle s.served } := by
  induction calls generalizing s with
  | nil => rfl
  | cons call rest ih =>
    have first : s.perform call = { s with
        selections := (s.selections.call call).1
        served := (s.selections.call call).2.foldl Served.handle s.served } :=
      sendAll_open (s := { s with selections := (s.selections.call call).1 }) opened _
    rw [List.foldl_cons, first, ih (s := { s with
      selections := (s.selections.call call).1
      served := (s.selections.call call).2.foldl Served.handle s.served }) opened]
    simp only [Selections.callAll, List.foldl_append]

theorem performAll_closed (closed : s.connection.currentOpen = false) : calls.foldl perform s =
    { s with
      selections := (s.selections.callAll calls).1
      messageQueue := s.messageQueue ++ (s.selections.callAll calls).2 } := by
  induction calls generalizing s with
  | nil => rw [Selections.callAll, List.append_nil]; rfl
  | cons call rest ih =>
    have first : s.perform call = { s with
        selections := (s.selections.call call).1
        messageQueue := s.messageQueue ++ (s.selections.call call).2 } :=
      sendAll_closed (s := { s with selections := (s.selections.call call).1 }) closed _
    rw [List.foldl_cons, first, ih (s := { s with
      selections := (s.selections.call call).1
      messageQueue := s.messageQueue ++ (s.selections.call call).2 }) closed]
    simp only [Selections.callAll, List.append_assoc]

theorem flushQueue_open (opened : s.connection.currentOpen = true) : s.flushQueue =
    { s with messageQueue := [], served := s.messageQueue.foldl Served.handle s.served } :=
  sendAll_open (s := { s with messageQueue := [] }) opened _

theorem resendSubscriptions_open (opened : s.connection.currentOpen = true) : s.resendSubscriptions =
    { s with served := s.selections.resent.foldl Served.handle s.served } := sendAll_open opened _

/-- While no socket takes over, calls reach the server as they are made, or wait. -/
theorem performAll_keeps (calls : List Call) (tracked : s.selections.Tracked)
    (numbered : ∀ frame ∈ s.messageQueue, frame.tx < s.selections.issued) :
    (calls.foldl perform s).connection = s.connection ∧ (calls.foldl perform s).selections.Tracked ∧
      (∀ frame ∈ (calls.foldl perform s).messageQueue,
        frame.tx < (calls.foldl perform s).selections.issued) ∧
      (s.Restored → (calls.foldl perform s).Restored) := by
  have asks := Selections.callAll_asks tracked calls
  cases opened : s.connection.currentOpen with
  | true =>
    rw [performAll_open opened]
    refine ⟨rfl, asks.tracked, fun frame among => (numbered frame among).trans_le asks.issued, ?_⟩
    intro restored _ tx
    have same : s.served = s.selections.requested := funext (restored opened)
    show ((s.selections.callAll calls).2.foldl Served.handle s.served) tx = _
    rw [same, asks.requested]
  | false =>
    rw [performAll_closed opened]
    refine ⟨rfl, asks.tracked, fun frame among => ?_, fun _ isOpen => ?_⟩
    · rcases List.mem_append.mp among with among | among
      · exact (numbered frame among).trans_le asks.issued
      · exact asks.numbered frame among
    · rw [show s.connection.currentOpen = true from isOpen] at opened
      cases opened

/-- On a new connection a server has of what the callbacks ask for what they started. -/
theorem fresh_served (tracked : s.selections.Tracked) (calls : List Call) (tx : Nat) :
    ((s.selections.callAll calls).2.foldl Served.handle fun _ => none) tx = none ∨
      s.selections.issued ≤ tx ∧
        ((s.selections.callAll calls).2.foldl Served.handle fun _ => none) tx =
          (s.selections.callAll calls).1.requested tx := by
  have asks := Selections.callAll_asks tracked calls
  rw [handleAll_apply, asks.requested, handleAll_apply]
  rcases Nat.lt_or_ge tx s.selections.issued with old | new
  · exact .inl (asks.unasked tx old)
  · rw [tracked.unissued tx new]
    exact .inr ⟨new, rfl⟩

/-- What the queue leaves a server that has handled the frames of the callbacks. -/
theorem queue_agrees_iff (tracked : s.selections.Tracked)
    (numbered : ∀ frame ∈ s.messageQueue, frame.tx < s.selections.issued) (calls : List Call) (tx : Nat) :
    (s.messageQueue.foldl Served.handle ((s.selections.callAll calls).2.foldl Served.handle fun _ => none)) tx =
        none ∨
      (s.messageQueue.foldl Served.handle ((s.selections.callAll calls).2.foldl Served.handle fun _ => none)) tx =
        (s.selections.callAll calls).1.requested tx ↔
    Payload.serveAll none (payloads tx s.messageQueue) = none ∨
      Payload.serveAll none (payloads tx s.messageQueue) = (s.selections.callAll calls).1.requested tx := by
  rw [handleAll_apply s.messageQueue]
  rcases fresh_served tracked calls tx with none | ⟨new, requested⟩
  · rw [none]
  · have later : payloads tx s.messageQueue = [] := payloads_nil fun frame among same => by
      have old := numbered frame among
      omega
    rw [later]
    exact iff_of_true (.inr requested) (.inl rfl)

theorem takesOver_iff {c next : Connection} {socketEvent : SocketEvent}
    (stepped : c.step parseAddress socketEvent = some next) :
    c.takesOver next socketEvent = true ↔ c.TakesOver socketEvent := by
  cases socketEvent with
  | opens address =>
    show c.currentServer.isNone = true ↔ _
    rw [Option.isNone_iff_eq_none]
    exact ⟨fun none => .inl none, fun takes => takes.resolve_right id⟩
  | closes address =>
    obtain ⟨managed, found, rfl⟩ := Option.map_eq_some_iff.mp stepped
    obtain ⟨present, rfl⟩ := Connection.socket_mem found
    simp only [Connection.takesOver, decide_eq_true_eq]
    constructor
    · rintro ⟨isCurrent, some⟩
      refine .inr ⟨isCurrent, Connection.failsOver_iff.mp ?_⟩
      refine Option.ne_none_iff_exists'.mp fun none => ?_
      rw [Connection.onClose_lost isCurrent none] at some
      cases some
    · intro takes
      obtain ⟨isCurrent, standby⟩ := takes.resolve_left id
      obtain ⟨other, first⟩ := Connection.failsOver_iff.mpr standby
      rw [Connection.onClose_failsOver isCurrent first]
      exact ⟨isCurrent, rfl⟩
  | _ => exact iff_of_false (fun no => nomatch no) fun takes => takes.elim id id

/-- The first socket to open gets the frames that wait and then the subscriptions. -/
theorem onSocket_opensFirst {next : Connection} (address : String) (calls : List Call)
    (steady : s.Steady parseAddress)
    (none : s.connection.currentServer = none) (opened : next.currentOpen = true) :
    (s.onSocket (.opens address) next calls).connection = next ∧
      (s.onSocket (.opens address) next calls).selections = (s.selections.callAll calls).1 ∧
      (s.onSocket (.opens address) next calls).messageQueue = [] ∧
      ((s.onSocket (.opens address) next calls).Restored ↔
        CursorsRequested (s.selections.callAll calls).1 ∧
          QueueAgrees s.messageQueue (s.selections.callAll calls).1) := by
  have takes : s.connection.takesOver next (.opens address) = true := by
    show s.connection.currentServer.isNone = true
    rw [none]
    rfl
  unfold onSocket
  rw [if_pos takes]
  dsimp only
  rw [performAll_open opened, flushQueue_open opened, resendSubscriptions_open opened]
  refine ⟨rfl, rfl, rfl, ?_⟩
  have tracked := (Selections.callAll_asks steady.tracked calls).tracked
  have restores := Selections.resent_restores_iff tracked (s.messageQueue.foldl Served.handle
    ((s.selections.callAll calls).2.foldl Served.handle fun _ => .none))
  constructor
  · intro restored
    have each := fun tx => (restores tx).mp (restored opened tx)
    exact ⟨fun tx => (each tx).1, fun tx unset =>
      (queue_agrees_iff steady.tracked steady.numbered calls tx).mp ((each tx).2 unset)⟩
  · rintro ⟨cursors, agrees⟩ _ tx
    exact (restores tx).mpr ⟨cursors tx, fun unset =>
      (queue_agrees_iff steady.tracked steady.numbered calls tx).mpr (agrees tx unset)⟩

/-- A standby gets the subscriptions only. -/
theorem onSocket_failsOver {next : Connection} {address : String} (calls : List Call)
    (steady : s.Steady parseAddress)
    (takes : s.connection.takesOver next (.closes address) = true) (opened : next.currentOpen = true) :
    (s.onSocket (.closes address) next calls).connection = next ∧
      (s.onSocket (.closes address) next calls).selections = (s.selections.callAll calls).1 ∧
      (s.onSocket (.closes address) next calls).messageQueue = s.messageQueue ∧
      ((s.onSocket (.closes address) next calls).Restored ↔
        CursorsRequested (s.selections.callAll calls).1) := by
  unfold onSocket
  rw [if_pos takes]
  dsimp only
  rw [performAll_open opened, resendSubscriptions_open opened]
  refine ⟨rfl, rfl, rfl, ?_⟩
  have tracked := (Selections.callAll_asks steady.tracked calls).tracked
  have restores := Selections.resent_restores_iff tracked
    ((s.selections.callAll calls).2.foldl Served.handle fun _ => none)
  constructor
  · intro restored tx
    exact ((restores tx).mp (restored opened tx)).1
  · intro cursors _ tx
    exact (restores tx).mpr ⟨cursors tx, fun _ => (fresh_served steady.tracked calls tx).imp_right And.right⟩

theorem steady_step (steady : s.Steady parseAddress) (restored : s.Restored)
    (stepped : step parseAddress s event = some after) :
    after.Steady parseAddress ∧ (after.Restored ↔ s.Restores event) := by
  cases event with
  | call call =>
    cases stepped
    obtain ⟨connection, tracked, numbered, keeps⟩ :=
      performAll_keeps [call] steady.tracked steady.numbered
    refine ⟨⟨?_, ?_, tracked, numbered⟩, iff_of_true (keeps restored) trivial⟩
    · show (s.perform call).connection.WellFormed parseAddress
      rw [show (s.perform call).connection = s.connection from connection]
      exact steady.wellFormed
    · show (s.perform call).connection.CurrentOpened
      rw [show (s.perform call).connection = s.connection from connection]
      exact steady.opened
  | socket socketEvent calls =>
    obtain ⟨next, happened, rfl⟩ := Option.map_eq_some_iff.mp stepped
    have formed := Connection.wellFormed_step steady.wellFormed happened
    have current := Connection.currentOpened_step steady.wellFormed steady.opened happened
    have asks := Selections.callAll_asks steady.tracked calls
    by_cases takes : s.connection.TakesOver socketEvent
    · have opened := Connection.takesOver_step steady.wellFormed happened takes
      have takesOver := (takesOver_iff happened).mpr takes
      cases socketEvent with
      | opens address =>
        have none : s.connection.currentServer = none := takes.resolve_right id
        obtain ⟨connection, selections, queue, restores⟩ :=
          onSocket_opensFirst address calls steady none opened
        refine ⟨⟨?_, ?_, ?_, ?_⟩, restores.trans ⟨fun held _ => held, fun held => held none⟩⟩
        · rwa [connection]
        · rwa [connection]
        · rw [selections]
          exact asks.tracked
        · rw [queue]
          exact fun _ among => nomatch among
      | closes address =>
        have fails : s.connection.FailsOver (.closes address) := takes.resolve_left id
        obtain ⟨connection, selections, queue, restores⟩ :=
          onSocket_failsOver calls steady takesOver opened
        refine ⟨⟨?_, ?_, ?_, ?_⟩, restores.trans ⟨fun held _ => held, fun held => held fails⟩⟩
        · rwa [connection]
        · rwa [connection]
        · rw [selections]
          exact asks.tracked
        · rw [queue, selections]
          exact fun frame among => (steady.numbered frame among).trans_le asks.issued
      | _ => exact (takes.elim id id).elim
    · have stays : s.connection.takesOver next socketEvent = false :=
        Bool.eq_false_iff.mpr fun takesOver => takes ((takesOver_iff happened).mp takesOver)
      have ends : s.onSocket socketEvent next calls = calls.foldl perform { s with connection := next } := by
        unfold onSocket
        rw [stays]
        rfl
      have kept : Restored { s with connection := next } := by
        intro isOpen
        rcases Connection.stays_step steady.wellFormed steady.opened happened takes with same | none
        · exact restored (same.currentOpen isOpen)
        · rw [show ({ s with connection := next } : Subscriptions).connection.currentOpen = false from
            Outbox.currentOpen_none none] at isOpen
          cases isOpen
      obtain ⟨connection, tracked, numbered, keeps⟩ :=
        performAll_keeps (s := { s with connection := next }) calls steady.tracked steady.numbered
      rw [ends]
      refine ⟨⟨?_, ?_, tracked, numbered⟩, iff_of_true (keeps kept) ?_⟩
      · rwa [connection]
      · rwa [connection]
      · cases socketEvent with
        | opens address => exact fun none => (takes (.inl none)).elim
        | closes address => exact fun fails => (takes (.inr fails)).elim
        | _ => trivial

theorem start_steady : start.Steady parseAddress :=
  ⟨Connection.start_wellFormed, fun _ current => (nomatch current), Selections.start_tracked,
    fun _ among => nomatch among⟩

theorem start_restored : start.Restored := fun opened => nomatch opened

end Subscriptions

namespace Subscriptions.Sample

open Connection.Sample

def firstPage : QueryWindow := ⟨0, 10⟩

def cursorPage : QueryCursorWindow := ⟨some "k", none, 10⟩

/-- A query moves to a cursor page, and its connection is made again. -/
def reconnected : List SubscriptionEvent :=
  [.socket (.setAddress (some configuredServer)) [], .call (.startQuery none),
    .socket (.opens configuredServer) [], .call (.setQueryCursorWindow 0 cursorPage),
    .socket (.closes configuredServer) [], .socket (.timerFires "a:5155") [],
    .socket (.opens configuredServer) []]

/-- The query moves on to an offset page before its connection is lost. -/
def moved : List SubscriptionEvent :=
  [.socket (.setAddress (some configuredServer)) [], .socket (.opens configuredServer) [],
    .call (.startQuery none), .call (.setQueryCursorWindow 0 cursorPage),
    .call (.setQueryWindow 0 (some firstPage)), .socket (.closes configuredServer) [],
    .socket (.timerFires "a:5155") [], .socket (.opens configuredServer) []]

end Subscriptions.Sample
end Myko.TypeScript

import Myko.Query.Subscription
import Myko.Lib.Runs

/-!
The page of one query subscription. The query is built off the read loop, offset windows of pushed sources
go through the window worker, and all other window messages are applied where they are read.
-/

namespace Myko.Session

open Query

inductive WindowSelection where
  | offset (window : Option QueryWindow)
  | cursor (window : QueryCursorWindow)
  deriving DecidableEq

/-- Pushed sources: those over a reactive map or the graph, and the history of an entity. -/
inductive WindowedQuerySource where
  | live
  | history
  deriving DecidableEq

namespace WindowedQuerySource

def setWindow (source : WindowedQuerySource) (window : Option QueryWindow) (current : WindowSelection) :
    WindowSelection :=
  match source, window with
  | .live, window => .offset window
  | .history, some window => .offset (some window)
  | .history, none => current

def setCursorWindow (source : WindowedQuerySource) (window : QueryCursorWindow)
    (current : WindowSelection) : WindowSelection :=
  match source with
  | .live =>
    match window.validate with
    | .error _ => current
    | .ok () => .cursor window
  -- It is made without a cursor window.
  | .history => current

end WindowedQuerySource

inductive QueryWindowControl where
  | materialized (state : QuerySubscriptionState)
  | pushed (source : WindowedQuerySource) (selection : WindowSelection)

inductive SubscriptionReady where
  | query (window : Option QueryWindow)
  | windowedQuery (source : WindowedQuerySource) (window : QueryWindow)

inductive Phase where
  | unknown
  | building (window : Option QueryWindow)
  | ready (ready : SubscriptionReady)
  | failed
  | subscribed (control : QueryWindowControl)

/-- The subscription of one `tx`, with the offset windows its worker has yet to set. -/
structure WindowedSubscription where
  phase : Phase
  jobs : List (Option QueryWindow)

inductive QueryLookup where
  | parsed
  | unparsable
  | missing (entries : List (String × Item))

inductive WindowEvent where
  | query (window : Option QueryWindow) (lookup : QueryLookup)
  | queryWindow (window : Option QueryWindow)
  | queryCursorWindow (window : QueryCursorWindow)
  | built (source : Option WindowedQuerySource)
  | buildFails
  | subscriptionReady (entries : List (String × Item))
  | windowJob
  | sourceDiff (diff : ItemDiff)

namespace WindowedSubscription

def start : WindowedSubscription := ⟨.unknown, []⟩

def subscribeQuery (tx : String) (window : Option QueryWindow) (entries : List (String × Item)) : Phase :=
  .subscribed (.materialized (QuerySubscriptionState.subscribeQuery tx window entries).2)

def subscribeWindowedQuery (source : WindowedQuerySource) (window : QueryWindow) : Phase :=
  .subscribed (.pushed source (.offset (some window)))

def handleQueryRequest (s : WindowedSubscription) (tx : String) (window : Option QueryWindow) :
    QueryLookup → WindowedSubscription
  | .parsed => { s with phase := .building window }
  | .unparsable => { s with phase := .failed }
  | .missing entries => { s with phase := subscribeQuery tx window entries }

def prepareQueryWindowUpdate (s : WindowedSubscription) (tx : String) (window : Option QueryWindow) :
    WindowedSubscription :=
  match s.phase with
  | .subscribed (.materialized state) =>
    { s with phase := .subscribed (.materialized (state.applyWindowUpdate window tx).2) }
  | .subscribed (.pushed _ _) => { s with jobs := s.jobs ++ [window] }
  | _ => s

def updateQueryCursorWindow (s : WindowedSubscription) (tx : String) (window : QueryCursorWindow) :
    WindowedSubscription :=
  match window.validate with
  | .error _ => s
  | .ok () =>
    match s.phase with
    | .subscribed (.materialized state) =>
      { s with phase := .subscribed (.materialized (state.updateQueryCursorWindow window tx).2) }
    | .subscribed (.pushed source selection) =>
      { s with phase := .subscribed (.pushed source (source.setCursorWindow window selection)) }
    | _ => s

/-- The build takes the windowed source when the query has one and its message a window. -/
def build (window : Option QueryWindow) (source : Option WindowedQuerySource) : SubscriptionReady :=
  match source, window with
  | some source, some window => .windowedQuery source window
  | _, window => .query window

def step (tx : String) (s : WindowedSubscription) : WindowEvent → Option WindowedSubscription
  | .query window lookup =>
    match s.phase with
    | .unknown => some (s.handleQueryRequest tx window lookup)
    | _ => none
  | .queryWindow window => some (s.prepareQueryWindowUpdate tx window)
  | .queryCursorWindow window => some (s.updateQueryCursorWindow tx window)
  | .built source =>
    match s.phase with
    | .building window => some { s with phase := .ready (build window source) }
    | _ => none
  | .buildFails =>
    match s.phase with
    | .building _ => some { s with phase := .failed }
    | _ => none
  | .subscriptionReady entries =>
    match s.phase with
    | .ready (.query window) => some { s with phase := subscribeQuery tx window entries }
    | .ready (.windowedQuery source window) => some { s with phase := subscribeWindowedQuery source window }
    | _ => none
  | .windowJob =>
    match s.phase, s.jobs with
    | .subscribed (.pushed source selection), window :: jobs =>
      some ⟨.subscribed (.pushed source (source.setWindow window selection)), jobs⟩
    | _, _ => none
  | .sourceDiff diff =>
    match s.phase with
    | .subscribed (.materialized state) =>
      some { s with phase := .subscribed (.materialized (state.applySourceDiff diff tx).2) }
    -- A pushed source takes the page it has selected anew.
    | .subscribed (.pushed _ _) => some s
    | _ => none

end WindowedSubscription

/-- The page a message asks for. -/
def WindowEvent.asks : WindowEvent → Option WindowSelection
  | .query window _ | .queryWindow window => some (.offset window)
  | .queryCursorWindow window =>
    match window.validate with
    | .ok () => some (.cursor window)
    | .error _ => none
  | _ => none

def selectionOf (state : QuerySubscriptionState) : WindowSelection :=
  match state.cursorWindow with
  | some window => .cursor window
  | none => .offset state.window

def QueryWindowControl.selection : QueryWindowControl → WindowSelection
  | .materialized state => selectionOf state
  | .pushed _ selection => selection

/-- A message that asks for the page takes effect in this state. -/
def WindowedSubscription.Honours (s : WindowedSubscription) (asked : WindowSelection) : Prop :=
  match s.phase with
  | .unknown | .failed => True
  -- Window messages find no subscription yet.
  | .building window | .ready (.query window) => asked = .offset window
  | .ready (.windowedQuery _ window) => asked = .offset (some window)
  -- The whole result is taken for selected while there is no offset window.
  | .subscribed (.materialized state) => asked = .offset none → state.cursorWindow = none
  | .subscribed (.pushed .live _) =>
    match asked with
    | .offset _ => True
    | .cursor _ => s.jobs = []
  | .subscribed (.pushed .history _) =>
    match asked with
    | .offset window => window ≠ none
    | .cursor _ => False

/-! ### What updates keep of the selection -/

section Responses

variable {s : QuerySubscriptionState} {tx : String} {changedIds removedIds : OrdSet String}
variable {count : Nat} {forceEmit : Bool}

theorem selectionOf_congr {before after : QuerySubscriptionState} (window : after.window = before.window)
    (cursorWindow : after.cursorWindow = before.cursorWindow) : selectionOf after = selectionOf before := by
  unfold selectionOf
  rw [window, cursorWindow]

theorem computeWindowedResponse_windows :
    (s.computeWindowedResponse tx changedIds removedIds count forceEmit).2.window = s.window ∧
      (s.computeWindowedResponse tx changedIds removedIds count forceEmit).2.cursorWindow =
        s.cursorWindow := by
  unfold QuerySubscriptionState.computeWindowedResponse
  split
  · unfold QuerySubscriptionState.computeUnwindowedResponse
    dsimp only
    split <;> split <;> exact ⟨rfl, rfl⟩
  · unfold QuerySubscriptionState.computeBoundedWindowResponse
    dsimp only
    split <;> exact ⟨rfl, rfl⟩

theorem applySourceDiff_windows (s : QuerySubscriptionState) (diff : ItemDiff) (tx : String) :
    (s.applySourceDiff diff tx).2.window = s.window ∧
      (s.applySourceDiff diff tx).2.cursorWindow = s.cursorWindow := by
  unfold QuerySubscriptionState.applySourceDiff
  split
  · unfold QuerySubscriptionState.applySourceDiffUnwindowed
    dsimp only
    split <;> split <;> exact ⟨rfl, rfl⟩
  · exact computeWindowedResponse_windows

/-- At most one of the two windows is selected. -/
def OneWindow (state : QuerySubscriptionState) : Prop := state.window = none ∨ state.cursorWindow = none

theorem OneWindow.congr {before after : QuerySubscriptionState} (one : OneWindow before)
    (window : after.window = before.window) (cursorWindow : after.cursorWindow = before.cursorWindow) :
    OneWindow after := by
  unfold OneWindow
  rw [window, cursorWindow]
  exact one

theorem applyWindowUpdate_windows (tx : String) {window : Option QueryWindow} (changed : s.window ≠ window) :
    (s.applyWindowUpdate window tx).2.window = window ∧
      (s.applyWindowUpdate window tx).2.cursorWindow = none := by
  unfold QuerySubscriptionState.applyWindowUpdate
  rw [if_neg changed]
  exact computeWindowedResponse_windows

theorem updateQueryCursorWindow_windows {window : QueryCursorWindow} (valid : window.validate = .ok ()) :
    (s.updateQueryCursorWindow window tx).2.window = none ∧
      (s.updateQueryCursorWindow window tx).2.cursorWindow = some window := by
  unfold QuerySubscriptionState.updateQueryCursorWindow QuerySubscriptionState.applyCursorWindowUpdate
  rw [valid]
  dsimp only
  split
  · rename_i same
    exact ⟨rfl, same⟩
  · exact computeWindowedResponse_windows

/-- An offset window is selected unless the whole result is asked for while a cursor's page is selected. -/
theorem applyWindowUpdate_selects (tx : String) (one : OneWindow s) (window : Option QueryWindow) :
    selectionOf (s.applyWindowUpdate window tx).2 = .offset window ↔
      (WindowSelection.offset window = .offset none → s.cursorWindow = none) := by
  by_cases same : s.window = window
  · subst same
    have unchanged : (s.applyWindowUpdate s.window tx).2 = s := by
      simp [QuerySubscriptionState.applyWindowUpdate]
    rw [unchanged]
    unfold selectionOf
    cases cursor : s.cursorWindow with
    | none => simp
    | some cursorWindow =>
      have whole : s.window = none := one.resolve_right (by simp [cursor])
      simp [whole]
  · obtain ⟨taken, cursorWindow⟩ := applyWindowUpdate_windows tx same
    refine iff_of_true ?_ fun whole => ?_
    · unfold selectionOf
      rw [cursorWindow, taken]
    · obtain rfl := WindowSelection.offset.inj whole
      exact one.resolve_left same

end Responses

/-! ### The page a subscription is headed for -/

namespace WindowedSubscription

variable {tx : String} {s next : WindowedSubscription} {event : WindowEvent}
variable {asked selection : WindowSelection}

/-- What the subscription selects when all its work is done. -/
def outlook (s : WindowedSubscription) : Option WindowSelection :=
  match s.phase with
  | .unknown | .failed => none
  | .building window | .ready (.query window) => some (.offset window)
  | .ready (.windowedQuery _ window) => some (.offset (some window))
  | .subscribed (.materialized state) => some (selectionOf state)
  | .subscribed (.pushed source selection) =>
    some (s.jobs.foldl (fun selection window => source.setWindow window selection) selection)

/-- Work waits for pushed sources only, and the history has always an offset window. -/
def WellFormed (s : WindowedSubscription) : Prop :=
  match s.phase with
  | .subscribed (.pushed .live _) => True
  | .subscribed (.pushed .history selection) => ∃ window, selection = .offset (some window)
  | .subscribed (.materialized state) => s.jobs = [] ∧ OneWindow state
  | _ => s.jobs = []

theorem subscribeQuery_selects (tx : String) (window : Option QueryWindow)
    (entries : List (String × Item)) :
    ∃ state, subscribeQuery tx window entries = .subscribed (.materialized state) ∧
      selectionOf state = .offset window ∧ OneWindow state := by
  obtain ⟨same, cursorWindow⟩ := applySourceDiff_windows ⟨0, window, none, ∅, ∅⟩ (.initial entries) tx
  exact ⟨_, rfl, selectionOf_congr same cursorWindow, .inr cursorWindow⟩

theorem start_wellFormed : start.WellFormed := rfl

theorem wellFormed_step (wellFormed : s.WellFormed) (stepped : step tx s event = some next) :
    next.WellFormed := by
  obtain ⟨phase, jobs⟩ := s
  cases event with
  | query window lookup =>
    cases phase with
    | unknown =>
      cases lookup with
      | parsed | unparsable =>
        cases stepped
        exact wellFormed
      | missing entries =>
        cases stepped
        obtain ⟨state, same, _, one⟩ := subscribeQuery_selects tx window entries
        simp only [handleQueryRequest, same]
        exact ⟨wellFormed, one⟩
    | building | ready | failed | subscribed => cases stepped
  | queryWindow window =>
    cases stepped
    cases phase with
    | subscribed control =>
      cases control with
      | materialized state =>
        refine ⟨wellFormed.1, ?_⟩
        by_cases same : state.window = window
        · simpa [QuerySubscriptionState.applyWindowUpdate, same] using wellFormed.2
        · exact .inr (applyWindowUpdate_windows tx same).2
      | pushed source selection => cases source <;> exact wellFormed
    | unknown | building | ready | failed => exact wellFormed
  | queryCursorWindow window =>
    cases stepped
    unfold updateQueryCursorWindow
    split
    · exact wellFormed
    · rename_i valid
      cases phase with
      | subscribed control =>
        cases control with
        | materialized state => exact ⟨wellFormed.1, .inl (updateQueryCursorWindow_windows valid).1⟩
        | pushed source selection => cases source <;> exact wellFormed
      | unknown | building | ready | failed => exact wellFormed
  | built source =>
    cases phase with
    | building window =>
      cases stepped
      exact wellFormed
    | unknown | ready | failed | subscribed => cases stepped
  | buildFails =>
    cases phase with
    | building window =>
      cases stepped
      exact wellFormed
    | unknown | ready | failed | subscribed => cases stepped
  | subscriptionReady entries =>
    cases phase with
    | ready ready =>
      cases ready with
      | query window =>
        cases stepped
        obtain ⟨state, same, _, one⟩ := subscribeQuery_selects tx window entries
        simp only [same]
        exact ⟨wellFormed, one⟩
      | windowedQuery source window =>
        cases stepped
        cases source with
        | live => trivial
        | history => exact ⟨window, rfl⟩
    | unknown | building | failed | subscribed => cases stepped
  | windowJob =>
    cases phase with
    | subscribed control =>
      cases control with
      | pushed source selection =>
        cases jobs with
        | nil => cases stepped
        | cons window rest =>
          cases stepped
          cases source with
          | live => trivial
          | history =>
            cases window with
            | none => exact wellFormed
            | some window => exact ⟨window, rfl⟩
      | materialized state => cases stepped
    | unknown | building | ready | failed => cases stepped
  | sourceDiff diff =>
    cases phase with
    | subscribed control =>
      cases control with
      | materialized state =>
        cases stepped
        obtain ⟨window, cursorWindow⟩ := applySourceDiff_windows state diff tx
        exact ⟨wellFormed.1, wellFormed.2.congr window cursorWindow⟩
      | pushed source selection =>
        cases stepped
        exact wellFormed
    | unknown | building | ready | failed => cases stepped

/-- What asks for no page does not change what the subscription is headed for, unless it fails. -/
theorem outlook_quiet (wellFormed : s.WellFormed) (quiet : event.asks = none) (stepped : step tx s event = some next)
    (headed : next.outlook = some selection) : s.outlook = some selection := by
  obtain ⟨phase, jobs⟩ := s
  cases event with
  | query window lookup => cases quiet
  | queryWindow window => cases quiet
  | queryCursorWindow window =>
    cases stepped
    unfold updateQueryCursorWindow at headed
    unfold WindowEvent.asks at quiet
    cases valid : window.validate with
    | error message =>
      simp only [valid] at headed
      exact headed
    | ok =>
      simp only [valid] at quiet
      cases quiet
  | built source =>
    cases phase with
    | building window =>
      cases stepped
      cases source with
      | none => exact headed
      | some source => cases window <;> exact headed
    | unknown | ready | failed | subscribed => cases stepped
  | buildFails =>
    cases phase with
    | building window =>
      cases stepped
      cases headed
    | unknown | ready | failed | subscribed => cases stepped
  | subscriptionReady entries =>
    cases phase with
    | ready ready =>
      cases ready with
      | query window =>
        cases stepped
        obtain ⟨state, same, selects, _⟩ := subscribeQuery_selects tx window entries
        simp only [same] at headed
        exact (congrArg some selects).symm.trans headed
      | windowedQuery source window =>
        cases stepped
        have idle : jobs = [] := wellFormed
        subst idle
        exact headed
    | unknown | building | failed | subscribed => cases stepped
  | windowJob =>
    cases phase with
    | subscribed control =>
      cases control with
      | pushed source selection =>
        cases jobs with
        | nil => cases stepped
        | cons window rest =>
          cases stepped
          exact headed
      | materialized state => cases stepped
    | unknown | building | ready | failed => cases stepped
  | sourceDiff diff =>
    cases phase with
    | subscribed control =>
      cases control with
      | materialized state =>
        cases stepped
        obtain ⟨window, cursorWindow⟩ := applySourceDiff_windows state diff tx
        exact (congrArg some (selectionOf_congr window cursorWindow)).symm.trans headed
      | pushed source selection =>
        cases stepped
        exact headed
    | unknown | building | ready | failed => cases stepped

theorem outlook_history (jobs : List (Option QueryWindow)) (window : QueryWindow) :
    ∃ other, jobs.foldl (fun selection window => WindowedQuerySource.history.setWindow window selection)
      (.offset (some window)) = .offset (some other) := by
  induction jobs generalizing window with
  | nil => exact ⟨window, rfl⟩
  | cons job rest ih =>
    cases job with
    | none => exact ih window
    | some job => exact ih job

theorem outlook_live {jobs : List (Option QueryWindow)} (busy : jobs ≠ []) :
    ∃ window, ∀ current, jobs.foldl
      (fun selection window => WindowedQuerySource.live.setWindow window selection) current =
        .offset window := by
  obtain ⟨earlier, last, rfl⟩ := List.eq_nil_or_concat jobs |>.resolve_left busy
  refine ⟨last, fun current => ?_⟩
  rw [List.concat_eq_append, List.foldl_append]
  rfl

/-- A subscription that is not there yet keeps what it is headed for. -/
theorem honours_waiting (waiting : ∀ control, s.phase ≠ .subscribed control)
    (headed : s.outlook = some selection) : selection = asked ↔ s.Honours asked := by
  obtain ⟨phase, jobs⟩ := s
  cases phase with
  | unknown | failed => cases headed
  | building window =>
    obtain rfl := Option.some.inj headed
    exact eq_comm
  | ready ready =>
    cases ready with
    | query window | windowedQuery source window =>
      obtain rfl := Option.some.inj headed
      exact eq_comm
  | subscribed control => exact (waiting control rfl).elim

/-- A message heads the subscription for the page it asks for just when the state honours it. -/
theorem outlook_asked (wellFormed : s.WellFormed) (asks : event.asks = some asked)
    (stepped : step tx s event = some next) (headed : next.outlook = some selection) :
    selection = asked ↔ s.Honours asked := by
  obtain ⟨phase, jobs⟩ := s
  cases event with
  | query window lookup =>
    obtain rfl := Option.some.inj asks
    cases phase with
    | unknown =>
      refine iff_of_true ?_ trivial
      cases lookup with
      | parsed =>
        cases stepped
        exact (Option.some.inj headed).symm
      | unparsable =>
        cases stepped
        cases headed
      | missing entries =>
        cases stepped
        obtain ⟨state, same, selects, _⟩ := subscribeQuery_selects tx window entries
        simp only [handleQueryRequest, same] at headed
        exact (Option.some.inj headed).symm.trans selects
    | building | ready | failed | subscribed => cases stepped
  | queryWindow window =>
    obtain rfl := Option.some.inj asks
    cases stepped
    cases phase with
    | subscribed control =>
      cases control with
      | materialized state =>
        obtain rfl := Option.some.inj headed
        exact applyWindowUpdate_selects tx wellFormed.2 window
      | pushed source selected =>
        obtain rfl := Option.some.inj headed
        show (jobs ++ [window]).foldl (fun current job => source.setWindow job current) selected = _ ↔ _
        rw [List.foldl_append]
        cases source with
        | live => exact iff_of_true rfl trivial
        | history =>
          cases window with
          | some window => exact iff_of_true rfl (by simp [Honours])
          | none =>
            refine iff_of_false ?_ (by simp [Honours])
            obtain ⟨window, rfl⟩ := wellFormed
            obtain ⟨other, same⟩ := outlook_history jobs window
            rw [same]
            simp [WindowedQuerySource.setWindow]
    | unknown | building | ready | failed => exact honours_waiting (by simp) headed
  | queryCursorWindow window =>
    have valid : window.validate = .ok () ∧ .cursor window = asked := by
      simp only [WindowEvent.asks] at asks
      split at asks
      · rename_i valid
        exact ⟨valid, Option.some.inj asks⟩
      · cases asks
    obtain ⟨valid, rfl⟩ := valid
    cases stepped
    unfold updateQueryCursorWindow at headed
    rw [valid] at headed
    cases phase with
    | subscribed control =>
      cases control with
      | materialized state =>
        obtain rfl := Option.some.inj headed
        refine iff_of_true ?_ fun whole => nomatch whole
        unfold selectionOf
        rw [(updateQueryCursorWindow_windows valid).2]
      | pushed source selected =>
        obtain rfl := Option.some.inj headed
        cases source with
        | live =>
          by_cases idle : jobs = []
          · subst idle
            refine iff_of_true ?_ rfl
            simp [WindowedQuerySource.setCursorWindow, valid]
          · refine iff_of_false ?_ idle
            obtain ⟨last, same⟩ := outlook_live idle
            rw [same]
            exact fun no => nomatch no
        | history =>
          refine iff_of_false ?_ id
          obtain ⟨window', rfl⟩ := wellFormed
          obtain ⟨other, same⟩ := outlook_history jobs window'
          show jobs.foldl _ (WindowSelection.offset (some window')) ≠ _
          rw [same]
          exact fun no => nomatch no
    | unknown | building | ready | failed => exact honours_waiting (by simp) headed
  | built source | buildFails | subscriptionReady entries | windowJob | sourceDiff diff => cases asks

theorem outlook_quiet_run {later : List WindowEvent} {last : WindowedSubscription}
    (wellFormed : s.WellFormed) (quiet : ∀ event ∈ later, event.asks = none)
    (ran : Runs.run (step tx) s later = some last) (headed : last.outlook = some selection) :
    s.outlook = some selection := by
  induction later generalizing s with
  | nil =>
    cases ran
    exact headed
  | cons event rest ih =>
    obtain ⟨after, stepped, ran⟩ := Runs.run_cons.mp ran
    obtain ⟨quietEvent, quietRest⟩ := List.forall_mem_cons.mp quiet
    exact outlook_quiet wellFormed quietEvent stepped
      (ih (wellFormed_step wellFormed stepped) quietRest ran)

namespace Sample

def firstPage : QueryWindow := ⟨0, 10⟩

def secondPage : QueryWindow := ⟨10, 10⟩

end Sample

end WindowedSubscription

end Myko.Session

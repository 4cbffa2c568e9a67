import Myko.Session.Windows
import Myko.Query.Replica

/-!
Window requests one after another. A subscription has one page at a time, asked for through two entry points; the one
asked for last is to be the one reported.
-/

namespace Myko.Query

/-- The page a call asks for. A cursor window that is refused asks for none. -/
def SubscriptionEvent.asks : SubscriptionEvent → Option Session.WindowSelection
  | .window next => some (.offset next)
  | .cursor next =>
    match next.validate with
    | .ok () => some (.cursor next)
    | .error _ => none
  | .diff _ => none

end Myko.Query

namespace Myko.Session
open Query

def WindowSelection.page (selection : WindowSelection) (ids : List String) : List String :=
  match selection with
  | .offset none => ids
  | .offset (some window) => window.page ids
  | .cursor window => window.page ids

theorem page_selectionOf (state : QuerySubscriptionState) :
    (selectionOf state).page state.allItems.keys = state.selectedIds := by
  unfold selectionOf QuerySubscriptionState.selectedIds
  cases state.cursorWindow with
  | some cursor => rfl
  | none => cases state.window <;> rfl

/-- One query subscription: the server keeps the result with what it has sent, or has a source that keeps the page. -/
inductive QuerySubscription where
  | materialized (replica : Replica)
  | pushed (source : WindowedQuerySource) (selection : WindowSelection)

namespace QuerySubscription

/-- A diff of the result, or a call of `update_query_window` or `update_query_cursor_window`. -/
def step : QuerySubscription → SubscriptionEvent → QuerySubscription
  | .materialized replica, event => .materialized (replica.step event)
  | .pushed source selection, .window window => .pushed source (source.setWindow window selection)
  | .pushed source selection, .cursor window =>
    match window.validate with
    | .error _ => .pushed source selection
    | .ok () => .pushed source (source.setCursorWindow window selection)
  | .pushed source selection, .diff _ => .pushed source selection

def run (s : QuerySubscription) (events : List SubscriptionEvent) : QuerySubscription := events.foldl step s

def selection : QuerySubscription → WindowSelection
  | .materialized replica => selectionOf replica.server
  | .pushed _ selection => selection

inductive Opened : QuerySubscription → Prop where
  | query (tx : String) (window : Option QueryWindow) {entries : List (String × Item)}
    (keyed : ∀ entry ∈ entries, entry.2.id = entry.1) : Opened (.materialized (.subscribe tx window entries))
  | windowedQuery (source : WindowedQuerySource) (window : QueryWindow) :
    Opened (.pushed source (.offset (some window)))

/-- A call that asks for the page takes effect. -/
def Honours (s : QuerySubscription) (asked : WindowSelection) : Prop :=
  match s with
  | .materialized replica => asked = .offset none → replica.server.cursorWindow = none
  | .pushed .live _ => True
  | .pushed .history _ => ∃ window, asked = .offset (some window)

/-- One page is selected at a time, and of a history an offset one. -/
def WellFormed : QuerySubscription → Prop
  | .materialized replica => OneWindow replica.server
  | .pushed .live _ => True
  | .pushed .history selection => ∃ window, selection = .offset (some window)

variable {s : QuerySubscription} {event : SubscriptionEvent} {asked : WindowSelection}

theorem wellFormed_opened (opened : s.Opened) : s.WellFormed := by
  cases opened with
  | query tx window keyed =>
    change OneWindow (Replica.deliver _ (QuerySubscriptionState.subscribeQuery tx window _)).server
    rw [Replica.deliver_server]
    exact .inr (applySourceDiff_windows _ _ _).2
  | windowedQuery source window =>
    cases source with
    | live => trivial
    | history => exact ⟨window, rfl⟩

theorem step_materialized (replica : Replica) (event : SubscriptionEvent) :
    ∃ next, step (.materialized replica) event = .materialized next ∧ next.server = (replica.emitted event).2 :=
  ⟨_, rfl, replica.deliver_server _⟩

theorem valid_of_asks {window : QueryCursorWindow} (asks : SubscriptionEvent.asks (.cursor window) = some asked) :
    window.validate = .ok () ∧ asked = .cursor window := by
  cases valid : window.validate with
  | ok _ => simpa [SubscriptionEvent.asks, valid, eq_comm] using asks
  | error _ => simp [SubscriptionEvent.asks, valid] at asks

theorem refused_of_quiet {window : QueryCursorWindow} (quiet : SubscriptionEvent.asks (.cursor window) = none) :
    ∃ error, window.validate = .error error := by
  cases valid : window.validate with
  | ok _ => simp [SubscriptionEvent.asks, valid] at quiet
  | error error => exact ⟨error, rfl⟩

theorem step_quiet (quiet : event.asks = none) : (s.step event).selection = s.selection := by
  cases s with
  | materialized replica =>
    obtain ⟨next, stepped, server⟩ := step_materialized replica event
    rw [stepped]
    change selectionOf next.server = selectionOf replica.server
    rw [server]
    cases event with
    | diff diff =>
      obtain ⟨window, cursorWindow⟩ := applySourceDiff_windows replica.server diff replica.tx
      exact selectionOf_congr window cursorWindow
    | window window => cases quiet
    | cursor window =>
      obtain ⟨error, refused⟩ := refused_of_quiet quiet
      unfold Replica.emitted QuerySubscriptionState.updateQueryCursorWindow
      dsimp only
      rw [refused]
  | pushed source selection =>
    cases event with
    | diff diff => rfl
    | window window => cases quiet
    | cursor window =>
      obtain ⟨error, refused⟩ := refused_of_quiet quiet
      unfold step
      dsimp only
      rw [refused]

/-- A call comes to select the page it asks for just when the subscription honours it. -/
theorem step_asked (wellFormed : s.WellFormed) (asks : event.asks = some asked) :
    (s.step event).selection = asked ↔ s.Honours asked := by
  cases s with
  | materialized replica =>
    obtain ⟨next, stepped, server⟩ := step_materialized replica event
    rw [stepped]
    change selectionOf next.server = asked ↔ (asked = .offset none → replica.server.cursorWindow = none)
    rw [server]
    cases event with
    | diff diff => cases asks
    | window window =>
      obtain rfl := Option.some.inj asks
      exact applyWindowUpdate_selects replica.tx wellFormed window
    | cursor window =>
      obtain ⟨valid, rfl⟩ := valid_of_asks asks
      refine iff_of_true ?_ fun whole => nomatch whole
      unfold selectionOf Replica.emitted
      dsimp only
      rw [(updateQueryCursorWindow_windows valid).2]
  | pushed source selected =>
    cases event with
    | diff diff => cases asks
    | window window =>
      obtain rfl := Option.some.inj asks
      cases source with
      | live => exact iff_of_true rfl trivial
      | history =>
        cases window with
        | some window => exact iff_of_true rfl ⟨window, rfl⟩
        | none =>
          obtain ⟨window, rfl⟩ := wellFormed
          exact iff_of_false (fun no => nomatch no) fun ⟨_, no⟩ => nomatch no
    | cursor window =>
      obtain ⟨valid, rfl⟩ := valid_of_asks asks
      unfold step
      dsimp only
      rw [valid]
      cases source with
      | live =>
        refine iff_of_true ?_ trivial
        unfold selection WindowedQuerySource.setCursorWindow
        dsimp only
        rw [valid]
      | history =>
        obtain ⟨_, rfl⟩ := wellFormed
        exact iff_of_false (fun no => nomatch no) fun ⟨_, no⟩ => nomatch no

theorem wellFormed_step (wellFormed : s.WellFormed) : (s.step event).WellFormed := by
  cases s with
  | materialized replica =>
    have one : OneWindow replica.server := wellFormed
    obtain ⟨next, stepped, server⟩ := step_materialized replica event
    rw [stepped]
    change OneWindow next.server
    rw [server]
    cases event with
    | diff diff =>
      obtain ⟨window, cursorWindow⟩ := applySourceDiff_windows replica.server diff replica.tx
      exact OneWindow.congr one window cursorWindow
    | window window =>
      by_cases same : replica.server.window = window
      · simpa [Replica.emitted, QuerySubscriptionState.applyWindowUpdate, same] using one
      · exact .inr (applyWindowUpdate_windows replica.tx same).2
    | cursor window =>
      cases valid : window.validate with
      | ok _ => exact .inl (updateQueryCursorWindow_windows valid).1
      | error _ =>
        simpa [Replica.emitted, QuerySubscriptionState.updateQueryCursorWindow, valid] using one
  | pushed source selected =>
    cases event with
    | diff diff => exact wellFormed
    | window window =>
      cases source with
      | live => trivial
      | history =>
        cases window with
        | some window => exact ⟨window, rfl⟩
        | none => exact wellFormed
    | cursor window =>
      unfold step
      dsimp only
      split
      · exact wellFormed
      · cases source <;> exact wellFormed

theorem wellFormed_run (wellFormed : s.WellFormed) (events : List SubscriptionEvent) : (s.run events).WellFormed := by
  induction events generalizing s with
  | nil => exact wellFormed
  | cons event rest ih => exact ih (wellFormed_step wellFormed)

theorem run_quiet {events : List SubscriptionEvent} (quiet : ∀ event ∈ events, event.asks = none) :
    (s.run events).selection = s.selection := by
  induction events generalizing s with
  | nil => rfl
  | cons event rest ih =>
    have later := ih (s := s.step event) fun other listed => quiet other (List.mem_cons_of_mem _ listed)
    exact later.trans (step_quiet (quiet event List.mem_cons_self))

/-- The client of a materialized subscription is shown the page that is selected. -/
theorem shows_selection (opened : s.Opened) {events : List SubscriptionEvent} (keyed : ∀ event ∈ events, event.Keyed)
    {replica : Replica} (ran : s.run events = .materialized replica) :
    replica.page.items = ((s.run events).selection.page replica.server.allItems.keys).filterMap fun id =>
      replica.server.allItems[id]? := by
  cases opened with
  | windowedQuery source window =>
    have stays : ∀ (events : List SubscriptionEvent) (selection : WindowSelection),
        ∃ later, run (.pushed source selection) events = .pushed source later := by
      intro events
      induction events with
      | nil => exact fun selection => ⟨selection, rfl⟩
      | cons event rest ih =>
        intro selection
        cases event with
        | diff diff => exact ih selection
        | window window => exact ih (source.setWindow window selection)
        | cursor window =>
          cases valid : window.validate with
          | error error =>
            have stepped : step (.pushed source selection) (.cursor window) = .pushed source selection := by
              simp [step, valid]
            rw [run, List.foldl_cons, stepped]
            exact ih selection
          | ok _ =>
            have stepped : step (.pushed source selection) (.cursor window) =
                .pushed source (source.setCursorWindow window selection) := by simp [step, valid]
            rw [run, List.foldl_cons, stepped]
            exact ih _
    obtain ⟨later, same⟩ := stays events (.offset (some window))
    cases ran.symm.trans same
  | query tx window keyedEntries =>
    have follows : ∀ (events : List SubscriptionEvent) (replica : Replica),
        run (.materialized replica) events = .materialized (replica.run events) := by
      intro events
      induction events with
      | nil => exact fun _ => rfl
      | cons event rest ih => exact fun replica => ih (replica.step event)
    rw [follows] at ran ⊢
    cases ran
    have ends := Replica.follows_run (Replica.follows_subscribe tx window keyedEntries).kept keyed
    rw [ends.kept.shows.items]
    unfold QuerySubscriptionState.selected
    rw [← page_selectionOf]
    rfl

namespace Sample

end Sample

end QuerySubscription

end Myko.Session

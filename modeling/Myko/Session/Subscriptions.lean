import Mathlib.Data.List.Basic
import Mathlib.Logic.Function.Basic
import Myko.Lib.Runs

/-!
Subscriptions of one connection. The read loop handles messages and registers subscriptions that were
built elsewhere; callbacks of a subscription run when its source changes.
-/

namespace Myko.Session

inductive Kind where
  | query
  | view
  | report
  deriving DecidableEq

/-- What the handler registry has for a subscribe message. -/
inductive Handler where
  | parsed
  | unparsable
  | missing
  deriving DecidableEq

structure Build where
  tx : String
  kind : Kind
  deriving DecidableEq

structure Connection where
  subscriptions : String → Option Kind
  building : List Build
  ready : List Build
  /-- Callbacks that run, by the `tx` they respond for. -/
  responding : List String

inductive Event where
  | subscribe (tx : String) (kind : Kind) (handler : Handler)
  | cancel (tx : String) (kind : Kind)
  | window (tx : String) (responds : Bool)
  | built (build : Build)
  | buildFails (build : Build) (queued : Bool)
  | subscriptionReady
  | sourceChanges (tx : String)
  | callbackReturns (tx : String) (responds : Bool)

namespace Connection

def start : Connection := ⟨fun _ => none, [], [], []⟩

def hasSubscription (c : Connection) (tx : String) : Bool := (c.subscriptions tx).isSome

/-- The subscription is inserted and its source answers at once. -/
def subscribe (c : Connection) (tx : String) (kind : Kind) : Connection × List String :=
  ({ c with subscriptions := Function.update c.subscriptions tx (some kind) }, [tx])

def spawn (c : Connection) (tx : String) (kind : Kind) : Connection × List String :=
  ({ c with building := c.building ++ [⟨tx, kind⟩] }, [])

def handleQueryRequest (c : Connection) (tx : String) (handler : Handler) : Connection × List String :=
  if c.hasSubscription tx then (c, [])
  else
    match handler with
    | .parsed => c.spawn tx .query
    | .unparsable => (c, [])
    -- A query that is not registered selects everything from the store of its type.
    | .missing => c.subscribe tx .query

def handleViewRequest (c : Connection) (tx : String) (handler : Handler) : Connection × List String :=
  if c.hasSubscription tx then (c, [])
  else
    match handler with
    | .parsed => c.spawn tx .view
    | .unparsable | .missing => (c, [tx])

def handleReport (c : Connection) (tx : String) (handler : Handler) : Connection × List String :=
  match handler with
  | .parsed => c.spawn tx .report
  | .unparsable | .missing => (c, [])

def cancel (c : Connection) (tx : String) : Connection :=
  { c with subscriptions := Function.update c.subscriptions tx none }

/-- Window updates of queries and views; those of a report find no window. -/
def updateWindow (c : Connection) (tx : String) (responds : Bool) : Connection × List String :=
  match c.subscriptions tx with
  | some .query | some .view => (c, if responds then [tx] else [])
  | some .report | none => (c, [])

/-- What happens next with the `tx` of the responses it sends. -/
def step (c : Connection) : Event → Option (Connection × List String)
  | .subscribe tx .query handler => some (c.handleQueryRequest tx handler)
  | .subscribe tx .view handler => some (c.handleViewRequest tx handler)
  | .subscribe tx .report handler => some (c.handleReport tx handler)
  | .cancel tx _ => some (c.cancel tx, [])
  | .window tx responds => some (c.updateWindow tx responds)
  | .built build =>
    if build ∈ c.building then
      some ({ c with building := c.building.erase build, ready := c.ready ++ [build] }, [])
    else none
  | .buildFails build queued =>
    -- Only the build of a view reports its failure, when the priority queue takes it.
    if build ∈ c.building then
      some ({ c with building := c.building.erase build },
        if build.kind = .view ∧ queued then [build.tx] else [])
    else none
  | .subscriptionReady =>
    match c.ready with
    | build :: ready => some ({ c with ready }.subscribe build.tx build.kind)
    | [] => none
  | .sourceChanges tx =>
    if c.hasSubscription tx then some ({ c with responding := c.responding ++ [tx] }, []) else none
  | .callbackReturns tx responds =>
    if tx ∈ c.responding then
      some ({ c with responding := c.responding.erase tx }, if responds then [tx] else [])
    else none

end Connection

/-- A connection with the `tx` whose last message was a cancel, and the responses sent for them since. -/
structure Observed where
  connection : Connection
  cancelled : String → Bool
  late : List String

namespace Observed

def start : Observed := ⟨.start, fun _ => false, []⟩

def mark (cancelled : String → Bool) : Event → String → Bool
  | .subscribe tx _ _ => Function.update cancelled tx false
  | .cancel tx _ => Function.update cancelled tx true
  | _ => cancelled

def step (o : Observed) (event : Event) : Option Observed :=
  (o.connection.step event).map fun (connection, responses) =>
    let cancelled := mark o.cancelled event
    ⟨connection, cancelled, o.late ++ responses.filter cancelled⟩

structure CancelFinal (o : Observed) : Prop where
  none_held : ∀ tx, o.cancelled tx = true → o.connection.subscriptions tx = none
  none_sent : o.late = []

/-- No build is handed over, none reports its failure and no callback responds for a cancelled `tx`. -/
def Timely (o : Observed) : Event → Prop
  | .subscriptionReady => ∀ build ∈ o.connection.ready.head?, o.cancelled build.tx = false
  | .buildFails build queued => build.kind = .view → queued = true → o.cancelled build.tx = false
  | .callbackReturns tx responds => responds = true → o.cancelled tx = false
  | _ => True

end Observed

/-! ### What a step concerns -/

/-- Only `tx` is subscribed or answered. -/
structure Connection.Concerns (c : Connection) (tx : String) (after : Connection × List String) : Prop where
  others : ∀ other, other ≠ tx → after.1.subscriptions other = c.subscriptions other
  answers : ∀ answered ∈ after.2, answered = tx

namespace Connection

variable {c : Connection} {tx : String} {kind : Kind} {handler : Handler}

theorem concerns_subscribe : c.Concerns tx (c.subscribe tx kind) := by
  refine ⟨fun other different => Function.update_of_ne different _ _, fun answered among => ?_⟩
  exact List.mem_singleton.mp among

theorem concerns_spawn : c.Concerns tx (c.spawn tx kind) :=
  ⟨fun _ _ => rfl, fun _ among => nomatch among⟩

theorem concerns_nothing : c.Concerns tx (c, []) :=
  ⟨fun _ _ => rfl, fun _ among => nomatch among⟩

theorem concerns_error : c.Concerns tx (c, [tx]) :=
  ⟨fun _ _ => rfl, fun _ among => List.mem_singleton.mp among⟩

theorem concerns_query : c.Concerns tx (c.handleQueryRequest tx handler) := by
  unfold handleQueryRequest
  split
  · exact concerns_nothing
  · cases handler with
    | parsed => exact concerns_spawn
    | unparsable => exact concerns_nothing
    | missing => exact concerns_subscribe

theorem concerns_view : c.Concerns tx (c.handleViewRequest tx handler) := by
  unfold handleViewRequest
  split
  · exact concerns_nothing
  · cases handler with
    | parsed => exact concerns_spawn
    | unparsable => exact concerns_error
    | missing => exact concerns_error

theorem concerns_report : c.Concerns tx (c.handleReport tx handler) := by
  cases handler with
  | parsed => exact concerns_spawn
  | unparsable => exact concerns_nothing
  | missing => exact concerns_nothing

theorem updateWindow_fst {responds : Bool} : (c.updateWindow tx responds).1 = c := by
  unfold updateWindow
  split <;> rfl

theorem updateWindow_answers {responds : Bool} {answered : String}
    (among : answered ∈ (c.updateWindow tx responds).2) : answered = tx ∧ c.subscriptions tx ≠ none := by
  unfold updateWindow at among
  split at among
  case h_1 subscribed | h_2 subscribed =>
    rw [subscribed]
    cases responds with
    | false => cases among
    | true => exact ⟨List.mem_singleton.mp among, by simp⟩
  all_goals cases among

end Connection

/-! ### Cancel is final -/

namespace Observed

variable {o next : Observed} {event : Event} {events : List Event}

theorem step_eq_some : o.step event = some next ↔ ∃ connection responses,
    o.connection.step event = some (connection, responses) ∧
      next = ⟨connection, mark o.cancelled event,
        o.late ++ responses.filter (mark o.cancelled event)⟩ := by
  constructor
  · intro stepped
    obtain ⟨⟨connection, responses⟩, happened, rfl⟩ := Option.map_eq_some_iff.mp stepped
    exact ⟨connection, responses, happened, rfl⟩
  · rintro ⟨connection, responses, happened, rfl⟩
    exact Option.map_eq_some_iff.mpr ⟨(connection, responses), happened, rfl⟩

theorem final_iff (final : o.CancelFinal) {connection : Connection} {responses : List String}
    {cancelled : String → Bool} :
    CancelFinal ⟨connection, cancelled, o.late ++ responses.filter cancelled⟩ ↔
      (∀ tx, cancelled tx = true → connection.subscriptions tx = none) ∧
        ∀ tx ∈ responses, cancelled tx = false := by
  constructor
  · rintro ⟨held, sent⟩
    refine ⟨held, fun tx among => ?_⟩
    have filtered := (List.append_eq_nil_iff.mp sent).2
    exact Bool.eq_false_iff.mpr (List.filter_eq_nil_iff.mp filtered tx among)
  · rintro ⟨held, sent⟩
    refine ⟨held, ?_⟩
    show o.late ++ responses.filter cancelled = []
    rw [final.none_sent, List.nil_append, List.filter_eq_nil_iff]
    intro tx among
    rw [sent tx among]
    decide

/-- A subscribe message makes its `tx` live, so nothing it does for that `tx` is late. -/
theorem final_of_concerns (final : o.CancelFinal) {tx : String} {after : Connection × List String}
    (concerns : o.connection.Concerns tx after) :
    (∀ other, Function.update o.cancelled tx false other = true → after.1.subscriptions other = none) ∧
      ∀ answered ∈ after.2, Function.update o.cancelled tx false answered = false := by
  constructor
  · intro other gone
    by_cases same : other = tx
    · subst same
      simp at gone
    · rw [Function.update_of_ne same] at gone
      rw [concerns.others other same]
      exact final.none_held other gone
  · intro answered among
    rw [concerns.answers answered among]
    exact Function.update_self tx false o.cancelled

theorem final_step (final : o.CancelFinal) (stepped : o.step event = some next) :
    next.CancelFinal ↔ o.Timely event := by
  obtain ⟨connection, responses, happened, rfl⟩ := step_eq_some.mp stepped
  rw [final_iff final]
  cases event with
  | subscribe tx kind handler =>
    refine iff_of_true ?_ trivial
    cases kind with
    | query =>
      have concerns : o.connection.Concerns tx (o.connection.handleQueryRequest tx handler) :=
        Connection.concerns_query
      rw [Option.some.inj happened] at concerns
      exact final_of_concerns final concerns
    | view =>
      have concerns : o.connection.Concerns tx (o.connection.handleViewRequest tx handler) :=
        Connection.concerns_view
      rw [Option.some.inj happened] at concerns
      exact final_of_concerns final concerns
    | report =>
      have concerns : o.connection.Concerns tx (o.connection.handleReport tx handler) :=
        Connection.concerns_report
      rw [Option.some.inj happened] at concerns
      exact final_of_concerns final concerns
  | cancel tx kind =>
    cases happened
    refine iff_of_true ⟨fun other gone => ?_, fun _ among => nomatch among⟩ trivial
    show Function.update o.connection.subscriptions tx none other = none
    by_cases same : other = tx
    · subst same
      exact Function.update_self _ _ _
    · rw [Function.update_of_ne same]
      exact final.none_held other (by simpa [mark, Function.update_of_ne same] using gone)
  | window tx responds =>
    have updated : o.connection.updateWindow tx responds = (connection, responses) :=
      Option.some.inj happened
    refine iff_of_true ⟨fun other gone => ?_, fun answered among => ?_⟩ trivial
    · have unchanged : connection = o.connection :=
        (congrArg Prod.fst updated).symm.trans Connection.updateWindow_fst
      rw [unchanged]
      exact final.none_held other gone
    · rw [show responses = (o.connection.updateWindow tx responds).2 from (congrArg Prod.snd updated).symm]
        at among
      obtain ⟨rfl, held⟩ := Connection.updateWindow_answers among
      refine Bool.eq_false_iff.mpr fun gone => held (final.none_held answered gone)
  | built build =>
    simp only [Connection.step] at happened
    split at happened
    · cases happened
      exact iff_of_true ⟨final.none_held, fun _ among => nomatch among⟩ trivial
    · cases happened
  | buildFails build queued =>
    simp only [Connection.step] at happened
    split at happened
    · cases happened
      refine (and_iff_right final.none_held).trans ?_
      by_cases reports : build.kind = .view ∧ queued = true
      · rw [if_pos reports, List.forall_mem_singleton]
        exact ⟨fun live _ _ => live, fun timely => timely reports.1 reports.2⟩
      · rw [if_neg reports]
        exact iff_of_true (fun _ among => nomatch among)
          fun view reported => (reports ⟨view, reported⟩).elim
    · cases happened
  | subscriptionReady =>
    simp only [Connection.step] at happened
    split at happened
    · rename_i build ready queue
      cases happened
      show _ ↔ ∀ first ∈ o.connection.ready.head?, o.cancelled first.tx = false
      simp only [queue, List.head?_cons, Option.mem_def, Option.some.injEq, forall_eq',
        List.forall_mem_singleton]
      refine ⟨fun timely => timely.2, fun live => ⟨fun other gone => ?_, live⟩⟩
      have different : other ≠ build.tx := by
        rintro rfl
        exact Bool.false_ne_true (live.symm.trans gone)
      rw [Function.update_of_ne different]
      exact final.none_held other gone
    · cases happened
  | sourceChanges tx =>
    simp only [Connection.step] at happened
    split at happened
    · cases happened
      exact iff_of_true ⟨final.none_held, fun _ among => nomatch among⟩ trivial
    · cases happened
  | callbackReturns tx responds =>
    simp only [Connection.step] at happened
    split at happened
    · cases happened
      refine (and_iff_right final.none_held).trans ?_
      cases responds with
      | false => exact iff_of_true (fun _ among => nomatch among) (fun no => nomatch no)
      | true =>
        show (∀ answered ∈ [tx], o.cancelled answered = false) ↔ (true = true → o.cancelled tx = false)
        simp
    · cases happened

theorem start_final : start.CancelFinal := ⟨fun _ gone => (by cases gone), rfl⟩

namespace Sample

def watched : List Event :=
  [.subscribe "q" .query .parsed, .built ⟨"q", .query⟩, .subscriptionReady, .sourceChanges "q",
    .callbackReturns "q" true, .cancel "q" .query, .subscribe "q" .report .missing]

end Sample
end Observed
end Myko.Session

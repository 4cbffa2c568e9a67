import Myko.Lib.PolledStream
import Myko.Wire.Event

/-!
The operators of event streams: each is polled, loops over what its source has ready and keeps what it needs of the
events before. Whatever the polls, an operator gives what its list function makes of the events taken.
-/

namespace Myko.Saga

variable {σ α β : Type}

/-- Hand on the items that pass. -/
def keeping (keep : α → Bool) : Machine Unit α α := fun _ item => ((), if keep item then some item else none)

/-- Hand on what is made of the items, each by its number. -/
def making (make : Nat → α → Option β) : Machine Nat α β := fun count item => (count + 1, make count item)

/-- Hand on an item with the one before it. -/
def pairing : Machine (Option α) α (α × α) := fun previous item => (some item, previous.map fun before => (before, item))

/-- Hand on the state after each item. -/
def accumulating (f : β → α → β) : Machine β α β := fun state item => (f state item, some (f state item))

/-- Filter events by item type name. -/
def ofItemType (events : PolledStream σ WireEvent) (itemType : String) : PolledStream (Unit × σ) WireEvent :=
  events.through (keeping fun event => event.itemType == itemType)

/-- Filter events by change type. -/
def ofChangeType (events : PolledStream σ WireEvent) (changeType : MEventType) : PolledStream (Unit × σ) WireEvent :=
  events.through (keeping fun event => event.changeType == changeType)

/-- The first event is buffered until the second arrives. -/
def pairwise (events : PolledStream σ WireEvent) : PolledStream (Option WireEvent × σ) (WireEvent × WireEvent) :=
  events.through pairing

/-- The state is emitted after each event. -/
def accumulate (events : PolledStream σ WireEvent) (f : β → WireEvent → β) : PolledStream (β × σ) β :=
  events.through (accumulating f)

/-- The `filter_map` of a closure that is ready at once. What it makes of an event may depend on when it is called. -/
def filterMap (events : PolledStream σ WireEvent) (make : Nat → WireEvent → Option β) : PolledStream (Nat × σ) β :=
  events.through (making make)

/-- An unbounded channel, as the one who receives from it polls it. Its senders outlive the sagas. -/
def recv : PolledStream (List WireEvent) WireEvent where
  poll
    | [] => (.pending, [])
    | event :: rest => (.ready event, rest)
  remaining := List.length
  spends {s item next} polled := by
    cases s with
    | nil => cases polled
    | cons event rest =>
      cases polled
      exact Nat.lt_succ_self _

/-! ### What the machines give -/

theorem outputs_keeping (keep : α → Bool) (items : List α) :
    (keeping keep).outputs () items = items.filter keep := by
  induction items with
  | nil => rfl
  | cons item rest ih =>
    rw [Machine.outputs_cons, List.filter_cons]
    show (if keep item then some item else none).toList ++ _ = _
    split
    · exact congrArg (item :: ·) ih
    · exact ih

theorem outputs_making (make : Nat → α → Option β) (count : Nat) (items : List α) :
    (making make).outputs count items = (items.zipIdx count).filterMap (fun entry => make entry.2 entry.1) ∧
      (making make).after count items = count + items.length := by
  induction items generalizing count with
  | nil => exact ⟨rfl, rfl⟩
  | cons item rest ih =>
    obtain ⟨outputs, after⟩ := ih (count + 1)
    refine ⟨?_, ?_⟩
    · rw [Machine.outputs_cons, List.zipIdx_cons, List.filterMap_cons]
      show (make count item).toList ++ (making make).outputs (count + 1) rest = _
      rw [outputs]
      cases make count item <;> rfl
    · rw [Machine.after_cons, List.length_cons]
      exact after.trans (by omega)

theorem outputs_pairing_some (previous : α) (items : List α) :
    pairing.outputs (some previous) items = (previous :: items).zip items := by
  induction items generalizing previous with
  | nil => rfl
  | cons item rest ih => exact congrArg ((previous, item) :: ·) (ih item)

theorem outputs_pairing (items : List α) : pairing.outputs none items = items.zip items.tail := by
  cases items with
  | nil => rfl
  | cons item rest => exact outputs_pairing_some item rest

theorem outputs_accumulating (f : β → α → β) (state : β) (items : List α) :
    (accumulating f).outputs state items = (items.scanl f state).tail ∧
      (accumulating f).after state items = items.foldl f state := by
  induction items generalizing state with
  | nil => exact ⟨rfl, rfl⟩
  | cons item rest ih =>
    obtain ⟨outputs, after⟩ := ih (f state item)
    refine ⟨?_, after⟩
    rw [Machine.outputs_cons, List.scanl_cons, List.tail_cons]
    show f state item :: (accumulating f).outputs (f state item) rest = _
    rw [outputs]
    cases rest <;> simp

/-! ### Operators on operators -/

open PolledStream

theorem taken_of_recv {queue taken next : List WireEvent}
    (yields : recv.Yields (fun _ _ => False) queue taken next) : queue = taken ++ next := by
  induction yields with
  | nothing queue => rfl
  | @polled queue next rest _ ih =>
    cases queue with
    | nil => exact ih
    | cons event waiting => exact congrArg (event :: ·) ih
  | moved move _ _ => exact move.elim

/-- The events of one type and kind that come over a channel, handed to an operator. -/
def matching (itemType : String) (changeType : MEventType) :
    PolledStream (Unit × (Unit × List WireEvent)) WireEvent :=
  ofChangeType (ofItemType recv itemType) changeType

def isMatching (itemType : String) (changeType : MEventType) (event : WireEvent) : Bool :=
  event.itemType == itemType && event.changeType == changeType

/-- The state of an operator on matching events. -/
abbrev Matched (τ : Type) := τ × (Unit × (Unit × List WireEvent))

def Matched.queue {τ : Type} (state : Matched τ) : List WireEvent := state.2.2.2

def Matched.send {τ : Type} (sent : List WireEvent) (state : Matched τ) : Matched τ :=
  (state.1, state.2.1, state.2.2.1, state.queue ++ sent)

section
variable {τ : Type} (itemType : String) (changeType : MEventType)

/-- A poll takes the first events off the channel and gives what the operator makes of those that match; it pends on an
empty channel only. -/
theorem poll_matching (machine : Machine τ WireEvent β) (state : Matched τ) :
    let polled := ((matching itemType changeType).through machine).poll state
    ∃ taken, state.queue = taken ++ Matched.queue polled.2 ∧
      polled.1.items = machine.outputs state.1 (taken.filter (isMatching itemType changeType)) ∧
      polled.2.1 = machine.after state.1 (taken.filter (isMatching itemType changeType)) ∧
      (polled.1 = .pending → Matched.queue polled.2 = []) := by
  intro polled
  have once : ((matching itemType changeType).through machine).Yields
      (Within _ (Within _ (Within _ fun _ _ => False))) state polled.1.items polled.2 := .once state
  obtain ⟨kept, ofKind, gives, reached⟩ := yields_through once
  obtain ⟨typed, ofType, rfl, _⟩ := yields_through ofKind
  obtain ⟨taken, all, rfl, _⟩ := yields_through ofType
  have listened : (keeping fun event : WireEvent => event.changeType == changeType).outputs state.2.1
      ((keeping fun event => event.itemType == itemType).outputs state.2.2.1 taken) =
        taken.filter (isMatching itemType changeType) := by
    rw [outputs_keeping, outputs_keeping, List.filter_filter]
    exact List.filter_congr fun event _ => Bool.and_comm _ _
  rw [listened] at gives reached
  refine ⟨taken, taken_of_recv all, gives, reached, fun pends => ?_⟩
  have empty : ∀ queue next : List WireEvent, recv.poll queue = (.pending, next) → next = [] := by
    intro queue next polled
    cases queue <;> cases polled
    rfl
  exact pends_through (pends_through (pends_through empty)) state _ (Prod.ext pends rfl)

/-- Rounds of arrivals on the channel, each followed by a poll: what is given, and the state reached. -/
def drive (stream : PolledStream (Matched τ) β) : List (List WireEvent) → Matched τ → List β × Matched τ
  | [], state => ([], state)
  | sent :: rest, state =>
    let (polled, next) := stream.poll (state.send sent)
    let (given, last) := drive stream rest next
    (polled.items ++ given, last)

theorem drive_matching (machine : Machine τ WireEvent β) (sends : List (List WireEvent)) (state : Matched τ) :
    let driven := drive ((matching itemType changeType).through machine) sends state
    ∃ taken, state.queue ++ sends.flatten = taken ++ Matched.queue driven.2 ∧
      driven.1 = machine.outputs state.1 (taken.filter (isMatching itemType changeType)) ∧
      driven.2.1 = machine.after state.1 (taken.filter (isMatching itemType changeType)) := by
  induction sends generalizing state with
  | nil => exact ⟨[], by simp [drive], rfl, rfl⟩
  | cons sent rest ih =>
    obtain ⟨first, queue, items, after, _⟩ := poll_matching itemType changeType machine (state.send sent)
    obtain ⟨later, left, given, reached⟩ := ih (((matching itemType changeType).through machine).poll (state.send sent)).2
    refine ⟨first ++ later, ?_, ?_, ?_⟩
    · have arrived : state.queue ++ sent = _ := queue
      rw [List.flatten_cons, ← List.append_assoc, arrived, List.append_assoc, left, List.append_assoc]
      rfl
    · rw [List.filter_append, Machine.outputs_append]
      exact congrArg₂ (· ++ ·) items (given.trans (by rw [after]; rfl))
    · rw [List.filter_append, Machine.after_append]
      exact reached.trans (by rw [after]; rfl)

end

/-- Whatever arrives between the polls of a pipeline of events of one type and kind, pairing has given each matching
event it has taken with the one before it, and accumulating the states of a fold over them. -/
theorem operators_in_order (itemType : String) (changeType : MEventType) (f : β → WireEvent → β) (initial : β)
    (sends : List (List WireEvent)) :
    (let driven := drive (pairwise (ofChangeType (ofItemType recv itemType) changeType)) sends (none, (), (), [])
      ∃ taken, sends.flatten = taken ++ Matched.queue driven.2 ∧
        driven.1 = (taken.filter (isMatching itemType changeType)).zip
          (taken.filter (isMatching itemType changeType)).tail) ∧
    let driven := drive (accumulate (ofChangeType (ofItemType recv itemType) changeType) f) sends (initial, (), (), [])
    ∃ taken, sends.flatten = taken ++ Matched.queue driven.2 ∧
      driven.1 = ((taken.filter (isMatching itemType changeType)).scanl f initial).tail ∧
      driven.2.1 = (taken.filter (isMatching itemType changeType)).foldl f initial := by
  constructor
  · obtain ⟨taken, all, given, _⟩ := drive_matching itemType changeType pairing sends (none, (), (), [])
    exact ⟨taken, all, given.trans (outputs_pairing _)⟩
  · obtain ⟨taken, all, given, reached⟩ :=
      drive_matching itemType changeType (accumulating f) sends (initial, (), (), [])
    obtain ⟨outputs, after⟩ := outputs_accumulating f initial (taken.filter (isMatching itemType changeType))
    exact ⟨taken, all, given.trans outputs, reached.trans after⟩

end Myko.Saga

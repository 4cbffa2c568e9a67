import Mathlib.Logic.Function.Basic
import Myko.Saga.Stream

/-!
The saga runtime: events that the server produces wait in one sink, a dispatcher hands each to the channels of the
sagas that listen for it, and every saga polls its own pipeline and executes the commands that come out. However the
three are interleaved, a saga handles each event it listens for once, in the order in which they were produced.
-/

namespace Myko.Saga

/-- A saga with what its handler answers for the events it is given, each by its number; none where the event's item
cannot be read or no command is emitted. -/
structure SagaRegistration (Command : Type) where
  eventEntityType : String
  eventChangeType : MEventType
  handle : Nat → WireEvent → Option Command

/-- A saga's pipeline by the state it is polled in: how many events were handled, and the channel. -/
abbrev SagaTask := Matched Nat

namespace SagaTask

def spawned : SagaTask := (0, (), (), [])

def handled (task : SagaTask) : Nat := task.1

end SagaTask

variable {Command ι : Type}

namespace SagaRegistration

variable (self : SagaRegistration Command)

/-- The dispatcher hands an event to those who listen for its type and kind. -/
def listens : WireEvent → Bool := isMatching self.eventEntityType self.eventChangeType

/-- The pipeline of a declared saga. -/
def build (events : PolledStream (List WireEvent) WireEvent) : PolledStream SagaTask Command :=
  filterMap (ofChangeType (ofItemType events self.eventEntityType) self.eventChangeType) self.handle

end SagaRegistration

structure SagaRuntime (ι : Type) where
  sink : List WireEvent
  tasks : ι → SagaTask

namespace SagaRuntime

def started : SagaRuntime ι := ⟨[], fun _ => .spawned⟩

inductive Event (ι : Type) where
  /-- An event is produced, by whatever command or client. -/
  | produce (event : WireEvent)
  /-- The dispatcher takes one event. -/
  | dispatch
  | poll (saga : ι)

variable [DecidableEq ι] (sagas : ι → SagaRegistration Command)

/-- The runtime after an event, and the command a saga executes. -/
def step (runtime : SagaRuntime ι) : Event ι → SagaRuntime ι × Option (ι × Command)
  | .produce event => ({ runtime with sink := runtime.sink ++ [event] }, none)
  | .dispatch =>
    match runtime.sink with
    | [] => (runtime, none)
    | event :: rest =>
      ({ sink := rest
         tasks := fun saga =>
          if (sagas saga).listens event then (runtime.tasks saga).send [event] else runtime.tasks saga }, none)
  | .poll saga =>
    let (polled, task) := ((sagas saga).build recv).poll (runtime.tasks saga)
    ({ runtime with tasks := Function.update runtime.tasks saga task },
      match polled with
      | .ready command => some (saga, command)
      | .finished | .pending => none)

/-- The runtime after events, and the commands executed. -/
def run (runtime : SagaRuntime ι) : List (Event ι) → SagaRuntime ι × List (ι × Command)
  | [] => (runtime, [])
  | event :: rest =>
    let (next, executed) := step sagas runtime event
    let (last, later) := run next rest
    (last, executed.toList ++ later)

def produced (events : List (Event ι)) : List WireEvent :=
  events.filterMap fun event =>
    match event with
    | .produce event => some event
    | .dispatch | .poll _ => none

/-- The commands a saga has executed. -/
def executedBy (saga : ι) (executed : List (ι × Command)) : List Command :=
  executed.filterMap fun entry => if entry.1 = saga then some entry.2 else none

/-! ### One poll -/

/-- A saga's commands for events from a count on. -/
def commandsFor (saga : SagaRegistration Command) (count : Nat) (events : List WireEvent) : List Command :=
  (events.zipIdx count).filterMap fun entry => saga.handle entry.2 entry.1

theorem commandsFor_append (saga : SagaRegistration Command) (count : Nat) (first rest : List WireEvent) :
    commandsFor saga count (first ++ rest) = commandsFor saga count first ++
      commandsFor saga (count + first.length) rest := by
  unfold commandsFor
  rw [List.zipIdx_append, List.filterMap_append]

/-- A poll takes the first events off the channel and answers those it listens for; it pends on an empty channel. -/
theorem poll_build (saga : SagaRegistration Command) (task : SagaTask) :
    ∃ taken, task.queue = taken ++ ((saga.build recv).poll task).2.queue ∧
      ((saga.build recv).poll task).1.items = commandsFor saga task.handled (taken.filter saga.listens) ∧
      ((saga.build recv).poll task).2.handled = task.handled + (taken.filter saga.listens).length ∧
      (((saga.build recv).poll task).1 = .pending → ((saga.build recv).poll task).2.queue = []) := by
  obtain ⟨taken, queue, items, handled, empties⟩ :=
    poll_matching saga.eventEntityType saga.eventChangeType (making saga.handle) task
  obtain ⟨outputs, after⟩ := outputs_making saga.handle task.1 (taken.filter saga.listens)
  exact ⟨taken, queue, items.trans outputs, handled.trans after, empties⟩

/-! ### Runs -/

/-- Of the events produced that a saga listens for, it has handled the first and the others wait, in order. -/
structure Kept (sagas : ι → SagaRegistration Command) (runtime : SagaRuntime ι) (made : List WireEvent)
    (executed : List (ι × Command)) (saga : ι) (done : List WireEvent) : Prop where
  events : made.filter (sagas saga).listens =
    done ++ (runtime.tasks saga).queue ++ runtime.sink.filter (sagas saga).listens
  queue : ∀ event ∈ (runtime.tasks saga).queue, (sagas saga).listens event = true
  handled : (runtime.tasks saga).handled = done.length
  executed : executedBy saga executed = commandsFor (sagas saga) 0 done

variable {sagas : ι → SagaRegistration Command}

theorem executedBy_append (saga : ι) (first rest : List (ι × Command)) :
    executedBy saga (first ++ rest) = executedBy saga first ++ executedBy saga rest := List.filterMap_append

theorem kept_step {runtime : SagaRuntime ι} {made done : List WireEvent} {executed : List (ι × Command)} {saga : ι}
    (kept : Kept sagas runtime made executed saga done) (event : Event ι) :
    ∃ done, Kept sagas (step sagas runtime event).1 (made ++ produced [event])
      (executed ++ (step sagas runtime event).2.toList) saga done := by
  have quiet : executedBy saga (executed ++ []) = commandsFor (sagas saga) 0 done := by
    rw [List.append_nil]
    exact kept.executed
  cases event with
  | produce event =>
    refine ⟨done, ?_, kept.queue, kept.handled, quiet⟩
    show (made ++ [event]).filter _ = done ++ (runtime.tasks saga).queue ++ (runtime.sink ++ [event]).filter _
    rw [List.filter_append, List.filter_append, kept.events, List.append_assoc _ (runtime.sink.filter _)]
  | dispatch =>
    have same : produced [(Event.dispatch : Event ι)] = [] := rfl
    rw [same, List.append_nil]
    cases waiting : runtime.sink with
    | nil =>
      have idle : step sagas runtime .dispatch = (runtime, none) := by simp [step, waiting]
      rw [idle]
      exact ⟨done, kept.events, kept.queue, kept.handled, quiet⟩
    | cons event rest =>
      have moved : step sagas runtime .dispatch =
          ({ sink := rest
             tasks := fun saga =>
              if (sagas saga).listens event then (runtime.tasks saga).send [event] else runtime.tasks saga }, none) := by
        simp [step, waiting]
      rw [moved]
      have events := kept.events
      rw [waiting, List.filter_cons] at events
      by_cases listens : (sagas saga).listens event = true
      · rw [if_pos listens] at events
        refine ⟨done, ?_, ?_, ?_, quiet⟩
        · show _ = done ++ Matched.queue (if (sagas saga).listens event then _ else _) ++ rest.filter _
          rw [events, if_pos listens]
          show _ = done ++ ((runtime.tasks saga).queue ++ [event]) ++ _
          simp
        · show ∀ other ∈ Matched.queue (if (sagas saga).listens event then _ else _), _
          rw [if_pos listens]
          intro other member
          rcases List.mem_append.mp member with old | new
          · exact kept.queue other old
          · rw [List.mem_singleton.mp new]
            exact listens
        · show SagaTask.handled (if (sagas saga).listens event then _ else _) = _
          rw [if_pos listens]
          exact kept.handled
      · rw [if_neg listens] at events
        refine ⟨done, ?_, ?_, ?_, quiet⟩
        · show _ = done ++ Matched.queue (if (sagas saga).listens event then _ else _) ++ rest.filter _
          rw [events, if_neg listens]
        · show ∀ other ∈ Matched.queue (if (sagas saga).listens event then _ else _), _
          rw [if_neg listens]
          exact kept.queue
        · show SagaTask.handled (if (sagas saga).listens event then _ else _) = _
          rw [if_neg listens]
          exact kept.handled
  | poll polled =>
    have same : produced [Event.poll polled] = [] := rfl
    rw [same, List.append_nil]
    obtain ⟨taken, queue, items, handled, _⟩ := poll_build (sagas polled) (runtime.tasks polled)
    by_cases mine : polled = saga
    · subst mine
      have all : taken.filter (sagas polled).listens = taken :=
        List.filter_eq_self.mpr fun event member =>
          kept.queue event (queue ▸ List.mem_append_left _ member)
      rw [all] at items handled
      have task : (step sagas runtime (.poll polled)).1.tasks polled =
          (((sagas polled).build recv).poll (runtime.tasks polled)).2 := Function.update_self ..
      refine ⟨done ++ taken, ?_, ?_, ?_, ?_⟩
      · rw [task, kept.events, queue]
        simp only [List.append_assoc]
        rfl
      · rw [task]
        exact fun event member => kept.queue event (queue ▸ List.mem_append_right _ member)
      · rw [task, handled, kept.handled, List.length_append]
      · rw [executedBy_append, kept.executed, commandsFor_append, Nat.zero_add, ← kept.handled, ← items]
        congr 1
        unfold step
        dsimp only
        cases (((sagas polled).build recv).poll (runtime.tasks polled)).1 <;> simp [executedBy, Poll.items]
    · have task : (step sagas runtime (.poll polled)).1.tasks saga = runtime.tasks saga :=
        Function.update_of_ne (Ne.symm mine) ..
      refine ⟨done, ?_, ?_, ?_, ?_⟩
      · rw [task]
        exact kept.events
      · rw [task]
        exact kept.queue
      · rw [task]
        exact kept.handled
      · rw [executedBy_append, kept.executed]
        have others : executedBy saga (step sagas runtime (.poll polled)).2.toList = [] := by
          unfold step
          dsimp only
          cases (((sagas polled).build recv).poll (runtime.tasks polled)).1 <;> simp [executedBy, mine]
        rw [others, List.append_nil]

theorem kept_run {runtime : SagaRuntime ι} {made done : List WireEvent} {executed : List (ι × Command)} {saga : ι}
    (kept : Kept sagas runtime made executed saga done) (events : List (Event ι)) :
    ∃ done, Kept sagas (run sagas runtime events).1 (made ++ produced events)
      (executed ++ (run sagas runtime events).2) saga done := by
  induction events generalizing runtime made done executed with
  | nil => exact ⟨done, by simpa [run, produced] using kept⟩
  | cons event rest ih =>
    obtain ⟨_, next⟩ := kept_step kept event
    obtain ⟨last, whole⟩ := ih next
    have split : produced (event :: rest) = produced [event] ++ produced rest := by
      show List.filterMap _ ([event] ++ rest) = _
      exact List.filterMap_append
    refine ⟨last, ?_⟩
    rw [split, ← List.append_assoc]
    show Kept sagas _ _ (executed ++ ((step sagas runtime event).2.toList ++ _)) saga last
    rw [← List.append_assoc]
    exact whole

/-- In every interleaving of producers, dispatcher and sagas, each saga has executed what its handler answers to the
first of the events it listens for, each once and in the order they were produced; the others wait for it in that order,
and once a poll pends it has handled all that were dispatched. -/
theorem saga_handles_in_order (sagas : ι → SagaRegistration Command) (events : List (Event ι)) (saga : ι) :
    let runtime := (run sagas started events).1
    let task := runtime.tasks saga
    let listened := (produced events).filter (sagas saga).listens
    executedBy saga (run sagas started events).2 = commandsFor (sagas saga) 0 (listened.take task.handled) ∧
      listened.drop task.handled = task.queue ++ runtime.sink.filter (sagas saga).listens ∧
      ((((sagas saga).build recv).poll task).1 = .pending →
        (((sagas saga).build recv).poll task).2.handled + (runtime.sink.filter (sagas saga).listens).length =
          listened.length) := by
  intro runtime task listened
  have fresh : Kept sagas started [] [] saga [] := ⟨rfl, fun _ member => absurd member List.not_mem_nil, rfl, rfl⟩
  obtain ⟨done, kept⟩ := kept_run fresh events
  have all : listened = done ++ (task.queue ++ runtime.sink.filter (sagas saga).listens) := by
    rw [← List.append_assoc]
    exact kept.events
  have count : task.handled = done.length := kept.handled
  refine ⟨?_, ?_, fun pends => ?_⟩
  · rw [all, count, List.take_left]
    exact kept.executed
  · rw [all, count, List.drop_left]
  · obtain ⟨taken, queue, _, handled, empties⟩ := poll_build (sagas saga) task
    rw [empties pends, List.append_nil] at queue
    have listening : taken.filter (sagas saga).listens = taken :=
      List.filter_eq_self.mpr fun event member => kept.queue event (show event ∈ task.queue from queue ▸ member)
    rw [handled, listening, all, count, queue, List.length_append, List.length_append, Nat.add_assoc]

end SagaRuntime

end Myko.Saga

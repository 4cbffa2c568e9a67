import Mathlib.Data.List.Basic
import Myko.Lib.Runs

/-!
One generation of the native socket: the queue of outgoing frames, and the sessions that write it out
one after the other. A writer takes a frame off the queue before it writes it.
-/

namespace Myko.Socket

inductive WsFrame where
  | text (text : String)
  | binary (bytes : List UInt8)
  deriving DecidableEq

def outgoingQueueCapacity : Nat := 1024

inductive WriterTask where
  | receiving
  | sending (frame : WsFrame)
  | returned
  deriving DecidableEq

structure Session where
  writer : WriterTask
  reading : Bool
  cancelled : Bool

def Session.start : Session := ⟨.receiving, true, false⟩

/-- A generation with the frames accepted by it and those whose write reported success. -/
structure Generation where
  queue : List WsFrame
  session : Option Session
  accepted : List WsFrame
  written : List WsFrame

inductive Event where
  | send (frame : WsFrame)
  | sessionStarts
  | frameReceived
  | writeSucceeds
  | writeFails
  | writerReturns
  | readerReturns
  | cancel
  | sessionEnds

namespace Generation

def start : Generation := ⟨[], none, [], []⟩

/-- The frame being written, in neither place. -/
def sending (g : Generation) : List WsFrame :=
  match g.session with
  | some ⟨.sending frame, _, _⟩ => [frame]
  | _ => []

def step (g : Generation) : Event → Option Generation
  | .send frame =>
    -- A sender waits while the queue is full.
    if g.queue.length < outgoingQueueCapacity then
      some { g with queue := g.queue ++ [frame], accepted := g.accepted ++ [frame] }
    else none
  | .sessionStarts =>
    match g.session with
    | none => some { g with session := some .start }
    | some _ => none
  | .frameReceived =>
    match g.session, g.queue with
    | some ⟨.receiving, reading, cancelled⟩, frame :: queue =>
      some { g with queue, session := some ⟨.sending frame, reading, cancelled⟩ }
    | _, _ => none
  | .writeSucceeds =>
    match g.session with
    | some ⟨.sending frame, reading, cancelled⟩ =>
      some { g with
        session := some ⟨.receiving, reading, cancelled⟩
        written := g.written ++ [frame] }
    | _ => none
  | .writeFails =>
    match g.session with
    | some ⟨.sending _, reading, cancelled⟩ =>
      some { g with session := some ⟨.returned, reading, cancelled⟩ }
    | _ => none
  | .writerReturns =>
    -- The writer sees that it is cancelled, or is aborted after that.
    match g.session with
    | some ⟨_, reading, true⟩ => some { g with session := some ⟨.returned, reading, true⟩ }
    | _ => none
  | .readerReturns =>
    match g.session with
    | some ⟨writer, true, cancelled⟩ => some { g with session := some ⟨writer, false, cancelled⟩ }
    | _ => none
  | .cancel =>
    match g.session with
    | some ⟨writer, reading, _⟩ => some { g with session := some ⟨writer, reading, true⟩ }
    | none => none
  | .sessionEnds =>
    match g.session with
    | some ⟨.returned, false, true⟩ => some { g with session := none }
    | _ => none

/-- What a step drops: a write that fails or is cut short takes its frame along. -/
def dropped (g : Generation) : Event → List WsFrame
  | .writeFails | .writerReturns => g.sending
  | _ => []

/-- No write fails and none is cut short. -/
def Undisturbed (g : Generation) (event : Event) : Prop := g.dropped event = []

/-! ### Frames of a generation -/

/-- All frames were accepted in the order they are in, and but for `gone` of them they are all there. -/
structure Keeps (g : Generation) (gone : Nat) : Prop where
  ordered : (g.written ++ g.sending ++ g.queue).Sublist g.accepted
  counted : g.accepted.length = gone + (g.written ++ g.sending ++ g.queue).length

variable {g next : Generation} {gone : Nat} {event : Event} {events : List Event}

theorem Keeps.same (keeps : g.Keeps gone)
    (frames : next.written ++ next.sending ++ next.queue = g.written ++ g.sending ++ g.queue)
    (accepted : next.accepted = g.accepted) : next.Keeps gone := by
  refine ⟨?_, ?_⟩
  · rw [frames, accepted]
    exact keeps.ordered
  · rw [frames, accepted]
    exact keeps.counted

/-- The frame being written goes. -/
theorem Keeps.drop (keeps : g.Keeps gone) (quiet : next.sending = []) (written : next.written = g.written)
    (queue : next.queue = g.queue) (accepted : next.accepted = g.accepted) :
    next.Keeps (gone + g.sending.length) := by
  refine ⟨?_, ?_⟩
  · rw [quiet, written, queue, accepted]
    refine List.Sublist.trans ?_ keeps.ordered
    rw [List.append_nil]
    exact (List.sublist_append_left g.written g.sending).append_right g.queue
  · have counted := keeps.counted
    rw [quiet, written, queue, accepted]
    simp only [List.length_append, List.length_nil] at counted ⊢
    omega

theorem keeps_step (keeps : g.Keeps gone) (step : g.step event = some next) :
    next.Keeps (gone + (g.dropped event).length) := by
  cases event with
  | send frame =>
    simp only [Generation.step] at step
    split at step
    · cases step
      obtain ⟨ordered, counted⟩ := keeps
      refine ⟨?_, ?_⟩
      · show (g.written ++ g.sending ++ (g.queue ++ [frame])).Sublist (g.accepted ++ [frame])
        rw [← List.append_assoc]
        exact ordered.append_right [frame]
      · show (g.accepted ++ [frame]).length =
          gone + 0 + (g.written ++ g.sending ++ (g.queue ++ [frame])).length
        simp only [List.length_append] at counted ⊢
        omega
    · cases step
  | sessionStarts =>
    simp only [Generation.step] at step
    split at step
    · rename_i is
      cases step
      exact keeps.same (by simp [sending, is, Session.start]) rfl
    · cases step
  | frameReceived =>
    simp only [Generation.step] at step
    split at step
    · rename_i is queued
      cases step
      exact keeps.same (by simp [sending, is, queued]) rfl
    · cases step
  | writeSucceeds =>
    simp only [Generation.step] at step
    split at step
    · rename_i is
      cases step
      exact keeps.same (by simp [sending, is]) rfl
    · cases step
  | writeFails =>
    simp only [Generation.step] at step
    split at step
    · cases step
      exact keeps.drop rfl rfl rfl rfl
    · cases step
  | writerReturns =>
    simp only [Generation.step] at step
    split at step
    · cases step
      exact keeps.drop rfl rfl rfl rfl
    · cases step
  | readerReturns =>
    simp only [Generation.step] at step
    split at step
    · rename_i writer cancelled is
      cases step
      exact keeps.same (by cases writer <;> simp [sending, is]) rfl
    · cases step
  | cancel =>
    simp only [Generation.step] at step
    split at step
    · rename_i writer reading cancelled is
      cases step
      exact keeps.same (by cases writer <;> simp [sending, is]) rfl
    · cases step
  | sessionEnds =>
    simp only [Generation.step] at step
    split at step
    · rename_i is
      cases step
      exact keeps.same (by simp [sending, is]) rfl
    · cases step

theorem keeps_run (keeps : g.Keeps gone) (ran : Runs.run step g events = some next) :
    ∃ more, next.Keeps (gone + more) ∧ (more = 0 ↔ Runs.Each step Undisturbed g events) := by
  induction events generalizing g gone with
  | nil =>
    cases ran
    exact ⟨0, keeps, iff_of_true rfl trivial⟩
  | cons event rest ih =>
    obtain ⟨mid, stepped, ran⟩ := Runs.run_cons.mp ran
    obtain ⟨more, kept, none⟩ := ih (keeps_step keeps stepped) ran
    refine ⟨(g.dropped event).length + more, by rwa [← Nat.add_assoc], ?_⟩
    rw [Nat.add_eq_zero_iff, List.length_eq_zero_iff, none, Runs.each_cons stepped]
    exact Iff.rfl

/-- The frames written and those queued are the frames accepted just when no write is under way and
none has failed or been cut short. -/
theorem frames_survive_iff (ran : Runs.run step start events = some g) :
    g.written ++ g.queue = g.accepted ↔
      Runs.Each step Undisturbed start events ∧ g.sending = [] := by
  have begun : start.Keeps 0 := ⟨List.Sublist.refl _, rfl⟩
  obtain ⟨gone, ⟨ordered, counted⟩, none⟩ := keeps_run begun ran
  rw [← none]
  simp only [List.length_append] at counted
  constructor
  · intro same
    have length := congrArg List.length same
    rw [List.length_append] at length
    exact ⟨by omega, List.eq_nil_of_length_eq_zero (by omega)⟩
  · rintro ⟨rfl, quiet⟩
    rw [quiet, List.append_nil] at ordered
    apply ordered.eq_of_length
    rw [quiet, List.length_nil] at counted
    rw [List.length_append]
    omega

namespace Sample

def hello : WsFrame := .text "hello"

def delivered : List Event :=
  [.sessionStarts, .readerReturns, .cancel, .writerReturns, .sessionEnds, .send hello, .sessionStarts,
    .frameReceived, .writeSucceeds]

theorem frames_survive_idle : ∃ g, Runs.run step start delivered = some g ∧ g.written = [hello] ∧
    g.written ++ g.queue = g.accepted := by
  have ran : Runs.run step start delivered = some ⟨[], some .start, [hello], [hello]⟩ := rfl
  refine ⟨_, ran, rfl, (frames_survive_iff ran).mpr ⟨?_, rfl⟩⟩
  unfold delivered
  simp [Runs.Each, Undisturbed, dropped, step, start, sending, Session.start, hello,
    outgoingQueueCapacity]

/-- The remote end closes while a frame is being written. -/
theorem frame_lost : ∃ events g, Runs.run step start events = some g ∧ g.session = none ∧
    g.written ++ g.queue ≠ g.accepted := by
  refine ⟨[.send hello, .sessionStarts, .frameReceived, .readerReturns, .cancel, .writerReturns,
    .sessionEnds], ⟨[], none, [hello], []⟩, rfl, rfl, ?_⟩
  decide

end Sample
end Generation
end Myko.Socket

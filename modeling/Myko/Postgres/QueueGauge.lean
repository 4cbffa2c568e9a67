import Myko.Postgres.ProducerLoop

/-!
The gauge `queued` of the producer. A call of `produce` sends its event before it records the enqueue, so the
loop may record the success first, and the counter goes below zero by the events not yet recorded.
-/

namespace Myko.Postgres.ProducerLoop
open Runs

/-- The events taken from the channel whose success is not recorded. -/
def held (p : ProducerLoop) : Nat :=
  p.inHand.length + match p.phase with
    | .recordingSuccess batchLen => batchLen
    | _ => 0

/-- The counter says what was enqueued and not recorded as persisted, without wrapping; that is no more than
is produced and not recorded as persisted, and with no call in progress what is in the channel and held. -/
structure Gauge (p : ProducerLoop) : Prop where
  exact : p.recorded + p.health.queued.toNat = p.enqueued
  bounded : p.recorded + p.health.queued.toNat ≤ p.produced.length
  settled : p.calls = 0 → p.health.queued.toNat = p.channel.length + p.held

/-- A success is recorded only when no more calls have an event sent and not recorded than the channel has
events left, and an enqueue only below the limit of the counter. -/
def Timely (p : ProducerLoop) : ProducerStep → Prop
  | .recordEnqueue => p.health.queued.toNat + 1 < 2 ^ 64
  | .recordSuccess => p.calls ≤ p.channel.length
  | _ => True

/-- What the two sides of the channel have done so far. -/
structure Counted (p : ProducerLoop) : Prop where
  sent : p.enqueued + p.calls = p.produced.length
  received : p.recorded + p.held + p.channel.length = p.produced.length
  limited : p.held ≤ producerMaxBatch

variable {hostId : String} {p q : ProducerLoop} {event : ProducerStep}

theorem counted_start : Counted start := ⟨rfl, rfl, Nat.zero_le _⟩

theorem Counted.gauge (counted : Counted p) : Gauge p ↔ p.recorded + p.health.queued.toNat = p.enqueued := by
  have sent := counted.sent
  have received := counted.received
  exact ⟨Gauge.exact, fun exact => ⟨exact, by omega, fun settled => by omega⟩⟩

theorem Counted.collect (counted : Counted p) (settled : Settled p) (idle : p.phase = .collecting)
    (stepped : p.collect = some q) : Counted q := by
  obtain ⟨sent, received, limited⟩ := counted
  have empty := settled.between idle
  simp only [held, inHand, idle, empty] at received limited
  unfold ProducerLoop.collect at stepped
  split at stepped
  · next fresh =>
    split at stepped
    · cases stepped
    · next first rest channel =>
      obtain rfl := Option.some.inj stepped
      refine ⟨sent, ?_, ?_⟩
      · simp only [held, inHand, fresh, channel, List.nil_append, List.append_nil, List.length_nil,
          List.length_cons] at received ⊢
        omega
      · simp [held, inHand, fresh, producerMaxBatch]
  · obtain rfl := Option.some.inj stepped
    exact ⟨sent, by simpa [held, inHand] using received, by simpa [held, inHand] using limited⟩

theorem Counted.drain (counted : Counted p) (settled : Settled p) (draining : p.phase = .draining) :
    Counted p.drain := by
  obtain ⟨sent, received, limited⟩ := counted
  have fresh : p.retryBatch = [] := settled.within (by simp [draining])
  simp only [held, inHand, draining] at received limited
  unfold ProducerLoop.drain
  split
  · next room =>
    split
    · exact ⟨sent, received, limited⟩
    · next first rest channel =>
      refine ⟨sent, ?_, ?_⟩
      · simp only [held, inHand, draining, channel, List.length_append, List.length_cons,
          List.length_nil] at received ⊢
        omega
      · simp only [held, inHand, draining, fresh, List.nil_append, List.length_append, List.length_cons,
          List.length_nil]
        omega
  · exact ⟨sent, received, limited⟩

theorem Counted.keepBatch (counted : Counted p) (settled : Settled p) (inserting : p.phase = .inserting) :
    Counted p.keepBatch := by
  have fresh : p.retryBatch = [] := settled.within (by simp [inserting])
  have kept : p.keepBatch.held = p.held := by
    simp [held, inHand, ProducerLoop.keepBatch, inserting, fresh]
  obtain ⟨sent, received, limited⟩ := counted
  exact ⟨sent, kept ▸ received, kept ▸ limited⟩

theorem Counted.acknowledged (counted : Counted p) (settled : Settled p) (inserting : p.phase = .inserting) :
    Counted p.acknowledged := by
  have fresh : p.retryBatch = [] := settled.within (by simp [inserting])
  have kept : p.acknowledged.held = p.held := by
    simp [held, inHand, ProducerLoop.acknowledged, inserting, fresh]
  obtain ⟨sent, received, limited⟩ := counted
  exact ⟨sent, kept ▸ received, kept ▸ limited⟩

theorem Counted.insert (counted : Counted p) (settled : Settled p) (inserting : p.phase = .inserting)
    (outcome : InsertOutcome) : Counted (p.insert outcome) := by
  have written : Counted p.commit := ⟨counted.sent, counted.received, counted.limited⟩
  have within : Settled p.commit := ⟨settled.between, settled.within, settled.through⟩
  unfold ProducerLoop.insert
  split
  · cases outcome with
    | committed => exact written.acknowledged within inserting
    | failed => exact counted.keepBatch settled inserting
    | committedUnacknowledged => exact written.keepBatch within inserting
  · exact counted.keepBatch settled inserting

theorem Counted.recordSuccess {batchLen : Nat} (counted : Counted p)
    (recording : p.phase = .recordingSuccess batchLen) : Counted (p.recordSuccess batchLen) := by
  obtain ⟨sent, received, limited⟩ := counted
  have before : p.held = p.inHand.length + batchLen := by simp [held, recording]
  have after : (p.recordSuccess batchLen).held = p.inHand.length := rfl
  refine ⟨sent, ?_, ?_⟩
  · show p.recorded + batchLen + (p.recordSuccess batchLen).held + p.channel.length = p.produced.length
    omega
  · omega

theorem Counted.step (counted : Counted p) (settled : Settled p)
    (stepped : p.step hostId event = some q) : Counted q := by
  cases event with
  | send event =>
    obtain rfl := Option.some.inj stepped
    obtain ⟨sent, received, limited⟩ := counted
    refine ⟨?_, ?_, limited⟩
    · show p.enqueued + (p.calls + 1) = (p.produced ++ [_]).length
      simp only [List.length_append, List.length_cons, List.length_nil]
      omega
    · show p.recorded + p.held + (p.channel ++ [_]).length = (p.produced ++ [_]).length
      simp only [List.length_append, List.length_cons, List.length_nil]
      omega
  | recordEnqueue =>
    rcases Option.ite_none_left_eq_some.mp stepped with ⟨calling, recorded⟩
    obtain rfl := Option.some.inj recorded
    obtain ⟨sent, received, limited⟩ := counted
    refine ⟨?_, received, limited⟩
    show p.enqueued + 1 + (p.calls - 1) = p.produced.length
    omega
  | collect =>
    simp only [ProducerLoop.step] at stepped
    split at stepped
    · next idle => exact counted.collect settled idle stepped
    · cases stepped
  | drain =>
    simp only [ProducerLoop.step] at stepped
    split at stepped
    · next draining =>
      obtain rfl := Option.some.inj stepped
      exact counted.drain settled draining
    · cases stepped
  | connect up =>
    simp only [ProducerLoop.step] at stepped
    split at stepped
    · next connecting =>
      obtain rfl := Option.some.inj stepped
      have kept : (p.connect up).held = p.held := by simp [held, inHand, ProducerLoop.connect, connecting]
      obtain ⟨sent, received, limited⟩ := counted
      exact ⟨sent, kept ▸ received, kept ▸ limited⟩
    · cases stepped
  | insert outcome =>
    simp only [ProducerLoop.step] at stepped
    split at stepped
    · next inserting =>
      obtain rfl := Option.some.inj stepped
      exact counted.insert settled inserting outcome
    · cases stepped
  | recordSuccess =>
    simp only [ProducerLoop.step] at stepped
    split at stepped
    · next batchLen recording =>
      obtain rfl := Option.some.inj stepped
      exact counted.recordSuccess recording
    · cases stepped

/-- The steps of `produce` and of the loop that touch the gauge. -/
def Records : ProducerStep → Prop
  | .recordEnqueue => True
  | .recordSuccess => True
  | _ => False

/-- What the gauge is compared with, and the gauge. -/
def counts (p : ProducerLoop) : Nat × Nat × UInt64 := (p.enqueued, p.recorded, p.health.queued)

theorem counts_step (stepped : p.step hostId event = some q) (other : ¬ Records event) :
    q.counts = p.counts := by
  cases event with
  | send event =>
    obtain rfl := Option.some.inj stepped
    rfl
  | recordEnqueue => exact absurd trivial other
  | recordSuccess => exact absurd trivial other
  | collect =>
    simp only [ProducerLoop.step, ProducerLoop.collect] at stepped
    split at stepped
    · split at stepped
      · split at stepped
        · cases stepped
        · obtain rfl := Option.some.inj stepped
          rfl
      · obtain rfl := Option.some.inj stepped
        rfl
    · cases stepped
  | drain =>
    simp only [ProducerLoop.step] at stepped
    split at stepped
    · obtain rfl := Option.some.inj stepped
      unfold ProducerLoop.drain
      split
      · split <;> rfl
      · rfl
    · cases stepped
  | connect up =>
    simp only [ProducerLoop.step] at stepped
    split at stepped
    · obtain rfl := Option.some.inj stepped
      rfl
    · cases stepped
  | insert outcome =>
    simp only [ProducerLoop.step] at stepped
    split at stepped
    · obtain rfl := Option.some.inj stepped
      unfold ProducerLoop.insert
      split
      · cases outcome <;> rfl
      · rfl
    · cases stepped

theorem exact_of_counts (same : q.counts = p.counts) :
    q.recorded + q.health.queued.toNat = q.enqueued ↔ p.recorded + p.health.queued.toNat = p.enqueued := by
  simp only [counts, Prod.mk.injEq] at same
  rw [same.1, same.2.1, same.2.2]

theorem exact_recordEnqueue (exact : p.recorded + p.health.queued.toNat = p.enqueued) :
    p.recorded + (p.health.queued + 1).toNat = p.enqueued + 1 ↔ p.health.queued.toNat + 1 < 2 ^ 64 := by
  have wrapped : (p.health.queued + 1).toNat = (p.health.queued.toNat + 1) % 2 ^ 64 := UInt64.toNat_add _ _
  have below := p.health.queued.toNat_lt
  rw [wrapped]
  omega

/-- The counter stays exact through a recorded success just when it covers the batch. -/
theorem exact_recordSuccess {batchLen : Nat} (limited : batchLen ≤ producerMaxBatch)
    (exact : p.recorded + p.health.queued.toNat = p.enqueued) :
    p.recorded + batchLen + (p.health.queued - UInt64.ofNat batchLen).toNat = p.enqueued ↔
      p.recorded + batchLen ≤ p.enqueued := by
  unfold producerMaxBatch at limited
  have short : (UInt64.ofNat batchLen).toNat = batchLen :=
    UInt64.toNat_ofNat_of_lt' (Nat.lt_of_le_of_lt limited (by decide))
  have wrapped := UInt64.toNat_sub p.health.queued (UInt64.ofNat batchLen)
  have below := p.health.queued.toNat_lt
  rw [short] at wrapped
  rw [wrapped]
  omega

theorem gauge_step (accounted : Accounted p) (counted : Counted p) (gauge : Gauge p)
    (stepped : p.step hostId event = some q) : Gauge q ↔ Timely p event := by
  have after := counted.step accounted.toSettled stepped
  rw [after.gauge]
  by_cases records : Records event
  · cases event with
    | recordEnqueue =>
      rcases Option.ite_none_left_eq_some.mp stepped with ⟨-, recorded⟩
      obtain rfl := Option.some.inj recorded
      exact exact_recordEnqueue gauge.exact
    | recordSuccess =>
      simp only [ProducerLoop.step] at stepped
      split at stepped
      · next batchLen recording =>
        obtain rfl := Option.some.inj stepped
        have taken : p.held = batchLen := by
          simp [held, inHand, recording, accounted.through batchLen recording,
            accounted.within (by simp [recording])]
        have sent := counted.sent
        have received := counted.received
        refine (exact_recordSuccess (taken ▸ counted.limited) gauge.exact).trans ?_
        show _ ↔ p.calls ≤ p.channel.length
        omega
      · cases stepped
    | send _ => exact records.elim
    | collect => exact records.elim
    | drain => exact records.elim
    | connect _ => exact records.elim
    | insert _ => exact records.elim
  · rw [exact_of_counts (counts_step stepped records)]
    refine iff_of_true gauge.exact ?_
    cases event with
    | recordEnqueue => exact absurd trivial records
    | recordSuccess => exact absurd trivial records
    | _ => trivial

/-- The gauge is right in every state of a run just when every record of the run is timely. -/
theorem gauge_iff_timely {events : List ProducerStep}
    (ran : run (ProducerLoop.step hostId) start events = some p) :
    Always (ProducerLoop.step hostId) Gauge start events ↔
      Each (ProducerLoop.step hostId) Timely start events :=
  always_iff_each (fun p => Accounted p ∧ Counted p) ran ⟨accounted_start, counted_start⟩
    (counted_start.gauge.mpr rfl)
    (fun inv _ stepped _ => ⟨inv.1.step stepped, inv.2.step inv.1.toSettled stepped⟩)
    (fun inv gauge stepped => gauge_step inv.1 inv.2 gauge stepped)

/-- One event, recorded by its caller before the loop records its success. -/
def recordedFirst : List ProducerStep :=
  [.send (lampEvent .set), .recordEnqueue, .collect, .drain, .connect true, .insert .committed,
    .recordSuccess]

theorem gauge_iff_timely_recordedFirst :
    (∃ p, run (ProducerLoop.step "h1") start recordedFirst = some p) ∧
      (Always (ProducerLoop.step "h1") Gauge start recordedFirst ↔
        Each (ProducerLoop.step "h1") Timely start recordedFirst) :=
  have ran : (run (ProducerLoop.step "h1") start recordedFirst).isSome := rfl
  ⟨Option.isSome_iff_exists.mp ran, gauge_iff_timely (Option.some_get ran).symm⟩

/-- The success of an event whose caller has not recorded it takes the counter to its largest value. -/
theorem gauge_wraps : ∃ p, run (ProducerLoop.step "h1") start
    [.send (lampEvent .set), .collect, .drain, .connect true, .insert .committed, .recordSuccess] = some p ∧
      p.health.queued.toNat = 2 ^ 64 - 1 ∧ ¬ Gauge p := by
  refine ⟨_, rfl, rfl, fun gauge => ?_⟩
  exact absurd gauge.exact (by decide)

end Myko.Postgres.ProducerLoop

import Mathlib.Data.List.Basic
import Myko.Lib.Runs

/-!
A lane for blocking work: so many jobs run at a time and the others are kept until a permit is free. The counters of a
lane are true at every step, no job is started twice, and only one whose receiver is gone is given up.
-/

namespace Myko.Session

/-- Where a job of a lane is; once it is over, whether its body was run. -/
inductive JobPhase where
  /-- Waits for a permit. -/
  | queued
  /-- Has a permit and is still counted as queued. -/
  | admitted
  /-- Counted neither as queued nor as active. -/
  | unqueued
  /-- Handed to the blocking pool. -/
  | pooled
  | running
  | returned (ran : Bool)
  /-- No longer counted as active; the permit is given back last. -/
  | uncounted (ran : Bool)
  | done (ran : Bool)
  /-- Its caller is gone. -/
  | abandoned
  deriving DecidableEq

namespace JobPhase

def countsQueued : JobPhase → Bool
  | queued | admitted => true
  | _ => false

def countsActive : JobPhase → Bool
  | pooled | running | returned _ => true
  | _ => false

def holdsPermit : JobPhase → Bool
  | admitted | unqueued | pooled | running | returned _ | uncounted _ => true
  | _ => false

def started : JobPhase → Bool
  | running | returned _ | uncounted _ | done _ => true
  | _ => false

/-- Over without its body having been run. -/
def skipped : JobPhase → Bool
  | returned ran | uncounted ran | done ran => !ran
  | abandoned => true
  | _ => false

def settled : JobPhase → Bool
  | done _ | abandoned => true
  | _ => false

end JobPhase

/-- A job, and the receiver it is spawned for, if it is for one. -/
structure Job where
  receiver : Option Nat
  phase : JobPhase

def usizeSize : Nat := 18446744073709551616

def fetchAdd (counter : Nat) : Nat := (counter + 1) % usizeSize

def fetchSub (counter : Nat) : Nat := (counter + (usizeSize - 1)) % usizeSize

structure BlockingLane where
  concurrency : Nat
  permits : Nat
  queued : Nat
  active : Nat
  jobs : List Job
  closed : List Nat

inductive LaneEvent where
  /-- A caller hands in a job. -/
  | run (receiver : Option Nat)
  | acquire (job : Nat)
  | leaveQueue (job : Nat)
  | countActive (job : Nat)
  | start (job : Nat)
  /-- The job returns or panics. -/
  | finish (job : Nat)
  | uncount (job : Nat)
  | release (job : Nat)
  /-- A receiver is dropped. -/
  | close (receiver : Nat)
  /-- The caller of a job that waits is dropped with its receiver. -/
  | abandon (job : Nat)
  deriving DecidableEq

namespace BlockingLane

def new (concurrency : Nat) : BlockingLane where
  concurrency := max concurrency 1
  permits := max concurrency 1
  queued := 0
  active := 0
  jobs := []
  closed := []

variable (self : BlockingLane)

def gone (receiver : Option Nat) : Bool := receiver.any fun receiver => decide (receiver ∈ self.closed)

/-- The next state of a job and what it does to the lane's counters, where the job can take the step. -/
def stepJob (job : Job) : LaneEvent → Option (JobPhase × BlockingLane)
  | .acquire _ =>
    if job.phase = .queued ∧ 0 < self.permits then some (.admitted, { self with permits := self.permits - 1 }) else none
  | .leaveQueue _ =>
    if job.phase = .admitted then some (.unqueued, { self with queued := fetchSub self.queued }) else none
  | .countActive _ =>
    if job.phase = .unqueued then some (.pooled, { self with active := fetchAdd self.active }) else none
  | .start _ =>
    -- The receiver may have gone while the job was in the pool.
    if job.phase = .pooled then some (if self.gone job.receiver then .returned false else .running, self) else none
  | .finish _ => if job.phase = .running then some (.returned true, self) else none
  | .uncount _ =>
    match job.phase with
    | .returned ran => some (.uncounted ran, { self with active := fetchSub self.active })
    | _ => none
  | .release _ =>
    match job.phase with
    | .uncounted ran => some (.done ran, { self with permits := self.permits + 1 })
    | _ => none
  | .abandon _ =>
    if job.phase = .queued ∧ self.gone job.receiver = true then
      some (.abandoned, { self with queued := fetchSub self.queued })
    else none
  | .run _ | .close _ => none

def step (event : LaneEvent) : Option BlockingLane :=
  match event with
  | .run receiver =>
    if self.gone receiver then none
    else some { self with queued := fetchAdd self.queued, jobs := self.jobs ++ [⟨receiver, .queued⟩] }
  | .close receiver => some { self with closed := receiver :: self.closed }
  | .acquire id | .leaveQueue id | .countActive id | .start id | .finish id | .uncount id | .release id
  | .abandon id =>
    self.jobs[id]?.bind fun job => (self.stepJob job event).map fun next =>
      { next.2 with jobs := self.jobs.set id { job with phase := next.1 } }

/-! ### The counters -/

def count (counts : JobPhase → Bool) : Nat := self.jobs.countP fun job => counts job.phase

/-- Each counter is the number of the jobs it is for, modulo its size, and every permit is free or held. -/
structure Counted (lane : BlockingLane) : Prop where
  permits : lane.permits + lane.count JobPhase.holdsPermit = lane.concurrency
  queued : lane.queued = lane.count JobPhase.countsQueued % usizeSize
  active : lane.active = lane.count JobPhase.countsActive % usizeSize

/-- What a step of a job does to the lane, whatever the other jobs. -/
structure Moved (before after : BlockingLane) (old new : JobPhase) : Prop where
  concurrency : after.concurrency = before.concurrency
  closed : after.closed = before.closed
  permits : after.permits + new.holdsPermit.toNat = before.permits + old.holdsPermit.toNat
  queued : ∀ others, before.queued = (others + old.countsQueued.toNat) % usizeSize →
    after.queued = (others + new.countsQueued.toNat) % usizeSize
  active : ∀ others, before.active = (others + old.countsActive.toNat) % usizeSize →
    after.active = (others + new.countsActive.toNat) % usizeSize

variable {self}

theorem fetchSub_succ (others : Nat) : fetchSub ((others + 1) % usizeSize) = others % usizeSize := by
  unfold fetchSub usizeSize
  omega

theorem fetchAdd_mod (others : Nat) : fetchAdd (others % usizeSize) = (others + 1) % usizeSize := by
  unfold fetchAdd usizeSize
  omega

/-- The steps a job can take. -/
inductive JobStep (self : BlockingLane) (receiver : Option Nat) : LaneEvent → JobPhase → JobPhase → BlockingLane → Prop
    where
  | acquire (id : Nat) (free : 0 < self.permits) :
    JobStep self receiver (.acquire id) .queued .admitted { self with permits := self.permits - 1 }
  | leaveQueue (id : Nat) :
    JobStep self receiver (.leaveQueue id) .admitted .unqueued { self with queued := fetchSub self.queued }
  | countActive (id : Nat) :
    JobStep self receiver (.countActive id) .unqueued .pooled { self with active := fetchAdd self.active }
  | start (id : Nat) (here : self.gone receiver = false) : JobStep self receiver (.start id) .pooled .running self
  | skip (id : Nat) (gone : self.gone receiver = true) :
    JobStep self receiver (.start id) .pooled (.returned false) self
  | finish (id : Nat) : JobStep self receiver (.finish id) .running (.returned true) self
  | uncount (id : Nat) (ran : Bool) :
    JobStep self receiver (.uncount id) (.returned ran) (.uncounted ran) { self with active := fetchSub self.active }
  | release (id : Nat) (ran : Bool) :
    JobStep self receiver (.release id) (.uncounted ran) (.done ran) { self with permits := self.permits + 1 }
  | abandon (id : Nat) (gone : self.gone receiver = true) :
    JobStep self receiver (.abandon id) .queued .abandoned { self with queued := fetchSub self.queued }

theorem jobStep_of_stepJob {job : Job} {event : LaneEvent} {phase : JobPhase} {lane : BlockingLane}
    (stepped : self.stepJob job event = some (phase, lane)) : self.JobStep job.receiver event job.phase phase lane := by
  obtain ⟨receiver, old⟩ := job
  cases event with
  | run receiver => cases stepped
  | close receiver => cases stepped
  | uncount id =>
    cases old <;> cases stepped
    exact .uncount id _
  | release id =>
    cases old <;> cases stepped
    exact .release id _
  | start id =>
    simp only [stepJob, Option.ite_none_right_eq_some, Option.some.injEq, Prod.mk.injEq] at stepped
    obtain ⟨rfl, rfl, rfl⟩ := stepped
    split
    · rename_i there
      exact .skip id there
    · rename_i here
      exact .start id (Bool.eq_false_iff.mpr here)
  | acquire id =>
    simp only [stepJob, Option.ite_none_right_eq_some, Option.some.injEq, Prod.mk.injEq] at stepped
    obtain ⟨⟨rfl, free⟩, rfl, rfl⟩ := stepped
    exact .acquire id free
  | leaveQueue id =>
    simp only [stepJob, Option.ite_none_right_eq_some, Option.some.injEq, Prod.mk.injEq] at stepped
    obtain ⟨rfl, rfl, rfl⟩ := stepped
    exact .leaveQueue id
  | countActive id =>
    simp only [stepJob, Option.ite_none_right_eq_some, Option.some.injEq, Prod.mk.injEq] at stepped
    obtain ⟨rfl, rfl, rfl⟩ := stepped
    exact .countActive id
  | finish id =>
    simp only [stepJob, Option.ite_none_right_eq_some, Option.some.injEq, Prod.mk.injEq] at stepped
    obtain ⟨rfl, rfl, rfl⟩ := stepped
    exact .finish id
  | abandon id =>
    simp only [stepJob, Option.ite_none_right_eq_some, Option.some.injEq, Prod.mk.injEq] at stepped
    obtain ⟨⟨rfl, there⟩, rfl, rfl⟩ := stepped
    exact .abandon id there

theorem JobStep.moved {receiver : Option Nat} {event : LaneEvent} {old new : JobPhase} {lane : BlockingLane}
    (step : self.JobStep receiver event old new lane) : Moved self lane old new := by
  have sub {counter : Nat} (others : Nat) (same : counter = (others + 1) % usizeSize) :
      fetchSub counter = (others + 0) % usizeSize := (congrArg fetchSub same).trans (fetchSub_succ others)
  have add {counter : Nat} (others : Nat) (same : counter = (others + 0) % usizeSize) :
      fetchAdd counter = (others + 1) % usizeSize := (congrArg fetchAdd same).trans (fetchAdd_mod others)
  cases step with
  | acquire id free =>
    exact ⟨rfl, rfl, Nat.sub_add_cancel free, fun _ same => same, fun _ same => same⟩
  | leaveQueue id => exact ⟨rfl, rfl, rfl, sub, fun _ same => same⟩
  | countActive id => exact ⟨rfl, rfl, rfl, fun _ same => same, add⟩
  | start id here => exact ⟨rfl, rfl, rfl, fun _ same => same, fun _ same => same⟩
  | skip id gone => exact ⟨rfl, rfl, rfl, fun _ same => same, fun _ same => same⟩
  | finish id => exact ⟨rfl, rfl, rfl, fun _ same => same, fun _ same => same⟩
  | uncount id ran => exact ⟨rfl, rfl, rfl, fun _ same => same, sub⟩
  | release id ran => exact ⟨rfl, rfl, rfl, fun _ same => same, fun _ same => same⟩
  | abandon id gone => exact ⟨rfl, rfl, rfl, sub, fun _ same => same⟩

theorem count_set {jobs : List Job} {id : Nat} {job : Job} (found : jobs[id]? = some job) (phase : JobPhase)
    (counts : JobPhase → Bool) : ∃ others, (jobs.countP fun job => counts job.phase) = others + (counts job.phase).toNat ∧
      ((jobs.set id { job with phase }).countP fun job => counts job.phase) = others + (counts phase).toNat := by
  induction jobs generalizing id with
  | nil => cases found
  | cons first rest ih =>
    have one (own : Job) (others : List Job) : ((own :: others).countP fun job => counts job.phase) =
        (others.countP fun job => counts job.phase) + (counts own.phase).toNat := by
      rw [List.countP_cons]
      cases counts own.phase <;> rfl
    cases id with
    | zero =>
      obtain rfl : first = job := by simpa using found
      exact ⟨_, one first rest, one { first with phase } rest⟩
    | succ id =>
      obtain ⟨others, before, after⟩ := ih (by simpa using found)
      refine ⟨others + (counts first.phase).toNat, ?_, ?_⟩
      · rw [one, before, Nat.add_right_comm]
      · rw [List.set_cons_succ, one, after, Nat.add_right_comm]

/-- What a step of the lane is: a job handed in, a receiver gone, or a step of one job. -/
theorem step_cases {event : LaneEvent} {next : BlockingLane} (stepped : self.step event = some next) :
    (∃ receiver, event = .run receiver ∧ self.gone receiver = false ∧
      next = { self with queued := fetchAdd self.queued, jobs := self.jobs ++ [⟨receiver, .queued⟩] }) ∨
    (∃ receiver, event = .close receiver ∧ next = { self with closed := receiver :: self.closed }) ∨
    ∃ id job phase lane, self.jobs[id]? = some job ∧ self.JobStep job.receiver event job.phase phase lane ∧
      next = { lane with jobs := self.jobs.set id { job with phase } } ∧ (∀ other, event = .start other → other = id) := by
  have ofJob (id : Nat) (own : ∀ other, event = .start other → other = id)
      (made : (self.jobs[id]?.bind fun job => (self.stepJob job event).map fun next =>
        { next.2 with jobs := self.jobs.set id { job with phase := next.1 } }) = some next) :
      ∃ id job phase lane, self.jobs[id]? = some job ∧ self.JobStep job.receiver event job.phase phase lane ∧
        next = { lane with jobs := self.jobs.set id { job with phase } } ∧
        (∀ other, event = .start other → other = id) := by
    obtain ⟨job, found, made⟩ := Option.bind_eq_some_iff.mp made
    obtain ⟨⟨phase, lane⟩, moved, rfl⟩ := Option.map_eq_some_iff.mp made
    exact ⟨id, job, phase, lane, found, jobStep_of_stepJob moved, rfl, own⟩
  cases event with
  | run receiver =>
    refine .inl ⟨receiver, rfl, ?_⟩
    unfold step at stepped
    dsimp only at stepped
    split at stepped
    · cases stepped
    · rename_i there
      cases stepped
      exact ⟨by simpa using there, rfl⟩
  | close receiver =>
    cases stepped
    exact .inr (.inl ⟨receiver, rfl, rfl⟩)
  | acquire id => exact .inr (.inr (ofJob id (fun _ same => by cases same) stepped))
  | leaveQueue id => exact .inr (.inr (ofJob id (fun _ same => by cases same) stepped))
  | countActive id => exact .inr (.inr (ofJob id (fun _ same => by cases same) stepped))
  | start id => exact .inr (.inr (ofJob id (fun _ same => by cases same; rfl) stepped))
  | finish id => exact .inr (.inr (ofJob id (fun _ same => by cases same) stepped))
  | uncount id => exact .inr (.inr (ofJob id (fun _ same => by cases same) stepped))
  | release id => exact .inr (.inr (ofJob id (fun _ same => by cases same) stepped))
  | abandon id => exact .inr (.inr (ofJob id (fun _ same => by cases same) stepped))

theorem counted_step {event : LaneEvent} {next : BlockingLane} (counted : self.Counted)
    (stepped : self.step event = some next) : next.Counted ∧ next.concurrency = self.concurrency := by
  rcases step_cases stepped with ⟨receiver, rfl, _, rfl⟩ | ⟨receiver, rfl, rfl⟩ |
    ⟨id, job, phase, lane, found, moved, rfl, _⟩
  · have append (counts : JobPhase → Bool) :
        ((self.jobs ++ [(⟨receiver, .queued⟩ : Job)]).countP fun job => counts job.phase) =
          self.count counts + (counts .queued).toNat := by
      rw [List.countP_append, List.countP_singleton]
      cases counts .queued <;> rfl
    refine ⟨⟨?_, ?_, ?_⟩, rfl⟩
    · show self.permits + List.countP _ _ = _
      rw [append]
      exact counted.permits
    · show fetchAdd self.queued = List.countP _ _ % _
      rw [append, counted.queued]
      exact fetchAdd_mod _
    · show self.active = List.countP _ _ % _
      rw [append]
      exact counted.active
  · exact ⟨⟨counted.permits, counted.queued, counted.active⟩, rfl⟩
  · have change := moved.moved
    obtain ⟨holders, holding, held⟩ := count_set found phase JobPhase.holdsPermit
    obtain ⟨waiting, queued, requeued⟩ := count_set found phase JobPhase.countsQueued
    obtain ⟨working, active, reactive⟩ := count_set found phase JobPhase.countsActive
    refine ⟨⟨?_, ?_, ?_⟩, change.concurrency⟩
    · show lane.permits + List.countP _ _ = lane.concurrency
      have before : self.permits + List.countP _ _ = _ := counted.permits
      have permits := change.permits
      rw [held, change.concurrency]
      rw [holding] at before
      omega
    · show lane.queued = List.countP _ _ % _
      rw [requeued]
      exact change.queued waiting (counted.queued.trans (congrArg (· % usizeSize) queued))
    · show lane.active = List.countP _ _ % _
      rw [reactive]
      exact change.active working (counted.active.trans (congrArg (· % usizeSize) active))

theorem counted_new (concurrency : Nat) : (new concurrency).Counted := ⟨rfl, rfl, rfl⟩

theorem count_le {counts others : JobPhase → Bool} (implies : ∀ phase, counts phase = true → others phase = true) :
    self.count counts ≤ self.count others :=
  List.countP_mono_left fun job _ here => implies job.phase here

theorem counted_run {concurrency : Nat} {events : List LaneEvent} {lane : BlockingLane}
    (ran : Runs.run step (new concurrency) events = some lane) :
    lane.Counted ∧ lane.concurrency = max concurrency 1 :=
  @Runs.invariant _ _ _ (fun lane => lane.Counted ∧ lane.concurrency = max concurrency 1) _ _ _ ran
    ⟨counted_new concurrency, rfl⟩ fun kept stepped => by
      obtain ⟨counted, unchanged⟩ := counted_step kept.1 stepped
      exact ⟨counted, unchanged.trans kept.2⟩

/-- In every run no more jobs are active, let alone running, than the lane allows; a permit is free or held by a job, and
the counters tell how many jobs are queued and active. -/
theorem lane_counters {concurrency : Nat} {events : List LaneEvent} {lane : BlockingLane}
    (ran : Runs.run step (new concurrency) events = some lane) :
    lane.permits + lane.count JobPhase.holdsPermit = max concurrency 1 ∧
      lane.queued = lane.count JobPhase.countsQueued % usizeSize ∧
      lane.active = lane.count JobPhase.countsActive % usizeSize ∧
      lane.count (fun phase => decide (phase = .running)) ≤ lane.count JobPhase.countsActive ∧
      lane.count JobPhase.countsActive ≤ max concurrency 1 := by
  obtain ⟨counted, same⟩ := counted_run ran
  have permits := counted.permits.trans same
  have holders : lane.count JobPhase.countsActive ≤ lane.count JobPhase.holdsPermit :=
    count_le fun phase active => by cases phase <;> first | rfl | cases active
  refine ⟨permits, counted.queued, counted.active, count_le fun phase running => ?_, by omega⟩
  rw [of_decide_eq_true running]
  rfl

/-! ### Every job is run once -/

/-- A job whose body is not run is one whose receiver is gone. -/
def Excused (lane : BlockingLane) : Prop :=
  ∀ job ∈ lane.jobs, job.phase.skipped = true → lane.gone job.receiver = true

theorem JobStep.skipped {receiver : Option Nat} {event : LaneEvent} {old new : JobPhase} {lane : BlockingLane}
    (step : self.JobStep receiver event old new lane) (skipped : new.skipped = true) :
    old.skipped = true ∨ self.gone receiver = true := by
  cases step with
  | skip id gone => exact .inr gone
  | abandon id gone => exact .inr gone
  | uncount id ran => exact .inl skipped
  | release id ran => exact .inl skipped
  | acquire | leaveQueue | countActive | start | finish => cases skipped

theorem excused_step {event : LaneEvent} {next : BlockingLane} (excused : self.Excused)
    (stepped : self.step event = some next) : next.Excused := by
  rcases step_cases stepped with ⟨receiver, rfl, _, rfl⟩ | ⟨receiver, rfl, rfl⟩ |
    ⟨id, job, phase, lane, found, moved, rfl, _⟩
  · intro job member skipped
    rcases List.mem_append.mp member with old | new
    · exact excused job old skipped
    · rw [List.mem_singleton.mp new] at skipped
      cases skipped
  · intro job member skipped
    have before := excused job member skipped
    unfold gone at before ⊢
    cases own : job.receiver with
    | none => rw [own] at before; cases before
    | some receiver =>
      rw [own] at before
      have listed : receiver ∈ self.closed := by simpa using before
      simp [listed]
  · have closed : ∀ receiver, BlockingLane.gone { lane with jobs := self.jobs.set id { job with phase } } receiver =
        self.gone receiver := fun receiver => by
      unfold gone
      rw [moved.moved.closed]
    intro other member skipped
    rw [closed]
    rcases List.mem_or_eq_of_mem_set member with old | rfl
    · exact excused other old skipped
    · rcases moved.skipped skipped with before | there
      · exact excused job (List.mem_of_getElem? found) before
      · exact there

/-- Whether the blocking pool has called a job. -/
def startedAt (lane : BlockingLane) (id : Nat) : Bool := (lane.jobs[id]?.map fun job => job.phase.started).getD false

theorem JobStep.started {receiver : Option Nat} {event : LaneEvent} {old new : JobPhase} {lane : BlockingLane}
    (step : self.JobStep receiver event old new lane) :
    (∃ id, event = .start id ∧ old.started = false ∧ new.started = true) ∨
      ((∀ id, event ≠ .start id) ∧ new.started = old.started) := by
  cases step with
  | start id here => exact .inl ⟨id, rfl, rfl, rfl⟩
  | skip id gone => exact .inl ⟨id, rfl, rfl, rfl⟩
  | acquire | leaveQueue | countActive | finish | uncount | release | abandon =>
    exact .inr ⟨fun _ same => (by cases same), rfl⟩

theorem started_step {event : LaneEvent} {next : BlockingLane} (stepped : self.step event = some next) (id : Nat) :
    (self.startedAt id).toNat + [event].count (.start id) = (next.startedAt id).toNat := by
  rcases step_cases stepped with ⟨receiver, rfl, _, rfl⟩ | ⟨receiver, rfl, rfl⟩ |
    ⟨at_, job, phase, lane, found, moved, rfl, own⟩
  · have same : startedAt { self with queued := fetchAdd self.queued, jobs := self.jobs ++ [⟨receiver, .queued⟩] } id =
        self.startedAt id := by
      unfold startedAt
      show ((self.jobs ++ [_])[id]?.map _).getD false = _
      by_cases old : id < self.jobs.length
      · rw [List.getElem?_append_left old]
      · rw [List.getElem?_append_right (by omega), List.getElem?_eq_none (by omega : self.jobs.length ≤ id)]
        rcases Nat.eq_zero_or_pos (id - self.jobs.length) with zero | more
        · rw [zero]
          rfl
        · rw [List.getElem?_eq_none (by rw [List.length_singleton]; exact more)]
    rw [same]
    rfl
  · rfl
  · have length : at_ < self.jobs.length := (List.getElem?_eq_some_iff.mp found).1
    by_cases here : id = at_
    · subst here
      have before : self.startedAt id = job.phase.started := by
        unfold startedAt
        rw [found]
        rfl
      have after : startedAt { lane with jobs := self.jobs.set id { job with phase } } id = phase.started := by
        unfold startedAt
        rw [List.getElem?_set_self length]
        rfl
      rw [before, after]
      rcases moved.started with ⟨other, rfl, fresh, now⟩ | ⟨others, unchanged⟩
      · rw [own other rfl, fresh, now, List.count_singleton_self]
        rfl
      · rw [unchanged, List.count_eq_zero_of_not_mem fun member => others id (List.mem_singleton.mp member).symm]
        rfl
    · have same : startedAt { lane with jobs := self.jobs.set at_ { job with phase } } id = self.startedAt id := by
        unfold startedAt
        rw [List.getElem?_set_ne (Ne.symm here)]
      rw [same, List.count_eq_zero_of_not_mem fun member =>
        here (own id (List.mem_singleton.mp member).symm)]
      rfl

theorem started_run {lane : BlockingLane} {events : List LaneEvent} {last : BlockingLane}
    (ran : Runs.run step lane events = some last) (id : Nat) :
    (lane.startedAt id).toNat + events.count (.start id) = (last.startedAt id).toNat := by
  induction events generalizing lane with
  | nil =>
    cases ran
    rfl
  | cons event rest ih =>
    obtain ⟨next, stepped, ran⟩ := Runs.run_cons.mp ran
    have one := started_step stepped id
    have later := ih ran
    rw [List.count_cons] at *
    rw [List.count_nil] at one
    omega

/-- A step that the lane or the blocking pool takes by itself. -/
def Advances : LaneEvent → Prop
  | .run _ | .close _ | .abandon _ => False
  | _ => True

/-- Where nothing moves by itself, no job is left. -/
theorem over_of_stuck (counted : self.Counted) (allows : 0 < self.concurrency)
    (stuck : ∀ event, Advances event → self.step event = none) {job : Job} (member : job ∈ self.jobs) :
    job.phase.settled = true := by
  have refused {job : Job} (member : job ∈ self.jobs) (event : Nat → LaneEvent) (advances : ∀ id, Advances (event id))
      (stepped : ∀ id, self.step (event id) = self.jobs[id]?.bind fun job => (self.stepJob job (event id)).map fun next =>
        { next.2 with jobs := self.jobs.set id { job with phase := next.1 } }) :
      ∃ id, self.stepJob job (event id) = none := by
    obtain ⟨id, found⟩ := List.getElem?_of_mem member
    have none := (stepped id).symm.trans (stuck (event id) (advances id))
    rw [found] at none
    exact ⟨id, Option.map_eq_none_iff.mp none⟩
  -- Whoever holds a permit could go on, so all permits are free.
  have holds {job : Job} (member : job ∈ self.jobs) : job.phase.holdsPermit = false := by
    obtain ⟨receiver, phase⟩ := job
    cases phase with
    | queued | done | abandoned => rfl
    | admitted =>
      obtain ⟨_, none⟩ := refused member .leaveQueue (fun _ => trivial) fun _ => rfl
      cases none
    | unqueued =>
      obtain ⟨_, none⟩ := refused member .countActive (fun _ => trivial) fun _ => rfl
      cases none
    | pooled =>
      obtain ⟨_, none⟩ := refused member .start (fun _ => trivial) fun _ => rfl
      cases none
    | running =>
      obtain ⟨_, none⟩ := refused member .finish (fun _ => trivial) fun _ => rfl
      cases none
    | returned ran =>
      obtain ⟨_, none⟩ := refused member .uncount (fun _ => trivial) fun _ => rfl
      cases none
    | uncounted ran =>
      obtain ⟨_, none⟩ := refused member .release (fun _ => trivial) fun _ => rfl
      cases none
  have free : 0 < self.permits := by
    have none : self.count JobPhase.holdsPermit = 0 :=
      List.countP_eq_zero.mpr fun job member => by simp [holds member]
    have permits := counted.permits
    omega
  have idle := holds member
  obtain ⟨receiver, phase⟩ := job
  cases phase with
  | queued =>
    obtain ⟨_, none⟩ := refused member .acquire (fun _ => trivial) fun _ => rfl
    simp [stepJob, free] at none
  | done | abandoned => rfl
  | admitted | unqueued | pooled | running | returned | uncounted => cases idle

namespace Sample

/-- Of two jobs for one permit the second is given up, as its receiver goes while it waits. -/
def oneGivenUp : List LaneEvent :=
  [.run none, .run (some 7), .acquire 0, .leaveQueue 0, .countActive 0, .start 0, .close 7, .abandon 1, .finish 0,
    .uncount 0, .release 0]

def givenUp : BlockingLane where
  concurrency := 1
  permits := 1
  queued := 0
  active := 0
  jobs := [⟨none, .done true⟩, ⟨some 7, .abandoned⟩]
  closed := [7]

theorem ran_oneGivenUp : Runs.run step (new 1) oneGivenUp = some givenUp := rfl

theorem lane_counters_oneGivenUp : givenUp.permits + givenUp.count JobPhase.holdsPermit = max 1 1 :=
  (lane_counters ran_oneGivenUp).1

end Sample

end BlockingLane

end Myko.Session

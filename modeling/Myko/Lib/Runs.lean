import Mathlib.Tactic.TypeStar

/-!
Runs of a system whose steps are events: what holds in every state of a run, what every step of it meets,
and the rules between the two.
-/

namespace Myko.Runs

variable {State Event : Type*} {step : State → Event → Option State}
variable {holds Inv : State → Prop} {allowed : State → Event → Prop}
variable {s t mid : State} {events earlier later : List Event}

/-- Where the events lead, when each of them can happen. -/
def run (step : State → Event → Option State) (s : State) : List Event → Option State
  | [] => some s
  | event :: rest => (step s event).bind fun next => run step next rest

def Always (step : State → Event → Option State) (holds : State → Prop) (s : State) : List Event → Prop
  | [] => holds s
  | event :: rest => holds s ∧ ∀ next, step s event = some next → Always step holds next rest

def Each (step : State → Event → Option State) (allowed : State → Event → Prop) (s : State) :
    List Event → Prop
  | [] => True
  | event :: rest => allowed s event ∧ ∀ next, step s event = some next → Each step allowed next rest

/-- The verdict of the last event of a run that has one, and before any of them the given one. -/
def Latest (step : State → Event → Option State) (verdict : State → Event → Option Prop) (before : Prop)
    (s : State) : List Event → Prop
  | [] => before
  | event :: rest =>
    ∀ next, step s event = some next → Latest step verdict ((verdict s event).getD before) next rest

theorem run_cons {event : Event} : run step s (event :: events) = some t ↔
    ∃ next, step s event = some next ∧ run step next events = some t :=
  Option.bind_eq_some_iff

theorem run_append : run step s (earlier ++ later) = (run step s earlier).bind (run step · later) := by
  induction earlier generalizing s with
  | nil => rfl
  | cons event rest ih =>
    show (step s event).bind _ = ((step s event).bind _).bind _
    cases step s event with
    | none => rfl
    | some next => exact ih

theorem each_cons {event : Event} {next : State} (stepped : step s event = some next) :
    Each step allowed s (event :: events) ↔ allowed s event ∧ Each step allowed next events := by
  refine and_congr_right fun _ => ⟨fun each => each next stepped, fun each other other_stepped => ?_⟩
  obtain rfl := Option.some.inj (stepped.symm.trans other_stepped)
  exact each

theorem always_cons {event : Event} {next : State} (stepped : step s event = some next) :
    Always step holds s (event :: events) ↔ holds s ∧ Always step holds next events := by
  refine and_congr_right fun _ => ⟨fun always => always next stepped, fun always other other_stepped => ?_⟩
  obtain rfl := Option.some.inj (stepped.symm.trans other_stepped)
  exact always

theorem latest_cons {event : Event} {next : State} {verdict : State → Event → Option Prop} {before : Prop}
    (stepped : step s event = some next) : Latest step verdict before s (event :: events) ↔
      Latest step verdict ((verdict s event).getD before) next events := by
  refine ⟨fun latest => latest next stepped, fun latest other other_stepped => ?_⟩
  obtain rfl := Option.some.inj (stepped.symm.trans other_stepped)
  exact latest

theorem Each.of_append (each : Each step allowed s (earlier ++ later)) : Each step allowed s earlier := by
  induction earlier generalizing s with
  | nil => trivial
  | cons event rest ih => exact ⟨each.1, fun next stepped => ih (each.2 next stepped)⟩

theorem Always.now (always : Always step holds s events) : holds s := by
  cases events with
  | nil => exact always
  | cons event rest => exact always.1

theorem Always.at_end (always : Always step holds s events) (ran : run step s events = some t) :
    holds t := by
  induction events generalizing s with
  | nil =>
    cases ran
    exact always
  | cons event rest ih =>
    obtain ⟨next, stepped, ran⟩ := run_cons.mp ran
    exact ih (always.2 next stepped) ran

/-- What allowed steps keep holds in all states of a run of allowed steps. -/
theorem Each.always (each : Each step allowed s events) (ran : run step s events = some t) (start : Inv s)
    (keeps : ∀ {s event t}, Inv s → allowed s event → step s event = some t → Inv t)
    (gives : ∀ {s}, Inv s → holds s) : Always step holds s events := by
  induction events generalizing s with
  | nil => exact gives start
  | cons event rest ih =>
    obtain ⟨next, stepped, ran⟩ := run_cons.mp ran
    exact (always_cons stepped).mpr ⟨gives start, ih (each.2 next stepped) ran (keeps start each.1 stepped)⟩

theorem invariant (ran : run step s events = some t) (start : Inv s)
    (keeps : ∀ {s event t}, Inv s → step s event = some t → Inv t) : Inv t := by
  induction events generalizing s with
  | nil =>
    cases ran
    exact start
  | cons event rest ih =>
    obtain ⟨next, stepped, ran⟩ := run_cons.mp ran
    exact ih ran (keeps start stepped)

/-- Where a step keeps what holds just when it is allowed, it holds in all states of a run just when all
steps of the run are allowed. -/
theorem always_iff_each (Inv : State → Prop) (ran : run step s events = some t) (inv : Inv s) (start : holds s)
    (keeps : ∀ {s event t}, Inv s → holds s → step s event = some t → holds t → Inv t)
    (exact_step : ∀ {s event t}, Inv s → holds s → step s event = some t →
      (holds t ↔ allowed s event)) :
    Always step holds s events ↔ Each step allowed s events := by
  induction events generalizing s with
  | nil => exact iff_of_true start trivial
  | cons event rest ih =>
    obtain ⟨next, stepped, ran⟩ := run_cons.mp ran
    rw [always_cons stepped, each_cons stepped]
    constructor
    · rintro ⟨_, always⟩
      have held := always.now
      exact ⟨(exact_step inv start stepped).mp held, (ih ran (keeps inv start stepped held) held).mp always⟩
    · rintro ⟨timely, each⟩
      have held := (exact_step inv start stepped).mpr timely
      exact ⟨start, (ih ran (keeps inv start stepped held) held).mpr each⟩

/-- The same where the steps of the run are known to be possible ones. -/
theorem Each.always_iff {possible : State → Event → Prop} (Inv : State → Prop) (each : Each step possible s events)
    (ran : run step s events = some t) (inv : Inv s) (start : holds s)
    (keeps : ∀ {s event t}, Inv s → possible s event → step s event = some t → Inv t)
    (exact_step : ∀ {s event t}, Inv s → holds s → possible s event → step s event = some t →
      (holds t ↔ allowed s event)) :
    Always step holds s events ↔ Each step allowed s events := by
  induction events generalizing s with
  | nil => exact iff_of_true start trivial
  | cons event rest ih =>
    obtain ⟨next, stepped, ran⟩ := run_cons.mp ran
    rw [always_cons stepped, each_cons stepped]
    have one := exact_step inv start each.1 stepped
    have later := ih (each.2 next stepped) ran (keeps inv each.1 stepped)
    constructor
    · rintro ⟨_, always⟩
      exact ⟨one.mp always.now, (later always.now).mp always⟩
    · rintro ⟨now, behind⟩
      exact ⟨start, (later (one.mpr now)).mpr behind⟩

/-- What the verdicts of the steps keep up with holds of the end of a run and its latest verdict. -/
theorem latest_follows {verdict : State → Event → Option Prop} {before : Prop} (R : State → Prop → Prop)
    (ran : run step s events = some t) (start : R s before)
    (keeps : ∀ {s event t before}, R s before → step s event = some t →
      R t ((verdict s event).getD before)) : R t (Latest step verdict before s events) := by
  induction events generalizing s before with
  | nil =>
    cases ran
    exact start
  | cons event rest ih =>
    obtain ⟨next, stepped, ran⟩ := run_cons.mp ran
    rw [latest_cons stepped]
    exact ih ran (keeps start stepped)

end Myko.Runs
